import RecordWasm.Compile
import RecordWasm.Proofs.Success
import Mathlib.Algebra.GroupWithZero.Nat
import Mathlib.Data.List.Forall2
import Mathlib.Logic.Relation

/-!
# Compiling on several workers

A dispatcher hands out the positions of the jobs in order, and workers receive one at a time, look
whether the work is still wanted and write a body or a failure at the position they hold.  The work
may be cancelled at any moment.  However the steps interleave, a run that comes to its end has the
outcome of compiling the jobs one after the other.
-/

namespace RecordWasm.Compile

open Syntax Lowering

/-- The failure of work that was cancelled. -/
def contextError : Failure := .plain "context canceled"

/-- What a worker is at. -/
inductive Worker where
  | waiting
  | received (place : Nat)
  /-- The worker has looked at the context, which was cancelled or not. -/
  | checked (place : Nat) (cancelled : Bool)
  | stopped
  deriving DecidableEq, Repr

/-- The job that a worker has in hand. -/
def Worker.place? : Worker → Option Nat
  | received place | checked place _ => some place
  | waiting | stopped => none

/-- The state that the dispatcher and the workers share. -/
structure Pool where
  /-- The position that is handed out next. -/
  next : Nat := 0
  /-- Whether the dispatcher has closed the channel. -/
  closed : Bool := false
  cancelled : Bool := false
  workers : List Worker
  bodies : List (Option FunctionBody)
  failures : List (Option Failure)

/-- What is handed to the caller: bodies, or failures if there are any. -/
structure Outcome where
  bodies : List (Option FunctionBody)
  failures : Failures

/-- The outcome of compiling the jobs one after the other. -/
def Outcome.ofResult : Except Failures (List FunctionBody) → Outcome
  | .ok bodies => ⟨bodies.map some, []⟩
  | .error failures => ⟨[], failures⟩

def failure? {α : Type} : Except Failure α → Option Failure
  | .ok _ => none
  | .error failure => some failure

namespace Pool

/-- So many workers before the first job is handed out. -/
def start (count : Nat) (declared : List Declared) : Pool where
  workers := List.replicate count .waiting
  bodies := List.replicate declared.length none
  failures := List.replicate declared.length none

def setWorker (pool : Pool) (who : Nat) (worker : Worker) : Pool :=
  { pool with workers := pool.workers.set who worker }

/-- One step of the dispatcher, of a worker or of whoever cancels the work. -/
inductive Step (env : Env) (declared : List Declared) (pool : Pool) : Pool → Prop where
  /-- The channel holds nothing: handing out a job and receiving it are one step. -/
  | receive (who : Nat) : pool.next < declared.length → pool.workers[who]? = some .waiting →
      Step env declared pool
        { pool.setWorker who (.received pool.next) with next := pool.next + 1 }
  | close : pool.next = declared.length → pool.closed = false →
      Step env declared pool { pool with closed := true }
  | check (who place : Nat) : pool.workers[who]? = some (.received place) →
      Step env declared pool (pool.setWorker who (.checked place pool.cancelled))
  | skip (who place : Nat) : pool.workers[who]? = some (.checked place true) →
      Step env declared pool { pool.setWorker who .waiting with
        failures := pool.failures.set place (some contextError) }
  | compile (who place : Nat) (item : Declared) :
      pool.workers[who]? = some (.checked place false) → declared[place]? = some item →
      Step env declared pool { pool.setWorker who .waiting with
        bodies := pool.bodies.set place (compileJob env item.job).toOption
        failures := pool.failures.set place (failure? (compileJob env item.job)) }
  | stop (who : Nat) : pool.closed = true → pool.workers[who]? = some .waiting →
      Step env declared pool (pool.setWorker who .stopped)
  | cancel : pool.cancelled = false → Step env declared pool { pool with cancelled := true }

/-- The states that steps lead to. -/
def Runs (env : Env) (declared : List Declared) : Pool → Pool → Prop :=
  Relation.ReflTransGen (Step env declared)

/-- All workers have come to their end. -/
def Finished (pool : Pool) : Prop :=
  pool.closed = true ∧ ∀ worker ∈ pool.workers, worker = .stopped

/-- What the caller gets when all workers have stopped and the context has been looked at once
more. -/
def outcome (pool : Pool) : Outcome :=
  if pool.cancelled then ⟨[], [contextError]⟩
  else
    match pool.failures.filterMap id with
    | [] => ⟨pool.bodies, []⟩
    | failure :: rest => ⟨[], failure :: rest⟩

end Pool

/-! ## What every step keeps -/

variable {env : Env} {declared : List Declared} {pool after : Pool}

/-- The results of a job stand at its position. -/
def Pool.Written (env : Env) (declared : List Declared) (pool : Pool) (place : Nat) : Prop :=
  ∀ item, declared[place]? = some item →
    pool.bodies[place]? = some (compileJob env item.job).toOption ∧
      pool.failures[place]? = some (failure? (compileJob env item.job))

/-- What holds of the pool at every moment.  A job that was handed out is in a worker's hands or its
results are written, unless the work has been cancelled. -/
structure Pool.Sound (env : Env) (declared : List Declared) (pool : Pool) : Prop where
  next : pool.next ≤ declared.length
  closed : pool.closed = true → pool.next = declared.length
  bodies : pool.bodies.length = declared.length
  failures : pool.failures.length = declared.length
  seen : ∀ place, .checked place true ∈ pool.workers → pool.cancelled = true
  stopped : .stopped ∈ pool.workers → pool.closed = true
  held : ∀ worker ∈ pool.workers, ∀ place, worker.place? = some place → place < pool.next
  done : pool.cancelled = false → ∀ place < pool.next,
    (∃ worker ∈ pool.workers, worker.place? = some place) ∨ pool.Written env declared place

theorem Pool.sound_start (env : Env) (declared : List Declared) (count : Nat) :
    (Pool.start count declared).Sound env declared := by
  have hWaiting (worker : Worker) (hWorker : worker ∈ (Pool.start count declared).workers) :
      worker = .waiting := List.eq_of_mem_replicate hWorker
  refine ⟨Nat.zero_le _, nofun, ?_, ?_, ?_, ?_, ?_, ?_⟩
  · simp [start]
  · simp [start]
  · intro place hPlace
    cases hWaiting _ hPlace
  · intro hStopped
    cases hWaiting _ hStopped
  · intro worker hWorker place hPlace
    rw [hWaiting worker hWorker] at hPlace
    cases hPlace
  · intro _ place hPlace
    exact absurd hPlace (Nat.not_lt_zero _)

/-- A worker that was there is there still, unless it is the one that moved. -/
theorem Pool.mem_setWorker {who : Nat} {worker old new : Worker}
    (hOld : pool.workers[who]? = some old) (hWorker : worker ∈ pool.workers) :
    worker = old ∨ worker ∈ (pool.setWorker who new).workers := by
  obtain ⟨place, hPlace⟩ := List.getElem?_of_mem hWorker
  by_cases hSame : who = place
  · rw [hSame, hPlace, Option.some.injEq] at hOld
    exact .inl hOld
  · refine .inr (List.mem_of_getElem? (i := place) ?_)
    rw [setWorker, List.getElem?_set_ne hSame, hPlace]

/-- A worker moves on without letting go of the job in its hands. -/
theorem Pool.Sound.setWorker (hSound : pool.Sound env declared) {who : Nat} {old new : Worker}
    (hOld : pool.workers[who]? = some old) (hSame : new.place? = old.place?)
    (hSeen : ∀ place, new = .checked place true → pool.cancelled = true)
    (hStops : new = .stopped → pool.closed = true) :
    (pool.setWorker who new).Sound env declared := by
  have hIn (worker : Worker) (hWorker : worker ∈ (pool.setWorker who new).workers) :
      worker ∈ pool.workers ∨ worker = new := List.mem_or_eq_of_mem_set hWorker
  refine ⟨hSound.next, hSound.closed, hSound.bodies, hSound.failures, ?_, ?_, ?_, ?_⟩
  · intro place hPlace
    rcases hIn _ hPlace with hBefore | hNew
    · exact hSound.seen place hBefore
    · exact hSeen place hNew.symm
  · intro hStopped
    rcases hIn _ hStopped with hBefore | hNew
    · exact hSound.stopped hBefore
    · exact hStops hNew.symm
  · intro worker hWorker place hPlace
    rcases hIn _ hWorker with hBefore | rfl
    · exact hSound.held worker hBefore place hPlace
    · exact hSound.held old (List.mem_of_getElem? hOld) place (hSame ▸ hPlace)
  · intro hCancelled place hPlace
    rcases hSound.done hCancelled place hPlace with ⟨worker, hWorker, hHolds⟩ | hWritten
    · rcases @mem_setWorker pool who worker old new hOld hWorker with rfl | hKept
      · refine .inl ⟨new, List.mem_of_getElem? (i := who) ?_, hSame ▸ hHolds⟩
        exact List.getElem?_set_self (List.getElem?_eq_some_iff.1 hOld).1
      · exact .inl ⟨worker, hKept, hHolds⟩
    · exact .inr hWritten

/-- A worker puts down its job after writing at its position. -/
theorem Pool.Sound.write (hSound : pool.Sound env declared) {who place : Nat} {old : Worker}
    (hOld : pool.workers[who]? = some old) (hPlace : old.place? = some place)
    {bodies : List (Option FunctionBody)} {failures : List (Option Failure)}
    (hBodies : bodies.length = declared.length) (hFailures : failures.length = declared.length)
    (hOthers : ∀ other, other ≠ place →
      bodies[other]? = pool.bodies[other]? ∧ failures[other]? = pool.failures[other]?)
    (hWritten : pool.cancelled = false →
      { pool.setWorker who .waiting with bodies, failures }.Written env declared place) :
    { pool.setWorker who .waiting with bodies, failures }.Sound env declared := by
  have hIn (worker : Worker) (hWorker : worker ∈ (pool.setWorker who .waiting).workers) :
      worker ∈ pool.workers ∨ worker = .waiting := List.mem_or_eq_of_mem_set hWorker
  refine ⟨hSound.next, hSound.closed, hBodies, hFailures, ?_, ?_, ?_, ?_⟩
  · intro place hPlace
    rcases hIn _ hPlace with hBefore | hNew
    · exact hSound.seen place hBefore
    · cases hNew
  · intro hStopped
    rcases hIn _ hStopped with hBefore | hNew
    · exact hSound.stopped hBefore
    · cases hNew
  · intro worker hWorker place hPlace
    rcases hIn _ hWorker with hBefore | rfl
    · exact hSound.held worker hBefore place hPlace
    · cases hPlace
  · intro hCancelled other hOther
    by_cases hSame : other = place
    · subst hSame
      exact .inr (hWritten hCancelled)
    · rcases hSound.done hCancelled other hOther with ⟨worker, hWorker, hHolds⟩ | hBefore
      · rcases @mem_setWorker pool who worker old .waiting hOld hWorker with rfl | hKept
        · rw [hPlace, Option.some.injEq] at hHolds
          exact absurd hHolds.symm hSame
        · exact .inl ⟨worker, hKept, hHolds⟩
      · refine .inr fun item hItem => ?_
        obtain ⟨hBody, hFailure⟩ := hOthers other hSame
        rw [hBody, hFailure]
        exact hBefore item hItem

/-- Every step keeps the pool sound. -/
theorem Pool.Sound.step (hSound : pool.Sound env declared) (hStep : pool.Step env declared after) :
    after.Sound env declared := by
  cases hStep with
  | receive who hNext hWho =>
      refine ⟨hNext, ?_, hSound.bodies, hSound.failures, ?_, ?_, ?_, ?_⟩
      · intro hClosed
        exact absurd (hSound.closed hClosed) (Nat.ne_of_lt hNext)
      · intro place hPlace
        rcases List.mem_or_eq_of_mem_set hPlace with hBefore | hNew
        · exact hSound.seen place hBefore
        · cases hNew
      · intro hStopped
        rcases List.mem_or_eq_of_mem_set hStopped with hBefore | hNew
        · exact hSound.stopped hBefore
        · cases hNew
      · intro worker hWorker place hPlace
        rcases List.mem_or_eq_of_mem_set hWorker with hBefore | rfl
        · exact Nat.lt_succ_of_lt (hSound.held worker hBefore place hPlace)
        · cases hPlace
          exact Nat.lt_succ_self _
      · intro hCancelled place hPlace
        rcases Nat.lt_succ_iff_lt_or_eq.1 hPlace with hBefore | rfl
        · rcases hSound.done hCancelled place hBefore with ⟨worker, hWorker, hHolds⟩ | hWritten
          · rcases @mem_setWorker pool who worker .waiting (.received pool.next) hWho hWorker with
              rfl | hKept
            · cases hHolds
            · exact .inl ⟨worker, hKept, hHolds⟩
          · exact .inr hWritten
        · refine .inl ⟨.received pool.next, List.mem_of_getElem? (i := who) ?_, rfl⟩
          exact List.getElem?_set_self (List.getElem?_eq_some_iff.1 hWho).1
  | close hNext hClosed =>
      exact ⟨hSound.next, fun _ => hNext, hSound.bodies, hSound.failures, hSound.seen, fun _ => rfl,
        hSound.held, hSound.done⟩
  | check who place hWho =>
      exact hSound.setWorker hWho rfl (fun other hOther => (Worker.checked.inj hOther).2) nofun
  | skip who place hWho =>
      have hCancelled := hSound.seen place (List.mem_of_getElem? hWho)
      refine hSound.write hWho rfl hSound.bodies (by simpa using hSound.failures) ?_ ?_
      · intro other hOther
        exact ⟨rfl, List.getElem?_set_ne (Ne.symm hOther)⟩
      · intro hNot
        rw [hCancelled] at hNot
        cases hNot
  | compile who place item hWho hItem =>
      refine hSound.write hWho rfl (by simpa using hSound.bodies) (by simpa using hSound.failures)
        ?_ ?_
      · intro other hOther
        exact ⟨List.getElem?_set_ne (Ne.symm hOther), List.getElem?_set_ne (Ne.symm hOther)⟩
      · intro _ other hOther
        have hBound := (List.getElem?_eq_some_iff.1 hItem).1
        rw [hItem, Option.some.injEq] at hOther
        subst hOther
        exact ⟨List.getElem?_set_self (hSound.bodies ▸ hBound),
          List.getElem?_set_self (hSound.failures ▸ hBound)⟩
  | stop who hClosed hWho => exact hSound.setWorker hWho rfl nofun fun _ => hClosed
  | cancel hNot =>
      exact ⟨hSound.next, hSound.closed, hSound.bodies, hSound.failures, fun _ _ => rfl,
        hSound.stopped, hSound.held, nofun⟩

/-- The pool is sound at every moment of a run. -/
theorem Pool.Runs.sound {start : Pool} (hRuns : Pool.Runs env declared start pool)
    (hStart : start.Sound env declared) : pool.Sound env declared := by
  induction hRuns with
  | refl => exact hStart
  | tail _ hStep ih => exact ih.step hStep

/-! ## Where runs end -/

/-- All results are written when the workers have stopped. -/
theorem Pool.Sound.finished (hSound : pool.Sound env declared) (hFinished : pool.Finished)
    (hCancelled : pool.cancelled = false) :
    pool.bodies = declared.map (fun item => (compileJob env item.job).toOption) ∧
      pool.failures = declared.map (fun item => failure? (compileJob env item.job)) := by
  obtain ⟨hClosed, hStopped⟩ := hFinished
  have hWritten (place : Nat) (hPlace : place < declared.length) :
      pool.Written env declared place := by
    rw [← hSound.closed hClosed] at hPlace
    rcases hSound.done hCancelled place hPlace with ⟨worker, hWorker, hHolds⟩ | hWritten
    · rw [hStopped worker hWorker] at hHolds
      cases hHolds
    · exact hWritten
  constructor
  · refine List.ext_getElem? fun place => ?_
    by_cases hPlace : place < declared.length
    · rw [(hWritten place hPlace _ (List.getElem?_eq_getElem hPlace)).1, List.getElem?_map,
        List.getElem?_eq_getElem hPlace]
      rfl
    · rw [List.getElem?_eq_none (by rw [hSound.bodies]; omega),
        List.getElem?_eq_none (by simpa using hPlace)]
  · refine List.ext_getElem? fun place => ?_
    by_cases hPlace : place < declared.length
    · rw [(hWritten place hPlace _ (List.getElem?_eq_getElem hPlace)).2, List.getElem?_map,
        List.getElem?_eq_getElem hPlace]
      rfl
    · rw [List.getElem?_eq_none (by rw [hSound.failures]; omega),
        List.getElem?_eq_none (by simpa using hPlace)]

/-- The failures of the jobs that fail, in order. -/
def failing (env : Env) (declared : List Declared) : Failures :=
  declared.filterMap fun item => failure? (compileJob env item.job)

/-- The failures that are written are those of the jobs that fail. -/
theorem Pool.Sound.listed (hSound : pool.Sound env declared) (hFinished : pool.Finished)
    (hCancelled : pool.cancelled = false) : pool.failures.filterMap id = failing env declared := by
  rw [(hSound.finished hFinished hCancelled).2, List.filterMap_map]
  rfl

/-- Results are collected into bodies, or into the failures among them. -/
theorem collect_eq {α : Type} (results : List (Except Failure α)) :
    collect results =
      match results.filterMap failure? with
      | [] => .ok (results.filterMap Except.toOption)
      | failure :: rest => .error (failure :: rest) := by
  induction results with
  | nil => rfl
  | cons first rest ih =>
      cases first with
      | ok value =>
          have hFailures : (Except.ok value :: rest).filterMap failure? = rest.filterMap failure? :=
            rfl
          rw [collect, ih, hFailures]
          cases rest.filterMap failure? <;> rfl
      | error failure =>
          have hFailures : (Except.error failure :: rest).filterMap failure? =
              failure :: rest.filterMap failure? := rfl
          rw [collect, ih, hFailures]
          cases rest.filterMap failure? <;> rfl

/-- Without failures every result is there. -/
theorem map_toOption {α : Type} {results : List (Except Failure α)}
    (hNone : results.filterMap failure? = []) :
    results.map Except.toOption = (results.filterMap Except.toOption).map some := by
  induction results with
  | nil => rfl
  | cons first rest ih =>
      cases first with
      | ok value => exact congrArg (some value :: ·) (ih hNone)
      | error failure => cases hNone

/-- The pool hands the caller what compiling the jobs one after the other gives. -/
theorem Pool.Sound.outcome_eq (hSound : pool.Sound env declared) (hFinished : pool.Finished) :
    pool.outcome = .ofResult (compileJobs pool.cancelled env declared) := by
  rw [outcome, compileJobs]
  cases hCancelled : pool.cancelled with
  | true => rfl
  | false =>
      obtain ⟨hBodies, -⟩ := hSound.finished hFinished hCancelled
      have hFailing : failing env declared =
          (declared.map fun item => compileJob env item.job).filterMap failure? := by
        rw [failing, List.filterMap_map]
        rfl
      simp only [Bool.false_eq_true, if_false]
      rw [hSound.listed hFinished hCancelled, collect_eq, hFailing]
      split
      · rename_i hNone
        rw [Outcome.ofResult, ← map_toOption hNone, hBodies, List.map_map]
        rfl
      · rfl

/-- How many steps a worker has before it at most. -/
def Worker.distance : Worker → Nat
  | received _ => 3
  | checked _ _ => 2
  | waiting => 1
  | stopped => 0

/-- How many steps the pool has before it at most, cancelling aside. -/
def Pool.distance (declared : List Declared) (pool : Pool) : Nat :=
  4 * (declared.length - pool.next) + (!pool.closed).toNat +
    (pool.workers.map Worker.distance).sum

theorem sum_distance_set {workers : List Worker} {who : Nat} {old : Worker}
    (hOld : workers[who]? = some old) (new : Worker) :
    ((workers.set who new).map Worker.distance).sum + old.distance =
      (workers.map Worker.distance).sum + new.distance := by
  induction workers generalizing who with
  | nil => cases hOld
  | cons first rest ih =>
      cases who with
      | zero =>
          cases hOld
          simp only [List.set_cons_zero, List.map_cons, List.sum_cons]
          omega
      | succ who =>
          have hRest := ih hOld
          simp only [List.set_cons_succ, List.map_cons, List.sum_cons]
          omega

/-- A worker that moves on brings the pool nearer to its end. -/
theorem Pool.distance_setWorker {who : Nat} {old new : Worker}
    (hOld : pool.workers[who]? = some old) (hLess : new.distance < old.distance) :
    (pool.setWorker who new).distance declared < pool.distance declared := by
  have hSum := sum_distance_set hOld new
  simp only [distance, setWorker]
  omega

/-- Unless it is finished, the pool has a step that brings it nearer to its end. -/
theorem Pool.Sound.advance (hSound : pool.Sound env declared) (hWorkers : pool.workers ≠ [])
    (hGoing : ¬pool.Finished) :
    ∃ after, pool.Step env declared after ∧ after.cancelled = pool.cancelled ∧
      after.workers.length = pool.workers.length ∧
      after.distance declared < pool.distance declared := by
  by_cases hBusy : ∃ worker ∈ pool.workers, ∃ place, worker.place? = some place
  · obtain ⟨worker, hWorker, place, hPlace⟩ := hBusy
    obtain ⟨who, hWho⟩ := List.getElem?_of_mem hWorker
    have hBound := hSound.held worker hWorker place hPlace
    have hItem := List.getElem?_eq_getElem (Nat.lt_of_lt_of_le hBound hSound.next)
    cases worker with
    | waiting | stopped => cases hPlace
    | received other =>
        exact ⟨_, .check who other hWho, rfl, List.length_set,
          distance_setWorker hWho (Nat.lt_succ_self 2)⟩
    | checked other seen =>
        cases hPlace
        have hNearer : (pool.setWorker who .waiting).distance declared < pool.distance declared :=
          distance_setWorker hWho (Nat.lt_succ_self 1)
        cases seen with
        | true => exact ⟨_, .skip who place hWho, rfl, List.length_set, hNearer⟩
        | false => exact ⟨_, .compile who place _ hWho hItem, rfl, List.length_set, hNearer⟩
  · have hIdle (worker : Worker) (hWorker : worker ∈ pool.workers) :
        worker = .waiting ∨ worker = .stopped := by
      cases worker with
      | waiting => exact .inl rfl
      | stopped => exact .inr rfl
      | received place | checked place _ => exact absurd ⟨_, hWorker, place, rfl⟩ hBusy
    by_cases hClosed : pool.closed = true
    · obtain ⟨worker, hWorker, hNot⟩ : ∃ worker ∈ pool.workers, worker ≠ .stopped := by
        by_contra hNone
        push Not at hNone
        exact hGoing ⟨hClosed, hNone⟩
      obtain rfl := (hIdle worker hWorker).resolve_right hNot
      obtain ⟨who, hWho⟩ := List.getElem?_of_mem hWorker
      exact ⟨_, .stop who hClosed hWho, rfl, List.length_set, distance_setWorker hWho (by decide)⟩
    · rcases Nat.lt_or_eq_of_le hSound.next with hNext | hNext
      · obtain ⟨worker, hWorker⟩ := List.exists_mem_of_ne_nil _ hWorkers
        obtain rfl := (hIdle worker hWorker).resolve_right fun hStopped =>
          hClosed (hSound.stopped (hStopped ▸ hWorker))
        obtain ⟨who, hWho⟩ := List.getElem?_of_mem hWorker
        have hSum := sum_distance_set hWho (.received pool.next)
        refine ⟨_, .receive who hNext hWho, rfl, List.length_set, ?_⟩
        simp only [distance, Pool.setWorker, Worker.distance] at hSum ⊢
        omega
      · rw [Bool.not_eq_true] at hClosed
        refine ⟨_, .close hNext hClosed, rfl, rfl, ?_⟩
        simp [distance, hClosed]

/-- As long as there are workers, nothing keeps the pool from coming to its end. -/
theorem Pool.Sound.finishes (hSound : pool.Sound env declared) (hWorkers : pool.workers ≠ []) :
    ∃ final, pool.Runs env declared final ∧ final.Finished ∧ final.cancelled = pool.cancelled := by
  induction hDistance : pool.distance declared using Nat.strongRecOn generalizing pool with
  | ind distance ih =>
      by_cases hFinished : pool.Finished
      · exact ⟨pool, .refl, hFinished, rfl⟩
      · obtain ⟨after, hStep, hSame, hLength, hNearer⟩ := hSound.advance hWorkers hFinished
        have hThere : after.workers ≠ [] := by
          rw [← List.length_pos_iff, hLength]
          exact List.length_pos_iff.2 hWorkers
        obtain ⟨final, hRuns, hFinal, hCancelled⟩ :=
          ih _ (hDistance ▸ hNearer) (hSound.step hStep) hThere rfl
        exact ⟨final, .head hStep hRuns, hFinal, hCancelled.trans hSame⟩

/-- Without failures, each job has its body at its position. -/
theorem forall₂_bodies (hNone : failing env declared = []) :
    List.Forall₂ (fun item body => ∃ compiled, compileJob env item.job = .ok compiled ∧
      body = some compiled) declared
      (declared.map fun item => (compileJob env item.job).toOption) := by
  rw [List.forall₂_map_right_iff, List.forall₂_same]
  intro item hItem
  have hFailure := List.filterMap_eq_nil_iff.1 hNone item hItem
  cases hJob : compileJob env item.job with
  | ok compiled => exact ⟨compiled, rfl, rfl⟩
  | error failure =>
      rw [hJob] at hFailure
      cases hFailure

/-- Whatever the number of workers and however their steps interleave, a run that comes to its end
hands the caller what compiling the jobs one after the other does: the bodies in order if none
fails, else the failures of exactly the failing jobs in order, and the failure of the context alone
if the work is cancelled by then. -/
theorem parallel_like_sequential {count : Nat} {final : Pool}
    (hRuns : Pool.Runs env declared (.start count declared) final) (hFinished : final.Finished) :
    final.outcome = .ofResult (compileJobs final.cancelled env declared) ∧
      (final.cancelled = true → final.outcome = ⟨[], [contextError]⟩) ∧
      (final.cancelled = false → failing env declared ≠ [] →
        final.outcome = ⟨[], failing env declared⟩) ∧
      (final.cancelled = false → failing env declared = [] → final.outcome.failures = [] ∧
        List.Forall₂ (fun item body => ∃ compiled, compileJob env item.job = .ok compiled ∧
          body = some compiled) declared final.outcome.bodies) := by
  have hSound := hRuns.sound (Pool.sound_start env declared count)
  refine ⟨hSound.outcome_eq hFinished, ?_, ?_, ?_⟩
  · intro hCancelled
    rw [Pool.outcome, if_pos hCancelled]
  · intro hCancelled hSome
    obtain ⟨failure, rest, hListed⟩ := List.exists_cons_of_ne_nil hSome
    rw [Pool.outcome, hSound.listed hFinished hCancelled, hListed, hCancelled]
    rfl
  · intro hCancelled hNone
    rw [Pool.outcome, hSound.listed hFinished hCancelled, hNone, hCancelled]
    refine ⟨rfl, ?_⟩
    simp only [Bool.false_eq_true, if_false, (hSound.finished hFinished hCancelled).1]
    exact forall₂_bodies hNone

/-- Three jobs, the second of which fails because a name is not known. -/
def namedJobs : List Declared :=
  [⟨.function { name := "one", params := [], result := .i32, body := [.eval {} (.int {} 1)] },
      "one", 2⟩,
    ⟨.function {
        name := "lost", params := [], result := .i32, body := [.eval {} (.ident {} "x")] },
      "lost", 3⟩,
    ⟨.function { name := "none", params := [], result := .void, body := [] }, "none", 4⟩]

/-- Two workers that are not cancelled report the one failure and no body. -/
theorem parallel_like_sequential_two :
    ∃ final : Pool, Pool.Runs (.ofProgram {} {} ⟨8, 65536, 0, 1, 0, 1⟩) namedJobs
        (.start 2 namedJobs) final ∧
      final.Finished ∧ final.outcome.bodies = [] ∧ final.outcome.failures.length = 1 := by
  obtain ⟨final, hRuns, hFinished, hCancelled⟩ :=
    (Pool.sound_start (.ofProgram {} {} ⟨8, 65536, 0, 1, 0, 1⟩) namedJobs 2).finishes (by decide)
  have hLength : (failing (.ofProgram {} {} ⟨8, 65536, 0, 1, 0, 1⟩) namedJobs).length = 1 := by
    decide +kernel
  obtain ⟨-, -, hFails, -⟩ := parallel_like_sequential hRuns hFinished
  have hOutcome := hFails hCancelled (by
    rw [← List.length_pos_iff, hLength]
    exact Nat.one_pos)
  exact ⟨final, hRuns, hFinished, by rw [hOutcome], by rw [hOutcome, hLength]⟩

end RecordWasm.Compile
