import RecordWasm.Proofs.Machine.Reading
import RecordWasm.Proofs.Machine.Perform

/-!
# Which locals code changes

A run changes the locals that its code writes and no others, and a local keeps its type.  The code
that is written is told from the instructions, wherever they stand.
-/

namespace RecordWasm.Wasm

/-- A local is read or written. -/
inductive Use where
  | reads (index : UInt32)
  | writes (index : UInt32)
  deriving DecidableEq, Repr

def Use.index : Use → UInt32
  | reads index | writes index => index

/-- How an instruction uses a local. -/
def Instr.use? (instr : Instr) : Option Use :=
  match instr.immediate with
  | .local index =>
      if instr.is .localGet then some (.reads index)
      else if instr.is .localSet || instr.is .localTee then some (.writes index)
      else none
  | _ => none

/-- How code uses locals, in order. -/
def uses (code : List Instr) : List Use := code.filterMap Instr.use?

@[simp] theorem uses_append (first second : List Instr) :
    uses (first ++ second) = uses first ++ uses second := List.filterMap_append

end RecordWasm.Wasm

namespace RecordWasm.Machine

open Wasm

mutual

def stepsWrites : List Step → List UInt32
  | [] => []
  | step :: rest => stepWrites step ++ stepsWrites rest

/-- The locals that a step writes, those in its frames included. -/
def stepWrites : Step → List UInt32
  | .plain .localSet (.local index) | .plain .localTee (.local index) => [index]
  | .block _ body | .loop _ body => stepsWrites body
  | .choose _ yes no => stepsWrites yes ++ stepsWrites no
  | _ => []

end

theorem mem_stepsWrites {index : UInt32} {steps : List Step} :
    index ∈ stepsWrites steps ↔ ∃ step ∈ steps, index ∈ stepWrites step := by
  induction steps with
  | nil => simp [stepsWrites]
  | cons step rest ih => simp [stepsWrites, ih]

/-- What the steps in front of a frame and in its first arm write. -/
def Step.Frame.writes (frame : Step.Frame) : List UInt32 :=
  stepsWrites frame.before ++
    match frame.opening with
    | .no yes => stepsWrites yes
    | _ => []

theorem Step.Frame.close_writes {frame : Step.Frame} {body : List Step} {index : UInt32}
    (hFrame : index ∉ frame.writes) (hBody : index ∉ stepsWrites body) :
    index ∉ stepsWrites (frame.close body :: frame.before) := by
  obtain ⟨opening, arity, before⟩ := frame
  simp only [writes, List.mem_append, not_or] at hFrame
  cases opening <;> simp_all [close, stepsWrites, stepWrites]

theorem not_mem_reverse_writes {steps : List Step} {index : UInt32}
    (hSteps : index ∉ stepsWrites steps) : index ∉ stepsWrites steps.reverse := by
  simpa [mem_stepsWrites] using hSteps

/-- An instruction that writes a local says so. -/
theorem not_mem_stepWrites {instr : Instr} {opcode : Opcode} {index : UInt32}
    (hOpcode : Opcode.ofByte? instr.opcode = some opcode)
    (hUse : instr.use? ≠ some (.writes index)) :
    index ∉ stepWrites (.plain opcode instr.immediate) := by
  obtain ⟨byte, immediate⟩ := instr
  have hByte : opcode.byte = byte := by
    rw [Opcode.ofByte?] at hOpcode
    simpa using List.find?_some hOpcode
  subst hByte
  intro hWrites
  unfold stepWrites at hWrites
  split at hWrites
  · rename_i hStep
    cases hStep
    exact hUse (by rw [List.mem_singleton.1 hWrites]; rfl)
  · rename_i hStep
    cases hStep
    exact hUse (by rw [List.mem_singleton.1 hWrites]; rfl)
  all_goals contradiction

/-- What is read from instructions writes what they write. -/
theorem ofInstrsFrom?_writes {types : List FuncType} {frames : List Step.Frame}
    {done steps : List Step} {instrs : List Instr} {index : UInt32}
    (hRead : Step.ofInstrsFrom? types frames done instrs = some steps)
    (hInstrs : ∀ instr ∈ instrs, instr.use? ≠ some (.writes index))
    (hDone : index ∉ stepsWrites done) (hFrames : ∀ frame ∈ frames, index ∉ frame.writes) :
    index ∉ stepsWrites steps := by
  fun_induction Step.ofInstrsFrom? types frames done instrs with
  | case1 | case6 | case8 | case16 => cases hRead
  | case2 frames done instr rest enter type _ _ ih | case3 frames done instr rest enter type _ _ ih
  | case4 frames done instr rest enter type _ _ ih =>
      obtain ⟨arity, -, hRest⟩ := Option.bind_eq_some_iff.1 hRead
      refine ih _ arity hRest (List.forall_mem_cons.1 hInstrs).2 (by simp [stepsWrites])
        (List.forall_mem_cons.2 ⟨?_, hFrames⟩)
      simpa [Step.Frame.writes] using hDone
  | case5 done instr rest _ arity before outer _ ih =>
      obtain ⟨hFrame, hOuter⟩ := List.forall_mem_cons.1 hFrames
      refine ih hRead (List.forall_mem_cons.1 hInstrs).2 (by simp [stepsWrites])
        (List.forall_mem_cons.2 ⟨?_, hOuter⟩)
      simp only [Step.Frame.writes, List.append_nil] at hFrame
      simpa [Step.Frame.writes, hFrame] using not_mem_reverse_writes hDone
  | case7 done =>
      cases hRead
      exact not_mem_reverse_writes hDone
  | case9 done instr rest _ frame outer _ ih =>
      obtain ⟨hFrame, hOuter⟩ := List.forall_mem_cons.1 hFrames
      exact ih hRead (List.forall_mem_cons.1 hInstrs).2
        (Step.Frame.close_writes hFrame (not_mem_reverse_writes hDone)) hOuter
  | case10 _ _ _ _ _ _ _ _ ih | case11 _ _ _ _ _ _ _ _ ih | case12 _ _ _ _ _ _ ih
  | case13 _ _ _ _ _ _ _ _ ih | case14 _ _ _ _ _ _ ih =>
      exact ih hRead (List.forall_mem_cons.1 hInstrs).2 (by simpa [stepsWrites, stepWrites]) hFrames
  | case15 frames done instr rest opcode _ _ _ _ hOpcode _ _ _ _ _ _ _ ih =>
      obtain ⟨hInstr, hRest⟩ := List.forall_mem_cons.1 hInstrs
      refine ih hRead hRest ?_ hFrames
      rw [stepsWrites, List.mem_append, not_or]
      exact ⟨not_mem_stepWrites hOpcode hInstr, hDone⟩

theorem Reads.writes {types : List FuncType} {code : List Instr} {steps : List Step}
    {index : UInt32} (hReads : Reads types code steps) (hCode : Use.writes index ∉ uses code) :
    index ∉ stepsWrites steps := by
  refine ofInstrsFrom?_writes hReads.ofInstrs? ?_ (by simp [stepsWrites]) (by simp)
  intro instr hInstr
  rcases List.mem_append.1 hInstr with hBody | hClose
  · exact fun hUse => hCode (List.mem_filterMap.2 ⟨instr, hBody, hUse⟩)
  · rw [List.mem_singleton.1 hClose]
    exact nofun

/-- Locals have kept their types, and all but the written ones their values. -/
structure Changes (written : List UInt32) (before after : List Value) : Prop where
  types : after.map Value.type = before.map Value.type
  values : ∀ index, index ∉ written → after[index.toNat]? = before[index.toNat]?

namespace Changes

variable {written more : List UInt32} {first second third : List Value}

theorem refl (written : List UInt32) (locals : List Value) : Changes written locals locals :=
  ⟨rfl, fun _ _ => rfl⟩

theorem trans (hFirst : Changes written first second) (hSecond : Changes written second third) :
    Changes written first third where
  types := hSecond.types.trans hFirst.types
  values := by
    intro index hIndex
    rw [hSecond.values index hIndex, hFirst.values index hIndex]

theorem mono (hChanges : Changes written first second) (hMore : written ⊆ more) :
    Changes more first second :=
  ⟨hChanges.types, fun index hIndex => hChanges.values index fun hOld => hIndex (hMore hOld)⟩

/-- A local is overwritten by a value of its type. -/
theorem replace? {index : UInt32} {value : Value}
    (hReplace : State.replace? first index value = some second) : Changes [index] first second := by
  rw [State.replace?] at hReplace
  split at hReplace
  · rename_i old hOld
    split at hReplace
    · rename_i hType
      cases hReplace
      refine ⟨map_type_set hOld hType, fun other hOther => List.getElem?_set_ne ?_⟩
      intro hSame
      exact hOther (List.mem_singleton.2 (UInt32.toNat_inj.1 hSame).symm)
    · cases hReplace
  · cases hReplace

end Changes

variable {state next : State}

theorem load_locals {type : NumType} {arg : MemArg} (hLoad : state.load type arg = .ok next) :
    next.locals = state.locals := by
  rw [State.load] at hLoad
  split at hLoad
  · split at hLoad <;> cases hLoad
    rfl
  · cases hLoad

theorem save_locals {type : NumType} {arg : MemArg} (hSave : state.save type arg = .ok next) :
    next.locals = state.locals := by
  rw [State.save] at hSave
  split at hSave
  · split at hSave
    · split at hSave <;> cases hSave
      rfl
    · cases hSave
  · cases hSave

theorem growMemory_locals (hGrow : state.growMemory = .ok next) : next.locals = state.locals := by
  rw [State.growMemory] at hGrow
  split at hGrow <;> cases hGrow
  rfl

/-- An instruction without control flow changes at most the local that it writes. -/
theorem perform_changes {opcode : Opcode} {immediate : Immediate}
    (hPerform : state.perform opcode immediate = .ok next) :
    Changes (stepWrites (.plain opcode immediate)) state.locals next.locals := by
  unfold State.perform at hPerform
  split at hPerform
  case h_5 | h_6 =>
    split at hPerform
    · rename_i hReplace
      cases hPerform
      exact .replace? hReplace
    · cases hPerform
  case h_9 => exact load_locals hPerform ▸ .refl _ _
  case h_10 => exact save_locals hPerform ▸ .refl _ _
  case h_12 => exact growMemory_locals hPerform ▸ .refl _ _
  case h_3 | h_4 | h_7 | h_8 | h_11 | h_17 =>
    split at hPerform <;> cases hPerform
    exact .refl _ _
  all_goals
    cases hPerform
    exact .refl _ _

/-! ## Runs -/

/-- A run has changed at most the written locals.  Of a run that is cut off there is nothing to
say. -/
def Outcome.Changes (written : List UInt32) (before : List Value) : Outcome → Prop
  | .next state | .branch _ state | .ret state => Machine.Changes written before state.locals
  | .trap _ _ | .stuck | .exhausted => True

theorem Outcome.Changes.mono {written more : List UInt32} {before : List Value} {outcome : Outcome}
    (hChanges : outcome.Changes written before) (hMore : written ⊆ more) :
    outcome.Changes more before := by
  cases outcome with
  | next | branch | ret => exact Machine.Changes.mono hChanges hMore
  | trap | stuck | exhausted => trivial

theorem Outcome.Changes.behind {written : List UInt32} {before middle : List Value}
    {outcome : Outcome} (hFirst : Machine.Changes written before middle)
    (hChanges : outcome.Changes written middle) :
    outcome.Changes written before := by
  cases outcome with
  | next | branch | ret => exact hFirst.trans hChanges
  | trap | stuck | exhausted => trivial

/-- A move writes no other locals than its step, and neither does the code that it goes on with. -/
def Move.Changes (written : List UInt32) (before : List Value) : Move → Prop
  | .go front state => stepsWrites front ⊆ written ∧ Machine.Changes written before state.locals
  | .halt outcome => outcome.Changes written before

variable {functions : Array Function} {run : List Step → State → Outcome}

theorem Move.ofFrame_changes {written : List UInt32} {arity : Arity} {repeated : State → Move}
    {outcome : Outcome} (hBody : outcome.Changes written state.locals)
    (hRepeated : ∀ inner, Machine.Changes written state.locals inner.locals →
      (repeated inner).Changes written state.locals) :
    (Move.ofFrame state arity repeated outcome).Changes written state.locals := by
  cases outcome with
  | next inner => exact ⟨by simp [stepsWrites], hBody⟩
  | branch label inner =>
      cases label with
      | zero => exact hRepeated inner hBody
      | succ label => exact hBody
  | ret | trap | stuck | exhausted => exact hBody

theorem Move.ofCall_changes (type : FuncType) (written : List UInt32) (outcome : Outcome) :
    (Move.ofCall state type outcome).Changes written state.locals := by
  cases outcome with
  | next | ret => exact ⟨by simp [stepsWrites], .refl _ _⟩
  | branch label inner =>
      cases label with
      | zero => exact ⟨by simp [stepsWrites], .refl _ _⟩
      | succ label => trivial
  | trap | stuck | exhausted => trivial

theorem Step.move_changes (step : Step)
    (hRun : ∀ steps state, (run steps state).Changes (stepsWrites steps) state.locals) :
    (step.move functions run state).Changes (stepWrites step) state.locals := by
  cases step with
  | plain opcode immediate =>
      rw [Step.move]
      split
      · rename_i hPerform
        exact ⟨by simp [stepsWrites], perform_changes hPerform⟩
      · trivial
      · trivial
  | unreachable => trivial
  | br | ret => exact Changes.refl _ _
  | block arity body =>
      exact Move.ofFrame_changes (hRun body (state.enter arity.takes))
        fun inner hInner => ⟨by simp [stepsWrites], hInner⟩
  | loop arity body =>
      exact Move.ofFrame_changes (hRun body (state.enter arity.takes))
        fun inner hInner => ⟨by simp [stepsWrites, stepWrites], hInner⟩
  | choose arity yes no =>
      rw [Step.move]
      split
      · refine ⟨?_, .refl _ _⟩
        split <;> simp [stepsWrites, stepWrites]
      · trivial
  | brIf label =>
      rw [Step.move]
      split
      · split
        · exact Changes.refl _ _
        · exact ⟨by simp [stepsWrites], .refl _ _⟩
      · trivial
  | call function =>
      rw [Step.move]
      split
      · trivial
      · exact ⟨by simp [stepsWrites], .refl _ _⟩
      · exact Move.ofCall_changes _ _ _

/-- A run changes at most the locals that its code writes. -/
theorem exec_changes (functions : Array Function) (fuel : Nat) (steps : List Step) (state : State) :
    (exec functions fuel steps state).Changes (stepsWrites steps) state.locals := by
  induction fuel generalizing steps state with
  | zero => trivial
  | succ fuel ih =>
      cases steps with
      | nil => exact Changes.refl _ _
      | cons step rest =>
          have hMove := @Step.move_changes state functions (exec functions fuel) step ih
          rw [exec_cons, stepsWrites]
          cases hStep : step.move functions (exec functions fuel) state with
          | halt outcome =>
              rw [hStep] at hMove
              exact Outcome.Changes.mono hMove (List.subset_append_left _ _)
          | go front next =>
              rw [hStep] at hMove
              obtain ⟨hFront, hNext⟩ := hMove
              refine .behind (hNext.mono (List.subset_append_left _ _))
                ((ih (front ++ rest) next).mono ?_)
              intro index hIndex
              obtain ⟨inner, hInner, hWrites⟩ := mem_stepsWrites.1 hIndex
              rcases List.mem_append.1 hInner with hMore | hRest
              · exact List.mem_append_left _ (hFront (mem_stepsWrites.2 ⟨inner, hMore, hWrites⟩))
              · exact List.mem_append_right _ (mem_stepsWrites.2 ⟨inner, hRest, hWrites⟩)

end RecordWasm.Machine
