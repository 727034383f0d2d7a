import RecordWasm.Machine.Exec
import Mathlib.Tactic.Common

/-!
# Runs and their fuel

More fuel never changes how a run ends, and a run of two pieces of code is a run of the first
followed by one of the second.  `Leads` puts both facts into one notion: it says how a run ends if
there is enough fuel, and, for a run that does not end, which amount of fuel is not enough.
-/

namespace RecordWasm.Machine

open Wasm

variable {functions : Array Function}

/-- What the first step of code does: either the run goes on with other code in front of the rest,
or it is over. -/
inductive Move where
  | go (front : List Step) (state : State)
  | halt (outcome : Outcome)

/-- The move behind a frame whose body ended in some way.  A branch to the frame itself goes on as
`repeated` says. -/
def Move.ofFrame (state : State) (arity : Arity) (repeated : State → Move) : Outcome → Move
  | .next inner => .go [] (state.leave arity.takes arity.leaves inner)
  | .branch 0 inner => repeated inner
  | .branch (label + 1) inner => .halt (.branch label inner)
  | ended => .halt ended

/-- The move behind a call whose body ended in some way. -/
def Move.ofCall (state : State) (type : FuncType) : Outcome → Move
  | .next inner | .ret inner | .branch 0 inner =>
      .go [] { store := inner.store
               locals := state.locals
               stack := inner.stack.take type.results.length ++
                 state.stack.drop type.params.length }
  | .branch (_ + 1) _ => .halt .stuck
  | ended => .halt ended

/-- The move of a step, told how the code inside it runs. -/
def Step.move (functions : Array Function) (run : List Step → State → Outcome) (state : State) :
    Step → Move
  | .plain opcode immediate =>
      match state.perform opcode immediate with
      | .ok state => .go [] state
      | .error (.trap cause) => .halt (.trap cause state.store)
      | .error .stuck => .halt .stuck
  | .unreachable => .halt (.trap .unreachable state.store)
  | .block arity body =>
      .ofFrame state arity (fun inner => .go [] (state.leave arity.takes arity.leaves inner))
        (run body (state.enter arity.takes))
  | .loop arity body =>
      .ofFrame state arity
        (fun inner => .go [.loop arity body] (state.leave arity.takes arity.takes inner))
        (run body (state.enter arity.takes))
  | .choose arity yes no =>
      match state.stack with
      | .i32 condition :: below =>
          .go [.block arity (if condition ≠ 0 then yes else no)] { state with stack := below }
      | _ => .halt .stuck
  | .br label => .halt (.branch label state)
  | .brIf label =>
      match state.stack with
      | .i32 condition :: below =>
          if condition ≠ 0 then .halt (.branch label { state with stack := below })
          else .go [] { state with stack := below }
      | _ => .halt .stuck
  | .ret => .halt (.ret state)
  | .call function =>
      match functions[function]? with
      | none => .halt .stuck
      | some (.hosted name type answer) =>
          .go [] { state with
            store := { state.store with
              calls := ⟨name, (state.stack.take type.params.length).reverse⟩ :: state.store.calls }
            stack := answer.reverse ++ state.stack.drop type.params.length }
      | some (.coded type locals body) => .ofCall state type (run body (state.call type locals))

/-- A run makes the move of its first step and goes on from there. -/
theorem exec_cons (fuel : Nat) (step : Step) (rest : List Step) (state : State) :
    exec functions (fuel + 1) (step :: rest) state =
      match step.move functions (exec functions fuel) state with
      | .go front next => exec functions fuel (front ++ rest) next
      | .halt outcome => outcome := by
  cases step with
  | plain opcode immediate =>
      rw [exec, Step.move]
      split <;> simp_all
  | unreachable | br | ret => rfl
  | block arity body | loop arity body =>
      rw [exec, Step.move]
      cases exec functions fuel body (state.enter arity.takes) with
      | branch label inner => cases label <;> rfl
      | _ => rfl
  | choose arity yes no =>
      rw [exec, Step.move]
      split <;> simp_all
  | brIf label =>
      rw [exec, Step.move]
      cases state.stack with
      | nil => rfl
      | cons value below =>
          cases value with
          | i32 condition => by_cases hTaken : condition = 0 <;> simp [hTaken]
          | _ => rfl
  | call function =>
      rw [exec, Step.move]
      cases functions[function]? with
      | none => rfl
      | some target =>
          cases target with
          | hosted name type answer => rfl
          | coded type locals body =>
              simp only
              cases exec functions fuel body (state.call type locals) with
              | branch label inner => cases label <;> rfl
              | _ => rfl

/-- Only the end of the code, not a step, leads behind it. -/
theorem Step.move_ne_next (run : List Step → State → Outcome) (state next : State) (step : Step) :
    step.move functions run state ≠ .halt (.next next) := by
  cases step with
  | plain opcode immediate =>
      rw [Step.move]
      split <;> simp
  | unreachable | br | ret => simp [Step.move]
  | block arity body | loop arity body =>
      rw [Step.move]
      cases run body (state.enter arity.takes) with
      | branch label inner => cases label <;> simp [Move.ofFrame]
      | _ => simp [Move.ofFrame]
  | choose arity yes no =>
      rw [Step.move]
      split <;> simp
  | brIf label =>
      rw [Step.move]
      split
      · split <;> simp
      · simp
  | call function =>
      rw [Step.move]
      split
      · simp
      · simp
      · rename_i type locals body _
        cases run body (state.call type locals) with
        | branch label inner => cases label <;> simp [Move.ofCall]
        | _ => simp [Move.ofCall]

/-! ## More fuel -/

/-- A move that does not run out of fuel is the same if the code inside the step runs on where it
stopped for lack of fuel. -/
theorem Step.move_mono {run further : List Step → State → Outcome} (step : Step) (state : State)
    (hFurther : ∀ steps state, run steps state ≠ .exhausted → further steps state = run steps state)
    (hEnds : step.move functions run state ≠ .halt .exhausted) :
    step.move functions further state = step.move functions run state := by
  cases step with
  | plain | unreachable | choose | br | brIf | ret => rfl
  | block arity body | loop arity body =>
      rw [Step.move] at hEnds
      have hBody : run body (state.enter arity.takes) ≠ .exhausted := by
        intro hOut
        rw [hOut] at hEnds
        exact hEnds rfl
      rw [Step.move, Step.move, hFurther _ _ hBody]
  | call function =>
      rw [Step.move] at hEnds
      rw [Step.move, Step.move]
      split
      · rfl
      · rfl
      · rename_i type locals body hFunction
        simp only [hFunction] at hEnds
        have hBody : run body (state.call type locals) ≠ .exhausted := by
          intro hOut
          rw [hOut] at hEnds
          exact hEnds rfl
        rw [hFurther _ _ hBody]

/-- A run that ends does so in the same way with one more unit of fuel. -/
theorem exec_succ {fuel : Nat} {steps : List Step} {state : State}
    (hEnds : exec functions fuel steps state ≠ .exhausted) :
    exec functions (fuel + 1) steps state = exec functions fuel steps state := by
  induction fuel generalizing steps state with
  | zero => exact absurd rfl hEnds
  | succ fuel ih =>
      cases steps with
      | nil => rfl
      | cons step rest =>
          rw [exec_cons] at hEnds ⊢
          have hMove : step.move functions (exec functions (fuel + 1)) state =
              step.move functions (exec functions fuel) state := by
            apply step.move_mono state fun steps state => ih
            intro hOut
            rw [hOut] at hEnds
            exact hEnds rfl
          rw [hMove, exec_cons]
          cases hHead : step.move functions (exec functions fuel) state with
          | halt outcome => rfl
          | go front next =>
              rw [hHead] at hEnds
              exact ih hEnds

/-- More fuel does not change how a run ends. -/
theorem exec_mono {fuel more : Nat} {steps : List Step} {state : State} (hMore : fuel ≤ more)
    (hEnds : exec functions fuel steps state ≠ .exhausted) :
    exec functions more steps state = exec functions fuel steps state := by
  induction hMore with
  | refl => rfl
  | step _ ih => rw [exec_succ (ih ▸ hEnds), ih]

/-- With less fuel, a run that is not over is still not over. -/
theorem exec_exhausted {fuel less : Nat} {steps : List Step} {state : State} (hLess : less ≤ fuel)
    (hOut : exec functions fuel steps state = .exhausted) :
    exec functions less steps state = .exhausted := by
  by_contra hEnds
  rw [exec_mono hLess hEnds] at hOut
  exact hEnds hOut

/-- A run ends in one way only. -/
theorem exec_unique {left right : Nat} {steps : List Step} {state : State}
    (hLeft : exec functions left steps state ≠ .exhausted)
    (hRight : exec functions right steps state ≠ .exhausted) :
    exec functions left steps state = exec functions right steps state := by
  rcases Nat.le_total left right with hLess | hLess
  · exact (exec_mono hLess hLeft).symm
  · exact exec_mono hLess hRight

/-- Two runs that get to the end of the same code get there in the same state. -/
theorem exec_next_unique {left right : Nat} {steps : List Step} {state first second : State}
    (hLeft : exec functions left steps state = .next first)
    (hRight : exec functions right steps state = .next second) : first = second := by
  have hSame : exec functions left steps state = exec functions right steps state :=
    exec_unique (by rw [hLeft]; simp) (by rw [hRight]; simp)
  rw [hLeft, hRight] at hSame
  exact Outcome.next.inj hSame

/-- No run ends without fuel. -/
theorem exec_pos {enough : Nat} {steps : List Step} {state : State} {outcome : Outcome}
    (hRun : exec functions enough steps state = outcome) (hEnds : outcome ≠ .exhausted) :
    ∃ less, enough = less + 1 := by
  cases enough with
  | zero => exact absurd hRun.symm hEnds
  | succ less => exact ⟨less, rfl⟩

/-- A run that does not get to the end of its code does not see what stands behind. -/
theorem exec_append_of_exit {fuel : Nat} {front back : List Step} {state : State}
    {outcome : Outcome} (hExit : ∀ state, outcome ≠ .next state)
    (hFront : exec functions fuel front state = outcome) :
    exec functions fuel (front ++ back) state = outcome := by
  induction fuel generalizing front state with
  | zero => exact hFront
  | succ fuel ih =>
      cases front with
      | nil => exact absurd hFront.symm (hExit state)
      | cons step rest =>
          rw [List.cons_append, exec_cons]
          rw [exec_cons] at hFront
          cases hMove : step.move functions (exec functions fuel) state with
          | halt ended =>
              rw [hMove] at hFront
              exact hFront
          | go more next =>
              rw [hMove] at hFront
              simpa only [List.append_assoc] using ih hFront

/-- A run that gets to the end of its code goes on with the code behind. -/
theorem exec_append_of_next {first second : Nat} {front back : List Step} {state middle : State}
    {outcome : Outcome} (hFront : exec functions first front state = .next middle)
    (hBack : exec functions second back middle = outcome) (hEnds : outcome ≠ .exhausted) :
    exec functions (first + second) (front ++ back) state = outcome := by
  induction first generalizing front state with
  | zero => cases hFront
  | succ first ih =>
      cases front with
      | nil =>
          cases hFront
          rw [List.nil_append, exec_mono (by omega) (hBack ▸ hEnds), hBack]
      | cons step rest =>
          rw [exec_cons] at hFront
          have hMove : step.move functions (exec functions (first + second)) state =
              step.move functions (exec functions first) state := by
            apply step.move_mono state fun steps state => exec_mono (by omega)
            intro hOut
            rw [hOut] at hFront
            cases hFront
          rw [List.cons_append, Nat.add_right_comm, exec_cons, hMove]
          cases hHead : step.move functions (exec functions first) state with
          | halt ended =>
              rw [hHead] at hFront
              cases hFront
              exact absurd hHead (step.move_ne_next _ state middle)
          | go more next =>
              rw [hHead] at hFront
              simpa only [List.append_assoc] using ih hFront

/-- A run that gets to the end of its code and has too little fuel for the code behind has too
little for both. -/
theorem exec_append_exhausted {fuel : Nat} {front back : List Step} {state middle : State}
    (hFront : exec functions fuel front state = .next middle)
    (hBack : exec functions fuel back middle = .exhausted) :
    exec functions fuel (front ++ back) state = .exhausted := by
  induction fuel generalizing front state with
  | zero => rfl
  | succ fuel ih =>
      cases front with
      | nil =>
          cases hFront
          exact hBack
      | cons step rest =>
          rw [List.cons_append, exec_cons]
          rw [exec_cons] at hFront
          cases hMove : step.move functions (exec functions fuel) state with
          | halt ended =>
              rw [hMove] at hFront
              cases hFront
              exact absurd hMove (step.move_ne_next _ state middle)
          | go more next =>
              rw [hMove] at hFront
              simpa only [List.append_assoc] using
                ih hFront (exec_exhausted (Nat.le_succ fuel) hBack)

/-! ## Where code leads -/

/-- The outcome of a run, independent of its fuel.  A run is said to be exhausted only with respect
to the given amount of fuel. -/
def Leads (functions : Array Function) (fuel : Nat) (steps : List Step) (state : State) :
    Outcome → Prop
  | .exhausted => exec functions fuel steps state = .exhausted
  | outcome => ∃ enough, exec functions enough steps state = outcome

namespace Leads

variable {fuel : Nat} {steps front back body : List Step} {state middle inner : State}
variable {outcome : Outcome}

theorem of_exec (enough : Nat) (hRun : exec functions enough steps state = outcome)
    (hEnds : outcome ≠ .exhausted) : Leads functions fuel steps state outcome := by
  cases outcome with
  | exhausted => exact absurd rfl hEnds
  | _ => exact ⟨enough, hRun⟩

theorem exists_exec (hLeads : Leads functions fuel steps state outcome)
    (hEnds : outcome ≠ .exhausted) : ∃ enough, exec functions enough steps state = outcome := by
  cases outcome with
  | exhausted => exact absurd rfl hEnds
  | _ => exact hLeads

/-- With the given fuel a run either ends as it does with enough of it, or is not over. -/
theorem exec_eq_or (hLeads : Leads functions fuel steps state outcome) :
    exec functions fuel steps state = outcome ∨ exec functions fuel steps state = .exhausted := by
  by_cases hEnds : exec functions fuel steps state = .exhausted
  · exact .inr hEnds
  · left
    by_cases hOut : outcome = .exhausted
    · subst hOut
      exact absurd hLeads hEnds
    · obtain ⟨enough, hRun⟩ := hLeads.exists_exec hOut
      rw [← hRun]
      exact exec_unique hEnds (hRun ▸ hOut)

/-- What leads to an outcome with some fuel does so with less. -/
theorem less {less : Nat} (hLess : less ≤ fuel)
    (hLeads : Leads functions fuel steps state outcome) :
    Leads functions less steps state outcome := by
  cases outcome with
  | exhausted => exact exec_exhausted hLess hLeads
  | _ => exact hLeads

/-- A run that ends does not depend on the fuel it is said for. -/
theorem any {other : Nat} (hLeads : Leads functions fuel steps state outcome)
    (hEnds : outcome ≠ .exhausted) : Leads functions other steps state outcome := by
  obtain ⟨enough, hRun⟩ := hLeads.exists_exec hEnds
  exact .of_exec enough hRun hEnds

/-- A run that ends is the only one. -/
theorem unique {enough : Nat} {other : Outcome} (hLeads : Leads functions fuel steps state outcome)
    (hOut : outcome ≠ .exhausted) (hRun : exec functions enough steps state = other)
    (hEnds : other ≠ .exhausted) : other = outcome := by
  obtain ⟨fuel, hSame⟩ := hLeads.exists_exec hOut
  rw [← hRun, ← hSame]
  exact exec_unique (hRun ▸ hEnds) (hSame ▸ hOut)

theorem nil : Leads functions fuel [] state (.next state) := ⟨1, rfl⟩

theorem next_append (hFront : Leads functions fuel front state (.next middle))
    (hBack : Leads functions fuel back middle outcome) :
    Leads functions fuel (front ++ back) state outcome := by
  by_cases hOut : outcome = .exhausted
  · subst hOut
    rcases hFront.exec_eq_or with hNext | hFrontOut
    · exact exec_append_exhausted hNext hBack
    · exact exec_append_of_exit (by simp) hFrontOut
  · obtain ⟨first, hFirst⟩ := hFront
    obtain ⟨second, hSecond⟩ := hBack.exists_exec hOut
    exact .of_exec _ (exec_append_of_next hFirst hSecond hOut) hOut

theorem exit_append (hExit : ∀ state, outcome ≠ .next state)
    (hFront : Leads functions fuel front state outcome) :
    Leads functions fuel (front ++ back) state outcome := by
  by_cases hOut : outcome = .exhausted
  · subst hOut
    exact exec_append_of_exit hExit hFront
  · obtain ⟨enough, hRun⟩ := hFront.exists_exec hOut
    exact .of_exec enough (exec_append_of_exit hExit hRun) hOut

/-- A step that does not run other code makes its move. -/
theorem of_move {step : Step} (hMove : ∀ run, step.move functions run state = .go [] middle) :
    Leads functions fuel [step] state (.next middle) :=
  .of_exec 2 (by rw [exec_cons, hMove]; rfl) (by simp)

theorem of_halt {step : Step} (hEnds : outcome ≠ .exhausted)
    (hMove : ∀ run, step.move functions run state = .halt outcome) :
    Leads functions fuel [step] state outcome :=
  .of_exec 1 (by rw [exec_cons, hMove]) hEnds

theorem plain {opcode : Opcode} {immediate : Immediate}
    (hPerform : state.perform opcode immediate = .ok middle) :
    Leads functions fuel [.plain opcode immediate] state (.next middle) :=
  of_move fun _ => by rw [Step.move, hPerform]

theorem plain_trap {opcode : Opcode} {immediate : Immediate} {cause : Trap}
    (hPerform : state.perform opcode immediate = .error (.trap cause)) :
    Leads functions fuel [.plain opcode immediate] state (.trap cause state.store) :=
  of_halt (by simp) fun _ => by rw [Step.move, hPerform]

theorem unreachable : Leads functions fuel [.unreachable] state (.trap .unreachable state.store) :=
  of_halt (by simp) fun _ => rfl

theorem br {label : Nat} : Leads functions fuel [.br label] state (.branch label state) :=
  of_halt (by simp) fun _ => rfl

theorem ret : Leads functions fuel [.ret] state (.ret state) :=
  of_halt (by simp) fun _ => rfl

theorem brIf_taken {label : Nat} {condition : UInt32} {below : List Value}
    (hStack : state.stack = .i32 condition :: below) (hTaken : condition ≠ 0) :
    Leads functions fuel [.brIf label] state (.branch label { state with stack := below }) :=
  of_halt (by simp) fun _ => by simp [Step.move, hStack, hTaken]

theorem brIf_passed {label : Nat} {below : List Value} (hStack : state.stack = .i32 0 :: below) :
    Leads functions fuel [.brIf label] state (.next { state with stack := below }) :=
  of_move fun _ => by simp [Step.move, hStack]

/-- A conditional pops its condition and is then one of its arms. -/
theorem choose {arity : Arity} {yes no : List Step} {condition : UInt32} {below : List Value}
    (hStack : state.stack = .i32 condition :: below)
    (hArm : Leads functions fuel [.block arity (if condition ≠ 0 then yes else no)]
      { state with stack := below } outcome) :
    Leads functions fuel [.choose arity yes no] state outcome := by
  have hStep : ∀ enough, exec functions (enough + 1) [.choose arity yes no] state =
      exec functions enough [.block arity (if condition ≠ 0 then yes else no)]
        { state with stack := below } := by
    intro enough
    rw [exec_cons, Step.move, hStack]
    rfl
  by_cases hOut : outcome = .exhausted
  · subst hOut
    cases fuel with
    | zero => rfl
    | succ fuel =>
        change exec _ _ _ _ = _
        rw [hStep]
        exact exec_exhausted (Nat.le_succ fuel) hArm
  · obtain ⟨enough, hRun⟩ := hArm.exists_exec hOut
    exact .of_exec _ (hStep enough ▸ hRun) hOut

end Leads

/-- How a block ends, told how its body ends. -/
def State.behindBlock (state : State) (arity : Arity) : Outcome → Outcome
  | .next inner | .branch 0 inner => .next (state.leave arity.takes arity.leaves inner)
  | .branch (label + 1) inner => .branch label inner
  | ended => ended

theorem State.behindBlock_ne_exhausted (state : State) (arity : Arity) {outcome : Outcome}
    (hEnds : outcome ≠ .exhausted) : state.behindBlock arity outcome ≠ .exhausted := by
  cases outcome with
  | branch label inner => cases label <;> simp [behindBlock]
  | exhausted => exact absurd rfl hEnds
  | _ => simp [behindBlock]

/-- How a call of coded functions ends, told how its body ends. -/
def State.behindCall (state : State) (type : FuncType) : Outcome → Outcome
  | .next inner | .ret inner | .branch 0 inner =>
      .next { store := inner.store
              locals := state.locals
              stack := inner.stack.take type.results.length ++
                state.stack.drop type.params.length }
  | .branch (_ + 1) _ => .stuck
  | ended => ended

theorem State.behindCall_ne_exhausted (state : State) (type : FuncType) {outcome : Outcome}
    (hEnds : outcome ≠ .exhausted) : state.behindCall type outcome ≠ .exhausted := by
  cases outcome with
  | branch label inner => cases label <;> simp [behindCall]
  | exhausted => exact absurd rfl hEnds
  | _ => simp [behindCall]

namespace Leads

variable {fuel : Nat} {body : List Step} {state inner : State} {outcome : Outcome}

theorem block {arity : Arity}
    (hBody : Leads functions fuel body (state.enter arity.takes) outcome) :
    Leads functions fuel [.block arity body] state (state.behindBlock arity outcome) := by
  by_cases hOut : outcome = .exhausted
  · subst hOut
    cases fuel with
    | zero => rfl
    | succ fuel =>
        change exec _ _ _ _ = _
        rw [exec_cons, Step.move, exec_exhausted (Nat.le_succ fuel) hBody]
        rfl
  · obtain ⟨enough, hRun⟩ := hBody.exists_exec hOut
    obtain ⟨less, rfl⟩ := exec_pos hRun hOut
    refine .of_exec (less + 2) ?_ ?_
    · rw [exec_cons, Step.move, hRun]
      cases outcome with
      | branch label inner => cases label <;> rfl
      | _ => rfl
    · exact state.behindBlock_ne_exhausted arity hOut

theorem choose_taken (arity : Arity) (no : List Step) {condition : UInt32} {below : List Value}
    (hStack : state.stack = .i32 condition :: below) (hTaken : condition ≠ 0)
    (hArm : Leads functions fuel body ({ state with stack := below }.enter arity.takes) outcome) :
    Leads functions fuel [.choose arity body no] state
      ({ state with stack := below }.behindBlock arity outcome) := by
  apply choose hStack
  rw [if_pos hTaken]
  exact .block hArm

theorem choose_passed (arity : Arity) (yes : List Step) {below : List Value}
    (hStack : state.stack = .i32 0 :: below)
    (hArm : Leads functions fuel body ({ state with stack := below }.enter arity.takes) outcome) :
    Leads functions fuel [.choose arity yes body] state
      ({ state with stack := below }.behindBlock arity outcome) := by
  apply choose hStack
  rw [if_neg (by simp)]
  exact .block hArm

/-- A loop whose body does not branch back is a block. -/
theorem loop {arity : Arity} (hBody : Leads functions fuel body (state.enter arity.takes) outcome)
    (hOnce : ∀ inner, outcome ≠ .branch 0 inner) :
    Leads functions fuel [.loop arity body] state (state.behindBlock arity outcome) := by
  by_cases hOut : outcome = .exhausted
  · subst hOut
    cases fuel with
    | zero => rfl
    | succ fuel =>
        change exec _ _ _ _ = _
        rw [exec_cons, Step.move, exec_exhausted (Nat.le_succ fuel) hBody]
        rfl
  · obtain ⟨enough, hRun⟩ := hBody.exists_exec hOut
    obtain ⟨less, rfl⟩ := exec_pos hRun hOut
    refine .of_exec (less + 2) ?_ ?_
    · rw [exec_cons, Step.move, hRun]
      cases outcome with
      | branch label inner =>
          cases label with
          | zero => exact absurd rfl (hOnce inner)
          | succ label => rfl
      | _ => rfl
    · exact state.behindBlock_ne_exhausted arity hOut

/-- A loop whose body branches back runs once more, with one unit of fuel less. -/
theorem loop_again {arity : Arity}
    (hBody : Leads functions (fuel + 1) body (state.enter arity.takes) (.branch 0 inner))
    (hAgain : Leads functions fuel [.loop arity body]
      (state.leave arity.takes arity.takes inner) outcome) :
    Leads functions (fuel + 1) [.loop arity body] state outcome := by
  by_cases hOut : outcome = .exhausted
  · subst hOut
    change exec _ _ _ _ = _
    rw [exec_cons, Step.move]
    rcases (hBody.less (Nat.le_succ fuel)).exec_eq_or with hSame | hBodyOut
    · rw [hSame]
      exact hAgain
    · rw [hBodyOut]
      rfl
  · obtain ⟨first, hFirst⟩ := hBody
    obtain ⟨second, hSecond⟩ := hAgain.exists_exec hOut
    refine .of_exec (first + second + 1) ?_ hOut
    rw [exec_cons, Step.move, exec_mono (Nat.le_add_right first second) (by rw [hFirst]; simp),
      hFirst]
    change exec functions (first + second) [.loop arity body] _ = outcome
    rw [exec_mono (Nat.le_add_left second first) (hSecond ▸ hOut), hSecond]

/-- A call runs the body of the function with one unit of fuel less. -/
theorem call (state : State) {function : Nat} {type : FuncType} {locals : List ValType}
    (hFunction : functions[function]? = some (.coded type locals body))
    (hBody : Leads functions fuel body (state.call type locals) outcome) :
    Leads functions (fuel + 1) [.call function] state (state.behindCall type outcome) := by
  by_cases hOut : outcome = .exhausted
  · subst hOut
    change exec _ _ _ _ = _
    rw [exec_cons, Step.move, hFunction]
    simp only
    rw [hBody]
    rfl
  · obtain ⟨enough, hRun⟩ := hBody.exists_exec hOut
    obtain ⟨less, rfl⟩ := exec_pos hRun hOut
    refine .of_exec (less + 2) ?_ ?_
    · rw [exec_cons, Step.move, hFunction]
      simp only
      rw [hRun]
      cases outcome with
      | branch label inner => cases label <;> rfl
      | _ => rfl
    · exact state.behindCall_ne_exhausted type hOut

end Leads

end RecordWasm.Machine
