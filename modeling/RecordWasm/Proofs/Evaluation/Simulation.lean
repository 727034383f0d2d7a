import RecordWasm.Proofs.Evaluation.Locals

/-!
# How code follows the evaluator

`Follows` says that the machine is where the evaluator is: behind a piece of code, on its way out of
a loop or of the function, or stopped.  `Simulates` says that code leads there, and has one rule for
every way in which code is put together.
-/

namespace RecordWasm.Evaluation

open Syntax Machine Wasm Lowering

/-- What an expression of a type leaves on the stack: its value, or nothing if it has none. -/
def Leaves (type : Ty) (value : Option Word) (values : List Value) : Prop :=
  match numType? type with
  | none => values = []
  | some kind => ∃ word, value = some word ∧ word.kind = kind ∧ values = [word.value]

theorem leaves_some {type : Ty} {word : Word} (hKind : numType? type = some word.kind) :
    Leaves type (some word) [word.value] := by
  rw [Leaves, hKind]
  exact ⟨word, rfl, rfl, rfl⟩

section Following

variable (store : Store)

/-- The machine is on its way out, like the evaluator. -/
inductive Exits (spot : Spot) (locals : List Value) {α : Type} : Ending α → Outcome → Prop where
  | leave {targets : LoopTargets} {extra rest : Scope} {after stack : List Value} :
      spot.context.loop = some targets → spot.Matches after rest → spot.Keeps locals after →
      Exits spot locals (.leave (extra ++ rest))
        (.branch (spot.context.frames - 1 - targets.leave) ⟨store, after, stack⟩)
  | again {targets : LoopTargets} {extra rest : Scope} {after stack : List Value} :
      spot.context.loop = some targets → spot.Matches after rest → spot.Keeps locals after →
      Exits spot locals (.again (extra ++ rest))
        (.branch (spot.context.frames - 1 - targets.next) ⟨store, after, stack⟩)
  | ret {value : Option Word} {values after stack : List Value} :
      Leaves spot.context.result value values →
      Exits spot locals (.ret value) (.ret ⟨store, after, values ++ stack⟩)
  | trap {cause : Trap} : Exits spot locals (.trap cause) (.trap cause store)
  | exhausted : Exits spot locals .exhausted .exhausted

/-- What a run is compared with: the spot and the locals that it starts with, the spot that it ends
behind, and where the machine gets to with a value. -/
structure Target (α : Type) where
  spot : Spot
  behind : Spot
  locals : List Value
  reaches : α → (after : List Value) → Outcome → Prop

/-- The machine is where the evaluator is. -/
inductive Follows {α : Type} (target : Target α) : Ending α → Outcome → Prop where
  | next {value : α} {vars : Scope} {after : List Value} {outcome : Outcome} :
      target.reaches value after outcome → target.behind.Matches after vars →
      target.spot.Keeps target.locals after → Follows target (.next value vars) outcome
  | exit {ending : Ending α} {outcome : Outcome} :
      Exits store target.spot target.locals ending outcome → Follows target ending outcome

/-- A run that gets to the end of its code, with some values on the stack. -/
def Target.falling {α : Type} (spot behind : Spot) (leaves : α → List Value → Prop)
    (locals stack : List Value) : Target α where
  spot := spot
  behind := behind
  locals := locals
  reaches := fun value after outcome =>
    ∃ values, leaves value values ∧ outcome = .next ⟨store, after, values ++ stack⟩

/-- Statements leave nothing on the stack. -/
def nothing (_ : Unit) (values : List Value) : Prop := values = []

/-- A run that ends with a branch, whose label depends on the value. -/
def Target.branching {α : Type} (spot : Spot) (locals : List Value)
    (label : α → Nat) : Target α where
  spot := spot
  behind := spot
  locals := locals
  reaches := fun value after outcome =>
    ∃ stack, outcome = .branch (label value) ⟨store, after, stack⟩

/-- How the body of a loop ends: with its last statement, or with a branch to a target of the
loop. -/
inductive BodyEnds (leave next : Nat) (after : List Value) : Bool → Outcome → Prop where
  | through : BodyEnds leave next after true (.next ⟨store, after, []⟩)
  | again {stack : List Value} : BodyEnds leave next after true (.branch next ⟨store, after, stack⟩)
  | leave {stack : List Value} :
      BodyEnds leave next after false (.branch leave ⟨store, after, stack⟩)

/-- The body of a loop, with the frames that its `break` and `continue` leave. -/
def Target.body (spot : Spot) (locals : List Value) (leave next : Nat) : Target Bool where
  spot := spot
  behind := spot
  locals := locals
  reaches := fun go after outcome => BodyEnds store (spot.context.frames - 1 - leave)
    (spot.context.frames - 1 - next) after go outcome

end Following

section Exits

variable {store : Store} {spot inner : Spot} {locals middle after : List Value} {α β : Type}
variable {ending : Ending α} {outcome : Outcome}

/-- The words of the names further out. -/
theorem Spot.Encloses.matches {vars : Scope} (hEncloses : spot.Encloses inner)
    (hMatches : inner.Matches after vars) :
    ∃ extra rest, vars = extra ++ rest ∧ spot.Matches after rest := by
  obtain ⟨names, labels, hScope, hLabels, hLength, -⟩ := hEncloses.names
  have hHolds := hMatches.holds
  have hSame := hMatches.labels
  rw [hScope] at hHolds
  rw [hLabels] at hSame
  obtain ⟨extra, rest, rfl, hExtra, hRest⟩ := List.map_eq_append_iff.1 hSame
  have hCount : names.length = extra.length := by rw [hLength, ← hExtra, List.length_map]
  refine ⟨extra, rest, rfl, hRest, ?_⟩
  have hDrop := List.forall₂_drop names.length hHolds
  rwa [List.drop_left, hCount, List.drop_left] at hDrop

theorem Exits.inside (hExits : Exits store inner middle ending outcome)
    (hInside : spot.Inside locals inner middle)
    (hFrames : inner.context.frames = spot.context.frames) :
    Exits store spot locals ending outcome := by
  cases hExits with
  | leave hLoop hMatches hKeeps =>
      obtain ⟨more, vars, rfl, hVars⟩ := hInside.toEncloses.matches hMatches
      rw [← List.append_assoc, hFrames]
      exact .leave (hInside.loop ▸ hLoop) hVars (hInside.keep hKeeps)
  | again hLoop hMatches hKeeps =>
      obtain ⟨more, vars, rfl, hVars⟩ := hInside.toEncloses.matches hMatches
      rw [← List.append_assoc, hFrames]
      exact .again (hInside.loop ▸ hLoop) hVars (hInside.keep hKeeps)
  | ret hLeaves => exact .ret (hInside.result ▸ hLeaves)
  | trap => exact .trap
  | exhausted => exact .exhausted

/-- Leaving one frame. -/
theorem Exits.frame (hExits : Exits store inner middle ending outcome)
    (hInside : spot.Inside locals inner middle)
    (hFrames : inner.context.frames = spot.context.frames + 1)
    (hTargets : spot.Reaches) (state : State) (arity : Arity) :
    Exits store spot locals ending (state.behindBlock arity outcome) := by
  cases hExits with
  | @leave targets _ _ _ _ hLoop hMatches hKeeps =>
      obtain ⟨more, vars, rfl, hVars⟩ := hInside.toEncloses.matches hMatches
      have hOuter := hInside.loop ▸ hLoop
      have hLabel : inner.context.frames - 1 - targets.leave =
          spot.context.frames - 1 - targets.leave + 1 := by
        have hLess := (hTargets targets hOuter).1
        omega
      rw [← List.append_assoc, hLabel]
      exact .leave hOuter hVars (hInside.keep hKeeps)
  | @again targets _ _ _ _ hLoop hMatches hKeeps =>
      obtain ⟨more, vars, rfl, hVars⟩ := hInside.toEncloses.matches hMatches
      have hOuter := hInside.loop ▸ hLoop
      have hLabel : inner.context.frames - 1 - targets.next =
          spot.context.frames - 1 - targets.next + 1 := by
        have hLess := (hTargets targets hOuter).2
        omega
      rw [← List.append_assoc, hLabel]
      exact .again hOuter hVars (hInside.keep hKeeps)
  | ret hLeaves => exact .ret (hInside.result ▸ hLeaves)
  | trap => exact .trap
  | exhausted => exact .exhausted

/-- What leaves a frame on its way out does not end there. -/
theorem Exits.ne_branch (hExits : Exits store spot.inFrame locals ending outcome)
    (hTargets : spot.Reaches) (state : State) : outcome ≠ .branch 0 state := by
  cases hExits with
  | leave hLoop | again hLoop =>
      obtain ⟨hLeave, hNext⟩ := hTargets _ hLoop
      simp only [Spot.inFrame, Context.inFrame, ne_eq, Outcome.branch.injEq, not_and]
      omega
  | ret | trap | exhausted =>
      intro hBranch
      cases hBranch

theorem Exits.ne_next (hExits : Exits store spot locals ending outcome) (state : State) :
    outcome ≠ .next state := by
  rintro rfl
  cases hExits

theorem Exits.bind (hExits : Exits store spot locals ending outcome)
    (step : α → Scope → Ending β) : Exits store spot locals (ending.bind step) outcome := by
  cases hExits with
  | leave hLoop hMatches hKeeps => exact .leave hLoop hMatches hKeeps
  | again hLoop hMatches hKeeps => exact .again hLoop hMatches hKeeps
  | ret hLeaves => exact .ret hLeaves
  | trap => exact .trap
  | exhausted => exact .exhausted

theorem outer_append (extra rest : Scope) : (extra ++ rest).outer rest.length = rest := by
  rw [Scope.outer, List.length_append, Nat.add_sub_cancel, List.drop_left]

theorem Spot.Matches.length {vars : Scope} (hMatches : spot.Matches locals vars) :
    vars.length = spot.labels.length := by
  rw [← hMatches.labels, List.length_map]

theorem Exits.within (hExits : Exits store spot locals ending outcome) {depth : Nat}
    (hDepth : depth = spot.labels.length) :
    Exits store spot locals (ending.within depth) outcome := by
  cases hExits with
  | leave hLoop hMatches hKeeps =>
      rw [Ending.within, hDepth, ← hMatches.length, outer_append]
      exact @Exits.leave _ _ _ _ _ [] _ _ _ hLoop hMatches hKeeps
  | again hLoop hMatches hKeeps =>
      rw [Ending.within, hDepth, ← hMatches.length, outer_append]
      exact @Exits.again _ _ _ _ _ [] _ _ _ hLoop hMatches hKeeps
  | ret hLeaves => exact .ret hLeaves
  | trap => exact .trap
  | exhausted => exact .exhausted

end Exits

theorem Ending.bind_next {α : Type} (ending : Ending α) : ending.bind .next = ending := by
  cases ending <;> rfl

/-! ## Simulating -/

/-- Steps lead from a state to where the evaluator is. -/
def Simulates (functions : Array Function) (fuel : Nat) (store : Store) {α : Type}
    (target : Target α) (steps : List Step) (state : State) (ending : Ending α) : Prop :=
  ∃ outcome, Leads functions fuel steps state outcome ∧ Follows store target ending outcome

namespace Simulates

variable {functions : Array Function} {fuel : Nat} {store : Store} {α β : Type}
variable {target : Target α} {front back rest : List Step} {state middle : State}
variable {ending : Ending α} {after values : List Value} {value : α} {vars : Scope}

/-- The end of the code. -/
theorem done {spot behind : Spot} {leaves : α → List Value → Prop} {locals stack : List Value}
    (hLeaves : leaves value values) (hMatches : behind.Matches after vars)
    (hKeeps : spot.Keeps locals after) :
    Simulates functions fuel store (.falling store spot behind leaves locals stack) []
      ⟨store, after, values ++ stack⟩ (.next value vars) :=
  ⟨_, .nil, .next ⟨values, hLeaves, rfl⟩ hMatches hKeeps⟩

theorem exit {outcome : Outcome} (hLeads : Leads functions fuel rest state outcome)
    (hExits : Exits store target.spot target.locals ending outcome) :
    Simulates functions fuel store target rest state ending :=
  ⟨outcome, hLeads, .exit hExits⟩

theorem step {opcode : Opcode} {immediate : Immediate}
    (hPerform : state.perform opcode immediate = .ok middle)
    (hRest : Simulates functions fuel store target rest middle ending) :
    Simulates functions fuel store target (.plain opcode immediate :: rest) state ending := by
  obtain ⟨outcome, hLeads, hFollows⟩ := hRest
  exact ⟨outcome, .then hPerform hLeads, hFollows⟩

theorem trap {opcode : Opcode} {immediate : Immediate} {cause : Trap} {locals stack : List Value}
    (hPerform : State.perform ⟨store, locals, stack⟩ opcode immediate = .error (.trap cause)) :
    Simulates functions fuel store target (.plain opcode immediate :: rest) ⟨store, locals, stack⟩
      (.trap cause) :=
  exit (@Leads.exit_append _ _ [.plain opcode immediate] _ _ _ (by simp) (.plain_trap hPerform))
    .trap

theorem unreachable {locals stack : List Value} :
    Simulates functions fuel store target (.unreachable :: rest) ⟨store, locals, stack⟩
      (.trap .unreachable) :=
  exit (@Leads.exit_append _ _ [.unreachable] _ _ _ (by simp) .unreachable) .trap

section Pieces

variable {spot behind : Spot} {locals stack : List Value}

/-- One piece of code behind another.  What leaves the first leaves both. -/
theorem bind {begun : Ending β} {leaves : β → List Value → Prop} {next : β → Scope → Ending α}
    (hFirst : Simulates functions fuel store (.falling store spot behind leaves locals stack) front
      ⟨store, locals, stack⟩ begun)
    (hInside : target.spot.Inside target.locals spot locals)
    (hFrames : spot.context.frames = target.spot.context.frames)
    (hRest : ∀ value vars after values, leaves value values → behind.Matches after vars →
      spot.Keeps locals after → target.spot.Keeps target.locals after →
      Simulates functions fuel store target back ⟨store, after, values ++ stack⟩
        (next value vars)) :
    Simulates functions fuel store target (front ++ back) ⟨store, locals, stack⟩
      (begun.bind next) := by
  obtain ⟨outcome, hLeads, hFollows⟩ := hFirst
  cases hFollows with
  | next hReaches hMatches hKeeps =>
      obtain ⟨values, hLeaves, rfl⟩ := hReaches
      obtain ⟨final, hBack, hFinal⟩ := hRest _ _ _ _ hLeaves hMatches hKeeps (hInside.keep hKeeps)
      exact ⟨final, hLeads.next_append hBack, hFinal⟩
  | exit hExits =>
      exact .exit (hLeads.exit_append hExits.ne_next) ((hExits.inside hInside hFrames).bind next)

/-- A value, and what is done with it. -/
theorem word {begun : Ending (Option Word)} {type : Ty} {next : Word → Scope → Ending α}
    (hFirst : Simulates functions fuel store
      (.falling store spot behind (Leaves type) locals stack) front ⟨store, locals, stack⟩ begun)
    (hSome : type.isVoid = false) (hInside : target.spot.Inside target.locals spot locals)
    (hFrames : spot.context.frames = target.spot.context.frames)
    (hRest : ∀ word vars after, numType? type = some word.kind → behind.Matches after vars →
      spot.Keeps locals after → target.spot.Keeps target.locals after →
      Simulates functions fuel store target back ⟨store, after, word.value :: stack⟩
        (next word vars)) :
    Simulates functions fuel store target (front ++ back) ⟨store, locals, stack⟩
      (begun.word next) := by
  refine hFirst.bind hInside hFrames
    fun value vars after values hLeaves hMatches hKeeps hWhole => ?_
  rw [Leaves] at hLeaves
  cases hKind : numType? type with
  | none => cases type <;> simp_all [numType?, Ty.isVoid]
  | some kind =>
      rw [hKind] at hLeaves
      obtain ⟨word, rfl, rfl, rfl⟩ := hLeaves
      exact hRest word vars after hKind hMatches hKeeps hWhole

/-- Code further in is code of the spot around. -/
theorem outward {inner : Spot} {leaves : α → List Value → Prop} {innerLocals : List Value}
    (hInner : Simulates functions fuel store (.falling store inner behind leaves innerLocals stack)
      back state ending)
    (hInside : spot.Inside locals inner innerLocals)
    (hFrames : inner.context.frames = spot.context.frames) :
    Simulates functions fuel store (.falling store spot behind leaves locals stack) back state
      ending := by
  obtain ⟨outcome, hLeads, hFollows⟩ := hInner
  refine ⟨outcome, hLeads, ?_⟩
  cases hFollows with
  | next hReaches hMatches hKeeps => exact .next hReaches hMatches (hInside.keep hKeeps)
  | exit hExits => exact .exit (hExits.inside hInside hFrames)

/-- Giving up the names that were bound inside. -/
theorem within {inner : Spot} {leaves : α → List Value → Prop} {slots : Slots} {depth : Nat}
    (hInner : Simulates functions fuel store (.falling store spot inner leaves locals stack)
      front state ending)
    (hEncloses : spot.Encloses inner) (hDepth : depth = spot.labels.length) :
    Simulates functions fuel store (.falling store spot (spot.later slots) leaves locals stack)
      front
      state (ending.within depth) := by
  obtain ⟨outcome, hLeads, hFollows⟩ := hInner
  refine ⟨outcome, hLeads, ?_⟩
  cases hFollows with
  | next hReaches hMatches hKeeps =>
      obtain ⟨extra, rest, rfl, hRest⟩ := hEncloses.matches hMatches
      rw [Ending.within, hDepth, ← hRest.length, outer_append]
      exact .next hReaches (hRest.reframe rfl rfl) hKeeps
  | exit hExits => exact .exit (hExits.within hDepth)

/-- Leaving a frame. -/
theorem frame {inner within : Spot} {leaves : α → List Value → Prop} {arity : Arity}
    {innerLocals : List Value}
    (hInner : Simulates functions fuel store (.falling store inner within leaves innerLocals [])
      back ⟨store, innerLocals, []⟩ ending)
    (hBehind : ∀ after vars, within.Matches after vars → behind.Matches after vars)
    (hArity : ∀ value values, leaves value values → values.length = arity.leaves)
    (hTakes : arity.takes = 0) (hInside : spot.Inside locals inner innerLocals)
    (hFrames : inner.context.frames = spot.context.frames + 1)
    (hTargets : spot.Reaches) :
    Simulates functions fuel store (.falling store spot behind leaves locals stack)
      [.block arity back] ⟨store, innerLocals, stack⟩ ending := by
  obtain ⟨outcome, hLeads, hFollows⟩ := hInner
  have hEnter : State.enter ⟨store, innerLocals, stack⟩ arity.takes = ⟨store, innerLocals, []⟩ := by
    rw [State.enter, hTakes, List.take_zero]
  have hBlock := @Leads.block functions fuel back ⟨store, innerLocals, stack⟩ outcome arity
    (hEnter ▸ hLeads)
  refine ⟨_, hBlock, ?_⟩
  cases hFollows with
  | next hReaches hMatches hKeeps =>
      obtain ⟨values, hLeaves, rfl⟩ := hReaches
      refine .next ⟨values, hLeaves, ?_⟩ (hBehind _ _ hMatches) (hInside.keep hKeeps)
      rw [State.behindBlock, State.leave, hTakes, ← hArity _ values hLeaves]
      simp
  | exit hExits => exact .exit (hExits.frame hInside hFrames hTargets _ arity)

end Pieces

/-- A conditional pops its condition and is then one of its arms. -/
theorem choose {word : Word} {arity : Arity} {yes no : List Step} {locals stack : List Value}
    (hKind : word.kind = .i32)
    (hArm : Simulates functions fuel store target [.block arity (if word.isTrue then yes else no)]
      ⟨store, locals, stack⟩ ending) :
    Simulates functions fuel store target [.choose arity yes no]
      ⟨store, locals, word.value :: stack⟩ ending := by
  obtain ⟨outcome, hLeads, hFollows⟩ := hArm
  refine ⟨outcome, ?_, hFollows⟩
  cases word with
  | i64 => cases hKind
  | i32 number =>
      refine @Leads.choose _ _ _ _ _ _ _ number.toUInt32 _ rfl ?_
      simp only [← Word.isTrue_iff]
      exact hLeads

/-- A branch that is taken only if a word is true. -/
theorem brIf {word : Word} {label : Nat} {locals stack : List Value} (hKind : word.kind = .i32)
    (hTaken : word.isTrue = true →
      Follows store target ending (.branch label ⟨store, locals, stack⟩))
    (hRest : word.isTrue = false →
      Simulates functions fuel store target rest ⟨store, locals, stack⟩ ending) :
    Simulates functions fuel store target (.brIf label :: rest) ⟨store, locals, word.value :: stack⟩
      ending := by
  cases word with
  | i64 => cases hKind
  | i32 number =>
      cases hTrue : (Word.i32 number).isTrue with
      | true =>
          have hBranch :=
            @Leads.brIf_taken functions fuel ⟨store, locals, .i32 number.toUInt32 :: stack⟩
              label _ stack rfl ((Word.isTrue_iff number).1 hTrue)
          exact ⟨_, hBranch.exit_append (by simp), hTaken hTrue⟩
      | false =>
          have hZero : number.toUInt32 = 0 := by
            rw [← Bool.not_eq_true, Word.isTrue_iff, not_not] at hTrue
            exact hTrue
          obtain ⟨outcome, hLeads, hFollows⟩ := hRest hTrue
          have hPassed :=
            @Leads.brIf_passed functions fuel ⟨store, locals, .i32 number.toUInt32 :: stack⟩
              label stack (by rw [hZero])
          exact ⟨outcome, hPassed.next_append hLeads, hFollows⟩

section Loops

variable {spot within : Spot} {start locals stack : List Value} {turn : Scope → Ending Bool}
variable {body inside : List Step}

/-- The label of a turn's end: the loop itself, or the block around it. -/
def turnLabel (go : Bool) : Nat := if go then 0 else 1

/-- A turn inside the two frames of a loop ends with the next turn or behind the loop.  What leaves
the turn otherwise leaves the loop. -/
theorem loop (hTargets : spot.Reaches)
    (hTurn : ∀ vars locals, spot.Matches locals vars → spot.Keeps start locals →
      Simulates functions fuel store (.branching store spot.inLoop start turnLabel) body
        ⟨store, locals, []⟩ (turn vars))
    {count : Nat} (hCount : count ≤ fuel) (hMatches : spot.Matches locals vars)
    (hKeeps : spot.Keeps start locals) :
    Simulates functions count store (.branching store spot.inFrame start fun _ => 0)
      [.loop ⟨0, 0⟩ body] ⟨store, locals, []⟩ (turns turn count vars) := by
  induction count generalizing vars locals with
  | zero => exact ⟨.exhausted, rfl, .exit .exhausted⟩
  | succ count ih =>
      have hOnce := hTurn vars locals hMatches hKeeps
      rw [turns]
      generalize turn vars = ending at hOnce
      obtain ⟨outcome, hLeads, hFollows⟩ := hOnce
      have hBody := hLeads.less hCount
      cases hFollows with
      | @next go _ after _ hReaches hAfter hKept =>
          obtain ⟨inner, rfl⟩ := hReaches
          have hSame : spot.Matches after _ := hAfter.reframe rfl rfl
          have hStill : spot.Keeps start after := hKept.reframe rfl (Nat.le_refl _)
          cases go with
          | true =>
              obtain ⟨final, hLast, hFinal⟩ := ih (Nat.le_of_succ_le hCount) hSame hStill
              exact ⟨final, .loop_again hBody hLast, hFinal⟩
          | false =>
              refine ⟨_, .loop hBody (by simp [turnLabel]), .next ⟨inner, rfl⟩ ?_ ?_⟩
              · exact hSame.reframe rfl rfl
              · exact hStill.reframe rfl (Nat.le_refl _)
      | exit hExits =>
          have hInside : spot.inFrame.Inside start spot.inLoop start :=
            (Spot.Inside.refl _ _).inFrame
          exact exit (.loop hBody (hExits.ne_branch hTargets.inFrame))
            ((hExits.frame hInside rfl hTargets.inFrame _ _).bind _)

/-- The two frames of a loop around its turns. -/
theorem looped (hTargets : spot.Reaches)
    (hTurn : ∀ vars locals, spot.Matches locals vars → spot.Keeps start locals →
      Simulates functions fuel store (.branching store spot.inLoop start turnLabel)
        (inside ++ [.br 0]) ⟨store, locals, []⟩ (turn vars))
    (hMatches : spot.Matches locals vars) (hKeeps : spot.Keeps start locals) (slots : Slots) :
    Simulates functions fuel store (.falling store spot (spot.later slots) nothing start stack)
      (loopSteps inside) ⟨store, locals, stack⟩ (turns turn fuel vars) := by
  have hLoop := loop hTargets hTurn (Nat.le_refl fuel) hMatches hKeeps
  generalize turns turn fuel vars = ending at hLoop
  obtain ⟨outcome, hLeads, hFollows⟩ := hLoop
  have hBlock := @Leads.block functions fuel _ ⟨store, locals, stack⟩ outcome ⟨0, 0⟩ hLeads
  refine ⟨_, hBlock, ?_⟩
  cases hFollows with
  | next hReaches hAfter hKept =>
      obtain ⟨inner, rfl⟩ := hReaches
      exact .next ⟨[], rfl, rfl⟩ (hAfter.reframe rfl rfl) (hKept.reframe rfl (Nat.le_refl _))
  | exit hExits => exact .exit (hExits.frame (Spot.Inside.refl _ _).inFrame rfl hTargets _ _)

/-- The end of the body of a loop tells whether there is another turn. -/
theorem bodied {ending : Ending Unit} {leave next : Nat} {slots : Slots}
    (hBody : Simulates functions fuel store
      (.falling store ((spot.later slots).looping leave next) within nothing locals []) inside
      ⟨store, locals, []⟩ ending)
    (hWithin : ((spot.later slots).looping leave next).Encloses within)
    (hSlots : spot.before.size ≤ slots.size) (hKeeps : spot.Keeps start locals)
    {depth : Nat} (hDepth : depth = spot.labels.length) :
    Simulates functions fuel store (.body store spot start leave next) inside ⟨store, locals, []⟩
      (ending.turn depth) := by
  obtain ⟨outcome, hLeads, hFollows⟩ := hBody
  refine ⟨outcome, hLeads, ?_⟩
  have hKept {after : List Value}
      (hBody : ((spot.later slots).looping leave next).Keeps locals after) :
      spot.Keeps start after :=
    Spot.Inside.keep ⟨.refl spot, hKeeps⟩ (hBody.reframe rfl hSlots)
  have hOuter {after : List Value} {extra rest : Scope}
      (hMatches : ((spot.later slots).looping leave next).Matches after rest) :
      (extra ++ rest).outer depth = rest := by
    rw [hDepth, ← @Spot.Matches.length spot after rest (hMatches.reframe rfl rfl), outer_append]
  cases hFollows with
  | next hReaches hMatches hBody =>
      obtain ⟨values, rfl, rfl⟩ := hReaches
      obtain ⟨extra, rest, rfl, hRest⟩ := hWithin.matches hMatches
      rw [Ending.turn, hOuter hRest]
      exact .next .through (hRest.reframe rfl rfl) (hKept hBody)
  | exit hExits =>
      cases hExits with
      | leave hLoop hMatches hBody =>
          cases hLoop
          rw [Ending.turn, hOuter hMatches]
          exact .next .leave (hMatches.reframe rfl rfl) (hKept hBody)
      | again hLoop hMatches hBody =>
          cases hLoop
          rw [Ending.turn, hOuter hMatches]
          exact .next .again (hMatches.reframe rfl rfl) (hKept hBody)
      | ret hLeaves => exact .exit (.ret hLeaves)
      | trap => exact .exit .trap
      | exhausted => exact .exit .exhausted

/-- The body of a loop, and the branch to its next turn. -/
theorem turned {go : Ending Bool}
    (hBody : Simulates functions fuel store
      (.body store spot.inLoop start spot.context.frames (spot.context.frames + 1)) inside
      ⟨store, locals, []⟩ go) :
    Simulates functions fuel store (.branching store spot.inLoop start turnLabel)
      (inside ++ [.br 0])
      ⟨store, locals, []⟩ go := by
  have hLeave : spot.inLoop.context.frames - 1 - spot.context.frames = 1 := by
    simp only [Spot.inLoop, Spot.inFrame, Context.inFrame]
    omega
  have hNext : spot.inLoop.context.frames - 1 - (spot.context.frames + 1) = 0 := by
    simp only [Spot.inLoop, Spot.inFrame, Context.inFrame]
    omega
  obtain ⟨outcome, hLeads, hFollows⟩ := hBody
  cases hFollows with
  | next hReaches hMatches hKeeps =>
      simp only [Target.body, hLeave, hNext] at hReaches
      cases hReaches with
      | through => exact ⟨_, hLeads.next_append .br, .next ⟨_, rfl⟩ hMatches hKeeps⟩
      | again => exact ⟨_, hLeads.exit_append (by simp), .next ⟨_, rfl⟩ hMatches hKeeps⟩
      | leave => exact ⟨_, hLeads.exit_append (by simp), .next ⟨_, rfl⟩ hMatches hKeeps⟩
  | exit hExits => exact ⟨_, hLeads.exit_append hExits.ne_next, .exit hExits⟩

/-- The body of a counting loop stands in a frame of its own, behind which the counter is raised. -/
theorem counted {go : Ending Bool} {next : Bool → Scope → Ending Bool} {rest : List Step}
    (hTargets : spot.Reaches)
    (hBody : Simulates functions fuel store
      (.body store spot.inLoop.inFrame start spot.context.frames (spot.context.frames + 2)) inside
      ⟨store, locals, []⟩ go)
    (hOver : ∀ vars, next false vars = .next false vars)
    (hRest : ∀ vars after, spot.Matches after vars → spot.Keeps start after →
      Simulates functions fuel store (.branching store spot.inLoop start turnLabel) rest
        ⟨store, after, []⟩ (next true vars)) :
    Simulates functions fuel store (.branching store spot.inLoop start turnLabel)
      (.block ⟨0, 0⟩ inside :: rest) ⟨store, locals, []⟩ (go.bind next) := by
  have hLeave : spot.inLoop.inFrame.context.frames - 1 - spot.context.frames = 2 := by
    simp only [Spot.inLoop, Spot.inFrame, Context.inFrame]
    omega
  have hNext : spot.inLoop.inFrame.context.frames - 1 - (spot.context.frames + 2) = 0 := by
    simp only [Spot.inLoop, Spot.inFrame, Context.inFrame]
    omega
  obtain ⟨outcome, hLeads, hFollows⟩ := hBody
  have hBlock := @Leads.block functions fuel _ ⟨store, locals, []⟩ outcome ⟨0, 0⟩ hLeads
  cases hFollows with
  | @next _ vars after _ hReaches hMatches hKeeps =>
      simp only [Target.body, hLeave, hNext] at hReaches
      have hSame : spot.Matches after vars := hMatches.reframe rfl rfl
      have hKept : spot.Keeps start after := hKeeps.reframe rfl (Nat.le_refl _)
      cases hReaches with
      | through | again =>
          obtain ⟨final, hLast, hFinal⟩ := hRest vars after hSame hKept
          exact ⟨final, hBlock.next_append hLast, hFinal⟩
      | leave =>
          rw [Ending.bind, hOver]
          exact ⟨_, hBlock.exit_append (by simp [State.behindBlock]),
            .next ⟨_, rfl⟩ (hSame.reframe rfl rfl) (hKept.reframe rfl (Nat.le_refl _))⟩
  | exit hExits =>
      have hOut := hExits.frame (Spot.Inside.refl _ start).inFrame rfl hTargets.inFrame.inFrame
        ⟨store, locals, []⟩ ⟨0, 0⟩
      exact exit (hBlock.exit_append hOut.ne_next) (hOut.bind next)

end Loops

end Simulates

end RecordWasm.Evaluation
