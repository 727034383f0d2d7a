import RecordWasm.Proofs.Evaluation.Locals
import RecordWasm.Proofs.Lowering.Scopes
import Mathlib.Data.Int.Range

/-!
# The turns of a range

The body of a range runs once for every integer from the lower bound up to the upper one, in order
and without the upper one itself.  This holds for every body that does not assign the variable and
whose turns come to their end or to a `continue`.  The counter does not wrap, since it is raised
only below the limit, and the limit is computed once.
-/

namespace RecordWasm.Lowering.Loop

open Wasm Machine

/-- The steps of a range, told those of its parts. -/
def steps (loop : Loop) (lower upper inside : List Step) : List Step :=
  lower ++ .plain .localSet (.local loop.counter.index) :: upper ++
    .plain .localSet (.local loop.limit.index) ::
      loopSteps (turnSteps loop.type loop.counter.index loop.limit.index inside)

variable {loop : Loop}

theorem reads_steps {types : List FuncType} {lower upper inside : List Step}
    (hLower : Reads types loop.lower lower) (hUpper : Reads types loop.upper upper)
    (hInside : Reads types loop.inside inside) :
    Reads types loop.code (loop.steps lower upper inside) :=
  reads_range loop.context hLower hUpper hInside

namespace Compiled

/-- What a name other than the variable means has a slot from before the range. -/
theorem lookup_counting (hCompiled : loop.Compiled) {name : String} {slot : Slot}
    (hLookup : loop.counting.lookup? name = some slot) :
    name = loop.range.var ∧ slot = loop.counter ∨ slot.index.toNat < loop.slots.size := by
  rw [Loop.counting, Context.lookup?_bind] at hLookup
  split at hLookup
  · rename_i hVar
    cases hLookup
    exact .inl ⟨hVar.symm, rfl⟩
  · obtain ⟨entry, hEntry, hSame⟩ := Context.mem_of_lookup? hLookup
    exact .inr (hSame ▸ hCompiled.settled.scope entry hEntry)

/-- Code where the variable is bound writes the locals of the range at most under its name. -/
theorem unwritten (hCompiled : loop.Compiled) {before after : Slots} {judgement : Judgement}
    {index : UInt32} (hDerives : Derives before judgement after) (hRoom : after.size ≤ 2 ^ 32)
    (hScope : judgement.context.scope = loop.counting.scope) (hNew : loop.slots.size ≤ index.toNat)
    (hOld : index.toNat < before.size)
    (hVar : index = loop.counter.index → loop.range.var ∉ judgement.assigned) :
    Use.writes index ∉ uses judgement.code := by
  intro hWrites
  rcases hDerives.using hRoom _ hWrites with hLater | ⟨name, hName, slot, hLookup, hSame⟩
  · exact absurd hLater.1 (Nat.not_le.2 hOld)
  · rw [Context.lookup?, hScope] at hLookup
    rcases hCompiled.lookup_counting hLookup with ⟨rfl, rfl⟩ | hLess
    · exact hVar hSame.symm hName
    · rw [hSame] at hLess
      exact absurd hNew (Nat.not_le.2 hLess)

/-- A body that does not assign the variable leaves the counter alone. -/
theorem counter_unwritten (hCompiled : loop.Compiled)
    (hFree : loop.range.var ∉ stmtsAssigned loop.range.body []) :
    Use.writes loop.counter.index ∉ uses loop.inside := by
  have hSizes := hCompiled.sizes
  have hCounter := hCompiled.toNat_counter
  obtain ⟨_, hBody⟩ := hCompiled.body
  exact hCompiled.unwritten hBody hCompiled.room rfl (by omega) (by rw [Slots.size_push]; omega)
    fun _ => hFree

theorem limit_unwritten (hCompiled : loop.Compiled) :
    Use.writes loop.limit.index ∉ uses loop.inside := by
  have hSizes := hCompiled.sizes
  have hCounter := hCompiled.toNat_counter
  have hLimit := hCompiled.toNat_limit
  obtain ⟨_, hBody⟩ := hCompiled.body
  refine hCompiled.unwritten hBody hCompiled.room rfl (by omega) (by rw [Slots.size_push]; omega)
    fun hSame => ?_
  rw [hSame] at hLimit
  omega

/-- So does an upper bound that does not assign the variable. -/
theorem counter_unwritten_upper (hCompiled : loop.Compiled)
    (hFree : loop.range.var ∉ exprAssigned loop.range.stop) :
    Use.writes loop.counter.index ∉ uses loop.upper := by
  have hSizes := hCompiled.sizes
  have hRoom := hCompiled.room
  have hCounter := hCompiled.toNat_counter
  exact hCompiled.unwritten hCompiled.stop (by omega) rfl (by omega)
    (by rw [Slots.size_push]; omega) fun _ => hFree

end Compiled

end RecordWasm.Lowering.Loop

namespace RecordWasm.Evaluation

open Syntax Machine Wasm Lowering

/-- A body has come to its end, or has left the block around it, which is where a `continue`
leads. -/
def Ends (functions : Array Function) (body : List Step) (state inner : State) : Prop :=
  ∃ fuel, exec functions fuel body (state.enter 0) = .next inner ∨
    exec functions fuel body (state.enter 0) = .branch 0 inner

/-- Turns one after the other, with the integers that the counter holds when they start.  Behind
each of them the counter holds one more. -/
inductive Turns (functions : Array Function) (counter : UInt32) (body : List Step) :
    State → List Int → State → Prop where
  | none {state : State} : Turns functions counter body state [] state
  | turn {state inner last : State} {word next : Word} {rest : List Int} :
      state.locals[counter.toNat]? = some word.value → Ends functions body state inner →
      next.kind = word.kind → next.toInt = word.toInt + 1 →
      Turns functions counter body
        ⟨inner.store, inner.locals.set counter.toNat next.value, state.stack⟩ rest last →
      Turns functions counter body state (word.toInt :: rest) last

section Turns

variable {functions : Array Function} {body : List Step} {state inner last : State}

theorem Turns.stack {counter : UInt32} {turns : List Int}
    (hTurns : Turns functions counter body state turns last) : last.stack = state.stack := by
  induction hTurns with
  | none => rfl
  | turn _ _ _ _ _ ih => exact ih

theorem Ends.changes (hEnds : Ends functions body state inner) :
    Changes (stepsWrites body) state.locals inner.locals := by
  obtain ⟨fuel, hRun⟩ := hEnds
  have hChanges := exec_changes functions fuel body (state.enter 0)
  rcases hRun with hNext | hBranch
  · rw [hNext] at hChanges
    exact hChanges
  · rw [hBranch] at hChanges
    exact hChanges

/-- The block around a body is left in both cases. -/
theorem Ends.leads (hEnds : Ends functions body state inner) (fuel : Nat) :
    Leads functions fuel [.block ⟨0, 0⟩ body] state
      (.next ⟨inner.store, inner.locals, state.stack⟩) := by
  obtain ⟨enough, hNext | hBranch⟩ := hEnds
  · exact (@Leads.block _ _ _ state _ ⟨0, 0⟩ (.of_exec enough hNext nofun) :)
  · exact (@Leads.block _ _ _ state _ ⟨0, 0⟩ (.of_exec enough hBranch nofun) :)

end Turns

theorem range_eq_nil {low high : Int} (hReached : high ≤ low) : Int.range low high = [] := by
  rw [Int.range, Int.toNat_of_nonpos (by omega)]
  rfl

theorem range_eq_cons {low high : Int} (hBelow : low < high) :
    Int.range low high = low :: Int.range (low + 1) high := by
  have hCount : (high - low).toNat = (high - (low + 1)).toNat + 1 := by omega
  rw [Int.range, Int.range, hCount, List.range_succ_eq_map, List.map_cons, List.map_map]
  refine congrArg₂ _ (by simp) (List.map_congr_left fun turn _ => ?_)
  simp only [Function.comp_apply, Nat.succ_eq_add_one]
  omega

/-- A word below another one of its type has a successor. -/
theorem toInt_raised {word bound : Word} (hKind : word.kind = bound.kind)
    (hBelow : word.toInt < bound.toInt) : (word.wrap (word.toInt + 1)).toInt = word.toInt + 1 := by
  cases word with
  | i32 number =>
      cases bound with
      | i64 => cases hKind
      | i32 other =>
          have hLow := number.le_toInt
          have hHigh := other.toInt_lt
          simp only [Word.toInt] at hBelow ⊢
          exact Int32.toInt_ofInt_of_le (by omega) (by omega)
  | i64 number =>
      cases bound with
      | i32 => cases hKind
      | i64 other =>
          have hLow := number.le_toInt
          have hHigh := other.toInt_lt
          simp only [Word.toInt] at hBelow ⊢
          exact Int64.toInt_ofInt_of_le (by omega) (by omega)

section Counting

variable {functions : Array Function} {fuel : Nat} {counter limit : Slot} {body : List Step}
variable {store : Store} {locals stack : List Value} {word bound : Word}

/-- The loop is left if and only if the counter has reached the limit. -/
theorem limit_leads (hInteger : counter.type.isInteger = true) (hType : limit.type = counter.type)
    (hCounter : Holds locals counter word) (hLimit : Holds locals limit bound) :
    Leads functions fuel (limitSteps counter.type counter.index limit.index) ⟨store, locals, stack⟩
      (if word.toInt < bound.toInt then .next ⟨store, locals, stack⟩
        else .branch 1 ⟨store, locals, stack⟩) := by
  have hOp : operator? counter.type ">=" = some (.compareInt (intWidth counter.type) .geS) :=
    operator?_integer hInteger ">="
  have hCompare :=
    @perform_apply store locals stack _ _ _ _ _ hOp hCounter.kind (hType ▸ hLimit.kind)
  refine (Leads.plain (perform_localGet hCounter.value)).next_append ((Leads.plain
    (perform_localGet hLimit.value)).next_append ((Leads.plain hCompare).next_append ?_))
  split
  · rename_i hBelow
    exact Leads.brIf_passed (by simp [hBelow, Value.ofBool])
  · rename_i hReached
    have hStack : (Word.ofBool (decide (word.toInt ≥ bound.toInt))).value :: stack =
        .i32 1 :: stack := by simp [not_lt.1 hReached, Value.ofBool]
    exact Leads.brIf_taken hStack (by decide)

theorem raise_leads (hInteger : counter.type.isInteger = true)
    (hCounter : Holds locals counter word) :
    Leads functions fuel (raiseSteps counter.type counter.index) ⟨store, locals, stack⟩
      (.next ⟨store, locals.set counter.index.toNat (word.wrap (word.toInt + 1)).value,
        stack⟩) := by
  have hOp : operator? counter.type "+" = some (.int (intWidth counter.type) .add) :=
    operator?_integer hInteger "+"
  have hOne := numType?_literal (isWordType_of_isInteger hInteger) 1
  obtain ⟨opcode, immediate, hStep, hPush⟩ := constStep_eq hOne
  have hAdd := @perform_apply store locals stack _ _ _ _ _ hOp hCounter.kind hOne
  rw [apply_one] at hAdd
  have hType : word.value.type = (word.wrap (word.toInt + 1)).value.type := by
    rw [Word.type_value, Word.type_value, Word.kind_wrap]
  rw [raiseSteps, hStep]
  exact (Leads.plain (perform_localGet hCounter.value)).next_append ((Leads.plain
    (hPush _ _ _)).next_append ((Leads.plain hAdd).next_append
    (Leads.plain (perform_localSet hCounter.value hType))))

/-- A turn below the limit goes back to the start of the loop. -/
theorem turn_leads {inner : State} (hInteger : counter.type.isInteger = true)
    (hType : limit.type = counter.type) (hUnwritten : counter.index ∉ stepsWrites body)
    (hCounter : Holds locals counter word) (hLimit : Holds locals limit bound)
    (hBelow : word.toInt < bound.toInt) (hEnds : Ends functions body ⟨store, locals, stack⟩ inner) :
    Leads functions fuel (turnSteps counter.type counter.index limit.index body ++ [.br 0])
      ⟨store, locals, stack⟩ (.branch 0 ⟨inner.store,
        inner.locals.set counter.index.toNat (word.wrap (word.toInt + 1)).value, stack⟩) := by
  have hTest :=
    @limit_leads functions fuel counter limit store locals stack word bound hInteger hType
      hCounter hLimit
  rw [if_pos hBelow] at hTest
  have hStill : Holds inner.locals counter word :=
    ⟨hCounter.kind, (hEnds.changes.values _ hUnwritten).trans hCounter.value⟩
  have hTurn := hTest.next_append ((hEnds.leads fuel).next_append (raise_leads hInteger hStill))
  exact hTurn.next_append .br

/-- From the counter up to the limit there is one turn for each integer. -/
theorem loop_leads (hInteger : counter.type.isInteger = true) (hType : limit.type = counter.type)
    (hApart : limit.index.toNat ≠ counter.index.toNat)
    (hUnwritten : counter.index ∉ stepsWrites body) (hKept : limit.index ∉ stepsWrites body)
    (hCounter : Holds locals counter word) (hLimit : Holds locals limit bound)
    (hEnds : ∀ turns reached, Turns functions counter.index body
      ⟨store, locals, stack⟩ turns reached →
      turns.length < (Int.range word.toInt bound.toInt).length →
      ∃ inner, Ends functions body reached inner) :
    ∃ last, Turns functions counter.index body ⟨store, locals, stack⟩
        (Int.range word.toInt bound.toInt) last ∧
      Leads functions fuel
        [.loop ⟨0, 0⟩ (turnSteps counter.type counter.index limit.index body ++ [.br 0])]
        ⟨store, locals, []⟩ (.branch 0 ⟨last.store, last.locals, []⟩) := by
  -- The induction is on the integers that are left, since the counter itself goes up.
  induction hLeft : (bound.toInt - word.toInt).toNat generalizing word store locals with
  | zero =>
      have hReached : bound.toInt ≤ word.toInt := by omega
      have hTest :=
        @limit_leads functions fuel counter limit store locals [] word bound hInteger hType
          hCounter hLimit
      rw [if_neg (not_lt.2 hReached)] at hTest
      rw [range_eq_nil hReached]
      have hLeaves : Leads functions fuel
          (turnSteps counter.type counter.index limit.index body ++ [.br 0]) ⟨store, locals, []⟩
          (.branch 1 ⟨store, locals, []⟩) := by
        rw [turnSteps, List.append_assoc]
        exact .exit_append (by simp) hTest
      exact ⟨_, .none, (@Leads.loop _ _ _ ⟨store, locals, []⟩ _ ⟨0, 0⟩ hLeaves (by simp) :)⟩
  | succ left ih =>
      have hBelow : word.toInt < bound.toInt := by omega
      have hSameKind : word.kind = bound.kind :=
        Option.some.inj (hCounter.kind.symm.trans (hType ▸ hLimit.kind))
      have hNext := toInt_raised hSameKind hBelow
      have hNextKind := word.kind_wrap (word.toInt + 1)
      rw [range_eq_cons hBelow] at hEnds ⊢
      obtain ⟨inner, hInner⟩ := hEnds [] _ .none (Nat.succ_pos _)
      have hChanges := hInner.changes
      have hOld := (hChanges.values _ hUnwritten).trans hCounter.value
      have hFilled := @filled_set _ _ (word.wrap (word.toInt + 1)) _ hOld
        (hNextKind ▸ hCounter.kind) (by rw [Word.type_value, hNextKind])
      have hStill : Holds inner.locals limit bound :=
        ⟨hLimit.kind, (hChanges.values _ hKept).trans hLimit.value⟩
      obtain ⟨last, hTurns, hLeads⟩ := ih hFilled.holds (hFilled.keeps_holds hStill hApart) (by
        intro turns reached hTurns hFew
        rw [hNext] at hFew
        exact hEnds _ reached (.turn hCounter.value hInner hNextKind hNext hTurns)
          (Nat.succ_lt_succ hFew)) (by omega)
      rw [hNext] at hTurns
      refine ⟨last, .turn hCounter.value hInner hNextKind hNext hTurns, ?_⟩
      have hTurn :=
        @turn_leads functions (fuel + 1) counter limit body store locals [] word bound inner
          hInteger hType hUnwritten hCounter hLimit hBelow hInner
      exact (Leads.loop_again hTurn hLeads).any (by simp)

theorem range_leads {state : State} (hInteger : counter.type.isInteger = true)
    (hType : limit.type = counter.type) (hApart : limit.index.toNat ≠ counter.index.toNat)
    (hUnwritten : counter.index ∉ stepsWrites body) (hKept : limit.index ∉ stepsWrites body)
    (hCounter : Holds state.locals counter word) (hLimit : Holds state.locals limit bound)
    (hEnds : ∀ turns reached, Turns functions counter.index body state turns reached →
      turns.length < (Int.range word.toInt bound.toInt).length →
      ∃ inner, Ends functions body reached inner) :
    ∃ last, Turns functions counter.index body state (Int.range word.toInt bound.toInt) last ∧
      Leads functions fuel (loopSteps (turnSteps counter.type counter.index limit.index body)) state
        (.next last) := by
  obtain ⟨last, hTurns, hLoop⟩ :=
    @loop_leads functions fuel counter limit body state.store state.locals
      state.stack word bound hInteger hType hApart hUnwritten hKept hCounter hLimit hEnds
  have hBlock := @Leads.block functions fuel _ state _ ⟨0, 0⟩ hLoop
  have hLast : last = ⟨last.store, last.locals, state.stack⟩ := by rw [← hTurns.stack]
  exact ⟨last, hTurns, hLast ▸ hBlock⟩

end Counting

/-! ## Compiled ranges -/

/-- The bounds of a range have been computed, one after the other, and put into its two locals. -/
inductive Opens (functions : Array Function) (loop : Loop) (lower upper : List Step)
    (state : State) :
    Word → Word → State → Prop where
  | both {store later : Store} {locals others : List Value} {first bound : Word} :
      numType? loop.type = some first.kind → numType? loop.type = some bound.kind →
      (∃ fuel, exec functions fuel lower state =
        .next ⟨store, locals, first.value :: state.stack⟩) →
      (∃ fuel, exec functions fuel upper
          ⟨store, locals.set loop.counter.index.toNat first.value, state.stack⟩ =
        .next ⟨later, others, bound.value :: state.stack⟩) →
      Opens functions loop lower upper state first bound
        ⟨later, others.set loop.limit.index.toNat bound.value, state.stack⟩

section Compiled

variable {functions : Array Function} {loop : Loop} {types : List FuncType}
variable {lower upper inside : List Step} {state opening : State} {first bound : Word}

theorem Opens.stack (hOpens : Opens functions loop lower upper state first bound opening) :
    opening.stack = state.stack := by
  cases hOpens
  rfl

/-- Where the turns start, both locals of a range hold words.  The counter holds the lower bound,
unless the upper one has assigned it. -/
theorem Opens.holds (hOpens : Opens functions loop lower upper state first bound opening)
    (fuel : Nat) (hCompiled : loop.Compiled) (hUpper : Reads types loop.upper upper)
    (hRoomy : Roomy loop.after state.locals) :
    ∃ word, Holds opening.locals loop.counter word ∧ Holds opening.locals loop.limit bound ∧
      (loop.range.var ∉ exprAssigned loop.range.stop → word = first) ∧
      Leads functions fuel (lower ++ .plain .localSet (.local loop.counter.index) :: upper ++
        [.plain .localSet (.local loop.limit.index)]) state (.next opening) := by
  obtain ⟨_, hBody⟩ := hCompiled.body
  have hLimitRoom := hRoomy.before hBody.grows
  have hCounterRoom := hLimitRoom.before (hCompiled.stop.grows.trans (.push _ _))
  have hSizes := hCompiled.sizes
  have hApart : loop.counter.index.toNat ≠ loop.limit.index.toNat := by
    rw [hCompiled.toNat_counter, hCompiled.toNat_limit]
    omega
  cases hOpens with
  | @both store later locals others first bound hFirst hBound hLower hUpperRun =>
      obtain ⟨enough, hLower⟩ := hLower
      obtain ⟨more, hUpperRun⟩ := hUpperRun
      have hBefore := exec_changes functions enough lower state
      have hBetween := exec_changes functions more upper
        ⟨store, locals.set loop.counter.index.toNat first.value, state.stack⟩
      rw [hLower] at hBefore
      rw [hUpperRun] at hBetween
      obtain ⟨hFilled, hSet⟩ := (hCounterRoom.keep hBefore.types).set hFirst
      have hTypes := hBetween.types.trans (hFilled.types.trans hBefore.types)
      obtain ⟨hLimited, hSetLimit⟩ := (hLimitRoom.keep hTypes).set hBound
      obtain ⟨hIndex, old, hOld, hType⟩ := (hCounterRoom.keep hTypes).next
      rw [← hIndex] at hOld
      rw [hFirst, Option.getD_some] at hType
      obtain ⟨word, rfl⟩ := Word.exists_value hCompiled.integer (hType ▸ hFirst)
      have hHolds : Holds others loop.counter word :=
        ⟨(Word.type_value word ▸ hType) ▸ hFirst, hOld⟩
      refine ⟨word, hLimited.keeps_holds hHolds hApart, hLimited.holds, fun hFree => ?_, ?_⟩
      · have hKept := hBetween.values _ (hUpper.writes (hCompiled.counter_unwritten_upper hFree))
        have hSame := hOld.symm.trans (hKept.trans hFilled.holds.value)
        exact Word.value_injective (Option.some.inj hSame)
      · have hStart := (@Leads.of_exec functions fuel _ _ _ enough hLower nofun).next_append
          (.plain (hSet store state.stack))
        have hStop := (@Leads.of_exec functions fuel _ _ _ more hUpperRun nofun).next_append
          (.plain (hSetLimit later state.stack))
        simpa [Loop.counter, Loop.limit] using hStart.next_append hStop

/-- From the computed bounds on, a range makes its turns and is left. -/
theorem Opens.counts (hOpens : Opens functions loop lower upper state first bound opening)
    (fuel : Nat) (hCompiled : loop.Compiled) (hUpper : Reads types loop.upper upper)
    (hInside : Reads types loop.inside inside) (hRoomy : Roomy loop.after state.locals)
    (hFree : loop.range.var ∉ stmtsAssigned loop.range.body []) :
    ∃ word, Holds opening.locals loop.counter word ∧
      (loop.range.var ∉ exprAssigned loop.range.stop → word = first) ∧
      ((∀ turns reached, Turns functions loop.counter.index inside opening turns reached →
          turns.length < (Int.range word.toInt bound.toInt).length →
          ∃ inner, Ends functions inside reached inner) →
        ∃ last, Turns functions loop.counter.index inside opening
            (Int.range word.toInt bound.toInt) last ∧
          Leads functions fuel (loop.steps lower upper inside) state (.next last)) := by
  obtain ⟨word, hCounter, hLimit, hSame, hLeads⟩ := hOpens.holds fuel hCompiled hUpper hRoomy
  refine ⟨word, hCounter, hSame, fun hEnds => ?_⟩
  have hSizes := hCompiled.sizes
  have hApart : loop.limit.index.toNat ≠ loop.counter.index.toNat := by
    rw [hCompiled.toNat_counter, hCompiled.toNat_limit]
    omega
  have hType : loop.limit.type = loop.counter.type := rfl
  obtain ⟨last, hTurns, hLoop⟩ := range_leads hCompiled.integer hType hApart
    (hInside.writes (hCompiled.counter_unwritten hFree)) (hInside.writes hCompiled.limit_unwritten)
    hCounter hLimit hEnds
  refine ⟨last, hTurns, ?_⟩
  have hAll := hLeads.next_append hLoop
  rwa [List.append_assoc] at hAll

end Compiled

/-- The code of an integer is its constant. -/
theorem code_int {slots after : Slots} {context : Context} {type : Ty} {tag : Tag} {number : Int64}
    {code : Code} (hInteger : type.isInteger = true)
    (hDerives : Derives slots (.value context type (.int tag number) code) after) :
    code = [constInt type number] := by
  cases hDerives with
  | value hExpr _ =>
      cases hExpr with
      | int hType =>
          subst hType
          cases type <;> first | rfl | cases hInteger

theorem opens_constants {functions : Array Function} {loop : Loop}
    (hInteger : loop.type.isInteger = true) (low high : Int64) (state : State) : ∃ opening,
      Opens functions loop [constStep loop.type low] [constStep loop.type high] state
        (.literal loop.type low) (.literal loop.type high) opening := by
  have hWord := isWordType_of_isInteger hInteger
  have hConstant (number : Int64) (store : Store) (locals stack : List Value) :
      ∃ fuel, exec functions fuel [constStep loop.type number] ⟨store, locals, stack⟩ =
        .next ⟨store, locals, (Word.literal loop.type number).value :: stack⟩ := by
    obtain ⟨opcode, immediate, hStep, hPush⟩ := constStep_eq (numType?_literal hWord number)
    rw [hStep]
    exact (@Leads.plain functions 0 _ _ _ _ (hPush store locals stack) :)
  exact ⟨_, .both (numType?_literal hWord low) (numType?_literal hWord high) (hConstant _ _ _ _)
    (hConstant _ _ _ _)⟩

theorem code_next {slots after : Slots} {context inner : Context} {pos : Position} {code : Code}
    {targets : LoopTargets} (hLoop : context.loop = some targets)
    (hDerives : Derives slots (.stmts context [.next pos] code inner) after) :
    code = [.br (context.label targets.next)] := by
  cases hDerives with
  | cons hNext hNil =>
      cases hNil
      cases hNext with
      | next hFound =>
          cases hLoop.symm.trans hFound
          rfl

/-- A body that goes on at once leaves the block around it. -/
theorem ends_next {functions : Array Function} {types : List FuncType} {loop : Loop}
    {pos : Position} {inside : List Step} (hCompiled : loop.Compiled)
    (hBody : loop.range.body = [.next pos]) (hInside : Reads types loop.inside inside)
    (state : State) :
    ∃ inner, Ends functions inside state inner := by
  obtain ⟨_, hDerives⟩ := hCompiled.body
  rw [hBody] at hDerives
  rw [code_next rfl hDerives] at hInside
  cases hInside.unique (.br _)
  have hInner : (loop.around.label (loop.context.frames + 2)).toNat = 0 := by
    have hFrames : loop.around.frames - 1 - (loop.context.frames + 2) = 0 := by
      simp [Loop.around, Loop.counting, Context.looping, Context.inLoop, Context.inFrame,
        Context.bind]
    rw [Context.label, hFrames]
    rfl
  exact ⟨state.enter 0, 1, .inr (congrArg (Outcome.branch · _) hInner)⟩

/-- Locals of a call of a function: those that its body declares stand behind the parameters. -/
structure Called (decl : FuncDecl) (body : FunctionBody) (locals : List Value) : Prop where
  params : (paramTypes decl).length ≤ locals.length
  types : (locals.map Value.type).drop (paramTypes decl).length = body.locals.map kept

theorem Called.roomy {decl : FuncDecl} {body : FunctionBody} {locals : List Value}
    {slots final : Slots} (hCalled : Called decl body locals) (hAmong : slots.Among final)
    (hParams : final.params = (paramTypes decl).length)
    (hLocals : body.locals = final.locals.map NumType.valType) : Roomy slots locals := by
  have hTypes : (locals.map Value.type).drop final.params = final.locals := by
    rw [hParams, hCalled.types, hLocals, List.map_map]
    refine (List.map_congr_left fun kind _ => ?_).trans (List.map_id _)
    cases kind <;> rfl
  have hLength := congrArg List.length hTypes
  have hFew := hAmong.few
  have hLess := hCalled.params
  rw [List.length_drop, List.length_map] at hLength
  rw [Slots.size] at hFew
  exact ⟨by rw [← hAmong.params, hParams]; exact hLess,
    by rw [← hAmong.params, hTypes]; exact hAmong.locals, by omega⟩

/-- Every range of a function counts.  Its bounds are computed once.  If its body does not assign
the variable and each turn that is due comes to its end or to a `continue`, there is one turn for
every integer from the lower bound on that is less than the upper one, in this order, and then the
range is left with the stack as it was. -/
theorem ranges_counted {env : Env} {decl : FuncDecl} {body : FunctionBody} (types : List FuncType)
    (functions : Array Function) (hLower : lowerFunction env decl = .ok body)
    (hRoom : (paramTypes decl).length + body.locals.length ≤ 2 ^ 32) :
    ∃ loops : List Loop,
      loops.map Loop.range = stmtsRanges env (entryPoint env decl).names decl.body ∧
      ∀ loop ∈ loops, loop.Compiled ∧ (∃ front back, body.instrs = front ++ loop.code ++ back) ∧
        ∃ lower upper inside, Reads types loop.lower lower ∧ Reads types loop.upper upper ∧
          Reads types loop.inside inside ∧ Reads types loop.code (loop.steps lower upper inside) ∧
          (loop.range.var ∉ stmtsAssigned loop.range.body [] →
            ∀ state first bound opening, Called decl body state.locals →
              Opens functions loop lower upper state first bound opening →
              ∃ word, Holds opening.locals loop.counter word ∧
                (loop.range.var ∉ exprAssigned loop.range.stop → word = first) ∧
                ((∀ turns reached, Turns functions loop.counter.index inside opening turns reached →
                    turns.length < (Int.range word.toInt bound.toInt).length →
                    ∃ inner, Ends functions inside reached inner) →
                  ∃ last fuel, Turns functions loop.counter.index inside opening
                      (Int.range word.toInt bound.toInt) last ∧ last.stack = state.stack ∧
                    exec functions fuel (loop.steps lower upper inside) state = .next last)) := by
  obtain ⟨final, hParams, hLocals, loops, hLoops, hPlaced⟩ := lowerFunction_contains hLower hRoom
  refine ⟨loops, hLoops, fun loop hLoop => ?_⟩
  obtain ⟨hCompiled, -, hAmong, -, -, -, front, back, hCode, -, -⟩ := hPlaced loop hLoop
  obtain ⟨lower, hLowerReads⟩ := @Derives.nests types _ _ _ hCompiled.start
  obtain ⟨upper, hUpperReads⟩ := @Derives.nests types _ _ _ hCompiled.stop
  obtain ⟨_, hBody⟩ := hCompiled.body
  obtain ⟨inside, hInsideReads⟩ := @Derives.nests types _ _ _ hBody
  refine ⟨hCompiled, ⟨front, back, hCode⟩, lower, upper, inside, hLowerReads, hUpperReads,
    hInsideReads, Loop.reads_steps hLowerReads hUpperReads hInsideReads, ?_⟩
  intro hFree state first bound opening hCalled hOpens
  obtain ⟨word, hCounter, hSame, hCounts⟩ := hOpens.counts 0 hCompiled hUpperReads hInsideReads
    (hCalled.roomy hAmong hParams hLocals) hFree
  refine ⟨word, hCounter, hSame, fun hEnds => ?_⟩
  obtain ⟨last, hTurns, fuel, hRun⟩ := hCounts hEnds
  exact ⟨last, fuel, hTurns, hTurns.stack.trans hOpens.stack, hRun⟩

/-- A function that counts to the top of its type, in a body that goes on at once. -/
def topmost : FuncDecl where
  name := "topmost"
  params := []
  result := .void
  body := [.forRange {} "i" (.int {} 9223372036854775805) (.int {} 9223372036854775807) [.next {}]]

theorem ranges_counted_topmost :
    ∃ (body : FunctionBody) (loop : Loop) (steps inside : List Step) (opening last : State)
        (fuel : Nat),
      lowerFunction ⟨{}, ⟨8, 65536, 0, 1, 0, 1⟩, [], [], [], [], []⟩ topmost = .ok body ∧
      loop.code <:+: body.instrs ∧ Reads [] loop.code steps ∧ Reads [] loop.inside inside ∧
      Turns #[] loop.counter.index inside opening [9223372036854775805, 9223372036854775806] last ∧
      exec #[] fuel steps ⟨{}, [.i64 0, .i64 0], []⟩ = .next last := by
  obtain ⟨body, hLower, hFrame⟩ := @ok_of_any _ _
    (lowerFunction ⟨{}, ⟨8, 65536, 0, 1, 0, 1⟩, [], [], [], [], []⟩ topmost)
    (fun body => body.locals.map kept = [.i64, .i64]) (by decide +kernel)
  have hLocals := of_decide_eq_true hFrame
  have hCount : body.locals.length = 2 := by simpa using congrArg List.length hLocals
  obtain ⟨loops, hLoops, hAll⟩ := ranges_counted [] #[] hLower (by rw [hCount]; decide)
  obtain ⟨loop, rfl, hRange⟩ := List.map_eq_singleton_iff.1 (hLoops.trans rfl)
  obtain ⟨hCompiled, ⟨front, back, hCode⟩, lower, upper, inside, hLowerReads, hUpperReads,
    hInsideReads, hReads, hCounts⟩ := hAll loop List.mem_cons_self
  have hType : loop.type = .i64 := by rw [Loop.type, hRange]; rfl
  have hStart := hCompiled.start
  have hStop := hCompiled.stop
  rw [hRange] at hStart hStop
  rw [code_int hCompiled.integer hStart] at hLowerReads
  rw [code_int hCompiled.integer hStop] at hUpperReads
  cases hLowerReads.unique (reads_constInt _ _)
  cases hUpperReads.unique (reads_constInt _ _)
  obtain ⟨opening, hOpens⟩ := @opens_constants #[] loop hCompiled.integer 9223372036854775805
    9223372036854775807 ⟨{}, [.i64 0, .i64 0], []⟩
  have hCalled : Called topmost body [.i64 0, .i64 0] := ⟨Nat.zero_le _, hLocals.symm⟩
  obtain ⟨word, -, hSame, hRuns⟩ := hCounts (by rw [hRange]; decide) _ _ _ _ hCalled hOpens
  cases hSame (by rw [hRange]; decide)
  obtain ⟨last, fuel, hTurns, -, hRun⟩ := hRuns fun _ reached _ _ =>
    ends_next hCompiled (by rw [hRange]) hInsideReads reached
  rw [hType] at hTurns
  exact ⟨body, loop, _, inside, opening, last, fuel, hLower, ⟨front, back, hCode.symm⟩, hReads,
    hInsideReads, hTurns, hRun⟩

end RecordWasm.Evaluation
