import RecordWasm.Proofs.Evaluation.Expressions

/-!
# Statements

There is one lemma for every kind of statement, which says that its code works if the code of its
parts does.  A statement may bind a name, and then the spot behind it has one more.
-/

namespace RecordWasm.Evaluation

open Syntax Machine Wasm Lowering

namespace Setting.Works

variable {setting : Setting} {spot inner outer : Spot} {code first second : Code}
variable {middle after : Slots} {count few more : Nat} {hidden : List String} {type : Ty}
variable {value : Scope → Ending (Option Word)} {stmt stmts : Scope → Ending Unit}

theorem nil : setting.Works spot spot nothing [] (.next ()) := by
  have hNothing : nothing () [] := rfl
  exact ⟨[], .nil, fun _ _ _ hMatches _ => .done hNothing hMatches (.refl _ _)⟩

theorem cons (hFirst : setting.Works spot inner nothing first stmt)
    (hRest : setting.Works inner outer nothing second stmts) (hEncloses : spot.Encloses inner)
    (hFrames : inner.context.frames = spot.context.frames)
    (hGrows : inner.before.Grows outer.before count) :
    setting.Works spot outer nothing (first ++ second)
      (fun vars => (stmt vars).bind fun _ vars => stmts vars) := by
  obtain ⟨front, hFront, hFirstRun⟩ := hFirst
  obtain ⟨back, hBack, hRestRun⟩ := hRest
  refine ⟨_, hFront.append hBack, fun vars locals stack hMatches hRoomy => ?_⟩
  refine (hFirstRun vars locals stack hMatches (hRoomy.before hGrows)).bind (.refl _ _) rfl ?_
  rintro _ vars kept values hNothing hSame hKeeps _
  cases hNothing
  exact (hRestRun vars kept stack hSame (hRoomy.keep hKeeps.types)).outward
    ⟨hEncloses, hKeeps⟩ hFrames

/-- A declaration puts its value into a new slot. -/
theorem declare {name : String} (hSound : spot.Sound hidden) (hSome : type.isVoid = false)
    (hValue : setting.Works spot (spot.later after) (Leaves type) code value)
    (hGrows : spot.before.Grows after count) :
    setting.Works spot (spot.bind name (after.next type) (some name) (after.push type)) nothing
      (code ++ [.localSet (after.next type).index])
      (fun vars => (value vars).word fun word vars => .next () ((some name, word) :: vars)) := by
  have hNothing : nothing () [] := rfl
  refine hValue.consumed hSome (.push after type) (reads_localSet _) ?_
  intro word vars locals kept stack hKind hMatches hRoomy hKeeps
  have hNew : spot.before.size ≤ (after.next type).index.toNat := hRoomy.next.1 ▸ hGrows.size_le
  obtain ⟨filled, hFilled, hPerform⟩ := hRoomy.fill hKind
  exact .step (hPerform _ _) (.done hNothing (hMatches.bind hSound hFilled hNew _ _ _)
    (hFilled.keeps hKeeps (.inl hNew)))

/-- An assignment overwrites the local of its name. -/
theorem assign {name : String} {slot : Slot} (hSound : spot.Sound hidden) (hName : name ∉ hidden)
    (hLookup : spot.context.lookup? name = some slot)
    (hValue : setting.Works spot (spot.later after) (Leaves slot.type) code value) :
    setting.Works spot (spot.later after) nothing (code ++ [.localSet slot.index])
      (fun vars => (value vars).word fun word vars => .next () (vars.assign name word)) := by
  have hNothing : nothing () [] := rfl
  obtain ⟨entry, hEntry, hSlot⟩ := mem_of_lookup hLookup
  have hSome : slot.type.isVoid = false := hSlot ▸ hSound.typed entry hEntry
  refine hValue.consumed hSome (.refl after 0) (reads_localSet _) ?_
  intro word vars locals kept stack hKind hMatches hRoomy hKeeps
  obtain ⟨old, -, hHolds⟩ := (hMatches.pairs hSound).get hName hLookup
  have hType : old.value.type = word.kind := by
    rw [Word.type_value]
    exact Option.some.inj (hHolds.kind.symm.trans hKind)
  have hFilled := filled_set hHolds.value hKind hType
  refine .step (perform_localSet hHolds.value (hType.trans word.type_value.symm)) ?_
  exact .done hNothing ((hMatches.assign hSound hName hLookup hFilled).reframe rfl rfl)
    (hFilled.keeps hKeeps (.inr ⟨entry, hEntry, congrArg (fun slot => slot.index.toNat) hSlot⟩))

theorem eval {behind : Spot} (hValue : setting.Works spot behind (Leaves .void) code value) :
    setting.Works spot behind nothing code
      (fun vars => (value vars).bind fun _ vars => .next () vars) := by
  obtain ⟨steps, hReads, hRun⟩ := hValue
  refine ⟨steps, hReads, fun vars locals stack hMatches hRoomy => ?_⟩
  have hNothing : nothing () [] := rfl
  rw [← List.append_nil steps]
  refine (hRun vars locals stack hMatches hRoomy).bind (.refl _ _) rfl ?_
  rintro _ vars kept values hLeaves hSame hKeeps _
  cases hLeaves
  exact .done hNothing hSame hKeeps

theorem leaveVoid {behind : Spot} (hVoid : spot.context.result.isVoid = true) :
    setting.Works spot behind nothing [Opcode.ret.instr] (fun _ => .ret none) := by
  have hNothing : Leaves spot.context.result none [] := by rw [Leaves, (isVoid_iff _).1 hVoid]
  exact ⟨_, .ret, fun _ _ _ _ _ => .exit .ret (.ret hNothing)⟩

theorem leaveWith (hSome : spot.context.result.isVoid = false)
    (hValue : setting.Works spot (spot.later after) (Leaves spot.context.result) code value) :
    setting.Works spot (spot.later after) nothing (code ++ [Opcode.ret.instr])
      (fun vars => (value vars).word fun word _ => .ret (some word)) := by
  refine hValue.consumed hSome (.refl after 0) .ret ?_
  intro word vars locals kept stack hKind _ _ _
  exact .exit .ret (.ret (leaves_some hKind))

theorem label_toNat {context : Context} (hRoom : context.frames < 2 ^ 32) (frame : Nat) :
    (context.label frame).toNat = context.frames - 1 - frame :=
  toNat_toUInt32 (by omega)

theorem leave {targets : LoopTargets} (hLoop : spot.context.loop = some targets)
    (hRoom : spot.context.frames < 2 ^ 32) :
    setting.Works spot spot nothing [.br (spot.context.label targets.leave)] .leave := by
  refine ⟨_, .br _, fun vars locals stack hMatches _ => ?_⟩
  rw [label_toNat hRoom]
  exact .exit .br (@Exits.leave _ _ _ _ _ [] _ _ _ hLoop hMatches (.refl _ _))

theorem next {targets : LoopTargets} (hLoop : spot.context.loop = some targets)
    (hRoom : spot.context.frames < 2 ^ 32) :
    setting.Works spot spot nothing [.br (spot.context.label targets.next)] .again := by
  refine ⟨_, .br _, fun vars locals stack hMatches _ => ?_⟩
  rw [label_toNat hRoom]
  exact .exit .br (@Exits.again _ _ _ _ _ [] _ _ _ hLoop hMatches (.refl _ _))

/-! ## Loops -/

theorem forever (hTargets : spot.Reaches)
    (hBody : setting.Works ((spot.inLoop.later spot.before).looping spot.context.frames
      (spot.context.frames + 1)) inner nothing code stmts)
    (hInner : ((spot.inLoop.later spot.before).looping spot.context.frames
      (spot.context.frames + 1)).Encloses inner) :
    setting.Works spot (spot.later inner.before) nothing (foreverCode spot.context code)
      (turns (fun vars => (stmts vars).turn vars.length) setting.fuel) := by
  obtain ⟨steps, hReads, hRun⟩ := hBody
  refine ⟨_, reads_forever spot.context hReads, fun vars locals stack hMatches hRoomy => ?_⟩
  refine Simulates.looped hTargets ?_ hMatches (.refl spot locals) inner.before
  intro vars kept hSame hKeeps
  have hOnce := hRun vars kept [] (hSame.reframe rfl rfl) (hRoomy.keep hKeeps.types)
  exact (hOnce.bodied hInner (Nat.le_refl _) (hKeeps.reframe rfl (Nat.le_refl _))
    hSame.length).turned

theorem whileLoop {test : Code} {cond : Scope → Ending (Option Word)} (hTargets : spot.Reaches)
    (hTest : setting.Works spot.inLoop (spot.inLoop.later middle) (Leaves .bool) test cond)
    (hBody : setting.Works ((spot.inLoop.later middle).looping spot.context.frames
      (spot.context.frames + 1)) inner nothing code stmts)
    (hInner : ((spot.inLoop.later middle).looping spot.context.frames
      (spot.context.frames + 1)).Encloses inner)
    (hFirst : spot.before.Grows middle few) (hSecond : middle.Grows inner.before more) :
    setting.Works spot (spot.later inner.before) nothing (whileCode spot.context test code)
      (turns (fun vars => (cond vars).word fun truth vars =>
        if truth.isTrue then (stmts vars).turn vars.length else .next false vars)
          setting.fuel) := by
  obtain ⟨testSteps, hTestReads, hTestRun⟩ := hTest
  obtain ⟨steps, hReads, hRun⟩ := hBody
  refine ⟨_, reads_while spot.context hTestReads hReads,
    fun vars locals stack hMatches hRoomy => ?_⟩
  refine Simulates.looped hTargets ?_ hMatches (.refl spot locals) inner.before
  intro vars kept hSame hKeeps
  have hStill := hRoomy.keep hKeeps.types
  rw [guardSteps, List.append_assoc, List.append_assoc]
  refine (hTestRun vars kept [] (hSame.reframe rfl rfl) (hStill.before hSecond)).word rfl
    ⟨.refl _, hKeeps.reframe rfl (Nat.le_refl _)⟩ rfl ?_
  intro truth vars tested hKind hAgain hTested hWhole
  refine .step (perform_eqz (Option.some.inj hKind).symm) (.brIf rfl ?_ ?_)
  · intro hOver
    have hFalse : truth.isTrue = false := by simpa using hOver
    simp only [hFalse]
    exact .next ⟨[], rfl⟩ (hAgain.reframe rfl rfl) hWhole
  · intro hOn
    have hTrue : truth.isTrue = true := by simpa using hOn
    simp only [hTrue]
    have hOnce := hRun vars tested [] (hAgain.reframe rfl rfl) (hStill.keep hTested.types)
    exact (hOnce.bodied hInner hFirst.size_le hWhole hAgain.length).turned

section Ranges

variable {var : String} {counter limit : Slot} {slots : Slots} {fuel : Nat}
variable {functions : Array Function}
variable {store : Store} {locals start : List Value} {vars : Scope} {word bound : Word}

/-- The next turn, in which the counter is one more. -/
theorem raised (hInteger : counter.type.isInteger = true)
    (hSound : (spot.bind var counter (some var) slots).Sound hidden)
    (hMatches : (spot.bind var counter (some var) slots).Matches locals vars)
    (hKeeps : (spot.bind var counter (some var) slots).Keeps start locals) :
    Simulates functions fuel store
      (.branching store (spot.bind var counter (some var) slots).inLoop start Simulates.turnLabel)
      (raiseSteps counter.type counter.index ++ [.br 0]) ⟨store, locals, []⟩
      (.next true vars.raise) := by
  obtain ⟨word, rest, rfl, hHolds, hRest⟩ := hMatches.head
  have hOp : operator? counter.type "+" = some (.int (intWidth counter.type) .add) :=
    operator?_integer hInteger "+"
  have hOne := numType?_literal (isWordType_of_isInteger hInteger) 1
  obtain ⟨opcode, immediate, hStep, hPush⟩ := constStep_eq hOne
  have hPerform := @perform_apply store locals [] _ _ _ _ _ hOp hHolds.kind hOne
  rw [apply_one] at hPerform
  have hKind : numType? counter.type = some (word.wrap (word.toInt + 1)).kind := by
    rw [word.kind_wrap]
    exact hHolds.kind
  have hType : word.value.type = (word.wrap (word.toInt + 1)).kind := by
    rw [word.kind_wrap, Word.type_value]
  have hFilled := filled_set hHolds.value hKind hType
  rw [raiseSteps, hStep]
  refine .step (perform_localGet hHolds.value) (.step (hPush _ _ _) (.step hPerform (.step
    (perform_localSet hHolds.value (hType.trans (Word.type_value _).symm)) ?_)))
  refine ⟨_, .br, .next ⟨[], rfl⟩ ((hMatches.refill hSound hFilled).reframe rfl rfl) ?_⟩
  exact (hFilled.keeps hKeeps (.inr ⟨_, List.mem_cons_self, rfl⟩)).reframe rfl (Nat.le_refl _)

/-- One turn: the counter is compared with the limit, which is kept in a slot of its own. -/
theorem counts {body : List Step} (hInteger : counter.type.isInteger = true)
    (hSound : (spot.bind var counter (some var) slots).Sound hidden)
    (hRun : ∀ vars locals, (spot.bind var counter (some var) slots).Matches locals vars →
      (spot.bind var counter (some var) slots).Keeps start locals →
      Simulates functions fuel store (.falling store
        (((spot.bind var counter (some var) slots).inLoop.inFrame.later slots).looping
          spot.context.frames (spot.context.frames + 2)) inner nothing locals []) body
        ⟨store, locals, []⟩ (stmts vars))
    (hInner : (((spot.bind var counter (some var) slots).inLoop.inFrame.later slots).looping
      spot.context.frames (spot.context.frames + 2)).Encloses inner)
    (hMatches : (spot.bind var counter (some var) slots).Matches locals vars)
    (hKeeps : (spot.bind var counter (some var) slots).Keeps start locals)
    (hLimit : Holds locals limit bound) (hType : limit.type = counter.type) :
    Simulates functions fuel store
      (.branching store (spot.bind var counter (some var) slots).inLoop start Simulates.turnLabel)
      (turnSteps counter.type counter.index limit.index body ++ [.br 0]) ⟨store, locals, []⟩
      (if vars.below bound then
        ((stmts vars).turn vars.length).bind fun go vars =>
          .next go (if go then vars.raise else vars)
      else .next false vars) := by
  obtain ⟨word, rest, rfl, hHolds, -⟩ := hMatches.head
  have hOp : operator? counter.type ">=" = some (.compareInt (intWidth counter.type) .geS) :=
    operator?_integer hInteger ">="
  have hPerform := @perform_apply store locals [] _ _ _ _ _ hOp hHolds.kind (hType ▸ hLimit.kind)
  rw [turnSteps, limitSteps]
  refine .step (perform_localGet hHolds.value)
    (.step (perform_localGet hLimit.value) (.step hPerform (.brIf rfl ?_ ?_)))
  · intro hReached
    have hOver : Scope.below bound ((some var, word) :: rest) = false := by
      simpa [Scope.below] using hReached
    rw [hOver]
    exact .next ⟨[], rfl⟩ (hMatches.reframe rfl rfl) (hKeeps.reframe rfl (Nat.le_refl _))
  · intro hOn
    have hBelow : Scope.below bound ((some var, word) :: rest) = true := by
      simpa [Scope.below] using hOn
    rw [if_pos hBelow]
    have hOnce := (hRun _ locals hMatches hKeeps).bodied hInner (Nat.le_refl _)
      (hKeeps.reframe rfl (Nat.le_refl _)) hMatches.length
    refine hOnce.counted hSound.targets (fun _ => rfl) ?_
    intro vars after hAfter hStill
    exact raised hInteger hSound hAfter hStill

end Ranges

/-- All turns of a range, whose limit is in a slot that no name has. -/
theorem rounds {var : String} {counter limit : Slot} {slots : Slots} {locals stack : List Value}
    {vars : Scope} {bound : Word} {body : List Step} (hInteger : counter.type.isInteger = true)
    (hSound : (spot.bind var counter (some var) slots).Sound hidden)
    (hRun : ∀ vars locals stack,
      (((spot.bind var counter (some var) slots).inLoop.inFrame.later slots).looping
        spot.context.frames (spot.context.frames + 2)).Matches locals vars →
      Roomy inner.before locals → Simulates setting.functions setting.fuel setting.store
        (.falling setting.store
          (((spot.bind var counter (some var) slots).inLoop.inFrame.later slots).looping
            spot.context.frames (spot.context.frames + 2)) inner nothing locals stack) body
        ⟨setting.store, locals, stack⟩ (stmts vars))
    (hInner : (((spot.bind var counter (some var) slots).inLoop.inFrame.later slots).looping
      spot.context.frames (spot.context.frames + 2)).Encloses inner)
    (hRoomy : Roomy inner.before locals)
    (hMatches : (spot.bind var counter (some var) slots).Matches locals vars)
    (hLimit : Holds locals limit bound) (hType : limit.type = counter.type)
    (hOld : limit.index.toNat < slots.size)
    (hFree : ∀ entry ∈ (spot.bind var counter (some var) slots).context.scope,
      entry.2.index.toNat ≠ limit.index.toNat) :
    Simulates setting.functions setting.fuel setting.store
      (.falling setting.store (spot.bind var counter (some var) slots)
        ((spot.bind var counter (some var) slots).later inner.before) nothing locals stack)
      (loopSteps (turnSteps counter.type counter.index limit.index body))
      ⟨setting.store, locals, stack⟩
      (turns (fun vars =>
        if vars.below bound then
          ((stmts vars).turn vars.length).bind fun go vars =>
            .next go (if go then vars.raise else vars)
        else .next false vars) setting.fuel vars) := by
  refine Simulates.looped hSound.targets ?_ hMatches (.refl _ locals) inner.before
  intro vars kept hSame hKeeps
  refine counts hInteger hSound ?_ hInner hSame hKeeps (hKeeps.holds hLimit hOld hFree) hType
  intro vars last hAgain hStill
  exact hRun vars last [] (hAgain.reframe rfl rfl) (hRoomy.keep hStill.types)

/-- A range counts in a slot of its own, up to a limit that is computed once. -/
theorem forRange {var : String} {lower upper : Code} {firstSlots second : Slots}
    {start stop : Scope → Ending (Option Word)} {most : Nat} (hSound : spot.Sound hidden)
    (hInteger : type.isInteger = true)
    (hStart : setting.Works spot (spot.later firstSlots) (Leaves type) lower start)
    (hStop : setting.Works (spot.bind var (firstSlots.next type) none (firstSlots.push type))
      ((spot.bind var (firstSlots.next type) none (firstSlots.push type)).later second)
        (Leaves type)
      upper stop)
    (hBody : setting.Works (((spot.bind var (firstSlots.next type) (some var)
        (second.push type)).inLoop.inFrame.later (second.push type)).looping
      spot.context.frames (spot.context.frames + 2)) inner nothing code stmts)
    (hInner : (((spot.bind var (firstSlots.next type) (some var)
        (second.push type)).inLoop.inFrame.later (second.push type)).looping
      spot.context.frames (spot.context.frames + 2)).Encloses inner)
    (hFirst : spot.before.Grows firstSlots few)
    (hSecond : (firstSlots.push type).Grows second more)
    (hThird : (second.push type).Grows inner.before most) :
    setting.Works spot (spot.later inner.before) nothing
      (rangeCode spot.context type (firstSlots.next type).index (second.next type).index lower upper
        code)
      (fun vars => Ending.within vars.length <|
        (start vars).word fun first vars => (stop ((none, first) :: vars)).word fun limit vars =>
          turns (fun vars =>
            if vars.below limit then
              ((stmts vars).turn vars.length).bind fun go vars =>
                .next go (if go then vars.raise else vars)
            else .next false vars) setting.fuel (vars.rename var)) := by
  obtain ⟨startSteps, hStartReads, hStartRun⟩ := hStart
  obtain ⟨stopSteps, hStopReads, hStopRun⟩ := hStop
  obtain ⟨steps, hReads, hRun⟩ := hBody
  have hSome : type.isVoid = false := by cases type <;> first | rfl | cases hInteger
  have hMiddle := hSecond.trans ((Slots.Grows.push second type).trans hThird)
  have hWhole := hFirst.trans ((Slots.Grows.push _ type).trans (hSecond.trans (.push _ type)))
  refine ⟨_, reads_range spot.context hStartReads hStopReads hReads, ?_⟩
  intro vars locals stack hMatches hRoomy
  have hCounterRoom := hRoomy.before hMiddle
  have hLimitRoom := hRoomy.before hThird
  have hNew : spot.before.size ≤ (firstSlots.next type).index.toNat :=
    hCounterRoom.next.1 ▸ hFirst.size_le
  have hLater : (firstSlots.push type).size ≤ (second.next type).index.toNat :=
    hLimitRoom.next.1 ▸ hSecond.size_le
  have hBound := firstSlots.next_lt type
  have hLimitBound := second.next_lt type
  have hEncloses := Spot.Encloses.bind spot var (some var) hNew hWhole.size_le
  have hCounting :
      (spot.bind var (firstSlots.next type) (some var) (second.push type)).Sound hidden :=
    hSound.bind [] (.inl rfl) hNew (by omega) hSome
  have hFree : ∀ entry ∈ (spot.bind var (firstSlots.next type) (some var)
      (second.push type)).context.scope, entry.2.index.toNat ≠ (second.next type).index.toNat := by
    intro entry hEntry
    rcases List.mem_cons.1 hEntry with rfl | hOld
    · simp only
      omega
    · have hLess := hSound.bounded entry hOld
      omega
  rw [List.append_assoc]
  refine @Simulates.within _ _ _ _ _ _ _ _ _ _
    ((spot.bind var (firstSlots.next type) (some var) (second.push type)).later inner.before) _ _
      _ ?_
    (hEncloses.trans (.later _ hThird.size_le)) hMatches.length
  refine (hStartRun vars locals stack hMatches (hCounterRoom.before (.push _ _))).word hSome
    (.refl _ _) rfl ?_
  intro first vars kept hKind hSame hKeeps _
  obtain ⟨filled, hFilled, hPerform⟩ := (hCounterRoom.keep hKeeps.types).fill hKind
  have hStill := hFilled.keeps hKeeps (.inl hNew)
  refine .step (hPerform _ _) ?_
  have hHere : spot.Matches kept vars := hSame.reframe rfl rfl
  refine (hStopRun _ filled stack (hHere.bind hSound hFilled hNew _ _ _)
    (((hRoomy.keep hKeeps.types).keep hFilled.types).before
      ((Slots.Grows.push _ type).trans hThird))).word
    hSome ⟨.bind spot var none hNew (by omega), hStill⟩ rfl ?_
  intro bound vars last hBoundKind hAgain hLast hAll
  obtain ⟨word, rest, rfl, hHolds, hRest⟩ := hAgain.head
  have hStarted : (spot.bind var (firstSlots.next type) (some var) (second.push type)).Matches last
      ((some var, word) :: rest) :=
        ⟨congrArg (some var :: ·) hRest.labels, .cons hHolds hRest.holds⟩
  obtain ⟨after, hLimited, hSet⟩ := (hLimitRoom.keep hAll.types).fill hBoundKind
  have hFresh : spot.before.size ≤ (second.next type).index.toNat := by omega
  have hKept : spot.Keeps locals after := hLimited.keeps hAll (.inl hFresh)
  refine .step (hSet _ _) ?_
  exact (rounds hInteger hCounting hRun hInner (hRoomy.keep hKept.types)
    (hLimited.matches hStarted hFree) hLimited.holds rfl hLimitBound hFree).outward
    ⟨hEncloses, hKept⟩ rfl

end Setting.Works

end RecordWasm.Evaluation
