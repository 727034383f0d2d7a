import RecordWasm.Proofs.Evaluation.Simulation

/-!
# Expressions

Code works if it follows an evaluation from one spot to another.  There is one lemma for every kind
of expression, which says that its code works if the code of its parts does.
-/

namespace RecordWasm.Evaluation

open Syntax Machine Wasm Lowering

/-- What code runs with: the functions and signatures of its module, a store that does not change,
and fuel. -/
structure Setting where
  functions : Array Function
  types : List FuncType
  store : Store
  fuel : Nat

/-- Code follows an evaluation from a spot to one behind it. -/
def Setting.Works (setting : Setting) {α : Type} (spot behind : Spot)
    (leaves : α → List Value → Prop) (code : Code) (eval : Scope → Ending α) : Prop :=
  ∃ steps, Reads setting.types code steps ∧
    ∀ vars locals stack, spot.Matches locals vars → Roomy behind.before locals →
      Simulates setting.functions setting.fuel setting.store
        (.falling setting.store spot behind leaves locals stack) steps
          ⟨setting.store, locals, stack⟩
        (eval vars)

/-- Code that works if a slot holds a subject. -/
def Setting.Decides (setting : Setting) (spot behind : Spot) (slot : Slot) (type : Ty) (code : Code)
    (eval : Word → Scope → Ending (Option Word)) : Prop :=
  ∃ steps, Reads setting.types code steps ∧
    ∀ subject vars locals stack, spot.Matches locals vars → Roomy behind.before locals →
      Holds locals slot subject →
      Simulates setting.functions setting.fuel setting.store
        (.falling setting.store spot behind (Leaves type) locals stack) steps
        ⟨setting.store, locals, stack⟩ (eval subject vars)

theorem isVoid_iff (type : Ty) : type.isVoid = true ↔ numType? type = none := by
  cases type <;> simp [Ty.isVoid, numType?]

theorem leaves_congr {left right : Ty} (hSame : numType? left = numType? right) :
    Leaves left = Leaves right := by
  funext value values
  rw [Leaves, Leaves, hSame]

theorem Leaves.eq_singleton {type : Ty} {value : Option Word} {values : List Value}
    (hLeaves : Leaves type value values) (hSome : type.isVoid = false) :
    ∃ only, values = [only] := by
  rw [Leaves] at hLeaves
  cases hKind : numType? type with
  | none => rw [(isVoid_iff type).2 hKind] at hSome; cases hSome
  | some kind =>
      rw [hKind] at hLeaves
      obtain ⟨word, -, -, rfl⟩ := hLeaves
      exact ⟨_, rfl⟩

theorem leaves_length {type : Ty} {value : Option Word} {values : List Value}
    (hLeaves : Leaves type value values) : values.length = (blockArity type).leaves := by
  rw [Leaves] at hLeaves
  rw [blockArity]
  cases hKind : numType? type with
  | none => simp [hKind] at hLeaves; simp [hLeaves]
  | some kind =>
      rw [hKind] at hLeaves
      obtain ⟨word, -, -, rfl⟩ := hLeaves
      rfl

variable {setting : Setting} {spot behind : Spot} {code first second : Code} {α : Type}
variable {before middle after : Slots} {count : Nat} {hidden : List String}
variable {value : Scope → Ending (Option Word)}

namespace Setting.Works

/-- A value, and code that takes it from the stack. -/
theorem consumed {leaves : α → List Value → Prop} {type : Ty} {rest : Code} {steps : List Step}
    {next : Word → Scope → Ending α}
    (hValue : setting.Works spot (spot.later middle) (Leaves type) code value)
    (hSome : type.isVoid = false) (hGrows : middle.Grows behind.before count)
    (hReads : Reads setting.types rest steps)
    (hRest : ∀ word vars locals kept stack, numType? type = some word.kind →
      spot.Matches kept vars → Roomy behind.before kept → spot.Keeps locals kept →
      Simulates setting.functions setting.fuel setting.store
        (.falling setting.store spot behind leaves locals stack) steps
        ⟨setting.store, kept, word.value :: stack⟩ (next word vars)) :
    setting.Works spot behind leaves (code ++ rest) (fun vars => (value vars).word next) := by
  obtain ⟨front, hFront, hRun⟩ := hValue
  refine ⟨front ++ steps, hFront.append hReads, fun vars locals stack hMatches hRoomy => ?_⟩
  refine (hRun vars locals stack hMatches (hRoomy.before hGrows)).word hSome (.refl _ _) rfl ?_
  intro word vars kept hKind hSame hKeeps _
  exact hRest word vars locals kept stack hKind (hSame.reframe rfl rfl)
    (hRoomy.keep hKeeps.types) hKeeps

/-- Types that are represented alike leave the same values. -/
theorem congr {left right : Ty} (hWorks : setting.Works spot behind (Leaves left) code value)
    (hSame : sameRepr left right = true) : setting.Works spot behind (Leaves right) code value := by
  rw [sameRepr, beq_iff_eq] at hSame
  rwa [← leaves_congr hSame]

/-- A value that is not needed is dropped. -/
theorem discard {lowered : Lowered} {want : Ty} (hVoid : want.isVoid = true)
    (hWorks : setting.Works spot behind (Leaves lowered.type) lowered.code value) :
    setting.Works spot behind (Leaves want) (discard lowered) value := by
  have hNone := (isVoid_iff want).1 hVoid
  obtain ⟨steps, hReads, hRun⟩ := hWorks
  rw [Lowering.discard]
  by_cases hEmpty : lowered.type.isVoid = true
  · rw [if_pos hEmpty]
    have hSame : numType? lowered.type = numType? want := by rw [hNone, (isVoid_iff _).1 hEmpty]
    rw [← leaves_congr hSame]
    exact ⟨steps, hReads, hRun⟩
  · rw [if_neg hEmpty]
    refine ⟨steps ++ [.plain .drop .none], hReads.append (reads_operation rfl), ?_⟩
    intro vars locals stack hMatches hRoomy
    have hFirst := hRun vars locals stack hMatches hRoomy
    rw [← (value vars).bind_next]
    refine hFirst.bind (.refl _ _) rfl fun result vars kept values hLeaves hSame hKeeps _ => ?_
    obtain ⟨word, rfl⟩ := hLeaves.eq_singleton (by simpa using hEmpty)
    have hNothing : Leaves want result [] := by rw [Leaves, hNone]
    exact .step (perform_drop word) (.done hNothing hSame hKeeps)

theorem int {type : Ty} {tag : Tag} {number : Int64} (hWord : isWordType tag.type = true)
    (hSame : numType? tag.type = numType? type) :
    setting.Works spot (spot.later before) (Leaves type) [constInt type number]
      (.next (some (.literal tag.type number))) := by
  have hLiteral := literal_congr hSame number
  have hKind : numType? type = some (Word.literal type number).kind := by
    rw [← hLiteral, ← hSame]
    exact numType?_literal hWord number
  obtain ⟨opcode, immediate, hStep, hPerform⟩ := constStep_eq hKind
  refine ⟨_, reads_constInt type number, fun vars locals stack hMatches _ => ?_⟩
  rw [hStep, hLiteral]
  exact .step (hPerform _ _ _) (.done (leaves_some hKind) (hMatches.reframe rfl rfl) (.refl _ _))

theorem bool (truth : Bool) :
    setting.Works spot (spot.later before) (Leaves .bool) [.i32Const (if truth then 1 else 0)]
      (.next (some (.ofBool truth))) := by
  refine ⟨_, reads_i32Const _, fun vars locals stack hMatches _ => ?_⟩
  have hKind : numType? .bool = some (Word.ofBool truth).kind := rfl
  have hDone := @Simulates.done setting.functions setting.fuel setting.store _ locals _ _ vars
    spot (spot.later before) _ locals stack (leaves_some hKind) (hMatches.reframe rfl rfl)
      (.refl _ _)
  refine .step (perform_const32 _) ?_
  cases truth <;> exact hDone

/-- A name that is not hidden stands for the word in its slot. -/
theorem ident {name : String} {slot : Slot} (hSound : spot.Sound hidden) (hName : name ∉ hidden)
    (hLookup : spot.context.lookup? name = some slot) :
    setting.Works spot (spot.later before) (Leaves slot.type) [.localGet slot.index]
      (fun vars => match vars.get? name with
        | some word => .next (some word) vars
        | none => .trap .unreachable) := by
  refine ⟨_, reads_localGet _, fun vars locals stack hMatches _ => ?_⟩
  obtain ⟨word, hGet, hHolds⟩ := (hMatches.pairs hSound).get hName hLookup
  simp only [hGet]
  exact .step (perform_localGet hHolds.value)
    (.done (leaves_some hHolds.kind) (hMatches.reframe rfl rfl) (.refl _ _))

/-- Two values, and code that takes both from the stack. -/
theorem both {type : Ty} {leaves : α → List Value → Prop} {rest : Code} {steps : List Step}
    {other : Scope → Ending (Option Word)} {next : Word → Word → Scope → Ending α} {more : Nat}
    (hSome : type.isVoid = false)
    (hFirst : setting.Works spot (spot.later middle) (Leaves type) first value)
    (hSecond : setting.Works (spot.later middle) (spot.later after) (Leaves type) second other)
    (hEarlier : spot.before.Grows middle more) (hGrows : middle.Grows after count)
    (hReads : Reads setting.types rest steps)
    (hRest : ∀ left right vars locals kept stack, numType? type = some left.kind →
      numType? type = some right.kind → spot.Matches kept vars → spot.Keeps locals kept →
      Simulates setting.functions setting.fuel setting.store
        (.falling setting.store spot (spot.later after) leaves locals stack) steps
        ⟨setting.store, kept, right.value :: left.value :: stack⟩ (next left right vars)) :
    setting.Works spot (spot.later after) leaves (first ++ second ++ rest)
      (fun vars => (value vars).word fun left vars => (other vars).word fun right vars =>
        next left right vars) := by
  obtain ⟨secondSteps, hSecondReads, hRun⟩ := hSecond
  rw [List.append_assoc]
  refine hFirst.consumed hSome hGrows (hSecondReads.append hReads) ?_
  intro left vars locals kept stack hLeft hMatches hRoomy hKeeps
  refine (hRun vars kept _ (hMatches.reframe rfl rfl) hRoomy).word hSome
    (.later hKeeps hEarlier.size_le) rfl ?_
  intro right vars last hRight hSame hLast hWhole
  exact hRest left right vars locals last stack hLeft hRight (hSame.reframe rfl rfl) hWhole

theorem logical {op : String} {other : Scope → Ending (Option Word)} {more : Nat}
    (hOp : isLogical op = true)
    (hFirst : setting.Works spot (spot.later middle) (Leaves .bool) first value)
    (hSecond : setting.Works (spot.later middle) (spot.later after) (Leaves .bool) second other)
    (hEarlier : spot.before.Grows middle more) (hGrows : middle.Grows after count) :
    setting.Works spot (spot.later after) (Leaves .bool)
      (first ++ second ++ [(if op = "&&" then Opcode.int .w32 .and else Opcode.int .w32 .or).instr])
      (fun vars => (value vars).word fun left vars => (other vars).word fun right vars =>
        match left.apply op right with
        | .ok word => .next (some word) vars
        | .error cause => .trap cause) := by
  have hPlain : isPlain (if op = "&&" then Opcode.int .w32 .and else Opcode.int .w32 .or) =
      true := by
    split <;> rfl
  refine both rfl hFirst hSecond hEarlier hGrows (reads_operation hPlain) ?_
  intro left right vars locals kept stack hLeft hRight hMatches hKeeps
  obtain ⟨word, hApply, hKind, hPerform⟩ :=
    perform_logical hOp (Option.some.inj hLeft).symm (Option.some.inj hRight).symm
  have hBool : numType? .bool = some word.kind := congrArg some hKind.symm
  simp only [hApply]
  exact .step hPerform (.done (leaves_some hBool) (hMatches.reframe rfl rfl) hKeeps)

theorem binary {type : Ty} {op : String} {opcode : Opcode} {other : Scope → Ending (Option Word)}
    {more : Nat} (hOp : operator? type op = some opcode) (hSome : type.isVoid = false)
    (hFirst : setting.Works spot (spot.later middle) (Leaves type) first value)
    (hSecond : setting.Works (spot.later middle) (spot.later after) (Leaves type) second other)
    (hEarlier : spot.before.Grows middle more) (hGrows : middle.Grows after count) :
    setting.Works spot (spot.later after) (Leaves (if isComparison op then .bool else type))
      (first ++ second ++ [opcode.instr])
      (fun vars => (value vars).word fun left vars => (other vars).word fun right vars =>
        match left.apply op right with
        | .ok word => .next (some word) vars
        | .error cause => .trap cause) := by
  refine both hSome hFirst hSecond hEarlier hGrows (reads_operation (isPlain_operator hOp)) ?_
  intro left right vars locals kept stack hLeft hRight hMatches hKeeps
  have hPerform := @perform_apply setting.store kept stack _ _ _ _ _ hOp hLeft hRight
  cases hApply : left.apply op right with
  | ok word =>
      rw [hApply] at hPerform
      exact .step hPerform (.done (leaves_some (numType?_apply hOp hLeft hApply))
        (hMatches.reframe rfl rfl) hKeeps)
  | error cause =>
      rw [hApply] at hPerform
      exact .trap hPerform

theorem not (hOperand : setting.Works spot (spot.later after) (Leaves .bool) code value) :
    setting.Works spot (spot.later after) (Leaves .bool) (code ++ [(Opcode.eqz .w32).instr])
      (fun vars => (value vars).word fun word vars =>
        .next (some (.ofBool (!word.isTrue))) vars) := by
  refine hOperand.consumed rfl (.refl _ 0) (reads_operation rfl) ?_
  intro word vars locals kept stack hKind hMatches _ hKeeps
  exact .step (perform_eqz (Option.some.inj hKind).symm)
    (.done (leaves_some rfl) (hMatches.reframe rfl rfl) hKeeps)

/-- An integer is negated by taking it from zero. -/
theorem negate {type : Ty} (hInteger : type.isInteger = true)
    (hOperand : setting.Works spot (spot.later after) (Leaves type) code value) :
    setting.Works spot (spot.later after) (Leaves type)
      (constInt type 0 :: code ++ [(Opcode.int (intWidth type) .sub).instr])
      (fun vars => (value vars).word fun word vars => .next (some word.negate) vars) := by
  obtain ⟨steps, hReads, hRun⟩ := hOperand
  have hZero := numType?_literal (isWordType_of_isInteger hInteger) 0
  have hOp : operator? type "-" = some (.int (intWidth type) .sub) := operator?_integer hInteger "-"
  obtain ⟨opcode, immediate, hStep, hPush⟩ := constStep_eq hZero
  refine ⟨_,
    (reads_constInt type 0).append (hReads.append (reads_operation (isPlain_operator hOp))),
    fun vars locals stack hMatches hRoomy => ?_⟩
  rw [hStep]
  refine .step (hPush _ _ _) ((hRun vars locals _ hMatches hRoomy).word ?_ (.refl _ _) rfl ?_)
  · cases type <;> first | rfl | cases hInteger
  · intro word vars kept hKind hSame hKeeps _
    have hSameKind : (Word.literal type 0).kind = word.kind :=
      Option.some.inj (hZero.symm.trans hKind)
    have hPerform := @perform_apply setting.store kept stack _ _ _ _ _ hOp hZero hKind
    rw [apply_zero hSameKind] at hPerform
    exact .step hPerform (.done (leaves_some (word.kind_wrap _ ▸ hKind)) hSame hKeeps)

end Setting.Works

/-- The arguments of a call as words and as values, the last of which is on top of the stack. -/
def Passed (params : List Ty) (words : List Word) (values : List Value) : Prop :=
  params.map numType? = words.map (fun word => some word.kind) ∧
    values = (words.map Word.value).reverse

/-- A call in the machine ends as the evaluator answers. -/
inductive Answered (store : Store) (result : Ty) (locals stack : List Value) :
    Answer → Outcome → Prop where
  | value {word : Option Word} {values : List Value} : Leaves result word values →
      Answered store result locals stack (.value word) (.next ⟨store, locals, values ++ stack⟩)
  | trap {cause : Trap} : Answered store result locals stack (.trap cause) (.trap cause store)
  | exhausted : Answered store result locals stack .exhausted .exhausted

/-- A function takes words and answers as the evaluator does. -/
structure Setting.Answers (setting : Setting) (ref : FuncRef) (call : List Word → Answer) :
    Prop where
  params : ∀ type ∈ ref.params, type.isVoid = false
  leads : ∀ words values locals stack, Passed ref.params words values →
    ∃ outcome, Leads setting.functions setting.fuel [.call ref.index.toNat]
      ⟨setting.store, locals, values ++ stack⟩ outcome ∧
      Answered setting.store ref.result locals stack (call words) outcome

namespace Setting.Works

theorem noArgs : setting.Works spot (spot.later before) (Passed []) [] (.next []) := by
  have hPassed : Passed [] [] [] := ⟨rfl, rfl⟩
  exact ⟨[], .nil, fun _ _ _ hMatches _ => .done hPassed (hMatches.reframe rfl rfl) (.refl _ _)⟩

theorem arg {want : Ty} {params : List Ty} {others : Scope → Ending (List Word)} {more : Nat}
    (hSome : want.isVoid = false)
    (hFirst : setting.Works spot (spot.later middle) (Leaves want) first value)
    (hSecond : setting.Works (spot.later middle) (spot.later after) (Passed params) second others)
    (hEarlier : spot.before.Grows middle more) (hGrows : middle.Grows after count) :
    setting.Works spot (spot.later after) (Passed (want :: params)) (first ++ second)
      (fun vars => (value vars).word fun word vars =>
        (others vars).bind fun words vars => .next (word :: words) vars) := by
  obtain ⟨steps, hReads, hRun⟩ := hSecond
  refine hFirst.consumed hSome hGrows hReads ?_
  intro word vars locals kept stack hKind hMatches hRoomy hKeeps
  rw [← List.append_nil steps]
  refine (hRun vars kept _ (hMatches.reframe rfl rfl) hRoomy).bind
    (.later hKeeps hEarlier.size_le) rfl ?_
  rintro words vars last values ⟨hKinds, rfl⟩ hSame _ hWhole
  have hPassed :
      Passed (want :: params) (word :: words) ((words.map Word.value).reverse ++ [word.value]) :=
    ⟨by rw [List.map_cons, List.map_cons, hKind, hKinds], by simp⟩
  rw [List.append_cons]
  exact .done hPassed hSame hWhole

theorem call {ref : FuncRef} {args : Scope → Ending (List Word)} {answer : List Word → Answer}
    (hArgs : setting.Works spot (spot.later after) (Passed ref.params) code args)
    (hAnswers : setting.Answers ref answer) :
    setting.Works spot (spot.later after) (Leaves ref.result) (code ++ [.call ref.index])
      (fun vars => (args vars).bind fun words vars => (answer words).ending vars) := by
  obtain ⟨steps, hReads, hRun⟩ := hArgs
  refine ⟨_, hReads.append (.call _), fun vars locals stack hMatches hRoomy => ?_⟩
  refine (hRun vars locals stack hMatches hRoomy).bind (.refl _ _) rfl ?_
  intro words vars kept values hPassed hSame hKeeps _
  obtain ⟨outcome, hLeads, hAnswered⟩ := hAnswers.leads words values kept stack hPassed
  refine ⟨outcome, hLeads, ?_⟩
  generalize answer words = answered at hAnswered
  cases hAnswered with
  | value hLeaves => exact .next ⟨_, hLeaves, rfl⟩ hSame hKeeps
  | trap => exact .exit .trap
  | exhausted => exact .exit .exhausted

end Setting.Works

/-! ## Conditionals and blocks -/

/-- Steps of an arm, which stands in a frame of its own. -/
def Setting.Framed (setting : Setting) (spot : Spot) (last : Slots) (type : Ty) (steps : List Step)
    (eval : Scope → Ending (Option Word)) : Prop :=
  ∀ vars locals kept stack, spot.Matches kept vars → Roomy last kept → spot.Keeps locals kept →
    Simulates setting.functions setting.fuel setting.store
      (.falling setting.store spot (spot.later last) (Leaves type) locals stack)
      [.block (blockArity type) steps] ⟨setting.store, kept, stack⟩ (eval vars)

namespace Setting.Works

variable {last : Slots} {type : Ty} {test yes no : Code} {few more most : Nat}
variable {cond whenTrue whenFalse : Scope → Ending (Option Word)}

theorem framed (hArm : setting.Works (spot.later middle).inFrame
      ((spot.later middle).inFrame.later after) (Leaves type) code value)
    (hTargets : spot.Reaches) (hEarlier : spot.before.Grows middle few)
    (hLater : after.Grows last more) :
    ∃ steps, Reads setting.types code steps ∧ setting.Framed spot last type steps value := by
  obtain ⟨steps, hReads, hRun⟩ := hArm
  refine ⟨steps, hReads, fun vars locals kept stack hMatches hRoomy hKeeps => ?_⟩
  exact (hRun vars kept [] (hMatches.reframe rfl rfl) (hRoomy.before hLater)).frame
    (fun _ _ hSame => hSame.reframe rfl rfl) (fun _ _ => leaves_length) rfl
    (Spot.Inside.later hKeeps hEarlier.size_le).inFrame rfl hTargets

/-- A condition, and the choice between two arms. -/
theorem chosen {rest : Code} {yesSteps noSteps : List Step}
    (hTest : setting.Works spot (spot.later middle) (Leaves .bool) test cond)
    (hGrows : middle.Grows last count)
    (hReads : Reads setting.types rest [.choose (blockArity type) yesSteps noSteps])
    (hYes : setting.Framed spot last type yesSteps whenTrue)
    (hNo : setting.Framed spot last type noSteps whenFalse) :
    setting.Works spot (spot.later last) (Leaves type) (test ++ rest)
      (fun vars => (cond vars).word fun truth vars =>
        if truth.isTrue then whenTrue vars else whenFalse vars) := by
  refine hTest.consumed rfl hGrows hReads ?_
  intro truth vars locals kept stack hKind hMatches hRoomy hKeeps
  refine .choose (Option.some.inj hKind).symm ?_
  split
  · exact hYes vars locals kept stack hMatches hRoomy hKeeps
  · exact hNo vars locals kept stack hMatches hRoomy hKeeps

theorem branch (hTargets : spot.Reaches)
    (hTest : setting.Works spot (spot.later middle) (Leaves .bool) test cond)
    (hYes : setting.Works (spot.later middle).inFrame ((spot.later middle).inFrame.later after)
      (Leaves type) yes whenTrue)
    (hNo : setting.Works (spot.later after).inFrame ((spot.later after).inFrame.later last)
      (Leaves type) no whenFalse)
    (hFirst : spot.before.Grows middle few) (hSecond : middle.Grows after more)
    (hThird : after.Grows last most) :
    setting.Works spot (spot.later last) (Leaves type)
      (test ++ .ifThen (blockType type) :: yes ++ Opcode.otherwise.instr :: no ++ [.close])
      (fun vars => (cond vars).word fun truth vars =>
        if truth.isTrue then whenTrue vars else whenFalse vars) := by
  obtain ⟨yesSteps, hYesReads, hYesFramed⟩ := hYes.framed hTargets hFirst hThird
  obtain ⟨noSteps, hNoReads, hNoFramed⟩ := hNo.framed hTargets (hFirst.trans hSecond) (.refl last 0)
  have hReads := Reads.ifElse (ofBlockType?_blockType type) hYesReads hNoReads
  rw [List.append_assoc] at hReads
  rw [List.append_assoc, List.append_assoc]
  exact hTest.chosen (hSecond.trans hThird) hReads hYesFramed hNoFramed

/-- The value of code that leaves nothing is not needed. -/
theorem forget (hWorks : setting.Works spot behind (Leaves .void) code value) :
    setting.Works spot behind (Leaves .void) code (fun vars => (value vars).forget) := by
  obtain ⟨steps, hReads, hRun⟩ := hWorks
  refine ⟨steps, hReads, fun vars locals stack hMatches hRoomy => ?_⟩
  have hNothing : Leaves .void none [] := rfl
  rw [← List.append_nil steps]
  refine (hRun vars locals stack hMatches hRoomy).bind (.refl _ _) rfl ?_
  rintro _ vars kept values hLeaves hSame hKeeps _
  cases hLeaves
  exact .done hNothing hSame hKeeps

theorem framed_nil (hTargets : spot.Reaches) : setting.Framed spot last .void [] (.next none) := by
  intro vars locals kept stack hMatches hRoomy hKeeps
  have hNothing : Leaves .void none [] := rfl
  have hDone := @Simulates.done setting.functions setting.fuel setting.store _ kept _ _ vars
    spot.inFrame spot.inFrame _ kept [] hNothing (hMatches.reframe rfl rfl) (.refl _ _)
  exact hDone.frame (fun _ _ hSame => hSame.reframe rfl rfl) (fun _ _ => leaves_length) rfl
    (Spot.Inside.inFrame ⟨.refl spot, hKeeps⟩) rfl hTargets

/-- A conditional without an alternative has no value. -/
theorem branchOnly (hTargets : spot.Reaches)
    (hTest : setting.Works spot (spot.later middle) (Leaves .bool) test cond)
    (hYes : setting.Works (spot.later middle).inFrame ((spot.later middle).inFrame.later after)
      (Leaves .void) yes whenTrue)
    (hFirst : spot.before.Grows middle few) (hSecond : middle.Grows after more) :
    setting.Works spot (spot.later after) (Leaves .void)
      (test ++ .ifThen voidBlock :: yes ++ [.close])
      (fun vars => (cond vars).word fun truth vars =>
        if truth.isTrue then (whenTrue vars).forget else .next none vars) := by
  obtain ⟨steps, hReads, hFramed⟩ := hYes.forget.framed hTargets hFirst (.refl after 0)
  rw [List.append_assoc]
  exact hTest.chosen hSecond (.ifThen Arity.ofBlockType?_void hReads) hFramed (framed_nil hTargets)

variable {inner : Spot} {stmts : Scope → Ending Unit}

/-- The names that a block binds end with it. -/
theorem block (hStmts : setting.Works spot inner nothing first stmts)
    (hTail : setting.Works inner (inner.later after) (Leaves type) second value)
    (hEncloses : spot.Encloses inner) (hFrames : inner.context.frames = spot.context.frames)
    (hGrows : inner.before.Grows after count) :
    setting.Works spot (spot.later after) (Leaves type) (first ++ second)
      (fun vars => ((stmts vars).bind fun _ vars => value vars).within vars.length) := by
  obtain ⟨front, hFront, hFirst⟩ := hStmts
  obtain ⟨back, hBack, hSecond⟩ := hTail
  refine ⟨_, hFront.append hBack, fun vars locals stack hMatches hRoomy => ?_⟩
  refine Simulates.within ?_ (hEncloses.trans (.later inner hGrows.size_le)) hMatches.length
  refine (hFirst vars locals stack hMatches (hRoomy.before hGrows)).bind (.refl _ _) rfl ?_
  rintro _ vars kept values hNothing hSame hKeeps _
  cases hNothing
  exact (hSecond vars kept stack hSame (hRoomy.keep hKeeps.types)).outward
    ⟨hEncloses, hKeeps⟩ hFrames

/-- A block without a value, which may be used where one is needed if its end is not reached. -/
theorem blockOnly {tag : Tag} (hStmts : setting.Works spot inner nothing code stmts)
    (hEncloses : spot.Encloses inner) (hTag : tag.type.isVoid = type.isVoid) :
    setting.Works spot (spot.later inner.before) (Leaves type)
      (if type.isVoid then code else code ++ [Opcode.unreachable.instr])
      (fun vars => ((stmts vars).bind fun _ vars =>
        if tag.type.isVoid then .next none vars else .trap .unreachable).within vars.length) := by
  obtain ⟨steps, hReads, hRun⟩ := hStmts
  rw [hTag]
  by_cases hVoid : type.isVoid = true
  · have hNothing : Leaves type none [] := by rw [Leaves, (isVoid_iff type).1 hVoid]
    simp only [if_pos hVoid]
    refine ⟨steps ++ [], by rwa [List.append_nil], fun vars locals stack hMatches hRoomy => ?_⟩
    refine Simulates.within ?_ hEncloses hMatches.length
    refine (hRun vars locals stack hMatches hRoomy).bind (.refl _ _) rfl ?_
    rintro _ vars kept values hLeaves hSame hKeeps _
    cases hLeaves
    exact .done hNothing hSame hKeeps
  · simp only [if_neg hVoid]
    refine ⟨_, hReads.append .unreachable, fun vars locals stack hMatches hRoomy => ?_⟩
    refine Simulates.within ?_ hEncloses hMatches.length
    refine (hRun vars locals stack hMatches hRoomy).bind (.refl _ _) rfl ?_
    rintro _ vars kept values hLeaves hSame hKeeps _
    exact .unreachable

/-- The subject of a match is kept in a slot of its own. -/
theorem cases {subject : Ty} {eval : Word → Scope → Ending (Option Word)}
    (hSound : spot.Sound hidden) (hSome : subject.isVoid = false)
    (hSubject : setting.Works spot (spot.later middle) (Leaves subject) first value)
    (hArms : setting.Decides (spot.later (middle.push subject)) (spot.later after)
      (middle.next subject) type second eval)
    (hFirst : spot.before.Grows middle few) (hSecond : (middle.push subject).Grows after more) :
    setting.Works spot (spot.later after) (Leaves type)
      (first ++ .localSet (middle.next subject).index :: second)
      (fun vars => (value vars).word eval) := by
  obtain ⟨steps, hReads, hRun⟩ := hArms
  refine hSubject.consumed hSome ((Slots.Grows.push _ _).trans hSecond)
    ((reads_localSet _).append hReads) ?_
  intro word vars locals kept stack hKind hMatches hRoomy hKeeps
  have hPushed := hRoomy.before hSecond
  have hNew : spot.before.size ≤ (middle.next subject).index.toNat :=
    hPushed.next.1 ▸ hFirst.size_le
  obtain ⟨filled, hFilled, hPerform⟩ := hPushed.fill hKind
  have hStill := hFilled.keeps hKeeps (.inl hNew)
  have hSize := (hFirst.trans (Slots.Grows.push middle subject)).size_le
  refine .step (hPerform _ _) ?_
  exact (hRun word vars filled stack
    ((hFilled.matches hMatches (hSound.ne_new hNew)).reframe rfl rfl)
    (hRoomy.keep hFilled.types) hFilled.holds).outward (.later hStill hSize) rfl

end Setting.Works

namespace Setting.Decides

variable {last : Slots} {type : Ty} {slot : Slot} {few more most : Nat}

theorem noArm : setting.Decides spot behind slot type [Opcode.unreachable.instr]
    (fun _ _ => .trap .unreachable) :=
  ⟨_, .unreachable, fun _ _ _ _ _ _ _ => .unreachable⟩

theorem wildcard (hBody : setting.Works spot behind (Leaves type) code value) :
    setting.Decides spot behind slot type code (fun _ => value) := by
  obtain ⟨steps, hReads, hRun⟩ := hBody
  exact ⟨steps, hReads, fun _ vars locals stack hMatches hRoomy _ =>
    hRun vars locals stack hMatches hRoomy⟩

/-- A name that is bound to the subject gets a slot of its own. -/
theorem bind {name : String} (hSound : spot.Sound hidden)
    (hBody : setting.Works (spot.bind name (spot.before.next slot.type) (some name)
        (spot.before.push slot.type))
      ((spot.bind name (spot.before.next slot.type) (some name) (spot.before.push slot.type)).later
        after)
      (Leaves type) code value)
    (hGrows : (spot.before.push slot.type).Grows after count) :
    setting.Decides spot (spot.later after) slot type
      (.localGet slot.index :: .localSet (spot.before.next slot.type).index :: code)
      (fun subject vars => (value ((some name, subject) :: vars)).within vars.length) := by
  obtain ⟨steps, hReads, hRun⟩ := hBody
  refine ⟨_, (reads_localGet _).append ((reads_localSet _).append hReads), ?_⟩
  intro subject vars locals stack hMatches hRoomy hHolds
  have hPushed := hRoomy.before hGrows
  have hNew : spot.before.size ≤ (spot.before.next slot.type).index.toNat :=
    Nat.le_of_eq hPushed.next.1.symm
  obtain ⟨filled, hFilled, hPerform⟩ := hPushed.fill hHolds.kind
  have hKeeps := hFilled.keeps (.refl spot locals) (.inl hNew)
  have hEncloses :=
    Spot.Encloses.bind spot name (some name) hNew (Slots.Grows.push _ slot.type).size_le
  refine .step (perform_localGet hHolds.value) (.step (hPerform _ _) ?_)
  refine Simulates.within ?_ (hEncloses.trans (.later _ hGrows.size_le)) hMatches.length
  exact (hRun _ filled stack (hMatches.bind hSound hFilled hNew _ _ _)
    (hRoomy.keep hFilled.types)).outward ⟨hEncloses, hKeeps⟩ rfl

/-- An arm that is taken for one value. -/
theorem literal {test yes no : Code} {constant body : Scope → Ending (Option Word)}
    {others : Word → Scope → Ending (Option Word)} (hTargets : spot.Reaches)
    (hSome : slot.type.isVoid = false) (hSlot : slot.index.toNat < spot.before.size)
    (hFree : ∀ entry ∈ spot.context.scope, entry.2.index.toNat ≠ slot.index.toNat)
    (hTest : setting.Works spot (spot.later middle) (Leaves slot.type) test constant)
    (hYes : setting.Works (spot.later middle).inFrame ((spot.later middle).inFrame.later after)
      (Leaves type) yes body)
    (hNo : setting.Decides (spot.later after).inFrame
      ((spot.later after).inFrame.later last) slot type no others)
    (hFirst : spot.before.Grows middle few) (hSecond : middle.Grows after more)
    (hThird : after.Grows last most) :
    setting.Decides spot (spot.later last) slot type (literalArmCode slot type test yes no)
      (fun subject vars => (constant vars).word fun constant vars =>
        if constant = subject then body vars else others subject vars) := by
  obtain ⟨testSteps, hTestReads, hTestRun⟩ := hTest
  obtain ⟨yesSteps, hYesReads, hYesRun⟩ := hYes.framed hTargets hFirst hThird
  obtain ⟨noSteps, hNoReads, hNoRun⟩ := hNo
  refine ⟨_, reads_literalArm slot type hTestReads hYesReads hNoReads, ?_⟩
  intro subject vars locals stack hMatches hRoomy hHolds
  refine .step (perform_localGet hHolds.value) ?_
  refine (hTestRun vars locals _ hMatches (hRoomy.before (hSecond.trans hThird))).word hSome
    (.refl _ _) rfl ?_
  intro word vars kept hKind hSame hKeeps _
  have hStill := hKeeps.holds hHolds hSlot hFree
  have hAgain := hRoomy.keep hKeeps.types
  have hPerform := @perform_apply setting.store kept stack _ _ _ _ _ (operator?_equality slot.type)
    hHolds.kind hKind
  have hSameKind : subject.kind = word.kind := Option.some.inj (hHolds.kind.symm.trans hKind)
  have hEqual : word = subject ↔ (Word.ofBool (subject.toInt == word.toInt)).isTrue = true := by
    rw [Word.isTrue_ofBool, beq_iff_eq, toInt_inj hSameKind, eq_comm]
  refine .step hPerform (.choose rfl ?_)
  by_cases hFits : word = subject
  · rw [if_pos hFits, if_pos (hEqual.1 hFits)]
    exact hYesRun vars locals kept stack (hSame.reframe rfl rfl) hAgain hKeeps
  · rw [if_neg hFits, if_neg (mt hEqual.2 hFits)]
    exact (hNoRun subject vars kept [] (hSame.reframe rfl rfl) hAgain hStill).frame
      (fun _ _ hLast => hLast.reframe rfl rfl) (fun _ _ => leaves_length) rfl
      (Spot.Inside.later hKeeps (hFirst.trans hSecond).size_le).inFrame rfl hTargets

end Setting.Decides

end RecordWasm.Evaluation
