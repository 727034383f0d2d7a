import RecordWasm.Proofs.Evaluation.Judgements

/-!
# All derivations are followed

The rules for expressions, arguments and arms, and the induction over derivations that puts all
rules together.
-/

namespace RecordWasm.Evaluation

open Syntax Machine Wasm Lowering

section Rules

variable {setting : Setting} {call : String → List Word → Answer} {functions : List String}
variable {first second before middle after : Slots} {context inner : Context}
variable {hint want type : Ty} {asArm : Bool} {tag : Tag} {code test yes no front others : Code}

theorem followed_value {expr : Expr} {lowered : Lowered} (hSame : sameRepr lowered.type want = true)
    (ih : Followed setting call functions before after (.expr context want false expr lowered)) :
    Followed setting call functions before after (.value context want expr lowered.code) :=
  fun _ _ _ hSound hReading hFits hCarries => (ih hSound hReading hFits hCarries).congr hSame

theorem followed_kept {expr : Expr} {lowered : Lowered} (hSame : sameRepr lowered.type want = true)
    (ih : Followed setting call functions before after (.expr context want asArm expr lowered)) :
    Followed setting call functions before after (.settled context want asArm expr lowered.code) :=
  fun _ _ _ hSound hReading hFits hCarries => (ih hSound hReading hFits hCarries).congr hSame

theorem followed_discarded {expr : Expr} {lowered : Lowered} (hVoid : want.isVoid = true)
    (ih : Followed setting call functions before after (.expr context want asArm expr lowered)) :
    Followed setting call functions before after
      (.settled context want asArm expr (discard lowered)) := by
  intro labels hidden other hSound hReading hFits hCarries
  have hLess : lowered.code.length ≤ (discard lowered).length := by
    rw [Lowering.discard]
    split <;> simp
  exact (ih hSound hReading
    (hFits.part (.refl before 0) 0 (Nat.le_refl _) (by simpa [Judgement.code] using hLess))
    hCarries).discard hVoid

/-- A literal has the type that it carries, or one that is represented alike. -/
theorem numType?_literalType (hWord : isWordType tag.type = true)
    (hSame : (!isNumeric hint || sameRepr tag.type hint) = true) :
    numType? tag.type = numType? (orDefault (if isNumeric hint then hint else tag.type) .i64) := by
  by_cases hNumeric : isNumeric hint = true
  · rw [hNumeric, Bool.not_true, Bool.false_or, sameRepr, beq_iff_eq] at hSame
    have hSome : hint.isVoid = false := by cases hint <;> first | rfl | cases hNumeric
    rw [if_pos hNumeric, orDefault, if_neg (by simp [hSome]), hSame]
  · have hSome : tag.type.isVoid = false := by
      generalize tag.type = type at hWord
      cases type <;> first | rfl | cases hWord
    rw [if_neg hNumeric, orDefault, if_neg (by simp [hSome])]

theorem followed_int {number : Int64}
    (hType : type = orDefault (if isNumeric hint then hint else tag.type) .i64) :
    Followed setting call functions before before
      (.expr context hint asArm (.int tag number) ⟨[constInt type number], type⟩) := by
  intro labels hidden other _ _ _ hCarries
  simp only [carries, exprCarries, Bool.and_eq_true] at hCarries
  simp only [Follow, evalExpr]
  exact .int hCarries.1 (hType ▸ numType?_literalType hCarries.1 hCarries.2)

theorem followed_bool {truth : Bool} :
    Followed setting call functions before before (.expr context hint asArm (.bool tag truth)
      ⟨[.i32Const (if truth then 1 else 0)], .bool⟩) := by
  intro labels hidden other _ _ _ _
  simp only [Follow, evalExpr]
  exact .bool truth

theorem followed_bound {name : String} {slot : Slot} (hLookup : context.lookup? name = some slot) :
    Followed setting call functions before before
      (.expr context hint asArm (.ident tag name) ⟨[.localGet slot.index], slot.type⟩) := by
  intro labels hidden other hSound _ _ hCarries
  simp only [carries, exprCarries, Bool.and_eq_true, decide_eq_true_eq] at hCarries
  simp only [Follow, evalExpr]
  exact .ident hSound hCarries.1.1 hLookup

/-- Names over words are bound. -/
theorem followed_free {name : String} {lowered : Lowered} (hLookup : context.lookup? name = none) :
    Followed setting call functions before before
      (.expr context hint asArm (.ident tag name) lowered) := by
  intro labels hidden other _ (hReading : Reading setting call functions context other) _ hCarries
  simp [carries, exprCarries, hReading.alike.lookup?_none hLookup] at hCarries

theorem followed_logical {op : String} {left right : Expr} (hOp : isLogical op = true)
    (hLeft : Derives before (.value context .bool left front) middle)
    (hRight : Derives middle (.value context .bool right others) after)
    (ihLeft : Followed setting call functions before middle (.value context .bool left front))
    (ihRight : Followed setting call functions middle after (.value context .bool right others)) :
    Followed setting call functions before after
      (.expr context hint asArm (.binary tag op left right)
      ⟨front ++ others ++ [(if op = "&&" then Opcode.int .w32 .and else Opcode.int .w32 .or).instr],
        .bool⟩) := by
  intro labels hidden other hSound hReading hFits hCarries
  simp only [carries, exprCarries, hOp, if_true, Bool.and_eq_true] at hCarries
  simp only [Follow, evalExpr]
  have hFirst := ihLeft hSound hReading
    (hFits.part (.refl before 0) 0 (Nat.le_refl _) (by simp [Judgement.code])) hCarries.1
  have hSecond := ihRight (hSound.later hLeft.grows.size_le) hReading
    (hFits.part hLeft.grows 0 (Nat.le_refl _) (by simp [Judgement.code])) hCarries.2
  exact .logical hOp hFirst hSecond hLeft.grows hRight.grows

theorem followed_binary {op : String} {left right : Expr} {opcode : Opcode}
    (hOp : isLogical op = false) (hType : type = binaryType context op left right hint)
    (hSome : type.isVoid = false) (hOpcode : operator? type op = some opcode)
    (hLeft : Derives before (.value context type left front) middle)
    (hRight : Derives middle (.value context type right others) after)
    (ihLeft : Followed setting call functions before middle (.value context type left front))
    (ihRight : Followed setting call functions middle after (.value context type right others)) :
    Followed setting call functions before after
      (.expr context hint asArm (.binary tag op left right)
      ⟨front ++ others ++ [opcode.instr], if isComparison op then .bool else type⟩) := by
  intro labels hidden other hSound (hReading : Reading setting call functions context other)
    hFits hCarries
  simp only [carries, exprCarries, hOp, Bool.false_eq_true, if_false,
    hReading.alike.binaryType op left right hint, ← hType, Bool.and_eq_true] at hCarries
  simp only [Follow, evalExpr]
  have hFirst := ihLeft hSound hReading
    (hFits.part (.refl before 0) 0 (Nat.le_refl _) (by simp [Judgement.code])) hCarries.1
  have hSecond := ihRight (hSound.later hLeft.grows.size_le) hReading
    (hFits.part hLeft.grows 0 (Nat.le_refl _) (by simp [Judgement.code])) hCarries.2
  exact .binary hOpcode hSome hFirst hSecond hLeft.grows hRight.grows

theorem followed_not {operand : Expr}
    (ih : Followed setting call functions before after (.value context .bool operand code)) :
    Followed setting call functions before after (.expr context hint asArm (.unary tag "!" operand)
      ⟨code ++ [(Opcode.eqz .w32).instr], .bool⟩) := by
  intro labels hidden other hSound hReading hFits hCarries
  simp only [carries, exprCarries, if_true] at hCarries
  simp only [Follow, evalExpr, if_true]
  exact .not (ih hSound hReading
    (hFits.part (.refl before 0) 0 (Nat.le_refl _) (by simp [Judgement.code])) hCarries)

theorem followed_negateInt {operand : Expr} (hType : type = negationType context operand hint)
    (hInteger : type.isInteger = true)
    (ih : Followed setting call functions before after (.value context type operand code)) :
    Followed setting call functions before after (.expr context hint asArm (.unary tag "-" operand)
      ⟨constInt type 0 :: code ++ [(Opcode.int (intWidth type) .sub).instr], type⟩) := by
  intro labels hidden other hSound (hReading : Reading setting call functions context other)
    hFits hCarries
  have hOp : ("-" : String) ≠ "!" := by decide
  simp only [carries, exprCarries, if_neg hOp, hReading.alike.negationType operand hint, ← hType]
    at hCarries
  simp only [Follow, evalExpr, if_neg hOp]
  exact .negate hInteger (ih hSound hReading
    (hFits.part (.refl before 0) 0 (Nat.le_refl _) (by simp [Judgement.code]; omega)) hCarries)

theorem followed_arg {params : List Ty} {arg : Expr} {args : List Expr}
    (hFirst : Derives before (.value context want arg front) middle)
    (hRest : Derives middle (.args context params args others) after)
    (ihFirst : Followed setting call functions before middle (.value context want arg front))
    (ihRest : Followed setting call functions middle after (.args context params args others)) :
    Followed setting call functions before after
      (.args context (want :: params) (arg :: args) (front ++ others)) := by
  intro labels hidden other hSound hReading hFits hCarries hSome
  simp only [carries, argsCarry, Bool.and_eq_true] at hCarries
  simp only [evalArgs]
  have hValue := ihFirst hSound hReading
    (hFits.part (.refl before 0) 0 (Nat.le_refl _) (by simp [Judgement.code])) hCarries.1
  have hOthers := ihRest (hSound.later hFirst.grows.size_le) hReading
    (hFits.part hFirst.grows 0 (Nat.le_refl _) (by simp [Judgement.code])) hCarries.2
    fun type hType => hSome type (List.mem_cons_of_mem _ hType)
  exact .arg (hSome want List.mem_cons_self) hValue hOthers hFirst.grows hRest.grows

theorem followed_call {function : String} {args : List Expr} {ref : FuncRef}
    (hCalls : context.Calls function ref)
    (ih : Followed setting call functions before after (.args context ref.params args code)) :
    Followed setting call functions before after
      (.expr context hint asArm (.call tag function args) (callCode ref code)) := by
  intro labels hidden other hSound (hReading : Reading setting call functions context other)
    hFits hCarries
  simp only [carries, exprCarries, Bool.and_eq_true, decide_eq_true_eq, Option.any_eq_true]
    at hCarries
  obtain ⟨hKnown, found, hFound, hArgs⟩ := hCarries
  -- A function that is known by its name is the one that is called.
  have hSame : found = ref := by
    rcases hCalls.2 with hFunction | ⟨hNone, -⟩
    · rw [hReading.alike.env, hFunction] at hFound
      exact (Option.some.inj hFound).symm
    · rw [hReading.alike.env, hNone] at hFound
      cases hFound
  subst hSame
  have hAnswers := hReading.knows function hKnown found hFound
  simp only [Follow, evalExpr]
  exact .call (ih hSound hReading
    (hFits.part (.refl before 0) 0 (Nat.le_refl _) (by simp [Judgement.code, callCode])) hArgs
    hAnswers.params) hAnswers

/-- There are no methods to call inside a free function. -/
theorem not_ownMethod {labels : List (Option String)} {hidden : List String} {name : String}
    {ref : FuncRef} (hSound : Spot.Sound ⟨context, labels, before⟩ hidden) :
    context.ownMethod? name ≠ some ref := by
  have hFree : context.receiver = "" := hSound.free
  rw [Context.ownMethod?, if_pos hFree]
  exact (Option.some_ne_none ref).symm

theorem followed_branchOnly {cond body : Expr}
    (hTest : Derives before (.value context .bool cond test) middle)
    (hBody : Derives middle (.settled context.inFrame .void true body code) after)
    (ihTest : Followed setting call functions before middle (.value context .bool cond test))
    (ihBody : Followed setting call functions middle after
      (.settled context.inFrame .void true body code)) :
    Followed setting call functions before after (.expr context hint asArm
      (.branch tag cond body .missing) ⟨test ++ .ifThen voidBlock :: code ++ [.close], .void⟩) := by
  intro labels hidden other hSound hReading hFits hCarries
  have hResult : branchResult other (.branch tag cond body .missing) body .missing hint = .void :=
    rfl
  simp only [carries, exprCarries, hResult, Bool.and_eq_true] at hCarries
  simp only [Follow, evalExpr, Expr.isMissing, if_true]
  have hCond := ihTest hSound hReading
    (hFits.part (.refl before 0) 0 (Nat.le_refl _) (by simp [Judgement.code])) hCarries.1.1
  have hYes := ihBody (hSound.later hTest.grows.size_le).inFrame hReading.inFrame
    (hFits.part hTest.grows 1 (Nat.le_refl _) (by simp [Judgement.code]; omega)) hCarries.1.2
  exact .branchOnly hSound.targets hCond hYes hTest.grows hBody.grows

theorem followed_branch {cond body otherwise : Expr} (hThere : otherwise.isMissing = false)
    (hType : type = branchResult context (.branch tag cond body otherwise) body otherwise hint)
    (hTest : Derives before (.value context .bool cond test) first)
    (hYes : Derives first (.settled context.inFrame type true body yes) second)
    (hNo : Derives second (.settled context.inFrame type true otherwise no) after)
    (ihTest : Followed setting call functions before first (.value context .bool cond test))
    (ihYes : Followed setting call functions first second
      (.settled context.inFrame type true body yes))
    (ihNo : Followed setting call functions second after
      (.settled context.inFrame type true otherwise no)) :
    Followed setting call functions before after (.expr context hint asArm
      (.branch tag cond body otherwise)
      ⟨test ++ .ifThen (blockType type) :: yes ++ Opcode.otherwise.instr :: no ++ [.close],
        type⟩) := by
  intro labels hidden other hSound (hReading : Reading setting call functions context other)
    hFits hCarries
  simp only [carries, exprCarries, hReading.alike.branchResult _ body otherwise hint, ← hType,
    hThere, Bool.false_or, Bool.and_eq_true] at hCarries
  simp only [Follow, evalExpr, hThere, Bool.false_eq_true, if_false]
  have hBefore := hSound.later (hTest.grows.trans hYes.grows).size_le
  have hCond := ihTest hSound hReading
    (hFits.part (.refl before 0) 0 (Nat.le_refl _) (by simp [Judgement.code])) hCarries.1.1
  have hFirst := ihYes (hSound.later hTest.grows.size_le).inFrame hReading.inFrame
    (hFits.part hTest.grows 1 (Nat.le_refl _) (by simp [Judgement.code]; omega)) hCarries.1.2
  have hSecond := ihNo hBefore.inFrame hReading.inFrame
    (hFits.part (hTest.grows.trans hYes.grows) 1 (Nat.le_refl _) (by simp [Judgement.code]; omega))
    hCarries.2
  exact .branch hSound.targets hCond hFirst hSecond hTest.grows hYes.grows hNo.grows

theorem followed_blockOnly {stmts : List Stmt}
    (hWant : want = yielded context tag stmts .missing hint asArm)
    (ih : Followed setting call functions before after (.stmts context stmts code inner)) :
    Followed setting call functions before after
      (.expr context hint asArm (.block tag stmts .missing)
      ⟨if want.isVoid then code else code ++ [Opcode.unreachable.instr], want⟩) := by
  intro labels hidden other hSound (hReading : Reading setting call functions context other)
    hFits hCarries
  simp only [carries, exprCarries, hReading.alike.yielded tag stmts .missing hint asArm, ← hWant,
    Expr.isMissing, if_true, Bool.and_eq_true, beq_iff_eq] at hCarries
  simp only [Follow, evalExpr, Expr.isMissing, if_true]
  have hLess : code.length ≤
      (if want.isVoid then code else code ++ [Opcode.unreachable.instr]).length := by
    split <;> simp
  obtain ⟨labels, hEncloses, -, hWorks⟩ := ih hSound hReading
    (hFits.part (.refl before 0) 0 (Nat.le_refl _) (by simpa [Judgement.code] using hLess))
      hCarries.1
  exact hWorks.blockOnly hEncloses hCarries.2

theorem followed_block {stmts : List Stmt} {tail : Expr} (hThere : tail.isMissing = false)
    (hWant : want = yielded context tag stmts tail hint asArm)
    (hStmts : Derives before (.stmts context stmts front inner) middle)
    (hTail : Derives middle (.settled inner want false tail others) after)
    (ihStmts : Followed setting call functions before middle (.stmts context stmts front inner))
    (ihTail : Followed setting call functions middle after
      (.settled inner want false tail others)) :
    Followed setting call functions before after
      (.expr context hint asArm (.block tag stmts tail) ⟨front ++ others, want⟩) := by
  intro labels hidden other hSound (hReading : Reading setting call functions context other)
    hFits hCarries
  simp only [carries, exprCarries, hReading.alike.yielded tag stmts tail hint asArm, ← hWant,
    hThere, Bool.false_eq_true, if_false, Bool.and_eq_true] at hCarries
  simp only [Follow, evalExpr, hThere, Bool.false_eq_true, if_false]
  have hSame : context.Same inner := hStmts.same
  obtain ⟨hEnv, hResult⟩ := foldl_behind_same other stmts
  obtain ⟨labels, hEncloses, hInner, hWorks⟩ := ihStmts hSound hReading
    (hFits.part (.refl before 0) 0 (Nat.le_refl _) (by simp [Judgement.code])) hCarries.1
  have hLast := ihTail hInner
    (hReading.behind (hStmts.behind hReading.alike) hEncloses.result hEnv hResult)
    (hFits.part hStmts.grows 0 (Nat.le_of_eq hSame.frames) (by simp [Judgement.code])) hCarries.2
  exact hWorks.block hLast hEncloses hSame.frames hTail.grows

theorem followed_cases {subject : Ty} {scrutinee : Expr} {arms : List Arm}
    (hSubject : subject = context.typeOf scrutinee) (hSome : subject.isVoid = false)
    (hType : type = casesResult context (.cases tag scrutinee arms) arms hint)
    (hScrutinee : Derives before (.value context subject scrutinee front) middle)
    (hArms : Derives (middle.push subject) (.arms context (middle.next subject) type arms others)
      after)
    (ihScrutinee : Followed setting call functions before middle
      (.value context subject scrutinee front))
    (ihArms : Followed setting call functions (middle.push subject) after
      (.arms context (middle.next subject) type arms others)) :
    Followed setting call functions before after (.expr context hint asArm
      (.cases tag scrutinee arms) ⟨front ++ .localSet (middle.next subject).index :: others,
        type⟩) := by
  intro labels hidden other hSound (hReading : Reading setting call functions context other)
    hFits hCarries
  simp only [carries, exprCarries, hReading.alike.typeOf scrutinee, ← hSubject,
    hReading.alike.casesResult _ arms hint, ← hType, Bool.and_eq_true] at hCarries
  simp only [Follow, evalExpr]
  have hPushed := hScrutinee.grows.trans (.push middle subject)
  have hPart : Fits context before front.length :=
    hFits.part (.refl before 0) 0 (Nat.le_refl _) (by simp [Judgement.code])
  have hNew := size_le_next hScrutinee.grows hPart.slots subject
  have hValue := ihScrutinee hSound hReading hPart hCarries.1
  have hDecides := ihArms (hSound.later hPushed.size_le) hReading
    (hFits.part hPushed 0 (Nat.le_refl _) (by simp [Judgement.code]; omega)) hCarries.2 hSome
    (middle.next_lt subject) (hSound.ne_new hNew)
  exact .cases hSound hSome hValue hDecides hScrutinee.grows hArms.grows

section Arms

variable {slot : Slot} {pos place : Position} {body : Expr} {rest : List Arm}

theorem followed_noArm :
    Followed setting call functions before before
      (.arms context slot type [] [Opcode.unreachable.instr]) := by
  intro labels hidden other _ _ _ _ _ _ _
  simp only [evalArms]
  exact .noArm

theorem followed_wildcard
    (ih : Followed setting call functions before after (.settled context type true body code)) :
    Followed setting call functions before after
      (.arms context slot type (.mk pos (.wildcard place) body :: rest) code) := by
  intro labels hidden other hSound hReading hFits hCarries _ _ _
  simp only [carries, armsCarry, Bool.and_eq_true] at hCarries
  simp only [evalArms]
  exact .wildcard (ih hSound hReading hFits hCarries.1)

theorem followed_bind {name : String}
    (hBody : Derives (before.push slot.type)
      (.settled (context.bind name (before.next slot.type)) type true body code) after)
    (ih : Followed setting call functions (before.push slot.type) after
      (.settled (context.bind name (before.next slot.type)) type true body code)) :
    Followed setting call functions before after (.arms context slot type
      (.mk pos (.bind place name) body :: rest)
      (.localGet slot.index :: .localSet (before.next slot.type).index :: code)) := by
  intro labels hidden other hSound (hReading : Reading setting call functions context other)
    hFits hCarries hSome _ _
  simp only [carries, armsCarry, Bool.and_eq_true] at hCarries
  simp only [evalArms]
  have hFew : before.size + 0 < 2 ^ 32 := Nat.lt_of_le_of_lt (Nat.le_add_right _ _) hFits.slots
  have hNew := size_le_next (.refl before 0) hFew slot.type
  have hInner := @Spot.Sound.bind _ _ _ _ name (some name) hSound [] (.inl rfl) hNew
    (before.next_lt slot.type) hSome
  have hWorks :=
    ih hInner (@Reading.bind _ _ _ _ _ hReading name (before.next slot.type) slot.type rfl)
      (hFits.part (.push before slot.type) 0 (Nat.le_refl _) (by simp [Judgement.code]; omega))
        hCarries.1
  exact .bind hSound hWorks hBody.grows

theorem followed_literal {value : Expr}
    (hValue : Derives before (.value context slot.type value test) first)
    (hBody : Derives first (.settled context.inFrame type true body yes) second)
    (hRest : Derives second (.arms context.inFrame slot type rest no) after)
    (ihValue : Followed setting call functions before first (.value context slot.type value test))
    (ihBody : Followed setting call functions first second
      (.settled context.inFrame type true body yes))
    (ihRest : Followed setting call functions second after
      (.arms context.inFrame slot type rest no)) :
    Followed setting call functions before after (.arms context slot type
      (.mk pos (.literal place value) body :: rest) (literalArmCode slot type test yes no)) := by
  intro labels hidden other hSound hReading hFits hCarries hSome hSlot hFree
  simp only [carries, armsCarry, Bool.and_eq_true] at hCarries
  simp only [evalArms]
  have hEarlier := hValue.grows.trans hBody.grows
  have hTest := ihValue hSound hReading
    (hFits.part (.refl before 0) 0 (Nat.le_refl _)
      (by simp [Judgement.code, literalArmCode]; omega))
    hCarries.1.1
  have hYes := ihBody (hSound.later hValue.grows.size_le).inFrame hReading.inFrame
    (hFits.part hValue.grows 1 (Nat.le_refl _) (by simp [Judgement.code, literalArmCode]; omega))
    hCarries.1.2
  have hNo := ihRest (hSound.later hEarlier.size_le).inFrame hReading.inFrame
    (hFits.part hEarlier 1 (Nat.le_refl _) (by simp [Judgement.code, literalArmCode]; omega))
    hCarries.2 hSome (Nat.lt_of_lt_of_le hSlot hEarlier.size_le) hFree
  exact .literal hSound.targets hSome hSlot hFree hTest hYes hNo hValue.grows hBody.grows
    hRest.grows

end Arms

/-- Numbers are negated at a type of words, since their operands have one. -/
theorem followed_negateFloat {operand : Expr} {width : Width}
    (hType : type = negationType context operand hint)
    (hFloat : numType? type = some width.floatType)
    (ih : Followed setting call functions before after (.value context type operand code)) :
    Followed setting call functions before after (.expr context hint asArm (.unary tag "-" operand)
      ⟨code ++ [(Opcode.floatSign width .neg).instr], type⟩) := by
  intro labels hidden other hSound (hReading : Reading setting call functions context other)
    hFits hCarries
  have hOp : ("-" : String) ≠ "!" := by decide
  have hSome : type.isVoid = false := by
    cases type <;> first | rfl | cases hFloat
  simp only [carries, exprCarries, if_neg hOp, hReading.alike.negationType operand hint, ← hType]
    at hCarries
  simp only [Follow, evalExpr, if_neg hOp]
  have hWorks := ih hSound hReading
    (hFits.part (.refl before 0) 0 (Nat.le_refl _) (by simp [Judgement.code])) hCarries
  refine hWorks.consumed hSome (.refl after 0) (reads_operation rfl) ?_
  intro word vars locals kept stack hKind
  rw [hFloat] at hKind
  cases word <;> cases width <;> cases hKind

/-- Source of a kind that words are not used for. -/
theorem followed_of_not {judgement : Judgement}
    (hNot : ∀ hidden other, carries functions hidden other judgement = false) :
    Followed setting call functions before after judgement := by
  intro labels hidden other _ _ _ hCarries
  rw [hNot] at hCarries
  cases hCarries

end Rules

/-! ## All rules -/

/-- Code that is derived follows the evaluation of its source. -/
theorem followed_of_derives {setting : Setting} {call : String → List Word → Answer}
    {functions : List String} {before after : Slots} {judgement : Judgement}
    (hDerives : Derives before judgement after) :
    Followed setting call functions before after judgement := by
  induction hDerives with
  | nil => exact followed_nil
  | cons hFirst hRest ihFirst ihRest => exact followed_cons hFirst hRest ihFirst ihRest
  | declare hType hSome hValue ih => exact followed_declare hType hSome hValue ih
  | assign hLookup hValue ih => exact followed_assign hLookup hValue ih
  | leaveVoid hVoid => exact followed_leaveVoid hVoid
  | leaveWith hSome hValue ih => exact followed_leaveWith hSome hValue ih
  | eval hValue ih => exact followed_eval hValue ih
  | whileLoop hTest hBody ihTest ihBody => exact followed_while hTest hBody ihTest ihBody
  | forever hBody ih => exact followed_forever hBody ih
  | forRange hType hInteger hStart hStop hBody ihStart ihStop ihBody =>
      exact followed_forRange hType hInteger hStart hStop hBody ihStart ihStop ihBody
  | leave hLoop => exact followed_leave hLoop
  | next hLoop => exact followed_next hLoop
  | value _ hSame ih => exact followed_value hSame ih
  | discarded hVoid _ ih => exact followed_discarded hVoid ih
  | kept _ _ hSame ih => exact followed_kept hSame ih
  | int hType => exact followed_int hType
  | bool => exact followed_bool
  | bound hLookup => exact followed_bound hLookup
  | self hLookup | path hLookup | named hLookup => exact followed_free hLookup
  | logical hOp hLeft hRight ihLeft ihRight =>
      exact followed_logical hOp hLeft hRight ihLeft ihRight
  | binary hOp hType hSome hLeft hRight hOpcode ihLeft ihRight =>
      exact followed_binary hOp hType hSome hOpcode hLeft hRight ihLeft ihRight
  | not _ ih => exact followed_not ih
  | negateFloat hType hFloat _ ih => exact followed_negateFloat hType hFloat ih
  | negateInt hType hInteger _ ih => exact followed_negateInt hType hInteger ih
  | call hCalls _ ih => exact followed_call hCalls ih
  | ownCall _ hOwn => exact fun _ _ _ hSound => absurd hOwn (not_ownMethod hSound)
  | noArgs => exact fun _ _ _ _ _ _ _ _ => .noArgs
  | arg hFirst hRest ihFirst ihRest => exact followed_arg hFirst hRest ihFirst ihRest
  | branchOnly hTest hBody ihTest ihBody => exact followed_branchOnly hTest hBody ihTest ihBody
  | branch hThere hType hTest hYes hNo ihTest ihYes ihNo =>
      exact followed_branch hThere hType hTest hYes hNo ihTest ihYes ihNo
  | blockOnly hWant _ ih => exact followed_blockOnly hWant ih
  | block hThere hWant hStmts hTail ihStmts ihTail =>
      exact followed_block hThere hWant hStmts hTail ihStmts ihTail
  | cases hSubject hSome _ hType hScrutinee hArms ihScrutinee ihArms =>
      exact followed_cases hSubject hSome hType hScrutinee hArms ihScrutinee ihArms
  | noArm => exact followed_noArm
  | wildcard _ ih => exact followed_wildcard ih
  | bind hBody ih => exact followed_bind hBody ih
  | literal hValue hBody hRest ihValue ihBody ihRest =>
      exact followed_literal hValue hBody hRest ihValue ihBody ihRest
  | float | variant | methodCall | member | construct | stored | store =>
      exact followed_of_not fun _ _ => by simp [carries, exprCarries]

end RecordWasm.Evaluation
