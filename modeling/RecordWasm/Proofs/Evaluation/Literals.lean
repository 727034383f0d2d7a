import RecordWasm.Proofs.Evaluation.Arithmetic
import RecordWasm.Proofs.Lowering.Constants

/-!
# Sums of numbers

Sums, differences and products of untyped integers are constants.  A number takes the integer type
that is expected, and so does an operator between two numbers.  Of a deeper expression the types of
the parts are found without regard to what is expected: it is computed in 64 bits, and where 32 bits
are expected it has no code.
-/

namespace RecordWasm.Evaluation

open Syntax Machine Wasm Lowering

/-- The operators of the ring of integers. -/
def ringOperator? : String → Option (Int → Int → Int)
  | "+" => some (· + ·)
  | "-" => some (· - ·)
  | "*" => some (· * ·)
  | _ => none

/-- An expression is put together from untyped integers and amounts to an integer. -/
inductive Amounts : Expr → Int → Prop where
  | literal {tag : Tag} {number : Int64} (hUntyped : tag.type = .void ∨ tag.type = .i64) :
      Amounts (.int tag number) number.toInt
  | negate {tag : Tag} {operand : Expr} {number : Int} :
      Amounts operand number → Amounts (.unary tag "-" operand) (-number)
  | operate {tag : Tag} {op : String} {left right : Expr} {apply : Int → Int → Int} {x y : Int} :
      ringOperator? op = some apply → Amounts left x → Amounts right y →
      Amounts (.binary tag op left right) (apply x y)

/-- An integer, wrapped around in the range of an integer type. -/
def wrapped (type : Ty) (number : Int) : Value :=
  match type with
  | .i64 => .i64 ⟨BitVec.ofInt 64 number⟩
  | _ => .i32 ⟨BitVec.ofInt 32 number⟩

/-- A number, or an operator between two numbers. -/
def isShallow : Expr → Bool
  | .binary _ _ left right => isNumericLit left && isNumericLit right
  | other => isNumericLit other

/-- The type at which a sum is computed where a type is expected. -/
def sumType (type : Ty) (sum : Expr) : Ty := if isShallow sum then type else .i64

section Operators

variable {type : Ty} {op : String} {apply : Int → Int → Int}

theorem isComparison_of_ring (hRing : ringOperator? op = some apply) : isComparison op = false := by
  unfold ringOperator? at hRing
  split at hRing <;> first | rfl | cases hRing

theorem isLogical_of_ring (hRing : ringOperator? op = some apply) : isLogical op = false := by
  unfold ringOperator? at hRing
  split at hRing <;> first | rfl | cases hRing

/-- The machine computes with wrapped integers. -/
theorem ring_computes (hInteger : type.isInteger = true) (hRing : ringOperator? op = some apply) :
    ∃ opcode, operator? type op = some opcode ∧ ∀ x y store locals below,
      State.perform ⟨store, locals, wrapped type y :: wrapped type x :: below⟩ opcode .none =
        .ok ⟨store, locals, wrapped type (apply x y) :: below⟩ := by
  have hSub (width : Nat) (x y : Int) :
      BitVec.ofInt width (x - y) = BitVec.ofInt width x - BitVec.ofInt width y := by
    rw [Int.sub_eq_add_neg, BitVec.ofInt_add, BitVec.ofInt_neg, BitVec.sub_eq_add_neg]
  unfold ringOperator? at hRing
  cases type with
  | i32 | i64 =>
      split at hRing <;> cases hRing <;> refine ⟨_, rfl, fun x y store locals below => ?_⟩
      all_goals
        simp only [wrapped, BitVec.ofInt_add, BitVec.ofInt_mul, hSub]
        rfl
  | _ => cases hInteger

/-- A literal of an integer type is wrapped. -/
theorem pushes_literal (hInteger : type.isInteger = true) (number : Int64) :
    Pushes [constInt type number] (wrapped type number.toInt) := by
  cases type with
  | i32 => exact .of_plain rfl fun _ => rfl
  | i64 =>
      have hBits : wrapped .i64 number.toInt = .i64 number.toUInt64 := by
        simp only [wrapped, Int64.toInt, BitVec.ofInt_toInt]
        rfl
      rw [hBits]
      exact .of_plain rfl fun _ => rfl
  | _ => cases hInteger

end Operators

section Sums

variable {context : Context} {type : Ty} {sum : Expr} {number : Int}

theorem isShallow_of_isNumericLit (hNumber : isNumericLit sum = true) : isShallow sum = true := by
  cases sum <;> first | exact hNumber | cases hNumber

theorem isInteger_sumType (hInteger : type.isInteger = true) (sum : Expr) :
    (sumType type sum).isInteger = true := by
  rw [sumType]
  split
  · exact hInteger
  · rfl

/-- Sixty-four bits are what a sum is computed in if nothing else is expected. -/
theorem sumType_i64 (sum : Expr) : sumType .i64 sum = .i64 := by
  rw [sumType, ite_self]

theorem sumType_number (hNumber : isNumericLit sum = true) : sumType type sum = type := by
  rw [sumType, if_pos (isShallow_of_isNumericLit hNumber)]

theorem sumType_eq_iff (hInteger : type.isInteger = true) :
    sameRepr (sumType type sum) type = true ↔ type = .i64 ∨ isShallow sum = true := by
  rw [sumType]
  cases type with
  | i32 | i64 => cases isShallow sum <;> decide
  | _ => cases hInteger

/-- The type that a sum is found to have takes no notice of what is expected. -/
theorem typeOf_sum (hAmounts : Amounts sum number) : context.typeOf sum = .i64 := by
  induction hAmounts with
  | literal hUntyped =>
      rw [Context.typeOf]
      rcases hUntyped with hType | hType <;> rw [hType] <;> rfl
  | negate _ ih =>
      rw [Context.typeOf, if_neg (by decide)]
      exact ih
  | operate hRing _ _ ihLeft ihRight =>
      rw [Context.typeOf, isComparison_of_ring hRing, isLogical_of_ring hRing, ihLeft, ihRight,
        Context.joinTypes]
      simp [orDefault, Ty.isVoid]

/-- A minus sign works at the type of the sum in front of which it stands. -/
theorem negationType_sum {tag : Tag} (hInteger : type.isInteger = true)
    (hAmounts : Amounts sum number) :
    negationType context sum type = sumType type (.unary tag "-" sum) ∧
      sumType (negationType context sum type) sum = negationType context sum type := by
  have hNumeric : isNumeric type = true := by rw [isNumeric, hInteger, Bool.true_or]
  rw [negationType, hNumeric, Bool.and_true, typeOf_sum hAmounts]
  have hShallow : isShallow (.unary tag "-" sum) = isNumericLit sum := by
    simp [isShallow, isNumericLit]
  rw [sumType, hShallow]
  split
  · rename_i hNumber
    exact ⟨rfl, sumType_number hNumber⟩
  · exact ⟨rfl, sumType_i64 sum⟩

/-- An operator works at the type of the sum that it makes of its operands. -/
theorem binaryType_sum {tag : Tag} {op : String} {apply : Int → Int → Int} {left right : Expr}
    {x y : Int} (hInteger : type.isInteger = true) (hRing : ringOperator? op = some apply)
    (hLeft : Amounts left x) (hRight : Amounts right y) :
    binaryType context op left right type = sumType type (.binary tag op left right) ∧
      ∀ operand, operand = left ∨ operand = right →
        sumType (binaryType context op left right type) operand =
          binaryType context op left right type := by
  have hNumeric : isNumeric type = true := by rw [isNumeric, hInteger, Bool.true_or]
  have hOperand : context.operandType left right = .i64 := by
    rw [Context.operandType, typeOf_sum hLeft, typeOf_sum hRight, Context.joinTypes]
    simp [orDefault, Ty.isVoid]
  rw [binaryType, isComparison_of_ring hRing, hNumeric, hOperand, sumType, isShallow,
    Bool.not_false, Bool.true_and, Bool.true_and]
  split
  · rename_i hBoth
    obtain ⟨hFirst, hSecond⟩ := Bool.and_eq_true_iff.1 hBoth
    refine ⟨rfl, ?_⟩
    rintro operand (rfl | rfl)
    · exact sumType_number hFirst
    · exact sumType_number hSecond
  · exact ⟨rfl, fun operand _ => sumType_i64 operand⟩

/-- Wherever a sum stands, it is lowered to a constant of its type. -/
theorem Amounts.derives (hAmounts : Amounts sum number) :
    ∀ {type : Ty}, type.isInteger = true → ∀ context asArm slots, ∃ code,
      Derives slots (.expr context type asArm sum ⟨code, sumType type sum⟩) slots ∧
        Pushes code (wrapped (sumType type sum) number) := by
  induction hAmounts with
  | @literal tag number hUntyped =>
      intro type hInteger context asArm slots
      have hNumeric : isNumeric type = true := by rw [isNumeric, hInteger, Bool.true_or]
      have hType : type = orDefault (if isNumeric type then type else tag.type) .i64 := by
        rw [if_pos hNumeric]
        cases type <;> first | rfl | cases hInteger
      rw [sumType_number rfl]
      exact ⟨_, .int hType, pushes_literal hInteger number⟩
  | @negate tag operand number hOperand ih =>
      intro type hInteger context asArm slots
      obtain ⟨hType, hPart⟩ := @negationType_sum context type operand number tag hInteger hOperand
      rw [← hType]
      generalize hResult : negationType context operand type = result at hType hPart ⊢
      have hWidth : result.isInteger = true := hType ▸ isInteger_sumType hInteger _
      obtain ⟨code, hDerives, hPushes⟩ := ih hWidth context false slots
      rw [hPart] at hDerives hPushes
      refine ⟨_, .negateInt hResult.symm hWidth (.value hDerives (beq_self_eq_true _)), ?_⟩
      obtain ⟨opcode, hOpcode, hPerform⟩ := ring_computes hWidth (rfl : ringOperator? "-" = _)
      rw [operator?_integer hWidth] at hOpcode
      cases hOpcode
      rw [← Int.zero_sub]
      exact .binary rfl (pushes_literal hWidth 0) hPushes (hPerform 0 number)
  | @operate tag op left right apply x y hRing hLeft hRight ihLeft ihRight =>
      intro type hInteger context asArm slots
      obtain ⟨hType, hParts⟩ :=
        @binaryType_sum context type tag op apply left right x y hInteger hRing hLeft hRight
      rw [← hType]
      generalize hResult : binaryType context op left right type = result at hType hParts ⊢
      have hWidth : result.isInteger = true := hType ▸ isInteger_sumType hInteger _
      have hSome : result.isVoid = false := by cases result <;> first | rfl | cases hWidth
      obtain ⟨first, hFirst, hPushes⟩ := ihLeft hWidth context false slots
      obtain ⟨second, hSecond, hOthers⟩ := ihRight hWidth context false slots
      rw [hParts left (.inl rfl)] at hFirst hPushes
      rw [hParts right (.inr rfl)] at hSecond hOthers
      obtain ⟨opcode, hOpcode, hPerform⟩ := ring_computes hWidth hRing
      have hDerives :=
        @Derives.binary _ _ _ _ type _ asArm tag _ _ _ _ _ _ (isLogical_of_ring hRing)
          hResult.symm hSome (.value hFirst (beq_self_eq_true _))
            (.value hSecond (beq_self_eq_true _))
          hOpcode
      rw [isComparison_of_ring hRing] at hDerives
      exact ⟨_, hDerives, .binary (isPlain_operator hOpcode) hPushes hOthers (hPerform x y)⟩

/-- A sum has code where a type is expected if it is computed at this type. -/
theorem value_sum (hAmounts : Amounts sum number) (hInteger : type.isInteger = true)
    (context : Context) (slots : Slots) :
    (∃ code after, (Judgement.value context type sum code).Generated slots after) ↔
      type = .i64 ∨ isShallow sum = true := by
  obtain ⟨code, hDerives, -⟩ := hAmounts.derives hInteger context false slots
  rw [← sumType_eq_iff hInteger]
  constructor
  · rintro ⟨_, after, lowered, hLower, hSame, -⟩
    cases hLower.symm.trans hDerives.generated
    exact hSame
  · intro hSame
    exact ⟨code, slots, (Derives.value hDerives hSame).generated⟩

end Sums

/-! ## Sums as operands -/

section Operands

variable {context : Context} {hint type : Ty} {asArm : Bool} {tag : Tag} {op : String}
variable {apply : Int → Int → Int} {left right sum operand : Expr} {number : Int}
variable {before middle after : Slots}

/-- What an operator of the ring needs to have code of a type. -/
theorem binary_gives_iff (hRing : ringOperator? op = some apply)
    (hInteger : type.isInteger = true) :
    (∃ code after, lowerExpr context hint asArm (.binary tag op left right) before =
        .ok (⟨code, type⟩, after)) ↔
      binaryType context op left right hint = type ∧ ∃ first second middle after,
        (Judgement.value context type left first).Generated before middle ∧
          (Judgement.value context type right second).Generated middle after := by
  have hLogical := isLogical_of_ring hRing
  have hComparison := isComparison_of_ring hRing
  constructor
  · rintro ⟨code, after, hLower⟩
    have hDerives := lowerExpr_derives _ hLower
    generalize hLowered : (⟨code, type⟩ : Lowered) = lowered at hDerives
    cases hDerives with
    | logical hOther => cases hLogical.symm.trans hOther
    | binary _ hType _ hFirst hSecond _ =>
        rw [hComparison] at hLowered
        cases hLowered
        exact ⟨hType.symm, _, _, _, _, hFirst.generated, hSecond.generated⟩
  · rintro ⟨hType, first, second, middle, after, ⟨_, hFirst, hLeft, rfl⟩, ⟨_, hSecond, hRight, rfl⟩⟩
    obtain ⟨opcode, hOpcode, -⟩ := ring_computes hInteger hRing
    have hSome : type.isVoid = false := by cases type <;> first | rfl | cases hInteger
    have hDerives := @Derives.binary _ _ _ _ hint _ asArm tag _ _ _ _ _ _ hLogical hType.symm hSome
      (.value (lowerExpr_derives _ hFirst) hLeft) (.value (lowerExpr_derives _ hSecond) hRight)
        hOpcode
    rw [hComparison] at hDerives
    exact ⟨_, _, hDerives.generated⟩

/-- Behind an operand that is no number, a sum is computed at the type of the operand. -/
theorem binaryType_behind (hAmounts : Amounts sum number) (hOperand : isNumericLit operand = false)
    (hType : context.typeOf operand = type) (hInteger : type.isInteger = true) :
    binaryType context op operand sum hint = type := by
  rw [binaryType, hOperand, Context.operandType, Context.joinTypes, hOperand, hType,
    typeOf_sum hAmounts]
  cases type with
  | void => cases hInteger
  | _ => simp [orDefault, Ty.isVoid]

/-- In front of it only a number is. -/
theorem binaryType_before (hAmounts : Amounts sum number) (hOperand : isNumericLit operand = false)
    (hType : context.typeOf operand = type) (hInteger : type.isInteger = true) :
    binaryType context op sum operand hint = if isNumericLit sum then type else .i64 := by
  rw [binaryType, hOperand, Context.operandType, Context.joinTypes, hOperand, hType,
    typeOf_sum hAmounts]
  cases type with
  | void => cases hInteger
  | _ => simp [orDefault, Ty.isVoid]

end Operands

/-- Sums of untyped numbers where an integer type is expected.  The code pushes the integer that the
sum amounts to, wrapped around in the range of the type it is computed at: the one that is expected
if the sum is a number or an operator between two, and 64 bits if it is deeper.  So it has code
there unless it is deeper and 32 bits are expected.  Behind an operand that is no number, a sum has
the type of the operand under the same condition; in front of it, in 32 bits, only a number has. -/
theorem sums_retyped {sum : Expr} {number : Int} {type : Ty} (hAmounts : Amounts sum number)
    (hInteger : type.isInteger = true) (context : Context) (slots : Slots) :
    (∃ code, lowerExpr context type false sum slots = .ok (⟨code, sumType type sum⟩, slots) ∧
      Pushes code (wrapped (sumType type sum) number)) ∧
    ((∃ code after, (Judgement.value context type sum code).Generated slots after) ↔
      type = .i64 ∨ isShallow sum = true) ∧
    ∀ tag op apply operand hint asArm, ringOperator? op = some apply →
      isNumericLit operand = false → context.typeOf operand = type →
      (∃ code after, (Judgement.value context type operand code).Generated slots after) →
      ((∃ code after, lowerExpr context hint asArm (.binary tag op operand sum) slots =
          .ok (⟨code, type⟩, after)) ↔ type = .i64 ∨ isShallow sum = true) ∧
      ((∃ code after, lowerExpr context hint asArm (.binary tag op sum operand) slots =
          .ok (⟨code, type⟩, after)) ↔ type = .i64 ∨ isNumericLit sum = true) := by
  obtain ⟨code, hDerives, hPushes⟩ := hAmounts.derives hInteger context false slots
  refine ⟨⟨code, hDerives.generated, hPushes⟩, value_sum hAmounts hInteger context slots, ?_⟩
  rintro tag op apply operand hint asArm hRing hOperand hType ⟨first, after, hCode⟩
  rw [binary_gives_iff hRing hInteger, binary_gives_iff hRing hInteger,
    binaryType_behind hAmounts hOperand hType hInteger,
    binaryType_before hAmounts hOperand hType hInteger]
  constructor
  · rw [← value_sum hAmounts hInteger context after]
    constructor
    · rintro ⟨-, other, second, middle, last, ⟨_, hAgain, -⟩, hSecond⟩
      obtain ⟨_, hLower, -⟩ := hCode
      cases hLower.symm.trans hAgain
      exact ⟨second, last, hSecond⟩
    · rintro ⟨second, last, hSecond⟩
      exact ⟨rfl, first, second, after, last, hCode, hSecond⟩
  · constructor
    · rintro ⟨hSame, -⟩
      cases hNumber : isNumericLit sum with
      | true => exact .inr rfl
      | false =>
          rw [hNumber] at hSame
          exact .inl hSame.symm
    · intro hEither
      have hSame : (if isNumericLit sum then type else .i64) = type := by
        rcases hEither with rfl | hNumber
        · exact ite_self _
        · rw [if_pos hNumber]
      have hShallow := hEither.imp_right isShallow_of_isNumericLit
      have hSum := Derives.value hDerives ((sumType_eq_iff hInteger).2 hShallow)
      exact ⟨hSame, code, first, slots, after, hSum.generated, hCode⟩

/-- An environment without declarations. -/
def bare : Env := ⟨{}, ⟨8, 65536, 0, 1, 0, 1⟩, [], [], [], [], []⟩

/-- A place where `x` stands for a local of 32 bits. -/
def besideLocal : Context :=
  { env := bare, name := "scale", result := .i32, scope := [("x", ⟨0, .i32⟩)] }

/-- The sum of one and two, next to a local of 32 bits.  It may stand behind the local, not in
front. -/
theorem sums_retyped_three :
    (∃ code, lowerExpr besideLocal .i32 false (.binary {} "+" (.int {} 1) (.int {} 2)) ⟨1, []⟩ =
        .ok (⟨code, .i32⟩, ⟨1, []⟩) ∧ Pushes code (.i32 3)) ∧
      (∃ code after, lowerExpr besideLocal .i32 false (.binary {} "*" (.ident {} "x")
        (.binary {} "+" (.int {} 1) (.int {} 2))) ⟨1, []⟩ = .ok (⟨code, .i32⟩, after)) ∧
      ¬∃ code after, lowerExpr besideLocal .i32 false (.binary {} "*"
        (.binary {} "+" (.int {} 1) (.int {} 2)) (.ident {} "x")) ⟨1, []⟩ =
          .ok (⟨code, .i32⟩, after) := by
  have hSum : Amounts (.binary {} "+" (.int {} 1) (.int {} 2)) 3 :=
    .operate (rfl : ringOperator? "+" = _) (.literal (.inl rfl)) (.literal (.inl rfl))
  obtain ⟨hAlone, -, hOperands⟩ :=
    sums_retyped hSum (rfl : Ty.isInteger .i32 = true) besideLocal ⟨1, []⟩
  obtain ⟨hBehind, hBefore⟩ := hOperands {} "*" _ (.ident {} "x") .i32 false rfl rfl rfl
    ⟨[.localGet 0], ⟨1, []⟩, _, rfl, rfl, rfl⟩
  refine ⟨hAlone, hBehind.2 (.inr rfl), fun hCode => ?_⟩
  rcases hBefore.1 hCode with hWidth | hNumber
  · cases hWidth
  · cases hNumber

/-- A function of 32 bits that returns a product of untyped numbers, one factor of which is a
sum. -/
def product : FuncDecl where
  name := "product"
  params := []
  result := .i32
  body := [.result {} (.binary {} "*" (.binary {} "+" (.int {} 1) (.int {} 2)) (.int {} 3))]

/-- The product is nine, and it has no code where 32 bits are expected. -/
theorem product_refused :
    Amounts (.binary {} "*" (.binary {} "+" (.int {} 1) (.int {} 2)) (.int {} 3)) 9 ∧
      (¬∃ code after, (Judgement.value (entryPoint bare product) .i32
        (.binary {} "*" (.binary {} "+" (.int {} 1) (.int {} 2)) (.int {} 3)) code).Generated
          {} after) ∧
      ∃ failure, lowerFunction bare product = .error failure := by
  refine ⟨?_, ?_, _, rfl⟩
  · exact .operate (rfl : ringOperator? "*" = _)
      (.operate (rfl : ringOperator? "+" = _) (.literal (.inl rfl)) (.literal (.inl rfl)))
      (.literal (.inl rfl))
  · rintro ⟨code, after, lowered, hLower, hSame, -⟩
    cases hLower
    cases hSame

end RecordWasm.Evaluation
