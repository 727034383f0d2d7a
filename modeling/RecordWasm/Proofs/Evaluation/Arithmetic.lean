import RecordWasm.Proofs.Evaluation.Reference
import RecordWasm.Proofs.Lowering.Nesting
import RecordWasm.Proofs.Machine.Perform

/-!
# Words in the machine

The machine keeps a word as the bits of a value.  Its instructions compute with bit vectors what the
evaluator computes with integers.
-/

namespace RecordWasm.Evaluation

open Syntax Machine Wasm Lowering

section Vectors

variable {width : Nat} (x y : BitVec width)

theorem intApply_add : intApply .add x y = .ok (BitVec.ofInt width (x.toInt + y.toInt)) := by
  rw [BitVec.ofInt_add, BitVec.ofInt_toInt, BitVec.ofInt_toInt]
  rfl

theorem intApply_sub : intApply .sub x y = .ok (BitVec.ofInt width (x.toInt - y.toInt)) := by
  rw [Int.sub_eq_add_neg, BitVec.ofInt_add, BitVec.ofInt_neg, BitVec.ofInt_toInt,
    BitVec.ofInt_toInt, ← BitVec.sub_eq_add_neg]
  rfl

theorem intApply_mul : intApply .mul x y = .ok (BitVec.ofInt width (x.toInt * y.toInt)) := by
  rw [BitVec.ofInt_mul, BitVec.ofInt_toInt, BitVec.ofInt_toInt]
  rfl

theorem toInt_eq_zero : y.toInt = 0 ↔ y = 0 := by
  rw [← BitVec.toInt_inj]
  simp

/-- A quotient is out of range only if the least number is negated. -/
theorem tdiv_eq_iff {dividend divisor limit : Int} (hLimit : 0 < limit) (hLow : -limit ≤ dividend)
    (hHigh : dividend < limit) (hSome : divisor ≠ 0) :
    dividend.tdiv divisor = limit ↔ dividend = -limit ∧ divisor = -1 := by
  constructor
  · intro hQuotient
    have hAbs := Int.natAbs_tdiv dividend divisor
    rw [hQuotient] at hAbs
    have hDivisor : 0 < divisor.natAbs := Int.natAbs_pos.2 hSome
    have hBound : limit.natAbs * divisor.natAbs ≤ dividend.natAbs := by
      rw [hAbs]
      exact Nat.div_mul_le_self _ _
    have hLess : dividend.natAbs ≤ limit.natAbs := by omega
    have hOne : divisor.natAbs = 1 := by
      have hPos : 0 < limit.natAbs := by omega
      have hMore : limit.natAbs * divisor.natAbs ≤ limit.natAbs * 1 := by omega
      have hFew := Nat.le_of_mul_le_mul_left hMore hPos
      omega
    rcases Int.natAbs_eq divisor with hPlus | hMinus
    · rw [hPlus, hOne, Int.natCast_one, Int.tdiv_one] at hQuotient
      omega
    · rw [hMinus, hOne, Int.natCast_one] at hQuotient ⊢
      rw [Int.tdiv_neg, Int.tdiv_one] at hQuotient
      omega
  · rintro ⟨rfl, rfl⟩
    simp

theorem intApply_divS (hWidth : 0 < width) : intApply .divS x y =
    (Word.quotient (2 ^ (width - 1)) x.toInt y.toInt).map (BitVec.ofInt width) := by
  have hQuotient : x.sdiv y = BitVec.ofInt width (x.toInt.tdiv y.toInt) := by
    rw [← BitVec.toInt_inj, BitVec.toInt_sdiv, BitVec.toInt_ofInt]
  have hLeast : (BitVec.intMin width).toInt = -2 ^ (width - 1) := by
    have hPow : 2 ^ (width - 1) < 2 ^ width := Nat.pow_lt_pow_right (by omega) (by omega)
    rw [BitVec.toInt_intMin, Nat.mod_eq_of_lt hPow]
    simp
  have hMinus : (-1 : BitVec width).toInt = -1 := by
    rw [BitVec.ofNat_eq_ofNat, BitVec.neg_one_eq_allOnes, BitVec.toInt_allOnes, if_pos hWidth]
  have hOverflow (hSome : y ≠ 0) : x.toInt.tdiv y.toInt = 2 ^ (width - 1) ↔
      x = BitVec.intMin width ∧ y = -1 := by
    rw [tdiv_eq_iff (Int.pow_pos (by decide)) x.le_toInt BitVec.toInt_lt
      (by rwa [ne_eq, toInt_eq_zero]), ← BitVec.toInt_inj, ← @BitVec.toInt_inj _ y, hLeast, hMinus]
  simp only [intApply, Word.quotient, toInt_eq_zero, hQuotient]
  by_cases hZero : y = 0
  · simp only [if_pos hZero]
    rfl
  · simp only [if_neg hZero, hOverflow hZero]
    split <;> rfl

theorem intApply_remS : intApply .remS x y =
    (Word.remainder x.toInt y.toInt).map (BitVec.ofInt width) := by
  have hRemainder : x.srem y = BitVec.ofInt width (x.toInt.tmod y.toInt) := by
    rw [← BitVec.toInt_srem, BitVec.ofInt_toInt]
  simp only [intApply, Word.remainder, toInt_eq_zero, hRemainder]
  split <;> rfl

end Vectors

/-! ## Words as values -/

namespace Word

/-- A word as a value of the machine. -/
def value : Word → Value
  | i32 number => .i32 number.toUInt32
  | i64 number => .i64 number.toUInt64

@[simp] theorem type_value (word : Word) : word.value.type = word.kind := by
  cases word <;> rfl

theorem value_injective : Function.Injective Word.value := by
  rintro (⟨⟨left⟩⟩ | ⟨⟨left⟩⟩) (⟨⟨right⟩⟩ | ⟨⟨right⟩⟩) hSame <;> cases hSame <;> rfl

/-- Every value of an integer type is a word. -/
theorem exists_value {type : Ty} {value : Value} (hInteger : type.isInteger = true)
    (hType : numType? type = some value.type) : ∃ word : Word, word.value = value := by
  cases value with
  | i32 number => exact ⟨i32 number.toInt32, rfl⟩
  | i64 number => exact ⟨i64 number.toInt64, rfl⟩
  | f32 | f64 => cases type <;> cases hInteger <;> cases hType

@[simp] theorem value_ofBool (truth : Bool) : (ofBool truth).value = .ofBool truth := by
  cases truth <;> rfl

theorem isTrue_iff (number : Int32) : (i32 number).isTrue = true ↔ number.toUInt32 ≠ 0 := by
  have hZero : number.toInt = 0 ↔ number.toUInt32 = 0 := by
    rw [← UInt32.toBitVec_inj]
    exact toInt_eq_zero number.toBitVec
  rw [isTrue, decide_eq_true_iff, ne_eq, ne_eq, toInt, hZero]

@[simp] theorem isTrue_ofBool (truth : Bool) : (ofBool truth).isTrue = truth := by
  cases truth <;> rfl

theorem kind_wrap (like : Word) (number : Int) : (like.wrap number).kind = like.kind := by
  cases like <;> rfl

end Word

variable {store : Store} {locals below : List Value}

/-- The state behind an operator with two operands. -/
def behind (store : Store) (locals below : List Value) : Except Trap Word → Except Fault State
  | .ok word => .ok ⟨store, locals, word.value :: below⟩
  | .error cause => .error (.trap cause)

theorem eq_iff_toInt {width : Nat} (x y : BitVec width) : (x == y) = (x.toInt == y.toInt) := by
  rw [Bool.eq_iff_iff, beq_iff_eq, beq_iff_eq, BitVec.toInt_inj]

/-- The operators on integers that give a word of the type of their operands. -/
def operators : List (String × IntOperator) :=
  [("+", .add), ("-", .sub), ("*", .mul), ("/", .divS), ("%", .remS)]

/-- The operators on integers that give a truth value. -/
def relations : List (String × IntRelation) :=
  [("==", .eq), ("!=", .ne), ("<", .ltS), ("<=", .leS), (">", .gtS), (">=", .geS)]

theorem intOperator?_cases {width : Width} {op : String} {opcode : Opcode}
    (hOp : intOperator? width op = some opcode) :
    (∃ operator, (op, operator) ∈ operators ∧ opcode = .int width operator) ∨
      ∃ relation, (op, relation) ∈ relations ∧ opcode = .compareInt width relation := by
  unfold intOperator? at hOp
  split at hOp <;> cases hOp
  case h_1.refl | h_2.refl | h_3.refl | h_4.refl | h_5.refl =>
    exact .inl ⟨_, by simp [operators], rfl⟩
  all_goals exact .inr ⟨_, by simp [relations], rfl⟩

section Operators

variable {width : Nat} {op : String} {left right : Word} {x y : BitVec width}

/-- An operator on words is one on their bits. -/
theorem apply_operator {operator : IntOperator} {pack : BitVec width → Word} (hWidth : 0 < width)
    (hLeft : left.toInt = x.toInt) (hRight : right.toInt = y.toInt)
    (hLimit : left.limit = 2 ^ (width - 1))
    (hWrap : ∀ number, left.wrap number = pack (BitVec.ofInt width number))
    (hOperator : (op, operator) ∈ operators) :
    left.apply op right = (intApply operator x y).map pack := by
  have hMap (answer : Except Trap Int) :
      answer.map left.wrap = (answer.map (BitVec.ofInt width)).map pack := by
    cases answer with
    | ok number => exact congrArg Except.ok (hWrap number)
    | error cause => rfl
  simp only [operators, List.mem_cons, Prod.mk.injEq, List.not_mem_nil, or_false] at hOperator
  rcases hOperator with ⟨rfl, rfl⟩ | ⟨rfl, rfl⟩ | ⟨rfl, rfl⟩ | ⟨rfl, rfl⟩ | ⟨rfl, rfl⟩
  · rw [intApply_add, ← hLeft, ← hRight]
    exact congrArg Except.ok (hWrap _)
  · rw [intApply_sub, ← hLeft, ← hRight]
    exact congrArg Except.ok (hWrap _)
  · rw [intApply_mul, ← hLeft, ← hRight]
    exact congrArg Except.ok (hWrap _)
  · rw [intApply_divS _ _ hWidth, ← hLeft, ← hRight, ← hLimit]
    exact hMap _
  · rw [intApply_remS, ← hLeft, ← hRight]
    exact hMap _

/-- Words are to each other what their bits are. -/
theorem apply_relation {relation : IntRelation} (hLeft : left.toInt = x.toInt)
    (hRight : right.toInt = y.toInt) (hRelation : (op, relation) ∈ relations) :
    left.apply op right = .ok (.ofBool (intHolds relation x y)) := by
  simp only [relations, List.mem_cons, Prod.mk.injEq, List.not_mem_nil, or_false] at hRelation
  rcases hRelation with
    ⟨rfl, rfl⟩ | ⟨rfl, rfl⟩ | ⟨rfl, rfl⟩ | ⟨rfl, rfl⟩ | ⟨rfl, rfl⟩ | ⟨rfl, rfl⟩ <;>
  simp only [intHolds, BitVec.slt_eq_decide, BitVec.sle_eq_decide, eq_iff_toInt, bne, ← hLeft,
    ← hRight] <;>
  rfl

theorem kind_apply {left right word : Word} {width : Width} {opcode : Opcode}
    (hOp : intOperator? width op = some opcode) (hApply : left.apply op right = .ok word) :
    word.kind = if isComparison op then .i32 else left.kind := by
  rcases intOperator?_cases hOp with ⟨operator, hOperator, -⟩ | ⟨relation, hRelation, -⟩
  · simp only [operators, List.mem_cons, Prod.mk.injEq, List.not_mem_nil, or_false] at hOperator
    rcases hOperator with ⟨rfl, -⟩ | ⟨rfl, -⟩ | ⟨rfl, -⟩ | ⟨rfl, -⟩ | ⟨rfl, -⟩
    case inr.inr.inr.inl | inr.inr.inr.inr =>
      obtain ⟨number, -, rfl⟩ := map_ok.1 hApply
      exact Word.kind_wrap _ _
    all_goals
      cases hApply
      exact Word.kind_wrap _ _
  · simp only [relations, List.mem_cons, Prod.mk.injEq, List.not_mem_nil, or_false] at hRelation
    rcases hRelation with ⟨rfl, -⟩ | ⟨rfl, -⟩ | ⟨rfl, -⟩ | ⟨rfl, -⟩ | ⟨rfl, -⟩ | ⟨rfl, -⟩ <;>
      cases hApply <;> rfl

end Operators

theorem perform_operator32 (operator : IntOperator) (left right : UInt32) :
    State.perform ⟨store, locals, .i32 right :: .i32 left :: below⟩ (.int .w32 operator) .none =
      behind store locals below
        ((intApply operator left.toBitVec right.toBitVec).map fun bits => .i32 ⟨⟨bits⟩⟩) := by
  unfold State.perform State.operate applyUnary applyBinary
  cases hApply : intApply operator left.toBitVec right.toBitVec <;>
    simp only [hApply, Except.map] <;> rfl

theorem perform_operator64 (operator : IntOperator) (left right : UInt64) :
    State.perform ⟨store, locals, .i64 right :: .i64 left :: below⟩ (.int .w64 operator) .none =
      behind store locals below
        ((intApply operator left.toBitVec right.toBitVec).map fun bits => .i64 ⟨⟨bits⟩⟩) := by
  unfold State.perform State.operate applyUnary applyBinary
  cases hApply : intApply operator left.toBitVec right.toBitVec <;>
    simp only [hApply, Except.map] <;> rfl

/-- The machine applies an operator as the evaluator does. -/
theorem perform_apply {type : Ty} {op : String} {opcode : Opcode} {left right : Word}
    (hOp : operator? type op = some opcode) (hLeft : numType? type = some left.kind)
    (hRight : numType? type = some right.kind) :
    State.perform ⟨store, locals, right.value :: left.value :: below⟩ opcode .none =
      behind store locals below (left.apply op right) := by
  rw [operator?, hLeft] at hOp
  cases left with
  | i32 x =>
      cases right with
      | i64 y => rw [hRight] at hLeft; cases hLeft
      | i32 y =>
          rcases intOperator?_cases hOp with ⟨operator, hOperator, rfl⟩ | ⟨relation, hRelation, rfl⟩
          · refine (perform_operator32 operator x.toUInt32 y.toUInt32).trans (congrArg _ ?_)
            exact (apply_operator (by decide) rfl rfl rfl (fun _ => rfl) hOperator).symm
          · rw [@apply_relation 32 op (.i32 x) (.i32 y) x.toBitVec y.toBitVec relation rfl rfl
              hRelation, behind, Word.value_ofBool]
            rfl
  | i64 x =>
      cases right with
      | i32 y => rw [hRight] at hLeft; cases hLeft
      | i64 y =>
          rcases intOperator?_cases hOp with ⟨operator, hOperator, rfl⟩ | ⟨relation, hRelation, rfl⟩
          · refine (perform_operator64 operator x.toUInt64 y.toUInt64).trans (congrArg _ ?_)
            exact (apply_operator (by decide) rfl rfl rfl (fun _ => rfl) hOperator).symm
          · rw [@apply_relation 64 op (.i64 x) (.i64 y) x.toBitVec y.toBitVec relation rfl rfl
              hRelation, behind, Word.value_ofBool]
            rfl

theorem numType?_apply {type : Ty} {op : String} {opcode : Opcode} {left right word : Word}
    (hOp : operator? type op = some opcode) (hLeft : numType? type = some left.kind)
    (hApply : left.apply op right = .ok word) :
    numType? (if isComparison op then .bool else type) = some word.kind := by
  have hKind : word.kind = if isComparison op then .i32 else left.kind := by
    rw [operator?, hLeft] at hOp
    cases left <;> exact kind_apply hOp hApply
  rw [hKind]
  split
  · rfl
  · exact hLeft

/-- Types that are represented alike have the same literals. -/
theorem literal_congr {left right : Ty} (hSame : numType? left = numType? right) (number : Int64) :
    Word.literal left number = Word.literal right number := by
  cases left <;> cases right <;> first | rfl | cases hSame

/-- The constant of an integer type is a literal. -/
theorem constStep_eq {type : Ty} {number : Int64}
    (hKind : numType? type = some (Word.literal type number).kind) :
    ∃ opcode immediate, constStep type number = .plain opcode immediate ∧
      ∀ store locals below, State.perform ⟨store, locals, below⟩ opcode immediate =
        .ok ⟨store, locals, (Word.literal type number).value :: below⟩ := by
  cases type <;> first | exact ⟨_, _, rfl, fun _ _ _ => rfl⟩ | cases hKind

theorem numType?_literal {type : Ty} (hWord : isWordType type = true) (number : Int64) :
    numType? type = some (Word.literal type number).kind := by
  cases type <;> first | rfl | cases hWord

theorem isWordType_of_isInteger {type : Ty} (hInteger : type.isInteger = true) :
    isWordType type = true := by
  cases type <;> first | rfl | cases hInteger

/-- Truth values are joined bit by bit. -/
theorem perform_logical {op : String} (hOp : isLogical op = true) {left right : Word}
    (hLeft : left.kind = .i32) (hRight : right.kind = .i32) :
    ∃ word, left.apply op right = .ok word ∧ word.kind = .i32 ∧
      State.perform ⟨store, locals, right.value :: left.value :: below⟩
        (if op = "&&" then .int .w32 .and else .int .w32 .or) .none =
        .ok ⟨store, locals, word.value :: below⟩ := by
  cases left with
  | i64 => cases hLeft
  | i32 x =>
      cases right with
      | i64 => cases hRight
      | i32 y =>
          rw [isLogical, Bool.or_eq_true, beq_iff_eq, beq_iff_eq] at hOp
          rcases hOp with rfl | rfl
          · exact ⟨.i32 (x &&& y), rfl, rfl, rfl⟩
          · exact ⟨.i32 (x ||| y), rfl, rfl, rfl⟩

theorem perform_eqz {word : Word} (hKind : word.kind = .i32) :
    State.perform ⟨store, locals, word.value :: below⟩ (.eqz .w32) .none =
      .ok ⟨store, locals, (Word.ofBool (!word.isTrue)).value :: below⟩ := by
  cases word with
  | i64 => cases hKind
  | i32 number =>
      have hZero : (number.toUInt32 == 0) = !(Word.i32 number).isTrue := by
        rw [Bool.eq_iff_iff, beq_iff_eq, Bool.not_eq_true', ← Bool.not_eq_true, Word.isTrue_iff,
          not_not]
      rw [Word.value_ofBool, ← hZero]
      rfl

theorem wrap_congr {left right : Word} (hKind : left.kind = right.kind) (number : Int) :
    left.wrap number = right.wrap number := by
  cases left <;> cases right <;> first | rfl | cases hKind

section Integers

variable {type : Ty} {word : Word}

theorem operator?_equality (type : Ty) : operator? type "==" = some (equality type) := by
  cases type <;> rfl

theorem operator?_integer (hInteger : type.isInteger = true) (op : String) :
    operator? type op = intOperator? (intWidth type) op := by
  cases type <;> first | rfl | cases hInteger

/-- Zero minus a word. -/
theorem apply_zero (hKind : (Word.literal type 0).kind = word.kind) :
    (Word.literal type 0).apply "-" word = .ok word.negate := by
  have hZero : (Word.literal type 0).toInt = 0 := by cases type <;> rfl
  simp only [Word.apply, Word.negate, hZero, Int.zero_sub, wrap_congr hKind]

/-- A word plus one. -/
theorem apply_one : word.apply "+" (Word.literal type 1) = .ok (word.wrap (word.toInt + 1)) := by
  have hOne : (Word.literal type 1).toInt = 1 := by cases type <;> rfl
  simp only [Word.apply, hOne]

theorem toInt_inj {left right : Word} (hKind : left.kind = right.kind) :
    left.toInt = right.toInt ↔ left = right := by
  cases left with
  | i32 => cases right with
    | i32 => rw [Word.toInt, Word.toInt, Int32.toInt_inj, Word.i32.injEq]
    | i64 => cases hKind
  | i64 => cases right with
    | i32 => cases hKind
    | i64 => rw [Word.toInt, Word.toInt, Int64.toInt_inj, Word.i64.injEq]

end Integers

end RecordWasm.Evaluation
