import RecordWasm.Proofs.Lowering.Constants

/-!
# Patterns that stand for one value

A pattern with a value is a number, a truth value or a variant of an enumeration.  Which patterns
are accepted is told from the declarations alone.  The code of the value is that of an expression,
for which a local or a field of the receiver of the same name comes first.
-/

namespace RecordWasm.Lowering

open Syntax Layout Wasm Machine

/-- A number, possibly with minus signs in front of it. -/
inductive Numeral : Expr → Prop where
  | int {tag : Tag} {value : Int64} : Numeral (.int tag value)
  | float {tag : Tag} {bits : UInt64} : Numeral (.float tag bits)
  | negate {tag : Tag} {op : String} {operand : Expr} :
      (op == "-") = true → Numeral operand → Numeral (.unary tag op operand)

theorem Numeral.of_isNumericLit {number : Expr} : isNumericLit number = true → Numeral number := by
  fun_induction isNumericLit number with
  | case1 => exact fun _ => .int
  | case2 => exact fun _ => .float
  | case3 tag op operand ih =>
      intro hNumber
      obtain ⟨hMinus, hOperand⟩ := Bool.and_eq_true_iff.1 hNumber
      exact .negate hMinus (ih hOperand)
  | case4 => exact nofun

/-- A number with a fraction, possibly with minus signs in front of it. -/
def isFloatLit : Expr → Bool
  | .float _ _ => true
  | .unary _ _ operand => isFloatLit operand
  | _ => false

section Numbers

variable {context : Context} {before after : Slots} {number operand : Expr}

theorem isFloat_congr {left right : Ty} (hSame : sameRepr left right = true) :
    left.isFloat = right.isFloat := by
  cases left <;> cases right <;> first | rfl | cases hSame

theorem isFloat_of_floatType {type : Ty} {width : Width}
    (hType : numType? type = some width.floatType) : type.isFloat = true := by
  cases type <;> cases width <;> first | rfl | cases hType

/-- A number is a constant of its type, if one with a fraction is of a floating-point type. -/
theorem Numeral.pushes (hNumeral : Numeral number) : ∀ {hint asArm lowered},
    Derives before (.expr context hint asArm number lowered) after →
      (isFloatLit number = true → lowered.type.isFloat = true) →
      ∃ word, Pushes lowered.code word ∧ numType? lowered.type = some word.type := by
  induction hNumeral with
  | @int tag value =>
      intro hint asArm lowered hDerives _
      cases hDerives with
      | @int _ _ _ type _ _ _ hType =>
          have hSome : type.isVoid = false := by
            rw [hType]
            generalize (if isNumeric hint then hint else tag.type) = given
            cases given <;> rfl
          obtain ⟨word, hWord, hPushes⟩ := Pushes.constInt type value hSome
          exact ⟨word, hPushes, hWord⟩
  | @float tag bits =>
      intro hint asArm lowered hDerives hFloat
      cases hDerives with
      | @float _ _ _ type _ _ _ hType =>
          have hWidth : type.isFloat = true := hFloat rfl
          cases type with
          | f32 => exact ⟨.f32 _, .of_plain rfl fun _ => rfl, rfl⟩
          | f64 => exact ⟨.f64 _, .of_plain rfl fun _ => rfl, rfl⟩
          | _ => cases hWidth
  | @negate tag op operand hMinus _ ih =>
      intro hint asArm lowered hDerives hFloat
      cases hDerives with
      | not => cases hMinus
      | @negateFloat _ _ _ _ type _ _ _ _ width _ hWidth hValue =>
          cases hValue with
          | @value _ _ _ _ _ inner hExpr hSame =>
              have hType := (isFloat_congr hSame).trans (isFloat_of_floatType hWidth)
              obtain ⟨word, hPushes, hWord⟩ := ih hExpr fun _ => hType
              have hKind : some word.type = some width.floatType := by
                rw [← hWord, ← hWidth]
                exact eq_of_beq hSame
              cases width with
              | w32 =>
                  cases word <;> cases hKind
                  exact ⟨.f32 _, .unary rfl hPushes fun _ _ _ => rfl, hWidth⟩
              | w64 =>
                  cases word <;> cases hKind
                  exact ⟨.f64 _, .unary rfl hPushes fun _ _ _ => rfl, hWidth⟩
      | @negateInt _ _ _ _ type _ _ _ _ _ hInteger hValue =>
          cases hValue with
          | @value _ _ _ _ _ inner hExpr hSame =>
              obtain ⟨word, hPushes, hWord⟩ := ih hExpr fun hFraction => by
                rw [isFloat_congr hSame]
                exact hFloat hFraction
              have hKind : numType? type = some word.type := hWord ▸ (eq_of_beq hSame).symm
              cases type with
              | i32 =>
                  cases word <;> cases hKind
                  exact ⟨.i32 _, .binary rfl (.of_plain rfl fun _ => rfl) hPushes fun _ _ _ => rfl,
                    rfl⟩
              | i64 =>
                  cases word <;> cases hKind
                  exact ⟨.i64 _, .binary rfl (.of_plain rfl fun _ => rfl) hPushes fun _ _ _ => rfl,
                    rfl⟩
              | _ => cases hInteger

/-- What is negated at a type without fractions is subtracted from zero. -/
theorem negated_of_not_isFloat {hint : Ty} {asArm : Bool} {tag : Tag} {op : String}
    {lowered : Lowered} (hOp : (op == "-") = true)
    (hDerives : Derives before (.expr context hint asArm (.unary tag op operand) lowered) after)
    (hType : lowered.type.isFloat = false) :
    ∃ type inner, type.isInteger = true ∧
      Derives before (.expr context type false operand inner) after ∧ inner.type.isFloat = false ∧
      lowered = ⟨constInt type 0 :: inner.code ++ [(Opcode.int (intWidth type) .sub).instr],
        type⟩ := by
  cases hDerives with
  | not => cases hOp
  | negateFloat _ hWidth _ => cases hType.symm.trans (isFloat_of_floatType hWidth)
  | negateInt _ hInteger hValue =>
      cases hValue with
      | value hExpr hSame =>
          exact ⟨_, _, hInteger, hExpr, (isFloat_congr hSame).trans hType, rfl⟩

/-- A number with a fraction of a type that has none is a constant of 64 bits all the same, and no
integer can be made of it by a minus sign. -/
theorem Numeral.stuck (hNumeral : Numeral operand) :
    isFloatLit operand = true → ∀ {hint asArm lowered tag op}, (op == "-") = true →
      Derives before (.expr context hint asArm (.unary tag op operand) lowered) after →
      lowered.type.isFloat = false → ∀ types functions state,
        ∃ steps, Reads types lowered.code steps ∧ Leads functions 0 steps state .stuck := by
  induction hNumeral with
  | int => exact nofun
  | @float _ bits =>
      intro _ hint asArm lowered tag op hOp hDerives hType types functions state
      obtain ⟨type, inner, hInteger, hExpr, hInner, rfl⟩ :=
        negated_of_not_isFloat hOp hDerives hType
      cases hExpr with
      | @float _ _ _ width =>
          have hConst : Lowering.constFloat width bits = .f64Const bits := by
            cases width <;> first | rfl | cases hInner
          rw [hConst]
          refine ⟨_, ((reads_constInt type 0).append (.plain rfl)).append (reads_operation rfl), ?_⟩
          cases type with
          | i32 | i64 => exact .then rfl (.then rfl (.of_halt (by simp) fun _ => rfl))
          | _ => cases hInteger
  | negate hMinus _ ih =>
      intro hFraction hint asArm lowered tag op hOp hDerives hType types functions state
      obtain ⟨type, inner, hInteger, hExpr, hInner, rfl⟩ :=
        negated_of_not_isFloat hOp hDerives hType
      cases type with
      | i32 | i64 =>
          obtain ⟨steps, hSteps, hStuck⟩ :=
            ih hFraction hMinus hExpr hInner types functions (state.push _)
          refine ⟨_, ((reads_constInt _ 0).append hSteps).append (reads_operation rfl), ?_⟩
          exact .exit_append (by simp) (.then rfl hStuck)
      | _ => cases hInteger

end Numbers

/-! ## Names -/

/-- The name of a pattern stands for a local or for a field of the receiver. -/
def captured (context : Context) : Expr → Bool
  | .ident _ name => (context.lookup? name).isSome || (context.receiverPathType? name).isSome
  | _ => false

/-- A negative number with a fraction, where a type is expected that has none. -/
def misplaced (type : Ty) : Expr → Bool
  | .unary _ _ operand => isFloatLit operand && !type.isFloat
  | _ => false

/-- The instruction that pushes the position at which an enumeration declares a variant. -/
def Positions (env : Env) (enum variant : String) (constant : Code) : Prop :=
  ∃ decl index, env.enum? enum = some decl ∧ decl.variants.idxOf? variant = some index ∧
    constant = [.i32Const (Int32.ofNat index)]

section Values

variable {context : Context} {type : Ty} {value : Expr} {constant : Code} {before after : Slots}

theorem positions_of_variant? {env : Env} {enum variant : String} {index : Nat}
    (hIndex : env.variant? enum variant = some index) :
    Positions env enum variant [.i32Const (Int32.ofNat index)] := by
  obtain ⟨decl, hDecl, hPlace⟩ := Option.bind_eq_some_iff.1 hIndex
  exact ⟨decl, index, hDecl, hPlace, rfl⟩

theorem Positions.pushes {env : Env} {enum variant : String}
    (hPositions : Positions env enum variant constant) : ∃ word, Pushes constant word := by
  obtain ⟨_, _, -, -, rfl⟩ := hPositions
  exact ⟨_, .i32Const _⟩

/-- What an accepted name is lowered to: the local or the field that it stands for, or else the
position of its variant. -/
theorem named_pattern {place : Position} {tag : Tag} {name : String}
    (hCode : hasCode context.env (.literal place (.ident tag name)) = true)
    (hValue : Derives before (.value context type (.ident tag name) constant) after) :
    (∃ found, context.lookup? name = some found ∧ constant = [.localGet found.index]) ∨
    (context.lookup? name = none ∧ (context.receiverPathType? name).isSome = true ∧ ∃ path,
      Loads context.env (.record context.receiver) (receiverPath name) path ∧
        constant = .localGet 0 :: path.code) ∨
    (context.lookup? name = none ∧ context.receiverPathType? name = none ∧ ∃ enum variant,
      Text.cut? '.' name = some (enum, variant) ∧ Positions context.env enum variant constant) := by
  cases hValue with
  | value hExpr _ =>
      cases hExpr with
      | bound hLookup => exact .inl ⟨_, hLookup, rfl⟩
      | self => rw [hasCode, namedVariant?_self] at hCode; cases hCode
      | path hLookup _ hPath hLoads =>
          exact .inr (.inl ⟨hLookup, hPath ▸ rfl, _, hLoads, rfl⟩)
      | @named _ _ _ _ _ _ enum variant _ hLookup hPath hVariant hIndex =>
          refine .inr (.inr ⟨hLookup, hPath, enum, variant, ?_, positions_of_variant? hIndex⟩)
          rw [namedVariant?] at hVariant
          split at hVariant
          · rename_i hCut
            split at hVariant
            · cases hVariant
              exact hCut
            · cases hVariant
          · cases hVariant

/-- The code of an accepted value is that of a constant, unless a name is captured or a number is
misplaced. -/
theorem pushes_iff {place : Position} (hCode : hasCode context.env (.literal place value) = true)
    (hValue : Derives before (.value context type value constant) after) :
    (∃ word, Pushes constant word) ↔ captured context value = false ∧
      misplaced type value = false := by
  cases value with
  | ident tag name =>
      simp only [captured, misplaced, and_true]
      rcases named_pattern hCode hValue with ⟨found, hFound, rfl⟩ |
        ⟨hNone, hPath, path, hLoads, rfl⟩ | ⟨hNone, hPath, enum, variant, -, hPositions⟩
      · simp [hFound, Pushes.not_localGet ⟨[], .nil⟩]
      · simp [hPath, Pushes.not_localGet hLoads.nests]
      · simp [hNone, hPath, hPositions.pushes]
  | int tag number =>
      cases hValue with
      | value hExpr _ =>
          obtain ⟨word, hPushes, -⟩ := Numeral.int.pushes hExpr nofun
          exact iff_of_true ⟨word, hPushes⟩ ⟨rfl, rfl⟩
  | float tag bits =>
      cases hValue with
      | value hExpr _ =>
          cases hExpr with
          | float => exact iff_of_true (Pushes.constFloat _ bits) ⟨rfl, rfl⟩
  | bool tag truth =>
      cases hValue with
      | value hExpr _ =>
          cases hExpr with
          | bool => exact iff_of_true ⟨_, .i32Const _⟩ ⟨rfl, rfl⟩
  | variant tag enum variant =>
      cases hValue with
      | value hExpr _ =>
          cases hExpr with
          | variant => exact iff_of_true ⟨_, .i32Const _⟩ ⟨rfl, rfl⟩
  | unary tag op operand =>
      cases hValue with
      | @value _ _ _ _ _ lowered hExpr hSame =>
          have hNumeral := Numeral.of_isNumericLit hCode
          cases hNumeral with
          | negate hMinus hOperand =>
              simp only [captured, misplaced, true_and]
              constructor
              · rintro ⟨word, hPushes⟩
                by_contra hMisplaced
                simp only [Bool.not_eq_false, Bool.and_eq_true, Bool.not_eq_true'] at hMisplaced
                obtain ⟨hFraction, hType⟩ := hMisplaced
                obtain ⟨steps, hSteps, hStuck⟩ := hOperand.stuck hFraction hMinus hExpr
                  ((isFloat_congr hSame).trans hType) [] #[] ⟨{}, [], []⟩
                exact hPushes.not_stuck hSteps hStuck
              · intro hPlaced
                obtain ⟨word, hPushes, -⟩ := (Numeral.negate hMinus hOperand).pushes hExpr
                  fun hFraction => by
                    have hWidth : isFloatLit operand = true := hFraction
                    rw [isFloat_congr hSame]
                    simpa [hWidth] using hPlaced
                exact ⟨word, hPushes⟩
  | _ => cases hCode

end Values

/-- The value that an accepted pattern is compared with is a constant, which looks at neither locals
nor memory, unless the pattern is a name that stands for a local or for a field of the receiver, or
a negative number with a fraction where no such number is expected.  A variant is the position at
which its enumeration declares it.  A name is a variant, too, unless a local or a field of the
receiver has the name: then the value is read from there. -/
theorem patterns_constant {context : Context} {slot : Slot} {type : Ty} {pos place : Position}
    {value body : Expr} {rest : List Arm} {code : Code} {before after : Slots}
    (hAccepted : checkPattern context (.literal place value) before = .ok ((), before))
    (hArms : lowerArms context slot type (.mk pos (.literal place value) body :: rest) before =
      .ok (code, after)) :
    ∃ constant yes others, code = literalArmCode slot type constant yes others ∧
      ((∃ word, Pushes constant word) ↔
        captured context value = false ∧ misplaced slot.type value = false) ∧
      (∀ tag enum variant, value = .variant tag enum variant →
        Positions context.env enum variant constant) ∧
      ∀ tag name, value = .ident tag name →
        (∃ found, context.lookup? name = some found ∧ constant = [.localGet found.index]) ∨
        (context.lookup? name = none ∧ (context.receiverPathType? name).isSome = true ∧ ∃ path,
          Loads context.env (.record context.receiver) (receiverPath name) path ∧
            constant = .localGet 0 :: path.code) ∨
        (context.lookup? name = none ∧ context.receiverPathType? name = none ∧ ∃ enum variant,
          Text.cut? '.' name = some (enum, variant) ∧
            Positions context.env enum variant constant) := by
  have hCode := (gives_checkPattern.1 hAccepted).1
  cases lowerArms_derives _ hArms with
  | literal hValue _ _ =>
      refine ⟨_, _, _, rfl, pushes_iff hCode hValue, ?_, ?_⟩
      · rintro tag enum variant rfl
        cases hValue with
        | value hExpr _ =>
            cases hExpr with
            | variant hIndex => exact positions_of_variant? hIndex
      · rintro tag name rfl
        exact named_pattern hCode hValue

/-- A match over an enumeration in a free function. -/
def matching : Context where
  env := ⟨{}, ⟨8, 65536, 0, 1, 0, 1⟩, [], [⟨{}, "Color", ["Green", "Red"]⟩], [], [], []⟩
  name := "isRed"
  result := .i32
  scope := [("c", ⟨0, .enum "Color"⟩)]

/-- There the second variant is the constant one. -/
theorem patterns_constant_second :
    ∃ code yes others, lowerArms matching ⟨0, .enum "Color"⟩ .i32
        [.mk {} (.literal {} (.ident {} "Color.Red")) (.int {} 7)] ⟨1, []⟩ = .ok (code, ⟨1, []⟩) ∧
      code = literalArmCode ⟨0, .enum "Color"⟩ .i32 [.i32Const 1] yes others ∧
      ∃ word, Pushes [.i32Const 1] word := by
  have hCode : hasCode matching.env (.literal {} (.ident {} "Color.Red")) = true := by decide
  have hArms : lowerArms matching ⟨0, .enum "Color"⟩ .i32
      [.mk {} (.literal {} (.ident {} "Color.Red")) (.int {} 7)] ⟨1, []⟩ =
        .ok (literalArmCode ⟨0, .enum "Color"⟩ .i32 [.i32Const 1] [.i32Const 7]
          [Opcode.unreachable.instr], ⟨1, []⟩) := rfl
  obtain ⟨constant, yes, others, hSame, hPushes, -, hName⟩ :=
    patterns_constant (gives_checkPattern.2 ⟨hCode, rfl⟩) hArms
  obtain ⟨_, hFound, -⟩ | ⟨-, hPath, -⟩ |
    ⟨-, -, enum, variant, hCut, decl, index, hDecl, hIndex, rfl⟩ :=
    hName {} "Color.Red" rfl
  · cases hFound
  · cases hPath
  · cases hCut
    cases hDecl
    cases hIndex
    exact ⟨_, yes, others, hArms, hSame, hPushes.2 ⟨rfl, rfl⟩⟩

/-- Whether a pixel shows the colour red; the colours of the name are an enumeration and a field. -/
def isRed : FuncDecl where
  name := "isRed"
  receiver := "Pixel"
  params := [⟨{}, "c", .enum "Color"⟩]
  result := .i32
  body := [.result {} (.cases {} (.ident {} "c")
    [.mk {} (.literal {} (.ident {} "Color.Red")) (.int {} 1), .mk {} (.wildcard {}) (.int {} 0)])]

/-- Pixels have a shade of their colour, which has a red part. -/
def pixels : Program where
  records := [{ name := "Shade", fields := [⟨{}, "Red", .i32⟩] },
    { name := "Pixel", fields := [⟨{}, "Color", .record "Shade"⟩], methods := [isRed] }]
  enums := [{ name := "Color", variants := ["Green", "Red"] }]

/-- The pattern is accepted as a variant.  What the colour is compared with is the red part of the
receiver. -/
theorem pattern_captured :
    ∃ registry context body yes others after,
      Layout.compute pixels.records = .ok registry ∧
      context = entryPoint (.ofProgram pixels registry ⟨8, 65536, 0, 1, 0, 1⟩) isRed ∧
      lowerFunction context.env isRed = .ok body ∧
      checkPattern context (.literal {} (.ident {} "Color.Red")) ⟨2, [.i32]⟩ =
        .ok ((), ⟨2, [.i32]⟩) ∧
      lowerArms context ⟨2, .enum "Color"⟩ .i32
        [.mk {} (.literal {} (.ident {} "Color.Red")) (.int {} 1),
          .mk {} (.wildcard {}) (.int {} 0)]
        ⟨2, [.i32]⟩ = .ok (literalArmCode ⟨2, .enum "Color"⟩ .i32
          [.localGet 0, loadInstr ⟨"Color", .ptr, 0⟩, loadInstr ⟨"Red", .i32, 0⟩] yes others,
          after) ∧
      ¬∃ word, Pushes
        [.localGet 0, loadInstr ⟨"Color", .ptr, 0⟩, loadInstr ⟨"Red", .i32, 0⟩] word := by
  refine ⟨_, _, _, _, _, _, rfl, rfl, rfl, rfl, rfl, ?_⟩
  rintro ⟨word, hPushes⟩
  exact hPushes.not_localGet ((nests_load _).cons (nests_load _))

end RecordWasm.Lowering
