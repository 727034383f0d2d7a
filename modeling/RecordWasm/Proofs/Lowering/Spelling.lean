import RecordWasm.Proofs.Lowering.Calls
import RecordWasm.Proofs.Lowering.Results

/-!
# Spellings with the same code

The type that is attached to a name, a block or a match only matters for what inference finds.
Where a block stands, inference asks for its type before the statements of the block are lowered, so
the names of its tail are looked up outside; for a match the names of its patterns are not bound
either.  As long as inference finds the same types without an attached type as with it, the same
code is generated.  The order in which the fields of a record are initialized never matters.
-/

namespace RecordWasm.Lowering

open Syntax Layout Wasm

/-- A tag without its type. -/
def untyped (tag : Tag) : Tag := { tag with type := .void }

/-- A piece of source. -/
inductive Piece where
  | stmts (source : List Stmt)
  | stmt (source : Stmt)
  | expr (source : Expr)
  | args (source : List Expr)
  /-- Arms of a match over values of a type. -/
  | arms (subject : Ty) (source : List Arm)
  | inits (source : List FieldInit)

/-- The context of the body of an arm. -/
def Context.inArm (context : Context) (subject : Ty) : Pattern → Context
  | .bind _ name => context.typed name subject
  | _ => context

/-- One piece of source is another without some of the types that are attached to names, blocks and
matches, and with the initializers of records in any order.  Inference finds the same for what has
lost its type, asked in the place where it stands.  The upper bound of a range stands behind the
name of the counter, but its type is asked for in front. -/
inductive Respells : Context → Piece → Piece → Prop where
  | same {place : Context} {piece : Piece} : Respells place piece piece
  -- Statements.
  | cons {place : Context} {stmt other : Stmt} {rest others : List Stmt} :
      Respells place (.stmt stmt) (.stmt other) →
      Respells (place.behind stmt) (.stmts rest) (.stmts others) →
      Respells place (.stmts (stmt :: rest)) (.stmts (other :: others))
  | declare {place : Context} {pos : Position} {name : String} {type : Ty} {value other : Expr} :
      Respells place (.expr value) (.expr other) →
      Respells place (.stmt (.declare pos name type value)) (.stmt (.declare pos name type other))
  | assign {place : Context} {pos : Position} {target goal value other : Expr} :
      Respells place (.expr target) (.expr goal) → Respells place (.expr value) (.expr other) →
      Respells place (.stmt (.assign pos target value)) (.stmt (.assign pos goal other))
  | result {place : Context} {pos : Position} {value other : Expr} :
      Respells place (.expr value) (.expr other) →
      Respells place (.stmt (.result pos value)) (.stmt (.result pos other))
  | eval {place : Context} {pos : Position} {value other : Expr} :
      Respells place (.expr value) (.expr other) →
      Respells place (.stmt (.eval pos value)) (.stmt (.eval pos other))
  | whileLoop {place : Context} {pos : Position} {cond test : Expr} {body others : List Stmt} :
      Respells place (.expr cond) (.expr test) → Respells place (.stmts body) (.stmts others) →
      Respells place (.stmt (.whileLoop pos cond body)) (.stmt (.whileLoop pos test others))
  | forever {place : Context} {pos : Position} {body others : List Stmt} :
      Respells place (.stmts body) (.stmts others) →
      Respells place (.stmt (.forever pos body)) (.stmt (.forever pos others))
  | forRange {place counting : Context} {pos : Position} {var : String}
      {start stop first last : Expr} {body others : List Stmt} :
      counting = place.typed var (rangeType place start stop) →
      Respells place (.expr start) (.expr first) → place.typeOf last = place.typeOf stop →
      Respells counting (.expr stop) (.expr last) →
        Respells counting (.stmts body) (.stmts others) →
      Respells place (.stmt (.forRange pos var start stop body))
        (.stmt (.forRange pos var first last others))
  -- What loses its type.
  | ident {place : Context} {tag : Tag} {name : String} :
      place.typeOf (.ident (untyped tag) name) = place.typeOf (.ident tag name) →
      Respells place (.expr (.ident tag name)) (.expr (.ident (untyped tag) name))
  | block {place : Context} {tag given : Tag} {stmts others : List Stmt} {tail last : Expr} :
      given = tag ∨ given = untyped tag →
      place.typeOf (.block given others last) = place.typeOf (.block tag stmts tail) →
      Respells place (.stmts stmts) (.stmts others) →
      Respells (stmts.foldl Context.behind place) (.expr tail) (.expr last) →
      Respells place (.expr (.block tag stmts tail)) (.expr (.block given others last))
  | cases {place : Context} {tag given : Tag} {scrutinee other : Expr} {arms others : List Arm} :
      given = tag ∨ given = untyped tag →
      place.typeOf (.cases given other others) = place.typeOf (.cases tag scrutinee arms) →
      Respells place (.expr scrutinee) (.expr other) →
      Respells place (.arms (place.typeOf scrutinee) arms) (.arms (place.typeOf scrutinee) others) →
      Respells place (.expr (.cases tag scrutinee arms)) (.expr (.cases given other others))
  -- Other expressions.
  | binary {place : Context} {tag : Tag} {op : String} {left right first second : Expr} :
      Respells place (.expr left) (.expr first) → Respells place (.expr right) (.expr second) →
      Respells place (.expr (.binary tag op left right)) (.expr (.binary tag op first second))
  | unary {place : Context} {tag : Tag} {op : String} {operand other : Expr} :
      Respells place (.expr operand) (.expr other) →
      Respells place (.expr (.unary tag op operand)) (.expr (.unary tag op other))
  | call {place : Context} {tag : Tag} {function : String} {args others : List Expr} :
      Respells place (.args args) (.args others) →
      Respells place (.expr (.call tag function args)) (.expr (.call tag function others))
  | methodCall {place : Context} {tag : Tag} {receiver other : Expr} {method : String}
      {args others : List Expr} :
      Respells place (.expr receiver) (.expr other) → Respells place (.args args) (.args others) →
      Respells place (.expr (.methodCall tag receiver method args))
        (.expr (.methodCall tag other method others))
  | branch {place : Context} {tag : Tag} {cond body otherwise test yes no : Expr} :
      Respells place (.expr cond) (.expr test) → Respells place (.expr body) (.expr yes) →
      Respells place (.expr otherwise) (.expr no) →
      Respells place (.expr (.branch tag cond body otherwise)) (.expr (.branch tag test yes no))
  | member {place : Context} {tag : Tag} {subject other : Expr} {field : String} :
      Respells place (.expr subject) (.expr other) →
      Respells place (.expr (.member tag subject field)) (.expr (.member tag other field))
  | construct {place : Context} {tag : Tag} {record : String}
      {inits others values : List FieldInit} :
      Respells place (.inits inits) (.inits others) → others.Perm values →
      Respells place (.expr (.construct tag record inits)) (.expr (.construct tag record values))
  -- Lists of pieces.
  | arg {place : Context} {arg other : Expr} {rest others : List Expr} :
      Respells place (.expr arg) (.expr other) → Respells place (.args rest) (.args others) →
      Respells place (.args (arg :: rest)) (.args (other :: others))
  | arm {place : Context} {subject : Ty} {pos : Position} {pattern : Pattern} {body other : Expr}
      {rest others : List Arm} :
      Respells (place.inArm subject pattern) (.expr body) (.expr other) →
      Respells place (.arms subject rest) (.arms subject others) →
      Respells place (.arms subject (.mk pos pattern body :: rest))
        (.arms subject (.mk pos pattern other :: others))
  | init {place : Context} {pos : Position} {name : String} {value other : Expr}
      {rest others : List FieldInit} :
      Respells place (.expr value) (.expr other) → Respells place (.inits rest) (.inits others) →
      Respells place (.inits (.mk pos name value :: rest)) (.inits (.mk pos name other :: others))

/-- Inference sees no difference between two expressions in a context. -/
structure Context.Confuses (context : Context) (expr other : Expr) : Prop where
  type : context.typeOf other = context.typeOf expr
  number : isNumericLit other = isNumericLit expr
  missing : other.isMissing = expr.isMissing
  tail : isNumericLit (tailOf other) = isNumericLit (tailOf expr)

theorem Context.Confuses.refl (context : Context) (expr : Expr) : context.Confuses expr expr :=
  ⟨rfl, rfl, rfl, rfl⟩

/-- Of two pieces that are expressions, inference sees no difference. -/
def Piece.Confused (place : Context) : Piece → Piece → Prop
  | .expr source, .expr other => place.Confuses source other
  | _, _ => True

theorem Respells.confused {place : Context} {piece other : Piece}
    (hRespells : Respells place piece other) :
    piece.Confused place other := by
  induction hRespells with
  | @same place piece =>
      cases piece with
      | expr source => exact .refl place source
      | _ => trivial
  | ident hType => exact ⟨hType, rfl, rfl, rfl⟩
  | block _ hType _ _ _ ihTail => exact ⟨hType, rfl, rfl, ihTail.number⟩
  | cases _ hType => exact ⟨hType, rfl, rfl, rfl⟩
  | binary _ _ ihLeft ihRight =>
      refine ⟨?_, rfl, rfl, rfl⟩
      simp only [Context.typeOf, Context.joinTypes, ihLeft.type, ihRight.type, ihLeft.number,
        ihRight.number]
  | unary _ ih =>
      refine ⟨?_, ?_, rfl, ?_⟩
      · simp only [Context.typeOf, ih.type]
      · simp only [isNumericLit, ih.number]
      · simp only [tailOf, isNumericLit, ih.number]
  | call => exact ⟨by simp only [Context.typeOf], rfl, rfl, rfl⟩
  | methodCall _ _ ihReceiver =>
      exact ⟨by simp only [Context.typeOf, ihReceiver.type], rfl, rfl, rfl⟩
  | branch _ _ _ _ ihYes ihNo =>
      exact ⟨by simp only [Context.typeOf, ihYes.type, ihNo.type, ihNo.missing], rfl, rfl, rfl⟩
  | member _ ih => exact ⟨by simp only [Context.typeOf, ih.type], rfl, rfl, rfl⟩
  | construct => exact ⟨by simp only [Context.typeOf], rfl, rfl, rfl⟩
  | _ => trivial

section Confusion

variable {context place : Context} {left right first second expr other : Expr}

/-- Inference sees no difference in contexts with the same types. -/
theorem Context.Confuses.alike (hConfuses : place.Confuses expr other)
    (hAlike : context.Alike place) :
    context.Confuses expr other where
  type := by
    rw [← hAlike.typeOf, ← hAlike.typeOf]
    exact hConfuses.type
  number := hConfuses.number
  missing := hConfuses.missing
  tail := hConfuses.tail

theorem declaredType_confused (hConfuses : context.Confuses expr other) (type : Ty) :
    declaredType context type other = declaredType context type expr := by
  rw [declaredType, declaredType, hConfuses.type]

theorem operandType_confused (hLeft : context.Confuses left first)
    (hRight : context.Confuses right second) :
    context.operandType first second = context.operandType left right := by
  simp only [Context.operandType, Context.joinTypes, hLeft.type, hRight.type, hLeft.number,
    hRight.number]

theorem binaryType_confused (hLeft : context.Confuses left first)
    (hRight : context.Confuses right second) (op : String) (hint : Ty) :
    binaryType context op first second hint = binaryType context op left right hint := by
  simp only [binaryType, operandType_confused hLeft hRight, hLeft.number, hRight.number]

theorem rangeType_confused (hLeft : context.Confuses left first)
    (hRight : context.Confuses right second) :
    rangeType context first second = rangeType context left right := by
  rw [rangeType, rangeType, operandType_confused hLeft hRight]

theorem negationType_confused (hConfuses : context.Confuses expr other) (hint : Ty) :
    negationType context other hint = negationType context expr hint := by
  simp only [negationType, hConfuses.type, hConfuses.number]

theorem branchResult_confused {branch same body otherwise yes no : Expr}
    (hType : context.typeOf same = context.typeOf branch) (hYes : place.Confuses body yes)
    (hNo : place.Confuses otherwise no) (hint : Ty) :
    branchResult context same yes no hint = branchResult context branch body otherwise hint := by
  simp only [branchResult, hType, hYes.tail, hNo.tail, hNo.missing]

theorem yielded_confused {tag given : Tag} {stmts others : List Stmt} {tail last : Expr}
    (hType : context.typeOf (.block given others last) = context.typeOf (.block tag stmts tail))
    (hTail : place.Confuses tail last) (hint : Ty) (asArm : Bool) :
    yielded context given others last hint asArm = yielded context tag stmts tail hint asArm := by
  simp only [yielded, blockResult, hType, hTail.missing, hTail.number]

end Confusion

section Lists

variable {context place : Context} {subject : Ty} {arms others : List Arm}

/-- Arms keep their patterns, and bodies that are numbers. -/
theorem Respells.arms_alike
    (hRespells : Respells place (.arms subject arms) (.arms subject others)) :
    others.map Arm.pattern = arms.map Arm.pattern ∧
      others.map (fun arm => isNumericLit (tailOf arm.body)) =
        arms.map fun arm => isNumericLit (tailOf arm.body) := by
  induction arms generalizing others with
  | nil =>
      cases hRespells
      exact ⟨rfl, rfl⟩
  | cons arm rest ih =>
      cases hRespells with
      | same => exact ⟨rfl, rfl⟩
      | arm hBody hRest =>
          obtain ⟨hPatterns, hNumbers⟩ := ih hRest
          rw [List.map_cons, List.map_cons, List.map_cons, List.map_cons, hPatterns, hNumbers]
          simp only [Arm.pattern, Arm.body, hBody.confused.tail, and_self]

theorem Respells.hasCode (hRespells : Respells place (.arms subject arms) (.arms subject others))
    {env : Env} (hCode : ∀ arm ∈ arms, hasCode env arm.pattern = true) :
    ∀ arm ∈ others, Lowering.hasCode env arm.pattern = true := by
  intro arm hArm
  have hPattern := List.mem_map_of_mem (f := Arm.pattern) hArm
  rw [hRespells.arms_alike.1] at hPattern
  obtain ⟨same, hSame, hEq⟩ := List.mem_map.1 hPattern
  rw [← hEq]
  exact hCode same hSame

theorem casesResult_confused {cases same : Expr}
    (hRespells : Respells place (.arms subject arms) (.arms subject others))
    (hType : context.typeOf same = context.typeOf cases) (hint : Ty) :
    casesResult context same others hint = casesResult context cases arms hint := by
  obtain ⟨hPatterns, hNumbers⟩ := hRespells.arms_alike
  have hEmpty : others.isEmpty = arms.isEmpty := by
    rw [← List.isEmpty_map, hPatterns, List.isEmpty_map]
  have hAll : (others.all fun arm => isNumericLit (tailOf arm.body)) =
      arms.all fun arm => isNumericLit (tailOf arm.body) := by
    have hBoth := congrArg (fun numbers => numbers.all id) hNumbers
    simpa [List.all_map, Function.comp_def] using hBoth
  simp only [casesResult, hType, hEmpty, hAll]

variable {inits values : List FieldInit}

theorem Respells.init_names (hRespells : Respells place (.inits inits) (.inits values)) :
    values.map FieldInit.name = inits.map FieldInit.name := by
  induction inits generalizing values with
  | nil =>
      cases hRespells
      rfl
  | cons init rest ih =>
      cases hRespells with
      | same => rfl
      | init _ hRest => simp only [List.map_cons, ih hRest, FieldInit.name]

theorem Respells.assigns {record : Record}
    (hRespells : Respells place (.inits inits) (.inits values)) (hAssigns : Assigns record inits) :
    Assigns record values where
  fields := by
    intro init hInit
    have hName := List.mem_map_of_mem (f := FieldInit.name) hInit
    rw [hRespells.init_names] at hName
    obtain ⟨same, hSame, hEq⟩ := List.mem_map.1 hName
    rw [← hEq]
    exact hAssigns.fields same hSame
  names := by
    rw [hRespells.init_names]
    exact hAssigns.names

theorem Assigns.perm {record : Record} (hAssigns : Assigns record inits)
    (hPerm : inits.Perm values) :
    Assigns record values where
  fields := fun init hInit => hAssigns.fields init (hPerm.mem_iff.2 hInit)
  names := (hPerm.map FieldInit.name).nodup_iff.1 hAssigns.names

theorem initOf?_perm {field : String} {init : FieldInit} (hPerm : inits.Perm values)
    (hNames : (inits.map FieldInit.name).Nodup) (hInit : initOf? inits field = some init) :
    initOf? values field = some init := by
  have hName : init.name = field := by simpa using List.find?_some hInit
  rw [← hName]
  exact initOf?_of_mem ((hPerm.map FieldInit.name).nodup_iff.1 hNames)
    (hPerm.mem_iff.1 (List.mem_of_find?_eq_some hInit))

/-- Fields are stored in the order of the layout. -/
theorem Derives.reorders {record : String} {address : UInt32} {fields : List Field} {code : Code}
    {before after : Slots} (hPerm : inits.Perm values) (hNames : (inits.map FieldInit.name).Nodup)
    (hDerives : Derives before (.stores context record address inits fields code) after) :
    Derives before (.stores context record address values fields code) after := by
  induction fields generalizing before code with
  | nil =>
      cases hDerives
      exact .stored
  | cons field rest ih =>
      cases hDerives with
      | store hInit hValue hRest => exact .store (initOf?_perm hPerm hNames hInit) hValue (ih hRest)

end Lists

/-! ## The same code -/

/-- What is derived of an expression is derived of another one, where names have the types of a
place. -/
def Context.Replaces (place : Context) (source other : Expr) : Prop :=
  ∀ {context : Context} {hint : Ty} {asArm : Bool} {lowered : Lowered} {before after : Slots},
    context.Alike place → Derives before (.expr context hint asArm source lowered) after →
    Derives before (.expr context hint asArm other lowered) after

/-- What is derived of a piece is derived of another one.  Of initializers, every field has its
value. -/
def Piece.Replaced (place : Context) : Piece → Piece → Prop
  | .stmts source, .stmts other => ∀ {context inner : Context} {code : Code} {before after : Slots},
      context.Alike place → Derives before (.stmts context source code inner) after →
      Derives before (.stmts context other code inner) after
  | .stmt source, .stmt other => ∀ {context inner : Context} {code : Code} {before after : Slots},
      context.Alike place → Derives before (.stmt context source code inner) after →
      Derives before (.stmt context other code inner) after
  | .expr source, .expr other => place.Replaces source other
  | .args source, .args other => ∀ {context : Context} {params : List Ty} {code : Code}
      {before after : Slots}, context.Alike place → Derives before
      (.args context params source code) after →
      Derives before (.args context params other code) after
  | .arms subject source, .arms _ other =>
      ∀ {context : Context} {slot : Slot} {type : Ty} {code : Code}
      {before after : Slots}, slot.type = subject → context.Alike place →
      Derives before (.arms context slot type source code) after →
      Derives before (.arms context slot type other code) after
  | .inits source, .inits other => ∀ {field : String} {init : FieldInit},
      initOf? source field = some init → ∃ same, initOf? other field = some same ∧
        place.Replaces init.value same.value
  | _, _ => True

section Replacement

variable {context place : Context} {source other : Expr} {code : Code} {before after : Slots}

theorem Context.Replaces.value {want : Ty} (hReplaces : place.Replaces source other)
    (hAlike : context.Alike place)
    (hDerives : Derives before (.value context want source code) after) :
    Derives before (.value context want other code) after := by
  cases hDerives with
  | value hExpr hSame => exact .value (hReplaces hAlike hExpr) hSame

theorem Context.Replaces.settled {want : Ty} {asArm : Bool}
    (hReplaces : place.Replaces source other) (hAlike : context.Alike place)
    (hDerives : Derives before (.settled context want asArm source code) after) :
    Derives before (.settled context want asArm other code) after := by
  cases hDerives with
  | discarded hVoid hExpr => exact .discarded hVoid (hReplaces hAlike hExpr)
  | kept hVoid hExpr hSame => exact .kept hVoid (hReplaces hAlike hExpr) hSame

theorem Piece.Replaced.refl (place : Context) (piece : Piece) : piece.Replaced place piece := by
  cases piece with
  | stmts | stmt | expr | args => exact fun _ hDerives => hDerives
  | arms => exact fun _ _ hDerives => hDerives
  | inits => exact fun hInit => ⟨_, hInit, fun _ hDerives => hDerives⟩

end Replacement

section Constructs

variable {context place inner : Context} {hint : Ty} {asArm : Bool} {lowered : Lowered}
variable {tag given : Tag} {code : Code} {before after : Slots}

theorem forRange_replaced {pos : Position} {var : String} {start stop first last : Expr}
    {body others : List Stmt} (hUpper : place.typeOf last = place.typeOf stop)
    (hLower : place.Confuses start first)
    (hLast : (place.typed var (rangeType place start stop)).Confuses stop last)
    (ihStart : place.Replaces start first)
    (ihStop : (place.typed var (rangeType place start stop)).Replaces stop last)
    (ihBody : (Piece.stmts body).Replaced (place.typed var (rangeType place start stop))
      (.stmts others))
    (hAlike : context.Alike place)
    (hDerives : Derives before (.stmt context (.forRange pos var start stop body) code inner)
      after) :
    Derives before (.stmt context (.forRange pos var first last others) code inner) after := by
  cases hDerives with
  | @forRange _ slots _ _ _ _ _ _ _ _ _ type _ _ _ hType hInteger hStart hStop hBody =>
      have hInner := @Context.Alike.bind _ _ hAlike var (slots.next type)
        ⟨0, rangeType place start stop⟩ ((hAlike.rangeType _ _).trans hType.symm)
      have hBound : place.Confuses stop last := ⟨hUpper, hLast.number, hLast.missing, hLast.tail⟩
      have hSame := rangeType_confused (hLower.alike hAlike) (hBound.alike hAlike)
      exact .forRange (hType.trans hSame.symm) hInteger (ihStart.value hAlike hStart)
        (ihStop.value hInner hStop) (ihBody (hInner.inLoop.inFrame.looping _ _) hBody)

theorem ident_replaced {name : String}
    (hDerives : Derives before (.expr context hint asArm (.ident tag name) lowered) after) :
    Derives before (.expr context hint asArm (.ident given name) lowered) after := by
  cases hDerives with
  | bound hLookup => exact .bound hLookup
  | self hLookup hMethod => exact .self hLookup hMethod
  | path hLookup hName hPath hLoads => exact .path hLookup hName hPath hLoads
  | named hLookup hPath hVariant hIndex => exact .named hLookup hPath hVariant hIndex

theorem binary_replaced {op : String} {left right first second : Expr}
    (hFirst : place.Confuses left first) (hSecond : place.Confuses right second)
    (ihFirst : place.Replaces left first) (ihSecond : place.Replaces right second) :
    place.Replaces (.binary tag op left right) (.binary tag op first second) := by
  intro context hint asArm lowered before after hAlike hDerives
  cases hDerives with
  | logical hLogical hLeft hRight =>
      exact .logical hLogical (ihFirst.value hAlike hLeft) (ihSecond.value hAlike hRight)
  | binary hLogical hType hSome hLeft hRight hOperator =>
      have hSame := binaryType_confused (hFirst.alike hAlike) (hSecond.alike hAlike)
      exact .binary hLogical (hType.trans (hSame _ _).symm) hSome (ihFirst.value hAlike hLeft)
        (ihSecond.value hAlike hRight) hOperator

theorem unary_replaced {op : String} {operand other : Expr} (hPart : place.Confuses operand other)
    (ih : place.Replaces operand other) :
    place.Replaces (.unary tag op operand) (.unary tag op other) := by
  intro context hint asArm lowered before after hAlike hDerives
  have hSame := negationType_confused (hPart.alike hAlike)
  cases hDerives with
  | not hValue => exact .not (ih.value hAlike hValue)
  | negateFloat hType hNumber hValue =>
      exact .negateFloat (hType.trans (hSame _).symm) hNumber (ih.value hAlike hValue)
  | negateInt hType hInteger hValue =>
      exact .negateInt (hType.trans (hSame _).symm) hInteger (ih.value hAlike hValue)

theorem branch_replaced {cond body otherwise test yes no : Expr}
    (hWhole : place.Confuses (.branch tag cond body otherwise) (.branch tag test yes no))
    (hYes : place.Confuses body yes) (hNo : Respells place (.expr otherwise) (.expr no))
    (ihTest : place.Replaces cond test) (ihYes : place.Replaces body yes)
    (ihNo : place.Replaces otherwise no) :
    place.Replaces (.branch tag cond body otherwise) (.branch tag test yes no) := by
  intro context hint asArm lowered before after hAlike hDerives
  cases hDerives with
  | branchOnly hTest hBody =>
      cases hNo
      exact .branchOnly (ihTest.value hAlike hTest) (ihYes.settled hAlike.inFrame hBody)
  | branch hMissing hType hTest hFirst hSecond =>
      have hSame := branchResult_confused (hWhole.alike hAlike).type hYes hNo.confused
      exact .branch (hNo.confused.missing.trans hMissing) (hType.trans (hSame _).symm)
        (ihTest.value hAlike hTest) (ihYes.settled hAlike.inFrame hFirst)
        (ihNo.settled hAlike.inFrame hSecond)

theorem block_replaced {stmts others : List Stmt} {tail last : Expr}
    (hType : place.typeOf (.block given others last) = place.typeOf (.block tag stmts tail))
    (hTail : Respells (stmts.foldl Context.behind place) (.expr tail) (.expr last))
    (ihStmts : (Piece.stmts stmts).Replaced place (.stmts others))
    (ihTail : (stmts.foldl Context.behind place).Replaces tail last) :
    place.Replaces (.block tag stmts tail) (.block given others last) := by
  intro context hint asArm lowered before after hAlike hDerives
  have hGiven : context.typeOf (.block given others last) =
      context.typeOf (.block tag stmts tail) := by
    rw [← hAlike.typeOf, ← hAlike.typeOf, hType]
  have hSame := yielded_confused hGiven hTail.confused hint asArm
  cases hDerives with
  | blockOnly hWant hStmts =>
      cases hTail
      exact .blockOnly (hWant.trans hSame.symm) (ihStmts hAlike hStmts)
  | block hMissing hWant hStmts hLast =>
      exact .block (hTail.confused.missing.trans hMissing) (hWant.trans hSame.symm)
        (ihStmts hAlike hStmts) (ihTail.settled (hStmts.behind hAlike) hLast)

theorem cases_replaced {scrutinee other : Expr} {arms others : List Arm}
    (hType : place.typeOf (.cases given other others) = place.typeOf (.cases tag scrutinee arms))
    (hPart : place.Confuses scrutinee other)
    (hParts : Respells place (.arms (place.typeOf scrutinee) arms)
      (.arms (place.typeOf scrutinee) others))
    (ihScrutinee : place.Replaces scrutinee other)
    (ihArms : (Piece.arms (place.typeOf scrutinee) arms).Replaced place
      (.arms (place.typeOf scrutinee) others)) :
    place.Replaces (.cases tag scrutinee arms) (.cases given other others) := by
  intro context hint asArm lowered before after hAlike hDerives
  cases hDerives with
  | cases hSubject hSome hCode hResult hValue hArms =>
      have hGiven : context.typeOf (.cases given other others) =
          context.typeOf (.cases tag scrutinee arms) := by
        rw [← hAlike.typeOf, ← hAlike.typeOf, hType]
      have hSame := casesResult_confused hParts hGiven
      exact .cases (hSubject.trans (hPart.alike hAlike).type.symm) hSome (hParts.hasCode hCode)
        (hResult.trans (hSame _).symm) (ihScrutinee.value hAlike hValue)
        (ihArms (hSubject.trans (hAlike.typeOf _).symm) hAlike hArms)

theorem arm_replaced {subject type : Ty} {slot : Slot} {pos : Position} {pattern : Pattern}
    {body other : Expr} {rest others : List Arm}
    (ihBody : (place.inArm subject pattern).Replaces body other)
    (ihRest : (Piece.arms subject rest).Replaced place (.arms subject others))
    (hSubject : slot.type = subject) (hAlike : context.Alike place)
    (hDerives : Derives before (.arms context slot type (.mk pos pattern body :: rest) code)
      after) :
    Derives before (.arms context slot type (.mk pos pattern other :: others) code) after := by
  cases hDerives with
  | wildcard hBody => exact .wildcard (ihBody.settled hAlike hBody)
  | @bind _ _ _ _ _ _ _ name _ _ _ hBody =>
      have hInner := @Context.Alike.bind _ _ hAlike name (before.next slot.type) ⟨0, subject⟩
        hSubject.symm
      exact .bind (ihBody.settled hInner hBody)
  | literal hValue hBody hRest =>
      exact .literal hValue (ihBody.settled hAlike.inFrame hBody)
        (ihRest hSubject hAlike.inFrame hRest)

/-- Fields are stored from the values that they have, in the order of the layout. -/
theorem stores_replaced {record : String} {address : UInt32} {inits values : List FieldInit}
    {fields : List Field} (ih : (Piece.inits inits).Replaced place (.inits values))
    (hAlike : context.Alike place)
    (hDerives : Derives before (.stores context record address inits fields code) after) :
    Derives before (.stores context record address values fields code) after := by
  induction fields generalizing before code with
  | nil =>
      cases hDerives
      exact .stored
  | cons field rest ihRest =>
      cases hDerives with
      | store hInit hValue hRest =>
          obtain ⟨same, hSame, hReplaces⟩ := ih hInit
          exact .store hSame (hReplaces.value hAlike hValue) (ihRest hRest)

theorem init_replaced {pos : Position} {name : String} {value other : Expr}
    {rest others : List FieldInit} (ihValue : place.Replaces value other)
    (ihRest : (Piece.inits rest).Replaced place (.inits others)) :
    (Piece.inits (.mk pos name value :: rest)).Replaced place
      (.inits (.mk pos name other :: others)) := by
  intro field init hInit
  rw [initOf?, List.find?_cons] at hInit ⊢
  cases hName : name == field with
  | true =>
      simp only [FieldInit.name, hName, Option.some.injEq] at hInit ⊢
      subst hInit
      exact ⟨_, rfl, ihValue⟩
  | false =>
      simp only [FieldInit.name, hName] at hInit ⊢
      exact ihRest hInit

theorem construct_replaced {record : String} {inits others values : List FieldInit}
    (hParts : Respells place (.inits inits) (.inits others)) (hPerm : others.Perm values)
    (ih : (Piece.inits inits).Replaced place (.inits others)) :
    place.Replaces (.construct tag record inits) (.construct tag record values) := by
  intro context hint asArm lowered before after hAlike hDerives
  cases hDerives with
  | construct hRecord hAssigns hAlloc hStores =>
      have hOthers := hParts.assigns hAssigns
      exact .construct hRecord (hOthers.perm hPerm) hAlloc
        ((stores_replaced ih hAlike hStores).reorders hPerm hOthers.names)

end Constructs

/-- What is derived of a piece is derived of it in another spelling, by induction on the
spelling. -/
theorem Respells.replaced {place : Context} {piece other : Piece}
    (hRespells : Respells place piece other) :
    piece.Replaced place other := by
  induction hRespells with
  | same => exact .refl _ _
  | cons _ _ ihFirst ihRest =>
      intro context inner code before after hAlike hDerives
      cases hDerives with
      | cons hFirst hRest =>
          exact .cons (ihFirst hAlike hFirst) (ihRest (hFirst.behind hAlike) hRest)
  | declare hPart ih =>
      intro context inner code before after hAlike hDerives
      cases hDerives with
      | declare hType hSome hValue =>
          have hSame := declaredType_confused (hPart.confused.alike hAlike)
          exact .declare (hType.trans (hSame _).symm) hSome (ih.value hAlike hValue)
  | assign hTarget _ _ ih =>
      intro context inner code before after hAlike hDerives
      cases hDerives with
      | assign hLookup hValue =>
          cases hTarget with
          | same | ident => exact .assign hLookup (ih.value hAlike hValue)
  | result hPart ih =>
      intro context inner code before after hAlike hDerives
      cases hDerives with
      | leaveVoid hVoid =>
          cases hPart
          exact .leaveVoid hVoid
      | leaveWith hSome hValue => exact .leaveWith hSome (ih.value hAlike hValue)
  | eval _ ih =>
      intro context inner code before after hAlike hDerives
      cases hDerives with
      | eval hValue => exact .eval (ih.settled hAlike hValue)
  | whileLoop _ _ ihTest ihBody =>
      intro context inner code before after hAlike hDerives
      cases hDerives with
      | whileLoop hTest hBody =>
          exact .whileLoop (ihTest.value hAlike.inLoop hTest)
            (ihBody (hAlike.inLoop.looping _ _) hBody)
  | forever _ ih =>
      intro context inner code before after hAlike hDerives
      cases hDerives with
      | forever hBody => exact .forever (ih (hAlike.inLoop.looping _ _) hBody)
  | forRange hCounting hLower hUpper hLast _ ihStart ihStop ihBody =>
      subst hCounting
      exact forRange_replaced hUpper hLower.confused hLast.confused ihStart ihStop ihBody
  | ident => exact fun _ hDerives => ident_replaced hDerives
  | block _ hType _ hTail ihStmts ihTail => exact block_replaced hType hTail ihStmts ihTail
  | cases _ hType hPart hParts ihScrutinee ihArms =>
      exact cases_replaced hType hPart.confused hParts ihScrutinee ihArms
  | binary hFirst hSecond ihFirst ihSecond =>
      exact binary_replaced hFirst.confused hSecond.confused ihFirst ihSecond
  | unary hPart ih => exact unary_replaced hPart.confused ih
  | call _ ih =>
      intro context hint asArm lowered before after hAlike hDerives
      cases hDerives with
      | call hCalls hArgs => exact .call hCalls (ih hAlike hArgs)
      | ownCall hNone hOwn hArgs => exact .ownCall hNone hOwn (ih hAlike hArgs)
  | methodCall hPart _ ihReceiver ihArgs =>
      intro context hint asArm lowered before after hAlike hDerives
      cases hDerives with
      | methodCall hType hMethod hReceiver hArgs =>
          exact .methodCall ((hPart.confused.alike hAlike).type.trans hType) hMethod
            (ihReceiver hAlike hReceiver) (ihArgs hAlike hArgs)
  | branch hCond hYes hNo ihTest ihYes ihNo =>
      exact branch_replaced (Respells.branch hCond hYes hNo).confused hYes.confused hNo ihTest
        ihYes ihNo
  | member hPart ih =>
      intro context hint asArm lowered before after hAlike hDerives
      cases hDerives with
      | member hType hRecord hFound hValue =>
          exact .member ((hPart.confused.alike hAlike).type.trans hType) hRecord hFound
            (ih.value hAlike hValue)
  | construct hParts hPerm ih => exact construct_replaced hParts hPerm ih
  | arg _ _ ihFirst ihRest =>
      intro context params code before after hAlike hDerives
      cases hDerives with
      | arg hFirst hRest => exact .arg (ihFirst.value hAlike hFirst) (ihRest hAlike hRest)
  | arm _ _ ihBody ihRest =>
      exact fun hSubject hAlike hDerives => arm_replaced ihBody ihRest hSubject hAlike hDerives
  | init _ _ ihValue ihRest => exact init_replaced ihValue ihRest

/-- A judgement also holds of source that is spelled differently.  The types of names are those of a
place. -/
def Judgement.Respelled (place : Context) (before after : Slots) : Judgement → Prop
  | stmts context source code behind => ∀ other, Respells place (.stmts source) (.stmts other) →
      Derives before (.stmts context other code behind) after
  | stmt context source code behind => ∀ other, Respells place (.stmt source) (.stmt other) →
      Derives before (.stmt context other code behind) after
  | expr context hint asArm source lowered => ∀ other, Respells place (.expr source) (.expr other) →
      Derives before (.expr context hint asArm other lowered) after
  | value context want source code => ∀ other, Respells place (.expr source) (.expr other) →
      Derives before (.value context want other code) after
  | settled context want asArm source code => ∀ other, Respells place (.expr source) (.expr other) →
      Derives before (.settled context want asArm other code) after
  | args context params source code => ∀ other, Respells place (.args source) (.args other) →
      Derives before (.args context params other code) after
  | arms context slot type source code => ∀ other,
      Respells place (.arms slot.type source) (.arms slot.type other) →
      Derives before (.arms context slot type other code) after
  | stores context record address inits fields code => ∀ other,
      Respells place (.inits inits) (.inits other) →
      Derives before (.stores context record address other fields code) after

/-- What is derived is also derived from other spellings. -/
theorem Derives.respells {before after : Slots} {judgement : Judgement}
    (hDerives : Derives before judgement after) {place : Context}
    (hAlike : judgement.context.Alike place) : judgement.Respelled place before after := by
  cases judgement with
  | stmts | stmt | expr | args => exact fun other hRespells => hRespells.replaced hAlike hDerives
  | value => exact fun other hRespells => Context.Replaces.value hRespells.replaced hAlike hDerives
  | settled => exact fun other hRespells =>
      Context.Replaces.settled hRespells.replaced hAlike hDerives
  | arms => exact fun other hRespells => hRespells.replaced rfl hAlike hDerives
  | stores => exact fun other hRespells => stores_replaced hRespells.replaced hAlike hDerives

/-! ## Whole functions -/

section Functions

variable {context place : Context} {front stmts others : List Stmt} {pos : Position} {value : Expr}

/-- The type that inference finds at the start of a function for the expression at its end. -/
def Context.endType (context : Context) (stmts : List Stmt) : Ty :=
  match stmts.getLast? with
  | some (.eval _ value) => context.typeOf value
  | _ => .void

/-- Whether a function ends with its value depends on the type of the expression there. -/
theorem splitTail_none_iff : splitTail context stmts = (stmts, none) ↔
    context.result.isVoid = true ∨ (context.endType stmts).isVoid = true := by
  rw [splitTail, Context.endType]
  split
  · rename_i hLast
    simp only [← Bool.or_eq_true]
    split <;> simp_all
  · simp [Ty.isVoid]

/-- Statements in front of an expression stay in front of it. -/
theorem Respells.split
    (hRespells : Respells place (.stmts (front ++ [.eval pos value])) (.stmts others)) :
    ∃ first last, others = first ++ [.eval pos last] ∧
      Respells place (.stmts front) (.stmts first) ∧
      Respells (front.foldl Context.behind place) (.expr value) (.expr last) := by
  induction front generalizing place others with
  | nil =>
      cases hRespells with
      | same => exact ⟨[], value, rfl, .same, .same⟩
      | cons hStmt hNil =>
          cases hNil
          cases hStmt with
          | same => exact ⟨[], value, rfl, .same, .same⟩
          | eval hValue => exact ⟨[], _, rfl, .same, hValue⟩
  | cons stmt rest ih =>
      cases hRespells with
      | same => exact ⟨stmt :: rest, value, rfl, .same, .same⟩
      | cons hStmt hRest =>
          obtain ⟨first, last, rfl, hFront, hValue⟩ := ih hRest
          exact ⟨_ :: first, last, rfl, .cons hStmt hFront, hValue⟩

theorem lowerBody_respelled {code : Code} {before after : Slots}
    (hRespells : Respells context (.stmts stmts) (.stmts others))
    (hType : context.endType others = context.endType stmts)
    (hLower : lowerBody context stmts before = .ok (code, after)) :
    lowerBody context others before = .ok (code, after) := by
  have hAlike : context.Alike context := ⟨rfl, rfl, fun _ => rfl⟩
  rcases splitTail_cases context stmts with hNone | ⟨front, pos, value, rfl, hResult, hSome, hTail⟩
  · have hSame : splitTail context others = (others, none) := by
      rw [splitTail_none_iff, hType]
      exact splitTail_none_iff.1 hNone
    simp only [lowerBody, hNone, hSame, gives_bind] at hLower ⊢
    obtain ⟨⟨code, inner⟩, middle, hStmts, hRest⟩ := hLower
    exact ⟨_, _, ((lowerStmts_derives _ hStmts).respells hAlike _ hRespells).generated, hRest⟩
  · obtain ⟨first, last, rfl, hFront, hLast⟩ := hRespells.split
    simp only [lowerBody, hTail, gives_bind, gives_expect, gives_pure] at hLower
    obtain ⟨⟨code, inner⟩, middle, hStmts, lowered, _, hExpr, _, _, ⟨hSame, rfl, rfl⟩, rfl, rfl⟩ :=
      hLower
    have hBefore := lowerStmts_derives _ hStmts
    have hValue : Derives middle (.value inner context.result value lowered.code) _ :=
      .value (lowerExpr_derives _ hExpr) hSame
    have hEnd : context.typeOf last = context.typeOf value := by simpa [Context.endType] using hType
    exact lowerBody_value hResult (by rw [hEnd, hSome]) (hBefore.respells hAlike _ hFront).generated
      (hValue.respells (hBefore.behind hAlike) _ hLast).generated

theorem lowerFunction_respelled {env : Env} {decl : FuncDecl} {body : FunctionBody}
    (hRespells : Respells (entryPoint env decl) (.stmts decl.body) (.stmts stmts))
    (hType : (entryPoint env decl).endType stmts = (entryPoint env decl).endType decl.body)
    (hLower : lowerFunction env decl = .ok body) :
    lowerFunction env { decl with body := stmts } = .ok body := by
  simp only [lowerFunction, bind_ok, pure_ok] at hLower ⊢
  obtain ⟨⟨context, slots⟩, hEntry, ⟨inner, start⟩, hBind, ⟨instrs, after⟩, hBody, rfl⟩ := hLower
  obtain ⟨rfl, rfl, -⟩ := entry_ok hEntry hBind
  exact ⟨_, hEntry, _, hBind, _, lowerBody_respelled hRespells hType hBody, rfl⟩

end Functions

/-- A context in which names have types only. -/
def Context.typesOnly (context : Context) : Context :=
  { context with scope := context.scope.map fun entry => (entry.1, ⟨0, entry.2.type⟩) }

theorem Context.lookup?_typesOnly (context : Context) (name : String) :
    context.typesOnly.lookup? name = ((context.lookup? name).map Slot.type).map (⟨0, ·⟩) := by
  simp [lookup?, typesOnly, List.find?_map, Function.comp_def]

theorem Context.alike_typesOnly (context : Context) : context.Alike context.typesOnly where
  env := rfl
  receiver := rfl
  types := by
    intro name
    simp [lookup?_typesOnly, Function.comp_def]

section Inference

variable {place inside : Context} {tag : Tag} {stmts others : List Stmt} {expr tail last : Expr}

/-- The names of an expression have the same types inside as outside. -/
def Context.Visible (inside place : Context) (expr : Expr) : Prop :=
  ∀ name ∈ exprNames expr,
    (inside.lookup? name).map Slot.type = (place.lookup? name).map Slot.type

/-- Inference in a scope finds what it finds in another one if the names in the expression have the
same types there. -/
theorem Context.Visible.typeOf (hVisible : inside.Visible place expr)
    (hScope : inside = { place with scope := inside.scope }) :
    inside.typeOf expr = place.typeOf expr := by
  have hAgrees : place.typesOnly.Agrees (exprNames expr) inside.typesOnly := by
    constructor
    case lookup =>
      intro name hName
      rw [lookup?_typesOnly, lookup?_typesOnly, hVisible name hName]
    all_goals rw [hScope]; rfl
  rw [← inside.alike_typesOnly.typeOf, hAgrees.typeOf expr (List.Subset.refl _),
    place.alike_typesOnly.typeOf]

theorem behind_scope (stmts : List Stmt) (place : Context) :
    stmts.foldl Context.behind place =
      { place with scope := (stmts.foldl Context.behind place).scope } := by
  induction stmts generalizing place with
  | nil => rfl
  | cons stmt rest ih =>
      rw [List.foldl_cons, ih]
      cases stmt <;> rfl

theorem inArm_scope (place : Context) (subject : Ty) (pattern : Pattern) :
    place.inArm subject pattern =
      { place with scope := (place.inArm subject pattern).scope } := by
  cases pattern <;> rfl

theorem orDefault_void (type : Ty) : orDefault .void type = type := rfl

theorem orDefault_some {type : Ty} (hSome : type.isVoid = false) (default : Ty) :
    orDefault type default = type := by
  rw [orDefault, if_neg (by simp [hSome])]

/-- A block needs no type if its tail has this type and names nothing that the block binds anew. -/
theorem Respells.untypedBlock (hSome : tag.type.isVoid = false)
    (hStmts : Respells place (.stmts stmts) (.stmts others))
    (hTail : Respells (stmts.foldl Context.behind place) (.expr tail) (.expr last))
    (hType : (stmts.foldl Context.behind place).typeOf tail = tag.type)
    (hVisible : (stmts.foldl Context.behind place).Visible place last) :
    Respells place (.expr (.block tag stmts tail)) (.expr (.block (untyped tag) others last)) := by
  refine .block (.inr rfl) ?_ hStmts hTail
  have hLast := hVisible.typeOf (behind_scope stmts place)
  rw [hTail.confused.type, hType] at hLast
  rw [Context.typeOf, Context.typeOf, untyped, orDefault_void, orDefault_some hSome, ← hLast]

/-- The type of the first arm that yields a value, each asked for where the arm stands. -/
def Context.typeInArms (place : Context) (subject : Ty) : List Arm → Ty
  | [] => .void
  | .mk _ pattern body :: rest =>
      orDefault ((place.inArm subject pattern).typeOf body) (place.typeInArms subject rest)

variable {subject : Ty} {arms branches : List Arm}

theorem Respells.typeInArms
    (hRespells : Respells place (.arms subject arms) (.arms subject branches)) :
    place.typeInArms subject branches = place.typeInArms subject arms := by
  induction arms generalizing branches with
  | nil =>
      cases hRespells
      rfl
  | cons arm rest ih =>
      cases hRespells with
      | same => rfl
      | arm hBody hRest =>
          rw [Context.typeInArms, Context.typeInArms, hBody.confused.type, ih hRest]

theorem typeOfArms_visible (hVisible : ∀ arm ∈ arms,
    (place.inArm subject arm.pattern).Visible place arm.body) :
    place.typeOfArms arms = place.typeInArms subject arms := by
  induction arms with
  | nil => rw [Context.typeOfArms, Context.typeInArms]
  | cons arm rest ih =>
      obtain ⟨pos, pattern, body⟩ := arm
      obtain ⟨hFirst, hRest⟩ := List.forall_mem_cons.1 hVisible
      have hBody : (place.inArm subject pattern).typeOf body = place.typeOf body :=
        hFirst.typeOf (inArm_scope place subject pattern)
      rw [Context.typeOfArms, Context.typeInArms, ih hRest, hBody]

/-- A match needs no type if its arms have this type and name nothing that their patterns bind
anew. -/
theorem Respells.untypedCases {scrutinee other : Expr} (hSome : tag.type.isVoid = false)
    (hScrutinee : Respells place (.expr scrutinee) (.expr other))
    (hArms : Respells place (.arms (place.typeOf scrutinee) arms)
      (.arms (place.typeOf scrutinee) branches))
    (hType : place.typeInArms (place.typeOf scrutinee) arms = tag.type)
    (hVisible : ∀ arm ∈ branches,
      (place.inArm (place.typeOf scrutinee) arm.pattern).Visible place arm.body) :
    Respells place (.expr (.cases tag scrutinee arms))
      (.expr (.cases (untyped tag) other branches)) := by
  refine .cases (.inr rfl) ?_ hScrutinee hArms
  rw [Context.typeOf, Context.typeOf, untyped, orDefault_void, orDefault_some hSome,
    typeOfArms_visible hVisible, hArms.typeInArms, hType]

/-- Names that are bound have their types from there. -/
theorem Respells.untypedIdent {name : String} {slot : Slot}
    (hLookup : place.lookup? name = some slot) :
    Respells place (.expr (.ident tag name)) (.expr (.ident (untyped tag) name)) := by
  refine .ident ?_
  rw [Context.typeOf, Context.typeOf, Context.identType, Context.identType, hLookup]

/-- The end of a function keeps its type if its names have the same types at the start. -/
theorem endType_respelled {context : Context} {front first : List Stmt} {pos : Position}
    {value last : Expr}
    (hRespells : Respells (front.foldl Context.behind context) (.expr value) (.expr last))
    (hValue : (front.foldl Context.behind context).Visible context value)
    (hLast : (front.foldl Context.behind context).Visible context last) :
    context.endType (first ++ [.eval pos last]) = context.endType (front ++ [.eval pos value]) := by
  have hBefore := hValue.typeOf (behind_scope front context)
  have hAfter := hLast.typeOf (behind_scope front context)
  simp [Context.endType, ← hBefore, ← hAfter, hRespells.confused.type]

end Inference

/-! ## The same function -/

/-- A function that is compiled is compiled to the same instructions and locals without some of its
attached types, if inference finds the same without them: where the names, blocks and matches stand
that lose their types, and at the start of the function for the expression at its end.  A block that
has the type of its tail may lose it if the names of the tail have the same types outside the block;
a match that has the type of its arms if this holds of the names in the arms; a name if it is bound;
and the end of the function keeps its type if its names have the same types at the start. -/
theorem attached_types_optional {env : Env} {decl : FuncDecl} {body : FunctionBody}
    (hLower : lowerFunction env decl = .ok body) :
    (∀ stmts, Respells (entryPoint env decl) (.stmts decl.body) (.stmts stmts) →
      (entryPoint env decl).endType stmts = (entryPoint env decl).endType decl.body →
      lowerFunction env { decl with body := stmts } = .ok body) ∧
    (∀ (place : Context) (tag : Tag) (stmts others : List Stmt) (tail last : Expr),
      tag.type.isVoid = false → Respells place (.stmts stmts) (.stmts others) →
      Respells (stmts.foldl Context.behind place) (.expr tail) (.expr last) →
      (stmts.foldl Context.behind place).typeOf tail = tag.type →
      (stmts.foldl Context.behind place).Visible place last →
      Respells place (.expr (.block tag stmts tail)) (.expr (.block (untyped tag) others last))) ∧
    (∀ (place : Context) (tag : Tag) (scrutinee other : Expr) (arms others : List Arm),
      tag.type.isVoid = false → Respells place (.expr scrutinee) (.expr other) →
      Respells place (.arms (place.typeOf scrutinee) arms) (.arms (place.typeOf scrutinee) others) →
      place.typeInArms (place.typeOf scrutinee) arms = tag.type →
      (∀ arm ∈ others,
        (place.inArm (place.typeOf scrutinee) arm.pattern).Visible place arm.body) →
      Respells place (.expr (.cases tag scrutinee arms))
        (.expr (.cases (untyped tag) other others))) ∧
    (∀ (place : Context) (tag : Tag) (name : String) (slot : Slot), place.lookup? name = some slot →
      Respells place (.expr (.ident tag name)) (.expr (.ident (untyped tag) name))) ∧
    (∀ (context : Context) (front first : List Stmt) (pos : Position) (value last : Expr),
      Respells (front.foldl Context.behind context) (.expr value) (.expr last) →
      (front.foldl Context.behind context).Visible context value →
      (front.foldl Context.behind context).Visible context last →
      context.endType (first ++ [.eval pos last]) = context.endType (front ++ [.eval pos value])) :=
  ⟨fun _ hRespells hType => lowerFunction_respelled hRespells hType hLower,
    fun _ _ _ _ _ _ => .untypedBlock, fun _ _ _ _ _ _ => .untypedCases,
    fun _ _ _ _ => .untypedIdent, fun _ _ _ _ _ _ => endType_respelled⟩

/-- A function with a block and a match of the given type.  The block binds a parameter anew, with
the type that it has outside. -/
def choosing (type : Ty) : FuncDecl where
  name := "choosing"
  params := [⟨{}, "n", .i64⟩]
  result := .i64
  body :=
    [.declare {} "y" .void (.block ⟨{}, type⟩ [.declare {} "n" .i64 (.int {} 5)] (.ident {} "n")),
      .eval {} (.cases ⟨{}, type⟩ (.ident {} "n")
      [.mk {} (.literal {} (.int {} 1)) (.ident {} "n"), .mk {} (.bind {} "m") (.int {} 7)])]

theorem attached_types_optional_choosing : ∃ (env : Env) (body : FunctionBody),
    lowerFunction env (choosing .i64) = .ok body ∧
      lowerFunction env (choosing .void) = .ok body := by
  let env : Env := ⟨{}, ⟨8, 65536, 0, 1, 0, 1⟩, [], [], [], [], []⟩
  obtain ⟨hFunctions, hBlocks, hMatches, -⟩ :=
    @attached_types_optional env (choosing .i64) _ rfl
  refine ⟨env, _, rfl, hFunctions (choosing .void).body
    (.cons (.declare (hBlocks _ ⟨{}, .i64⟩ _ _ _ _ rfl .same .same rfl ?_))
      (.cons (.eval (hMatches _ ⟨{}, .i64⟩ _ _ _ _ rfl .same .same rfl ?_)) .same)) rfl⟩
  · intro name hName
    cases List.mem_singleton.1 hName
    rfl
  · intro arm hArm name hName
    rcases List.mem_cons.1 hArm with rfl | hRest
    · cases List.mem_singleton.1 hName
      rfl
    · cases List.mem_singleton.1 hRest
      cases hName

/-- A function that binds the result of a block, which ends with a name that the block binds.  Both
have the given type. -/
def letting (type : Ty) : FuncDecl where
  name := "letting"
  params := []
  result := .i64
  body := [.declare {} "y" .void (.block ⟨{}, type⟩ [.declare {} "x" .i64 (.int {} 5)]
      (.ident ⟨{}, type⟩ "x")),
    .result {} (.ident {} "y")]

/-- Inside the block the name is of type `i64`, but without the attached types the function is
refused. -/
theorem untyped_block_refused : ∃ (env : Env) (body : FunctionBody) (failure : Failure),
    ((entryPoint env (letting .i64)).behind (.declare {} "x" .i64 (.int {} 5))).typeOf
      (.ident ⟨{}, .i64⟩ "x") = .i64 ∧
    lowerFunction env (letting .i64) = .ok body ∧
    lowerFunction env (letting .void) = .error failure :=
  ⟨⟨{}, ⟨8, 65536, 0, 1, 0, 1⟩, [], [], [], [], []⟩, _, _, rfl, rfl, rfl⟩

end RecordWasm.Lowering
