import RecordWasm.Lowering.Function
import RecordWasm.Proofs.Success

/-!
# How code comes about

`Derives` says which code a piece of source is lowered to, with one rule for every way in which
lowering succeeds.  Whatever holds of all code that is generated is proved by induction over its
rules, so that no proof has to look at the functions that generate it.
-/

namespace RecordWasm.Lowering

open Syntax Layout Wasm

/-- The slot that is handed out next. -/
def Slots.next (slots : Slots) (type : Ty) : Slot :=
  ⟨(slots.params + slots.locals.length).toUInt32, type⟩

/-- The slots when one for a type has been handed out. -/
def Slots.push (slots : Slots) (type : Ty) : Slots :=
  { slots with locals := slots.locals ++ [(numType? type).getD .i32] }

/-! ## Judgements -/

/-- A piece of source, where it stands and what it is lowered to. -/
inductive Judgement where
  | stmts (context : Context) (stmts : List Stmt) (code : Code) (after : Context)
  | stmt (context : Context) (stmt : Stmt) (code : Code) (after : Context)
  | expr (context : Context) (hint : Ty) (asArm : Bool) (expr : Expr) (lowered : Lowered)
  /-- An expression that has to yield a value represented like a type. -/
  | value (context : Context) (want : Ty) (expr : Expr) (code : Code)
  /-- An expression that has to yield a type, or nothing if that is `void`. -/
  | settled (context : Context) (want : Ty) (asArm : Bool) (expr : Expr) (code : Code)
  | args (context : Context) (params : List Ty) (args : List Expr) (code : Code)
  | arms (context : Context) (slot : Slot) (type : Ty) (arms : List Arm) (code : Code)
  /-- The initializers of a record, stored in some of its fields. -/
  | stores (context : Context) (record : String) (address : UInt32) (inits : List FieldInit)
      (fields : List Field) (code : Code)

/-- The code that follows a path of fields from a record. -/
inductive Loads (env : Env) : Ty → List String → Lowered → Prop where
  | here {base : Ty} : Loads env base [] ⟨[], base⟩
  | field {name field : String} {record : Record} {found : Field} {rest : List String}
      {deeper : Lowered} :
      env.registry.get? name = some record → record.field? field = some found →
      Loads env (env.typeOfField name found) rest deeper →
      Loads env (.record name) (field :: rest) ⟨loadInstr found :: deeper.code, deeper.type⟩

/-- The type that a declaration gives its name. -/
def declaredType (context : Context) (type : Ty) (value : Expr) : Ty :=
  if type.isVoid then context.typeOf value else type

/-- The type that a range is counted in. -/
def rangeType (context : Context) (start stop : Expr) : Ty :=
  orDefault (context.operandType start stop) .i64

theorem isVoid_orDefault {type default : Ty} :
    (orDefault type default).isVoid = true ↔ type.isVoid = true ∧ default.isVoid = true := by
  rw [orDefault]
  split
  · rename_i hVoid
    exact ⟨fun hDefault => ⟨hVoid, hDefault⟩, And.right⟩
  · rename_i hSome
    exact ⟨fun hVoid => (hSome hVoid).elim, And.left⟩

/-- What a range counts are values. -/
theorem isVoid_of_isInteger {type : Ty} (hInteger : type.isInteger = true) :
    type.isVoid = false := by
  cases type <;> first | rfl | cases hInteger

/-- The type that a number is negated at. -/
def negationType (context : Context) (operand : Expr) (hint : Ty) : Ty :=
  if isNumericLit operand && isNumeric hint then hint else context.typeOf operand

/-- What a block yields. -/
def yielded (context : Context) (tag : Tag) (stmts : List Stmt) (tail : Expr) (hint : Ty)
    (asArm : Bool) : Ty :=
  if asArm then hint else blockResult context (.block tag stmts tail) tail hint

/-- The context inside the two frames of a loop. -/
def Context.inLoop (context : Context) : Context := context.inFrame.inFrame

/-- The context of the body of a loop, for `break` and `continue`. -/
def Context.looping (context : Context) (leave next : Nat) : Context :=
  { context with loop := some ⟨leave, next⟩ }

def whileCode (context : Context) (test body : Code) : Code :=
  [.block voidBlock, .loop voidBlock] ++ test ++
    [(Opcode.eqz .w32).instr, .brIf (context.inLoop.label context.frames)] ++ body ++
    [.br (context.inLoop.label (context.frames + 1)), .close, .close]

def foreverCode (context : Context) (body : Code) : Code :=
  [.block voidBlock, .loop voidBlock] ++ body ++
    [.br (context.inLoop.label (context.frames + 1)), .close, .close]

def rangeCode (context : Context) (type : Ty) (counter limit : UInt32) (first last body : Code) :
    Code :=
  first ++ [.localSet counter] ++ last ++ [.localSet limit] ++
    [.block voidBlock, .loop voidBlock, .localGet counter, .localGet limit,
      (Opcode.compareInt (intWidth type) .geS).instr,
      .brIf (context.inLoop.label context.frames), .block voidBlock] ++ body ++
    [.close, .localGet counter, constInt type 1, (Opcode.int (intWidth type) .add).instr,
      .localSet counter, .br (context.inLoop.label (context.frames + 1)), .close, .close]

def literalArmCode (slot : Slot) (type : Ty) (constant body others : Code) : Code :=
  .localGet slot.index :: constant ++ [(equality slot.type).instr, .ifThen (blockType type)] ++
    body ++ Opcode.otherwise.instr :: others ++ [.close]

/-- A call by name without a receiver: to a free function or import, or to a constructor. -/
def Context.Calls (context : Context) (function : String) (ref : FuncRef) : Prop :=
  context.callee? function = some ref ∧
    (context.env.function? function = some ref ∨
      (context.env.function? function = none ∧ context.ownMethod? function = none))

/-- A method of the receiver is what a call by name refers to, if there is no free function. -/
theorem Context.callee?_own {context : Context} {function : String} {ref : FuncRef}
    (hNone : context.env.function? function = none)
    (hOwn : context.ownMethod? function = some ref) : context.callee? function = some ref := by
  simp [Context.callee?, hNone, hOwn]

/-- Every initializer is for a field of its own. -/
structure Assigns (record : Record) (inits : List FieldInit) : Prop where
  fields : ∀ init ∈ inits, ∃ field ∈ record.fields, field.name = init.name
  names : (inits.map FieldInit.name).Nodup

/-- The initializer of a field. -/
def initOf? (inits : List FieldInit) (field : String) : Option FieldInit :=
  inits.find? fun init => init.name == field

/-- Values of initializers, found by the names of their fields. -/
theorem lookup_inits {α : Type} {read : Expr → α} {all : List FieldInit → List (String × α)}
    (hNil : all [] = [])
    (hCons : ∀ pos name value rest, all (.mk pos name value :: rest) =
      (name, read value) :: all rest)
    (inits : List FieldInit) (name : String) :
    (all inits).lookup name = (initOf? inits name).map fun init => read init.value := by
  induction inits with
  | nil => rw [hNil]; rfl
  | cons first rest ih =>
      obtain ⟨pos, label, value⟩ := first
      rw [hCons, List.lookup_cons, initOf?, List.find?_cons]
      by_cases hName : name = label
      · simp [hName, FieldInit.name, FieldInit.value]
      · have hOther : (label == name) = false := by simpa using fun hSame => hName hSame.symm
        simp only [beq_eq_false_iff_ne.2 hName, FieldInit.name, hOther]
        exact ih

theorem initOf?_of_mem {inits : List FieldInit} {init : FieldInit}
    (hNames : (inits.map FieldInit.name).Nodup) (hInit : init ∈ inits) :
    initOf? inits init.name = some init := by
  induction inits with
  | nil => cases hInit
  | cons first rest ih =>
      rw [List.map_cons, List.nodup_cons] at hNames
      rcases List.mem_cons.1 hInit with rfl | hRest
      · exact List.find?_cons_of_pos (by simp)
      · refine (List.find?_cons_of_neg ?_).trans (ih hNames.2 hRest)
        intro hSame
        exact hNames.1 (eq_of_beq hSame ▸ List.mem_map_of_mem hRest)

/-- Whether a pattern has code: it takes everything or stands for one value. -/
def hasCode (env : Env) : Pattern → Bool
  | .wildcard _ | .bind _ _ => true
  | .literal _ value =>
      match value with
      | .int _ _ | .float _ _ | .bool _ _ | .variant _ _ _ => true
      | .unary _ _ _ => isNumericLit value
      | .ident _ name => (namedVariant? env name).isSome
      | _ => false
  | .missing | .constructor _ _ _ => false

/-- The fields of a record in the order of its layout. -/
def Env.fieldNames (env : Env) (record : String) : List String :=
  match env.registry.get? record with
  | some found => found.fields.map Field.name
  | none => []

/-- A judgement is derived: lowering takes the slots before it to the slots behind it. -/
inductive Derives : Slots → Judgement → Slots → Prop where
  | nil {slots : Slots} {context : Context} : Derives slots (.stmts context [] [] context) slots
  | cons {slots middle after : Slots} {context inner outer : Context} {stmt : Stmt}
      {rest : List Stmt} {first others : Code} :
      Derives slots (.stmt context stmt first inner) middle →
      Derives middle (.stmts inner rest others outer) after →
      Derives slots (.stmts context (stmt :: rest) (first ++ others) outer) after
  | declare {slots after : Slots} {context : Context} {pos : Position} {name : String}
      {given type : Ty} {value : Expr} {code : Code} :
      type = declaredType context given value → type.isVoid = false →
      Derives slots (.value context type value code) after →
      Derives slots (.stmt context (.declare pos name given value)
        (code ++ [.localSet (after.next type).index]) (context.bind name (after.next type)))
        (after.push type)
  | assign {slots after : Slots} {context : Context} {pos : Position} {tag : Tag} {name : String}
      {value : Expr} {slot : Slot} {code : Code} :
      context.lookup? name = some slot →
      Derives slots (.value context slot.type value code) after →
      Derives slots (.stmt context (.assign pos (.ident tag name) value)
        (code ++ [.localSet slot.index]) context) after
  | leaveVoid {slots : Slots} {context : Context} {pos : Position} :
      context.result.isVoid = true →
      Derives slots (.stmt context (.result pos .missing) [Opcode.ret.instr] context) slots
  | leaveWith {slots after : Slots} {context : Context} {pos : Position} {value : Expr}
      {code : Code} :
      context.result.isVoid = false →
        Derives slots (.value context context.result value code) after →
      Derives slots (.stmt context (.result pos value) (code ++ [Opcode.ret.instr]) context) after
  | eval {slots after : Slots} {context : Context} {pos : Position} {value : Expr} {code : Code} :
      Derives slots (.settled context .void false value code) after →
      Derives slots (.stmt context (.eval pos value) code context) after
  | whileLoop {slots middle after : Slots} {context inner : Context} {pos : Position} {cond : Expr}
      {body : List Stmt} {test code : Code} :
      Derives slots (.value context.inLoop .bool cond test) middle →
      Derives middle (.stmts (context.inLoop.looping context.frames (context.frames + 1)) body code
        inner) after →
      Derives slots (.stmt context (.whileLoop pos cond body) (whileCode context test code) context)
        after
  | forever {slots after : Slots} {context inner : Context} {pos : Position} {body : List Stmt}
      {code : Code} :
      Derives slots (.stmts (context.inLoop.looping context.frames (context.frames + 1)) body code
        inner) after →
      Derives slots (.stmt context (.forever pos body) (foreverCode context code) context) after
  | forRange {slots first second after : Slots} {context inner : Context} {pos : Position}
      {var : String} {start stop : Expr} {body : List Stmt} {type : Ty} {lower upper code : Code} :
      type = rangeType context start stop → type.isInteger = true →
      Derives slots (.value context type start lower) first →
      Derives (first.push type) (.value (context.bind var (first.next type)) type stop upper)
        second →
      Derives (second.push type)
        (.stmts ((context.bind var (first.next type)).inLoop.inFrame.looping
        context.frames (context.frames + 2)) body code inner) after →
      Derives slots (.stmt context (.forRange pos var start stop body)
        (rangeCode context type (first.next type).index (second.next type).index lower upper code)
        context) after
  | leave {slots : Slots} {context : Context} {pos : Position} {targets : LoopTargets} :
      context.loop = some targets →
      Derives slots (.stmt context (.leave pos) [.br (context.label targets.leave)] context) slots
  | next {slots : Slots} {context : Context} {pos : Position} {targets : LoopTargets} :
      context.loop = some targets →
      Derives slots (.stmt context (.next pos) [.br (context.label targets.next)] context) slots
  -- Expressions that have to yield something.
  | value {slots after : Slots} {context : Context} {want : Ty} {expr : Expr} {lowered : Lowered} :
      Derives slots (.expr context want false expr lowered) after →
      sameRepr lowered.type want = true →
      Derives slots (.value context want expr lowered.code) after
  | discarded {slots after : Slots} {context : Context} {want : Ty} {asArm : Bool} {expr : Expr}
      {lowered : Lowered} :
      want.isVoid = true → Derives slots (.expr context want asArm expr lowered) after →
      Derives slots (.settled context want asArm expr (discard lowered)) after
  | kept {slots after : Slots} {context : Context} {want : Ty} {asArm : Bool} {expr : Expr}
      {lowered : Lowered} :
      want.isVoid = false → Derives slots (.expr context want asArm expr lowered) after →
      sameRepr lowered.type want = true →
      Derives slots (.settled context want asArm expr lowered.code) after
  -- Literals and names.
  | int {slots : Slots} {context : Context} {hint type : Ty} {asArm : Bool} {tag : Tag}
      {number : Int64} :
      type = orDefault (if isNumeric hint then hint else tag.type) .i64 →
      Derives slots (.expr context hint asArm (.int tag number) ⟨[constInt type number], type⟩)
        slots
  | float {slots : Slots} {context : Context} {hint type : Ty} {asArm : Bool} {tag : Tag}
      {bits : UInt64} :
      type = (if hint.isFloat then hint else orDefault tag.type .f64) →
      Derives slots (.expr context hint asArm (.float tag bits) ⟨[constFloat type bits], type⟩)
        slots
  | bool {slots : Slots} {context : Context} {hint : Ty} {asArm : Bool} {tag : Tag} {truth : Bool} :
      Derives slots (.expr context hint asArm (.bool tag truth)
        ⟨[.i32Const (if truth then 1 else 0)], .bool⟩) slots
  | bound {slots : Slots} {context : Context} {hint : Ty} {asArm : Bool} {tag : Tag} {name : String}
      {slot : Slot} :
      context.lookup? name = some slot →
      Derives slots (.expr context hint asArm (.ident tag name) ⟨[.localGet slot.index], slot.type⟩)
        slots
  | self {slots : Slots} {context : Context} {hint : Ty} {asArm : Bool} {tag : Tag} :
      context.lookup? selfName = none → context.receiver ≠ "" →
      Derives slots (.expr context hint asArm (.ident tag selfName)
        ⟨[.localGet 0], .record context.receiver⟩) slots
  | path {slots : Slots} {context : Context} {hint type : Ty} {asArm : Bool} {tag : Tag}
      {name : String} {path : Lowered} :
      context.lookup? name = none → name ≠ selfName →
      context.receiverPathType? name = some type →
      Loads context.env (.record context.receiver) (receiverPath name) path →
      Derives slots (.expr context hint asArm (.ident tag name)
        ⟨.localGet 0 :: path.code, path.type⟩) slots
  | named {slots : Slots} {context : Context} {hint : Ty} {asArm : Bool} {tag : Tag}
      {name enum variant : String} {index : Nat} :
      context.lookup? name = none → context.receiverPathType? name = none →
      namedVariant? context.env name = some (enum, variant) →
      context.env.variant? enum variant = some index →
      Derives slots (.expr context hint asArm (.ident tag name)
        ⟨[.i32Const (Int32.ofNat index)], .enum enum⟩) slots
  | variant {slots : Slots} {context : Context} {hint : Ty} {asArm : Bool} {tag : Tag}
      {enum variant : String} {index : Nat} :
      context.env.variant? enum variant = some index →
      Derives slots (.expr context hint asArm (.variant tag enum variant)
        ⟨[.i32Const (Int32.ofNat index)], .enum enum⟩) slots
  -- Operators.
  | logical {slots middle after : Slots} {context : Context} {hint : Ty} {asArm : Bool} {tag : Tag}
      {op : String} {left right : Expr} {first second : Code} :
      isLogical op = true →
      Derives slots (.value context .bool left first) middle →
      Derives middle (.value context .bool right second) after →
      Derives slots (.expr context hint asArm (.binary tag op left right)
        ⟨first ++ second ++
          [(if op = "&&" then Opcode.int .w32 .and else Opcode.int .w32 .or).instr], .bool⟩) after
  | binary {slots middle after : Slots} {context : Context} {hint type : Ty} {asArm : Bool}
      {tag : Tag} {op : String} {left right : Expr} {first second : Code} {opcode : Opcode} :
      isLogical op = false → type = binaryType context op left right hint → type.isVoid = false →
      Derives slots (.value context type left first) middle →
      Derives middle (.value context type right second) after →
      operator? type op = some opcode →
      Derives slots (.expr context hint asArm (.binary tag op left right)
        ⟨first ++ second ++ [opcode.instr], if isComparison op then .bool else type⟩) after
  | not {slots after : Slots} {context : Context} {hint : Ty} {asArm : Bool} {tag : Tag}
      {operand : Expr} {code : Code} :
      Derives slots (.value context .bool operand code) after →
      Derives slots (.expr context hint asArm (.unary tag "!" operand)
        ⟨code ++ [(Opcode.eqz .w32).instr], .bool⟩) after
  | negateFloat {slots after : Slots} {context : Context} {hint type : Ty} {asArm : Bool}
      {tag : Tag} {operand : Expr} {code : Code} {width : Width} :
      type = negationType context operand hint → numType? type = some width.floatType →
      Derives slots (.value context type operand code) after →
      Derives slots (.expr context hint asArm (.unary tag "-" operand)
        ⟨code ++ [(Opcode.floatSign width .neg).instr], type⟩) after
  | negateInt {slots after : Slots} {context : Context} {hint type : Ty} {asArm : Bool} {tag : Tag}
      {operand : Expr} {code : Code} :
      type = negationType context operand hint → type.isInteger = true →
      Derives slots (.value context type operand code) after →
      Derives slots (.expr context hint asArm (.unary tag "-" operand)
        ⟨constInt type 0 :: code ++ [(Opcode.int (intWidth type) .sub).instr], type⟩) after
  -- Calls.
  | call {slots after : Slots} {context : Context} {hint : Ty} {asArm : Bool} {tag : Tag}
      {function : String} {args : List Expr} {ref : FuncRef} {code : Code} :
      context.Calls function ref → Derives slots (.args context ref.params args code) after →
      Derives slots (.expr context hint asArm (.call tag function args) (callCode ref code)) after
  | ownCall {slots after : Slots} {context : Context} {hint : Ty} {asArm : Bool} {tag : Tag}
      {function : String} {args : List Expr} {ref : FuncRef} {code : Code} :
      context.env.function? function = none → context.ownMethod? function = some ref →
      Derives slots (.args context (ref.params.drop 1) args code) after →
      Derives slots (.expr context hint asArm (.call tag function args)
        (callCode ref (.localGet 0 :: code))) after
  | methodCall {slots middle after : Slots} {context : Context} {hint : Ty} {asArm : Bool}
      {tag : Tag} {receiver : Expr} {method record : String} {args : List Expr} {ref : FuncRef}
      {address : Lowered} {code : Code} :
      context.typeOf receiver = .record record → context.env.method? record method = some ref →
      Derives slots (.expr context (.record record) false receiver address) middle →
      Derives middle (.args context (ref.params.drop 1) args code) after →
      Derives slots (.expr context hint asArm (.methodCall tag receiver method args)
        (callCode ref (address.code ++ code))) after
  | noArgs {slots : Slots} {context : Context} : Derives slots (.args context [] [] []) slots
  | arg {slots middle after : Slots} {context : Context} {want : Ty} {params : List Ty} {arg : Expr}
      {args : List Expr} {first others : Code} :
      Derives slots (.value context want arg first) middle →
      Derives middle (.args context params args others) after →
      Derives slots (.args context (want :: params) (arg :: args) (first ++ others)) after
  -- Blocks and conditionals.
  | branchOnly {slots middle after : Slots} {context : Context} {hint : Ty} {asArm : Bool}
      {tag : Tag} {cond body : Expr} {test first : Code} :
      Derives slots (.value context .bool cond test) middle →
      Derives middle (.settled context.inFrame .void true body first) after →
      Derives slots (.expr context hint asArm (.branch tag cond body .missing)
        ⟨test ++ .ifThen voidBlock :: first ++ [.close], .void⟩) after
  | branch {slots first second after : Slots} {context : Context} {hint type : Ty} {asArm : Bool}
      {tag : Tag} {cond body otherwise : Expr} {test yes no : Code} :
      otherwise.isMissing = false →
      type = branchResult context (.branch tag cond body otherwise) body otherwise hint →
      Derives slots (.value context .bool cond test) first →
      Derives first (.settled context.inFrame type true body yes) second →
      Derives second (.settled context.inFrame type true otherwise no) after →
      Derives slots (.expr context hint asArm (.branch tag cond body otherwise)
        ⟨test ++ .ifThen (blockType type) :: yes ++ Opcode.otherwise.instr :: no ++ [.close], type⟩)
        after
  | blockOnly {slots after : Slots} {context inner : Context} {hint want : Ty} {asArm : Bool}
      {tag : Tag} {stmts : List Stmt} {code : Code} :
      want = yielded context tag stmts .missing hint asArm →
      Derives slots (.stmts context stmts code inner) after →
      Derives slots (.expr context hint asArm (.block tag stmts .missing)
        ⟨if want.isVoid then code else code ++ [Opcode.unreachable.instr], want⟩) after
  | block {slots middle after : Slots} {context inner : Context} {hint want : Ty} {asArm : Bool}
      {tag : Tag} {stmts : List Stmt} {tail : Expr} {code last : Code} :
      tail.isMissing = false → want = yielded context tag stmts tail hint asArm →
      Derives slots (.stmts context stmts code inner) middle →
      Derives middle (.settled inner want false tail last) after →
      Derives slots (.expr context hint asArm (.block tag stmts tail) ⟨code ++ last, want⟩) after
  -- Matches.
  | cases {slots middle after : Slots} {context : Context} {hint subject type : Ty} {asArm : Bool}
      {tag : Tag} {scrutinee : Expr} {arms : List Arm} {code others : Code} :
      subject = context.typeOf scrutinee → subject.isVoid = false →
      (∀ arm ∈ arms, hasCode context.env arm.pattern = true) →
      type = casesResult context (.cases tag scrutinee arms) arms hint →
      Derives slots (.value context subject scrutinee code) middle →
      Derives (middle.push subject) (.arms context (middle.next subject) type arms others) after →
      Derives slots (.expr context hint asArm (.cases tag scrutinee arms)
        ⟨code ++ .localSet (middle.next subject).index :: others, type⟩) after
  | noArm {slots : Slots} {context : Context} {slot : Slot} {type : Ty} :
      Derives slots (.arms context slot type [] [Opcode.unreachable.instr]) slots
  | wildcard {slots after : Slots} {context : Context} {slot : Slot} {type : Ty}
      {pos place : Position} {body : Expr} {rest : List Arm} {code : Code} :
      Derives slots (.settled context type true body code) after →
      Derives slots (.arms context slot type (.mk pos (.wildcard place) body :: rest) code) after
  | bind {slots after : Slots} {context : Context} {slot : Slot} {type : Ty} {pos place : Position}
      {name : String} {body : Expr} {rest : List Arm} {code : Code} :
      Derives (slots.push slot.type)
        (.settled (context.bind name (slots.next slot.type)) type true body code) after →
      Derives slots (.arms context slot type (.mk pos (.bind place name) body :: rest)
        (.localGet slot.index :: .localSet (slots.next slot.type).index :: code)) after
  | literal {slots first second after : Slots} {context : Context} {slot : Slot} {type : Ty}
      {pos place : Position} {value body : Expr} {rest : List Arm} {constant code others : Code} :
      Derives slots (.value context slot.type value constant) first →
      Derives first (.settled context.inFrame type true body code) second →
      Derives second (.arms context.inFrame slot type rest others) after →
      Derives slots (.arms context slot type (.mk pos (.literal place value) body :: rest)
        (literalArmCode slot type constant code others)) after
  -- Records.
  | member {slots after : Slots} {context : Context} {hint : Ty} {asArm : Bool} {tag : Tag}
      {subject : Expr} {name field : String} {record : Record} {found : Field} {code : Code} :
      context.typeOf subject = .record name →
      context.env.registry.get? name = some record → record.field? field = some found →
      Derives slots (.value context (.record name) subject code) after →
      Derives slots (.expr context hint asArm (.member tag subject field)
        ⟨code ++ [loadInstr found], context.env.typeOfField name found⟩) after
  | construct {slots after : Slots} {context : Context} {hint : Ty} {asArm : Bool} {tag : Tag}
      {name : String} {record : Record} {inits : List FieldInit} {alloc code : Code} :
      context.env.registry.get? name = some record → Assigns record inits →
      allocCode context.env context.name record (slots.next (.record name)).index = .ok alloc →
      Derives (slots.push (.record name))
        (.stores context name (slots.next (.record name)).index inits record.fields code) after →
      Derives slots (.expr context hint asArm (.construct tag name inits)
        ⟨alloc ++ code ++ [.localGet (slots.next (.record name)).index], .record name⟩) after
  | stored {slots : Slots} {context : Context} {name : String} {address : UInt32}
      {inits : List FieldInit} : Derives slots (.stores context name address inits [] []) slots
  | store {slots middle after : Slots} {context : Context} {name : String} {address : UInt32}
      {inits : List FieldInit} {init : FieldInit} {field : Field} {rest : List Field}
      {code others : Code} :
      initOf? inits field.name = some init →
      Derives slots (.value context (context.env.typeOfField name field) init.value code) middle →
      Derives middle (.stores context name address inits rest others) after →
      Derives slots (.stores context name address inits (field :: rest)
        (.localGet address :: code ++ storeInstr field :: others)) after

/-- The context that a judgement starts in. -/
def Judgement.context : Judgement → Context
  | stmts context _ _ _ | stmt context _ _ _ | expr context _ _ _ _ | value context _ _ _ => context
  | settled context _ _ _ _ | args context _ _ _ | arms context _ _ _ _ => context
  | stores context _ _ _ _ _ => context

/-- The names that a context binds. -/
def Context.names (context : Context) : List String := context.scope.map Prod.fst

/-- The names bound behind a statement. -/
def boundBehind (bound : List String) : Stmt → List String
  | .declare _ name _ _ => name :: bound
  | _ => bound

/-- A context differs from another in its names only. -/
structure Context.Same (context other : Context) : Prop where
  frames : other.frames = context.frames
  loop : other.loop = context.loop
  env : other.env = context.env

/-- Statements do no more to the context than to bind names. -/
def Judgement.Same : Judgement → Prop
  | stmts context _ _ behind | stmt context _ _ behind => context.Same behind
  | _ => True

theorem Derives.same {before after : Slots} {judgement : Judgement}
    (hDerives : Derives before judgement after) : judgement.Same := by
  induction hDerives with
  | cons _ _ ihFirst ihRest =>
      exact ⟨ihRest.frames.trans ihFirst.frames, ihRest.loop.trans ihFirst.loop,
        ihRest.env.trans ihFirst.env⟩
  | nil | declare | assign | leaveVoid | leaveWith | eval | whileLoop | forever | forRange | leave
  | next => exact ⟨rfl, rfl, rfl⟩
  | _ => trivial

/-- The code of a judgement. -/
def Judgement.code : Judgement → Code
  | stmts _ _ code _ | stmt _ _ code _ | value _ _ _ code | settled _ _ _ _ code => code
  | args _ _ _ code | arms _ _ _ _ code | stores _ _ _ _ _ code => code
  | expr _ _ _ _ lowered => lowered.code

/-- Slots have been handed out behind those that were there, at most so many. -/
structure Slots.Grows (before after : Slots) (count : Nat) : Prop where
  params : after.params = before.params
  locals : before.locals <+: after.locals
  length : after.locals.length ≤ before.locals.length + count

namespace Slots.Grows

variable {first second third : Slots} {count more : Nat}

theorem refl (slots : Slots) (count : Nat) : slots.Grows slots count :=
  ⟨rfl, List.prefix_rfl, Nat.le_add_right _ _⟩

theorem trans (hFirst : first.Grows second count) (hSecond : second.Grows third more) :
    first.Grows third (count + more) where
  params := hSecond.params.trans hFirst.params
  locals := hFirst.locals.trans hSecond.locals
  length := by
    have hLow := hFirst.length
    have hHigh := hSecond.length
    omega

theorem push (slots : Slots) (type : Ty) : slots.Grows (slots.push type) 1 :=
  ⟨rfl, List.prefix_append _ _, by simp [Slots.push]⟩

theorem mono (hGrows : first.Grows second count) (hMore : count ≤ more) :
    first.Grows second more :=
  ⟨hGrows.params, hGrows.locals, Nat.le_trans hGrows.length (Nat.add_le_add_left hMore _)⟩

end Slots.Grows

/-- Lowering hands out no more slots than it generates instructions. -/
theorem Derives.grows {before after : Slots} {judgement : Judgement}
    (hDerives : Derives before judgement after) : before.Grows after judgement.code.length := by
  induction hDerives with
  | nil | leaveVoid | leave | next | int | float | bool | bound | self | path | named | variant
  | noArgs | noArm | stored => exact .refl _ _
  | cons _ _ hFirst hRest | arg _ _ hFirst hRest =>
      exact (hFirst.trans hRest).mono (by simp [Judgement.code])
  | declare _ _ _ ih => exact (ih.trans (.push _ _)).mono (by simp [Judgement.code])
  | assign _ _ ih | leaveWith _ _ ih | not _ ih | negateFloat _ _ _ ih | call _ _ ih
  | member _ _ _ _ ih => exact ih.mono (by simp [Judgement.code, callCode])
  | negateInt _ _ _ ih | ownCall _ _ _ ih =>
      exact ih.mono (by simp [Judgement.code, callCode]; omega)
  | eval _ ih | value _ _ ih | kept _ _ _ ih | wildcard _ ih => exact ih
  | discarded _ _ ih =>
      refine ih.mono ?_
      simp only [Judgement.code, discard]
      split <;> simp
  | whileLoop _ _ hTest hBody =>
      exact (hTest.trans hBody).mono (by simp [Judgement.code, whileCode]; omega)
  | forever _ ih => exact ih.mono (by simp [Judgement.code, foreverCode]; omega)
  | forRange _ _ _ _ _ hStart hStop hBody =>
      refine (((hStart.trans (.push _ _)).trans (hStop.trans (.push _ _))).trans hBody).mono ?_
      simp [Judgement.code, rangeCode]
      omega
  | logical _ _ _ hLeft hRight | binary _ _ _ _ _ _ hLeft hRight
  | methodCall _ _ _ _ hLeft hRight =>
      refine (hLeft.trans hRight).mono ?_
      simp only [Judgement.code, callCode, List.length_append]
      omega
  | branchOnly _ _ hTest hBody => exact (hTest.trans hBody).mono (by simp [Judgement.code]; omega)
  | branch _ _ _ _ _ hTest hYes hNo =>
      exact ((hTest.trans hYes).trans hNo).mono (by simp [Judgement.code]; omega)
  | blockOnly _ _ ih =>
      refine ih.mono ?_
      simp only [Judgement.code]
      split <;> simp
  | block _ _ _ _ hStmts hTail => exact (hStmts.trans hTail).mono (by simp [Judgement.code])
  | cases _ _ _ _ _ _ hScrutinee hArms =>
      exact ((hScrutinee.trans (.push _ _)).trans hArms).mono (by simp [Judgement.code]; omega)
  | bind _ ih => exact ((Slots.Grows.push _ _).trans ih).mono (by simp [Judgement.code]; omega)
  | literal _ _ _ hValue hBody hRest =>
      exact ((hValue.trans hBody).trans hRest).mono
        (by simp [Judgement.code, literalArmCode]; omega)
  | construct _ _ _ _ ih =>
      exact ((Slots.Grows.push _ _).trans ih).mono (by simp [Judgement.code]; omega)
  | store _ _ _ hValue hRest => exact (hValue.trans hRest).mono (by simp [Judgement.code]; omega)

end RecordWasm.Lowering
