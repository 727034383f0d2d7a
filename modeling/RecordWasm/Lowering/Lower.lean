import RecordWasm.Lowering.Operator

/-!
# Code for statements and expressions

Every construct is lowered to a list of instructions.  The code of an expression leaves one value of
the type that is returned with it, or nothing if that type is `void`.  Frames are opened and closed
within the code of one construct, so a context that counts the frames around it determines all
branch labels.
-/

namespace RecordWasm.Lowering

open Syntax Layout Wasm

/-- The code of an expression that has to yield a value represented like a type. -/
def expect (context : Context) (pos : Position) (want : Ty) (lowered : Lowered) : Gen Code :=
  if sameRepr lowered.type want then return lowered.code
  else context.mismatch pos want lowered.type

/-- The code of an expression that is evaluated for its effects. -/
def discard (lowered : Lowered) : Code :=
  if lowered.type.isVoid then lowered.code else lowered.code ++ [Opcode.drop.instr]

/-- The code of an arm, which has to yield the wanted type, or nothing if that is `void`. -/
def settle (context : Context) (pos : Position) (want : Ty) (lowered : Lowered) : Gen Code :=
  if want.isVoid then return discard lowered else expect context pos want lowered

/-- Reads a field of a record of the given type. -/
def loadField (context : Context) (pos : Position) (base : Ty) (field : String) :
    Gen (Instr × Ty) :=
  match base with
  | .record name =>
      match context.env.registry.get? name with
      | none => context.fail pos .unknownType s!"unknown record type {name}"
      | some record =>
          match record.field? field with
          | none => context.fail pos .unknownField s!"record {name} has no field {field}"
          | some found => return (loadInstr found, context.env.typeOfField name found)
  | _ => context.fail pos .typeMismatch s!"field {field} read from non-record {base.text}"

/-- Follows a path of fields from a record whose address is on the stack. -/
def loadPath (context : Context) (pos : Position) : Ty → List String → Gen Lowered
  | base, [] => return ⟨[], base⟩
  | base, field :: rest => do
      let (load, type) ← loadField context pos base field
      let deeper ← loadPath context pos type rest
      return ⟨load :: deeper.code, deeper.type⟩

def lowerVariant (context : Context) (pos : Position) (enum variant : String) : Gen Lowered :=
  match context.env.variant? enum variant with
  | some index => return ⟨[.i32Const (Int32.ofNat index)], .enum enum⟩
  | none => context.fail pos .unknownIdentifier s!"unknown variant {enum}.{variant}"

/-- The variant that an identifier of the form `Enum.Variant` names. -/
def namedVariant? (env : Env) (name : String) : Option (String × String) :=
  match Text.cut? '.' name with
  | some (enum, variant) => if (env.variant? enum variant).isSome
      then some (enum, variant) else none
  | none => none

/-- An identifier is a local, the receiver, a field of the receiver or a variant. -/
def lowerIdent (context : Context) (pos : Position) (name : String) : Gen Lowered :=
  match context.lookup? name with
  | some slot => return ⟨[.localGet slot.index], slot.type⟩
  | none =>
      if context.receiver ≠ "" ∧ name = selfName then
        return ⟨[.localGet 0], .record context.receiver⟩
      else if (context.receiverPathType? name).isSome then do
        let path ← loadPath context pos (.record context.receiver) (receiverPath name)
        return ⟨.localGet 0 :: path.code, path.type⟩
      else
        match namedVariant? context.env name with
        | some (enum, variant) => lowerVariant context pos enum variant
        | none => context.fail pos .unknownIdentifier s!"unknown identifier {name}"

/-- The value that an arm consists of or ends with. -/
def tailOf : Expr → Expr
  | .block _ _ tail => tail
  | other => other

/-- What a block yields where a type is expected. -/
def blockResult (context : Context) (block tail : Expr) (hint : Ty) : Ty :=
  let type := context.typeOf block
  if !hint.isVoid && !tail.isMissing && (type.isVoid || isNumericLit tail) then hint else type

/-- What a conditional yields where a type is expected. -/
def branchResult (context : Context) (branch body otherwise : Expr) (hint : Ty) : Ty :=
  let type := context.typeOf branch
  if otherwise.isMissing then .void
  else if !hint.isVoid &&
      (type.isVoid || (isNumericLit (tailOf body) && isNumericLit (tailOf otherwise))) then hint
  else type

/-- What a match yields where a type is expected. -/
def casesResult (context : Context) (cases : Expr) (arms : List Arm) (hint : Ty) : Ty :=
  let type := context.typeOf cases
  let allNumbers := !arms.isEmpty && arms.all fun arm => isNumericLit (tailOf arm.body)
  if !hint.isVoid && (type.isVoid || allNumbers) then hint else type

/-- Refuses patterns that have no code. -/
def checkPattern (context : Context) : Pattern → Gen Unit
  | .wildcard _ | .bind _ _ => return
  | .literal pos value =>
      let known :=
        match value with
        | .int _ _ | .float _ _ | .bool _ _ | .variant _ _ _ => true
        | .unary _ _ _ => isNumericLit value
        | .ident _ name => (namedVariant? context.env name).isSome
        | _ => false
      if known then return else context.unsupported pos "non-literal match pattern"
  | .missing => context.fail {} .unsupported "match arm without a pattern"
  | .constructor pos _ _ => context.unsupported pos "non-literal match pattern"

/-- Checks the initializers of a record: every field is there, none twice and no other. -/
def checkInits (context : Context) (pos : Position) (record : Record) (typeName : String)
    (inits : List FieldInit) : Gen Unit := do
  let rec unique : (seen : List String) → List FieldInit → Gen Unit
    | _, [] => return
    | seen, .mk pos name _ :: rest => do
        if (record.field? name).isNone then
          context.fail pos .unknownField s!"record {typeName} has no field {name}"
        if name ∈ seen then
          context.fail pos .unknownField s!"field {name} initialized twice"
        unique (name :: seen) rest
  unique [] inits
  match record.fields.find? fun field => !(inits.any fun init => init.name == field.name) with
  | some field =>
      context.fail pos .missingField s!"field {field.name} of {typeName} not initialized"
  | none => return

/-- The code of one field of a new record after the other, in the order of the layout. -/
def storeFields (context : Context) (typeName : String) (address : UInt32)
    (values : List (String × (Ty → Gen Code))) : List Field → Gen Code
  | [] => return []
  | field :: rest => do
      let want := context.env.typeOfField typeName field
      let value ←
        match values.lookup field.name with
        | some lower => lower want
        | none => pure []
      let others ← storeFields context typeName address values rest
      return .localGet address :: value ++ storeInstr field :: others

/-- Builds a record from its fields. -/
def lowerConstruct (context : Context) (pos : Position) (typeName : String)
    (inits : List FieldInit) (values : List (String × (Ty → Gen Code))) : Gen Lowered :=
  match context.env.registry.get? typeName with
  | none => context.fail pos .unknownType s!"unknown record type {typeName}"
  | some record => do
      checkInits context pos record typeName inits
      let address ← newSlot (.record typeName)
      let alloc ← liftM (allocCode context.env context.name record address.index)
      let stores ← storeFields context typeName address.index values record.fields
      return ⟨alloc ++ stores ++ [.localGet address.index], .record typeName⟩

/-- The type an operator works at; two bare numbers take the type that is expected. -/
def binaryType (context : Context) (op : String) (left right : Expr) (hint : Ty) : Ty :=
  if !isComparison op && isNumeric hint && isNumericLit left && isNumericLit right then hint
  else context.operandType left right

/-- The code that calls a function with the code of its arguments. -/
def callCode (ref : FuncRef) (args : Code) : Lowered := ⟨args ++ [.call ref.index], ref.result⟩

/-- The types of the arguments of a call, if there are as many as parameters. -/
def checkArity (context : Context) (pos : Position) (ref : FuncRef) (params : List Ty)
    (args : List Expr) : Gen Unit :=
  if args.length = params.length then return
  else
    context.fail pos .arityMismatch
      s!"{ref.name} takes {params.length} arguments, got {args.length}"

mutual

def lowerStmts (context : Context) : List Stmt → Gen (Code × Context)
  | [] => return ([], context)
  | stmt :: rest => do
      let (first, context) ← lowerStmt context stmt
      let (others, context) ← lowerStmts context rest
      return (first ++ others, context)

/-- The code of a statement and the context behind it, in which a declared name is bound. -/
def lowerStmt (context : Context) : Stmt → Gen (Code × Context)
  | .missing => context.fail {} .unsupported "missing statement"
  | .declare pos name type value => do
      let type := if type.isVoid then context.typeOf value else type
      if type.isVoid then
        context.fail pos .typeMismatch s!"let {name} has no value type"
      let code ← expect context value.pos type (← lowerExpr context type false value)
      let slot ← newSlot type
      return (code ++ [.localSet slot.index], context.bind name slot)
  | .assign pos target value =>
      match target with
      | .ident tag name =>
          match context.lookup? name with
          | some slot => do
              let code ← expect context value.pos slot.type
                (← lowerExpr context slot.type false value)
              return (code ++ [.localSet slot.index], context)
          | none =>
              if name ≠ selfName ∧ (context.receiverPathType? name).isSome then
                context.unsupported pos "member assignment"
              else
                context.fail tag.pos .unknownIdentifier
                  s!"assignment to unknown identifier {name}"
      | .member _ _ _ => context.unsupported pos "member assignment"
      | _ => context.unsupported pos "assignment target"
  | .result pos value =>
      match value.isMissing, context.result.isVoid with
      | true, true => return ([Opcode.ret.instr], context)
      | true, false =>
          context.fail pos .typeMismatch
            s!"bare return in function returning {context.result.text}"
      | false, true =>
          context.fail pos .typeMismatch "return with a value in function without result"
      | false, false => do
          let code ← expect context value.pos context.result
            (← lowerExpr context context.result false value)
          return (code ++ [Opcode.ret.instr], context)
  | .eval _ value => do return (discard (← lowerExpr context .void false value), context)
  | .whileLoop _ cond body => do
      let leave := context.frames
      let next := context.frames + 1
      let inner := context.inFrame.inFrame
      let test ← expect inner cond.pos .bool (← lowerExpr inner .bool false cond)
      let (code, _) ← lowerStmts { inner with loop := some ⟨leave, next⟩ } body
      return ([.block voidBlock, .loop voidBlock] ++ test ++
        [(Opcode.eqz .w32).instr, .brIf (inner.label leave)] ++ code ++
        [.br (inner.label next), .close, .close], context)
  | .forever _ body => do
      let leave := context.frames
      let next := context.frames + 1
      let inner := context.inFrame.inFrame
      let (code, _) ← lowerStmts { inner with loop := some ⟨leave, next⟩ } body
      return ([.block voidBlock, .loop voidBlock] ++ code ++
        [.br (inner.label next), .close, .close], context)
  | .forRange pos var start stop body => do
      let type := orDefault (context.operandType start stop) .i64
      if !type.isInteger then
        context.fail pos .typeMismatch s!"range bounds must be integers, got {type.text}"
      let width := intWidth type
      let first ← expect context start.pos type (← lowerExpr context type false start)
      let counter ← newSlot type
      let counting := context.bind var counter
      let last ← expect counting stop.pos type (← lowerExpr counting type false stop)
      let limit ← newSlot type
      let leave := context.frames
      let top := context.frames + 1
      let next := context.frames + 2
      let inner := counting.inFrame.inFrame
      let (code, _) ← lowerStmts { inner.inFrame with loop := some ⟨leave, next⟩ } body
      return (first ++ [.localSet counter.index] ++ last ++ [.localSet limit.index] ++
        [.block voidBlock, .loop voidBlock, .localGet counter.index, .localGet limit.index,
          (Opcode.compareInt width .geS).instr, .brIf (inner.label leave), .block voidBlock] ++
        code ++
        [.close, .localGet counter.index, constInt type 1, (Opcode.int width .add).instr,
          .localSet counter.index, .br (inner.label top), .close, .close], context)
  | .leave pos =>
      match context.loop with
      | some targets => return ([.br (context.label targets.leave)], context)
      | none => context.fail pos .breakOutsideLoop "break outside of a loop"
  | .next pos =>
      match context.loop with
      | some targets => return ([.br (context.label targets.next)], context)
      | none => context.fail pos .continueOutsideLoop "continue outside of a loop"

/-- The code of an expression.  `hint` is the type that is expected, or `void`; `asArm` says that a
block has to yield exactly that type. -/
def lowerExpr (context : Context) (hint : Ty) (asArm : Bool) : Expr → Gen Lowered
  | .missing => context.fail {} .unsupported "missing expression"
  | .int tag value =>
      let type := orDefault (if isNumeric hint then hint else tag.type) .i64
      return ⟨[constInt type value], type⟩
  | .float tag bits =>
      let type := if hint.isFloat then hint else orDefault tag.type .f64
      return ⟨[constFloat type bits], type⟩
  | .bool _ value => return ⟨[.i32Const (if value then 1 else 0)], .bool⟩
  | .ident tag name => lowerIdent context tag.pos name
  | .binary tag op left right =>
      if isLogical op then do
        let first ← expect context left.pos .bool (← lowerExpr context .bool false left)
        let second ← expect context right.pos .bool (← lowerExpr context .bool false right)
        let opcode : Opcode := if op = "&&" then .int .w32 .and else .int .w32 .or
        return ⟨first ++ second ++ [opcode.instr], .bool⟩
      else do
        let type := binaryType context op left right hint
        if type.isVoid then
          context.fail tag.pos .typeMismatch s!"operands of {op} have no value type"
        let first ← expect context left.pos type (← lowerExpr context type false left)
        let second ← expect context right.pos type (← lowerExpr context type false right)
        match operator? type op with
        | none => context.unsupported tag.pos s!"operator {op} on {type.text}"
        | some opcode =>
            return ⟨first ++ second ++ [opcode.instr], if isComparison op then .bool else type⟩
  | .unary tag op operand =>
      match op with
      | "!" => do
          let code ← expect context operand.pos .bool (← lowerExpr context .bool false operand)
          return ⟨code ++ [(Opcode.eqz .w32).instr], .bool⟩
      | "-" =>
          let type :=
            if isNumericLit operand && isNumeric hint then hint else context.typeOf operand
          if isNumeric type then do
            let code ← expect context operand.pos type (← lowerExpr context type false operand)
            match type with
            | .f32 => return ⟨code ++ [(Opcode.floatSign .w32 .neg).instr], type⟩
            | .f64 => return ⟨code ++ [(Opcode.floatSign .w64 .neg).instr], type⟩
            | _ =>
                return ⟨constInt type 0 :: code ++ [(Opcode.int (intWidth type) .sub).instr], type⟩
          else context.unsupported tag.pos s!"negation of {type.text}"
      | _ => context.unsupported tag.pos s!"unary operator {op}"
  | .call tag function args =>
      match context.env.function? function with
      | some ref => do
          checkArity context tag.pos ref ref.params args
          return callCode ref (← lowerArgs context ref.params args)
      | none =>
          match context.ownMethod? function with
          | some ref => do
              checkArity context tag.pos ref (ref.params.drop 1) args
              let code ← lowerArgs context (ref.params.drop 1) args
              return callCode ref (.localGet 0 :: code)
          | none =>
              match context.callee? function with
              | some ref => do
                  checkArity context tag.pos ref ref.params args
                  return callCode ref (← lowerArgs context ref.params args)
              | none =>
                  context.fail tag.pos .unknownFunction s!"unknown function {function}"
  | .methodCall tag receiver method args =>
      match context.typeOf receiver with
      | .record record =>
          match context.env.method? record method with
          | some ref => do
              let address ← lowerExpr context (.record record) false receiver
              checkArity context tag.pos ref (ref.params.drop 1) args
              let code ← lowerArgs context (ref.params.drop 1) args
              return callCode ref (address.code ++ code)
          | none =>
              context.fail tag.pos .unknownFunction s!"type {record} has no method {method}"
      | type =>
          context.fail tag.pos .typeMismatch s!"method {method} called on {type.text}"
  | .branch tag cond body otherwise => do
      if body.isMissing then
        context.fail tag.pos .unsupported "if without a then block"
      let type := branchResult context (.branch tag cond body otherwise) body otherwise hint
      let test ← expect context cond.pos .bool (← lowerExpr context .bool false cond)
      let inner := context.inFrame
      let first ← settle inner body.pos type (← lowerExpr inner type true body)
      if otherwise.isMissing then
        return ⟨test ++ .ifThen (blockType type) :: first ++ [.close], type⟩
      let second ← settle inner otherwise.pos type (← lowerExpr inner type true otherwise)
      return ⟨test ++ .ifThen (blockType type) :: first ++
        Opcode.otherwise.instr :: second ++ [.close], type⟩
  | .block tag stmts tail => do
      let want := if asArm then hint else blockResult context (.block tag stmts tail) tail hint
      let (code, inner) ← lowerStmts context stmts
      if tail.isMissing then
        return ⟨if want.isVoid then code else code ++ [Opcode.unreachable.instr], want⟩
      let last ← settle inner tail.pos want (← lowerExpr inner want false tail)
      return ⟨code ++ last, want⟩
  | .cases tag scrutinee arms => do
      let subject := context.typeOf scrutinee
      if subject.isVoid then
        context.fail tag.pos .typeMismatch "match scrutinee has no value type"
      arms.forM fun arm => checkPattern context arm.pattern
      let type := casesResult context (.cases tag scrutinee arms) arms hint
      let value ← expect context scrutinee.pos subject
        (← lowerExpr context subject false scrutinee)
      let slot ← newSlot subject
      return ⟨value ++ .localSet slot.index :: (← lowerArms context slot type arms), type⟩
  | .member tag subject field =>
      match context.typeOf subject with
      | .record record => do
          let address ← expect context subject.pos (.record record)
            (← lowerExpr context (.record record) false subject)
          let (load, type) ← loadField context tag.pos (.record record) field
          return ⟨address ++ [load], type⟩
      | type =>
          context.fail tag.pos .typeMismatch s!"field {field} read from non-record {type.text}"
  | .construct tag record inits =>
      lowerConstruct context tag.pos record inits (lowerInits context inits)
  | .variant tag enum variant => lowerVariant context tag.pos enum variant
  | .string tag _ => context.unsupported tag.pos "string literal"
  | .char tag _ => context.unsupported tag.pos "char literal"
  | .null tag => context.unsupported tag.pos "null literal"
  | .lambda tag _ _ => context.unsupported tag.pos "lambda"
  | .cast tag _ _ => context.unsupported tag.pos "cast"
  | .attempt tag _ => context.unsupported tag.pos "try expression"
  | .quote tag _ => context.unsupported tag.pos "quote"
  | .eval tag _ => context.unsupported tag.pos "eval"
  | .reflect tag _ => context.unsupported tag.pos "reflect"
  | .macroCall tag name _ => context.unsupported tag.pos s!"macro {name}"
  | .list tag _ => context.unsupported tag.pos "list literal"
  | .tuple tag _ => context.unsupported tag.pos "tuple literal"

/-- The code of arguments, each at the type of its parameter. -/
def lowerArgs (context : Context) : List Ty → List Expr → Gen Code
  | want :: params, arg :: args => do
      let first ← expect context arg.pos want (← lowerExpr context want false arg)
      return first ++ (← lowerArgs context params args)
  | _, _ => return []

/-- The code of the arms of a match over the value in a slot.  The first arm that takes everything
ends the chain; without one the last alternative traps. -/
def lowerArms (context : Context) (slot : Slot) (type : Ty) : List Arm → Gen Code
  | [] => return [Opcode.unreachable.instr]
  | .mk pos pattern body :: rest =>
      match pattern with
      | .wildcard _ => do settle context body.pos type (← lowerExpr context type true body)
      | .bind _ name => do
          let bound ← newSlot slot.type
          let inner := context.bind name bound
          let code ← settle inner body.pos type (← lowerExpr inner type true body)
          return .localGet slot.index :: .localSet bound.index :: code
      | .literal _ value => do
          let constant ← expect context value.pos slot.type
            (← lowerExpr context slot.type false value)
          let inner := context.inFrame
          let code ← settle inner body.pos type (← lowerExpr inner type true body)
          let others ← lowerArms inner slot type rest
          return .localGet slot.index :: constant ++
            [(equality slot.type).instr, .ifThen (blockType type)] ++ code ++
            Opcode.otherwise.instr :: others ++ [.close]
      | _ => context.unsupported pos "non-literal match pattern"

/-- How each field of a new record is computed, once its type is known. -/
def lowerInits (context : Context) : List FieldInit → List (String × (Ty → Gen Code))
  | [] => []
  | .mk _ name value :: rest =>
      (name, fun want => do expect context value.pos want (← lowerExpr context want false value)) ::
        lowerInits context rest

end

end RecordWasm.Lowering
