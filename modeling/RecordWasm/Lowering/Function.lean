import RecordWasm.Lowering.Lower

/-!
# Whole functions

A function whose last statement is an expression with a value returns that value.  A function with a
result and no such statement ends in a trap, which is reached only by a path that forgot to return.
-/

namespace RecordWasm.Lowering

open Syntax Layout Wasm

/-- A function with its code; `locals` are the types of the locals behind the parameters. -/
structure FunctionBody where
  name : String
  type : FuncType
  locals : List ValType
  instrs : List Instr
  deriving DecidableEq, Repr

namespace FunctionBody

def encode (body : FunctionBody) : FuncBody :=
  ⟨LocalRun.compact body.locals, Instr.encodeAll body.instrs⟩

/-- The head of the function and a listing of its code. -/
def text (body : FunctionBody) : String :=
  s!"func {body.name} {body.type.text}\n{Instr.listing body.instrs}"

end FunctionBody

/-- Splits off the value that a list of statements ends with. -/
def splitTail (context : Context) (stmts : List Stmt) : List Stmt × Option Expr :=
  match stmts.getLast? with
  | some (.eval _ value) =>
      if context.result.isVoid || (context.typeOf value).isVoid then (stmts, none)
      else (stmts.dropLast, some value)
  | _ => (stmts, none)

/-- The code of the statements of a function. -/
def lowerBody (context : Context) (stmts : List Stmt) : Gen Code := do
  let (stmts, tail) := splitTail context stmts
  let (code, inner) ← lowerStmts context stmts
  match tail with
  | some value =>
      let last ← expect inner value.pos context.result
        (← lowerExpr inner context.result false value)
      return code ++ last ++ [.close]
  | none =>
      if context.result.isVoid then return code ++ [.close]
      return code ++ [Opcode.unreachable.instr, .close]

/-- Hands out the slot of a parameter; one without a name cannot be referred to. -/
def bindParam (context : Context) (slots : Slots) (name : String) (type : Ty) : Context × Slots :=
  let slot : Slot := ⟨slots.params.toUInt32, type⟩
  (if name = "" then context else context.bind name slot, { slots with params := slots.params + 1 })

/-- Binds the parameters of a function in turn. -/
def bindParams : Context → Slots → List Param → Except Failure (Context × Slots)
  | context, slots, [] => .ok (context, slots)
  | context, slots, param :: rest =>
      if param.type.isVoid then
        .error (context.report param.pos .typeMismatch
          s!"parameter {param.name} has no value type").failure
      else
        let (context, slots) := bindParam context slots param.name param.type
        bindParams context slots rest

/-- The context at the start of a function: the receiver of a method is its first parameter. -/
def entryContext (env : Env) (decl : FuncDecl) : Except Failure (Context × Slots) :=
  let context : Context := { env, name := decl.qualifiedName, result := decl.result }
  if !decl.isMethod then .ok (context, {})
  else if !env.registry.contains decl.receiver then
    .error (context.report decl.pos .unknownType
      s!"receiver type {decl.receiver} is not a record").failure
  else
    .ok (bindParam { context with receiver := decl.receiver } {} selfName (.record decl.receiver))

/-- The code of a free function or method. -/
def lowerFunction (env : Env) (decl : FuncDecl) : Except Failure FunctionBody := do
  let (context, slots) ← entryContext env decl
  let (context, slots) ← bindParams context slots decl.params
  let (code, slots) ← (lowerBody context decl.body).run slots
  return {
    name := context.name
    type := signature (paramTypes decl) decl.result
    locals := slots.locals.map NumType.valType
    instrs := code }

/-- The code that stores the parameters of a constructor, from parameter `index` on. -/
def storeParams (address : UInt32) : (index : Nat) → List Field → Code
  | _, [] => []
  | index, field :: rest =>
      [.localGet address, .localGet index.toUInt32, storeInstr field] ++
        storeParams address (index + 1) rest

/-- The constructor of a record: it allocates the record and stores every parameter in its field. -/
def lowerConstructor (env : Env) (record : String) : Except Failure FunctionBody :=
  let name := constructorName record
  match env.registry.get? record with
  | none =>
      .error (Report.failure
        { phase := .codegen, kind := .unknownType, decl := name,
          detail := s!"unknown record type {record}" })
  | some found => do
      let address := found.fields.length.toUInt32
      let alloc ← allocCode env name found address
      return {
        name
        type := (env.constructorRef found 0).type
        locals := [.i32]
        instrs := alloc ++ storeParams address 0 found.fields ++ [.localGet address, .close] }

end RecordWasm.Lowering
