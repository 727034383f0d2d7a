import RecordWasm.Wasm.Module.Parse
import RecordWasm.Text.Quoted

/-!
# Structural validity of modules

The checks concern indices, export names, memory limits, initializers and the nesting of frames in
function bodies.  The operand stack is not looked at.
-/

namespace RecordWasm.Wasm

/-- The largest number of pages that a memory with 32-bit addresses may have. -/
def maxPages : UInt64 := 65536

/-- Why a memory's limits are refused. -/
inductive LimitsError where
  | minTooLarge (min : UInt64)
  | maxTooLarge (max : UInt64)
  | maxBelowMin (max min : UInt64)
  deriving DecidableEq, Repr

def LimitsError.message : LimitsError → String
  | .minTooLarge min => s!"min pages {min} exceeds maximum {maxPages}"
  | .maxTooLarge max => s!"max pages {max} exceeds maximum {maxPages}"
  | .maxBelowMin max min => s!"max pages {max} below min {min}"

/-- Why the initializer of a global is refused. -/
inductive InitError where
  | decode (cause : DecodeError)
  | notSingle
  | unsupported (opcode : UInt8)
  | mismatch (constant declared : ValType)
  deriving DecidableEq, Repr

def InitError.message : InitError → String
  | .decode cause => cause.message
  | .notSingle => "expected a single constant"
  | .unsupported opcode => s!"unsupported {Opcode.nameOf opcode}"
  | .mismatch constant declared => s!"{constant.name} constant for {declared.name} global"

/-- Why a function body is refused; `pc` is the number of the instruction. -/
inductive BodyError where
  | decode (cause : DecodeError)
  | afterEnd (pc : Nat) (instr : Instr)
  | elseOutside (pc : Nat)
  | branchDepth (pc : Nat) (instr : Instr) (label : UInt32) (depth : Nat)
  | callTarget (pc : Nat) (function : UInt32)
  | localIndex (pc : Nat) (instr : Instr) (locals : Nat)
  | globalIndex (pc : Nat) (instr : Instr)
  | immutableGlobal (pc : Nat) (index : UInt32)
  /-- Whether the global may be set cannot be told, because its import is not described. -/
  | undescribedGlobal (pc : Nat) (index : UInt32)
  | noMemory (pc : Nat) (instr : Instr)
  | unterminated (frames : Nat)
  deriving DecidableEq, Repr

def BodyError.message : BodyError → String
  | .decode cause => cause.message
  | .afterEnd pc instr => s!"instruction {pc} ({instr.text}) after final end"
  | .elseOutside pc => s!"instruction {pc}: else outside if"
  | .branchDepth pc instr label depth =>
      s!"instruction {pc}: {instr.text} targets depth {label} with {depth} open frames"
  | .callTarget pc function => s!"instruction {pc}: call to invalid function {function}"
  | .localIndex pc instr locals =>
      s!"instruction {pc}: {instr.text} out of range ({locals} locals)"
  | .globalIndex pc instr => s!"instruction {pc}: {instr.text} out of range"
  | .immutableGlobal pc index =>
      s!"instruction {pc}: global.set on immutable global {index}"
  | .undescribedGlobal pc index =>
      s!"instruction {pc}: global.set on undescribed global {index}"
  | .noMemory pc instr => s!"instruction {pc}: {instr.text} without a memory"
  | .unterminated frames => s!"body has {frames} unterminated frames"

/-- Why a module is refused. -/
inductive ValidationError where
  | funcType (index : Nat) (type : UInt32) (types : Nat)
  | importType (index : Nat) (module name : String) (type : UInt32)
  | duplicateExport (name : String) (index : Nat)
  | exportKind (index : Nat) (name : String) (kind : UInt8)
  | exportIndex (index : Nat) (name : String) (target : UInt32)
  | codeCount (bodies funcs : Nat)
  | tooManyMemories
  | importedMemory (index : Nat) (cause : LimitsError)
  | memory (index : Nat) (cause : LimitsError)
  | globalInit (index : Nat) (cause : InitError)
  | function (index : Nat) (cause : BodyError)
  deriving DecidableEq, Repr

def ValidationError.message : ValidationError → String
  | .funcType index type types =>
      s!"function {index} references invalid type index {type} (have {types} types)"
  | .importType index module name type =>
      s!"import {index} ({module}.{name}) references invalid type index {type}"
  | .duplicateExport name index =>
      s!"duplicate export name {Text.quoted name} at index {index}"
  | .exportKind index name kind => s!"export {index} ({name}) has unsupported kind {kind}"
  | .exportIndex index name target =>
      s!"export {index} ({name}) references invalid index {target}"
  | .codeCount bodies funcs =>
      s!"code section has {bodies} entries but function section has {funcs}"
  | .tooManyMemories => "at most one memory is supported"
  | .importedMemory index cause => s!"imported memory {index}: {cause.message}"
  | .memory index cause => s!"memory {index}: {cause.message}"
  | .globalInit index cause => s!"global {index} init: {cause.message}"
  | .function index cause => s!"function {index}: {cause.message}"

/-- Checks items in turn, telling each its index, and stops at the first failure. -/
def checkFrom {α ε : Type} (check : Nat → α → Except ε Unit) :
    (index : Nat) → List α → Except ε Unit
  | _, [] => .ok ()
  | index, item :: rest => do
      check index item
      checkFrom check (index + 1) rest

/-- Fails with a cause unless a condition holds. -/
def require {ε : Type} (condition : Prop) [Decidable condition] (cause : ε) : Except ε Unit :=
  if condition then .ok () else .error cause

def Limits.validate (limits : Limits) : Except LimitsError Unit := do
  require (limits.min ≤ maxPages) (.minTooLarge limits.min)
  match limits.max with
  | none => return
  | some max =>
      require (max ≤ maxPages) (.maxTooLarge max)
      require (limits.min ≤ max) (.maxBelowMin max limits.min)

/-- The type of the constant that an initializer consists of. -/
def Global.validate (item : Global) : Except InitError Unit := do
  let instrs ←
    match Instr.decodeAll item.init with
    | .ok instrs => pure instrs
    | .error cause => throw (.decode cause)
  match instrs with
  | [constant, last] =>
      require (last.opcode = Opcode.close.byte) .notSingle
      match Opcode.ofByte? constant.opcode with
      | some (.const type) =>
          require (type.valType = item.type.valType) (.mismatch type.valType item.type.valType)
      | _ => throw (.unsupported constant.opcode)
  | _ => throw .notSingle

/-- What a body may refer to. -/
structure BodyContext where
  locals : Nat
  funcs : Nat
  globals : List (Option GlobalType)
  hasMemory : Bool

/-- Checks one instruction inside `depth` open frames, the function's own included, and gives the
number of frames open after it. -/
def BodyContext.step (context : BodyContext) (pc depth : Nat) (instr : Instr) :
    Except BodyError Nat :=
  match Opcode.ofByte? instr.opcode, instr.immediate with
  | some .block, _ | some .loop, _ | some .ifThen, _ => .ok (depth + 1)
  | some .otherwise, _ => do
      require (2 ≤ depth) (.elseOutside pc)
      return depth
  | some .close, _ => .ok (depth - 1)
  | some .br, .branch label | some .brIf, .branch label => do
      require (label.toNat < depth) (.branchDepth pc instr label depth)
      return depth
  | some .call, .call function => do
      require (function.toNat < context.funcs) (.callTarget pc function)
      return depth
  | some .localGet, .local index | some .localSet, .local index | some .localTee, .local index => do
      require (index.toNat < context.locals) (.localIndex pc instr context.locals)
      return depth
  | some .globalGet, .global index => do
      require (index.toNat < context.globals.length) (.globalIndex pc instr)
      return depth
  | some .globalSet, .global index => do
      require (index.toNat < context.globals.length) (.globalIndex pc instr)
      match (context.globals[index.toNat]?).join with
      | some type => require type.mutable (.immutableGlobal pc index)
      | none => throw (.undescribedGlobal pc index)
      return depth
  | some (.load _), _ | some (.store _), _ | some .memorySize, _ | some .memoryGrow, _ => do
      require context.hasMemory (.noMemory pc instr)
      return depth
  | _, _ => .ok depth

/-- Checks instructions from number `pc` on. -/
def BodyContext.checkFrom (context : BodyContext) :
    (pc depth : Nat) → List Instr → Except BodyError Unit
  | _, depth, [] => require (depth = 0) (.unterminated depth)
  | pc, depth, instr :: rest => do
      require (depth ≠ 0) (.afterEnd pc instr)
      let depth ← context.step pc depth instr
      checkFrom context (pc + 1) depth rest

namespace Module

/-- What the body of a function of the given type may refer to. -/
def bodyContext (module : Module) (type : FuncType) (body : FuncBody) : BodyContext where
  locals := type.params.length + LocalRun.total body.locals
  funcs := module.numFuncs
  globals := module.globalSpace
  hasMemory := 0 < module.numMemories

def validateBody (module : Module) (type : FuncType) (body : FuncBody) : Except BodyError Unit :=
  match Instr.decodeAll body.code with
  | .error cause => .error (.decode cause)
  | .ok instrs => (module.bodyContext type body).checkFrom 0 1 instrs

def validateTypeIndices (module : Module) : Except ValidationError Unit := do
  checkFrom (fun index type =>
    require (type.toNat < module.types.length) (.funcType index type module.types.length))
    0 module.funcs
  checkFrom (fun index item =>
    match item.desc with
    | .function type =>
        require (type.toNat < module.types.length) (.importType index item.module item.name type)
    | _ => .ok ()) 0 module.imports

/-- The number of things that an export of a kind may refer to. -/
def exportLimit? (module : Module) (kind : ExternKind) : Option Nat :=
  if kind = .function then some module.numFuncs
  else if kind = .memory then some module.numMemories
  else if kind = .global then some module.numGlobals
  else none

/-- Checks exports in turn; `seen` holds the names of those before. -/
def validateExportsFrom (module : Module) :
    (index : Nat) → (seen : List String) → List Export → Except ValidationError Unit
  | _, _, [] => .ok ()
  | index, seen, item :: rest => do
      require (item.name ∉ seen) (.duplicateExport item.name index)
      match module.exportLimit? item.kind with
      | none => throw (.exportKind index item.name item.kind.byte)
      | some limit => require (item.index.toNat < limit) (.exportIndex index item.name item.index)
      validateExportsFrom module (index + 1) (item.name :: seen) rest

def validateMemories (module : Module) : Except ValidationError Unit := do
  require (module.numMemories ≤ 1) .tooManyMemories
  checkFrom (fun index item =>
    match item.desc with
    | .memory (some limits) => limits.validate.mapError (.importedMemory index)
    | _ => .ok ()) 0 module.imports
  checkFrom (fun index limits => limits.validate.mapError (.memory index)) 0 module.memories

/-- Checks the bodies; the type index of each has been checked before. -/
def validateBodies (module : Module) : Except ValidationError Unit :=
  checkFrom (fun index (entry : UInt32 × FuncBody) =>
    match module.types[entry.1.toNat]? with
    | some type => (module.validateBody type entry.2).mapError (.function index)
    | none => .ok ()) module.importedFuncs.length (module.funcs.zip module.code)

/-- Checks a module, stopping at the first thing found wrong. -/
def validate (module : Module) : Except ValidationError Unit := do
  module.validateTypeIndices
  module.validateExportsFrom 0 [] module.exports
  require (module.code.length = module.funcs.length)
    (.codeCount module.code.length module.funcs.length)
  module.validateMemories
  checkFrom (fun index item => item.validate.mapError (.globalInit index)) 0 module.globals
  module.validateBodies

end Module

/-- Why bytes are no valid module. -/
inductive LoadError where
  | parse (cause : ParseError)
  | invalid (cause : ValidationError)
  deriving DecidableEq, Repr

def LoadError.message : LoadError → String
  | .parse cause => cause.message
  | .invalid cause => cause.message

/-- Reads a module and checks it. -/
def Module.parseValid (bytes : List UInt8) : Except LoadError Module := do
  let module ← (Module.parse bytes).mapError .parse
  module.validate.mapError .invalid
  return module

end RecordWasm.Wasm
