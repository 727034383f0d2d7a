import RecordWasm.Failure
import RecordWasm.Wasm.Module.Validate

/-!
# Assembling modules

A builder collects imports, functions, globals and exports and hands out their indices.  Imports
come before functions in the index space, so no import may follow a function.  A function is
declared first and given its body later, exactly once.
-/

namespace RecordWasm.Assembly

open Wasm

/-- The name under which a memory is exported unless another is asked for. -/
def defaultMemoryName : String := "memory"

structure Config where
  moduleName : String := ""
  memoryName : String := ""
  /-- The least size of the memory; zero stands for one page. -/
  memoryPages : UInt32 := 0
  /-- The largest size of the memory; zero stands for none. -/
  maxPages : UInt32 := 0
  /-- Whether names of functions are written to a custom section. -/
  emitNames : Bool := false
  deriving DecidableEq, Repr

/-- What a function does: its locals behind the parameters, and its instructions. -/
structure Body where
  locals : List ValType
  instrs : List Instr
  deriving DecidableEq, Repr

structure Function where
  name : String
  type : FuncType
  body : Option Body := none
  deriving DecidableEq, Repr

structure ImportedFunction where
  module : String
  name : String
  type : FuncType
  deriving DecidableEq, Repr

structure Builder where
  config : Config
  imports : List ImportedFunction := []
  funcs : List Function := []
  globals : List Global := []
  exports : List Export := []
  deriving DecidableEq, Repr

/-- Why an operation on a builder is refused. -/
inductive BuildError where
  | lateImport (module name : String)
  | notLocal (index : UInt32)
  | bodyTwice (name : String)
  | noFunction (name : String) (index : UInt32)
  | noGlobal (name : String) (index : UInt32)
  | duplicateExport (name : String)
  | missingBody (name : String)
  | invalid (cause : ValidationError)
  deriving DecidableEq, Repr

namespace BuildError

def failure : BuildError → Failure
  | lateImport module name =>
      Report.failure
        { phase := .assemble, kind := .invalidModule, decl := module ++ "." ++ name,
          detail := "import declared after local functions" }
  | notLocal index =>
      Report.failure
        { phase := .assemble, kind := .invalidModule, value := some (toString index),
          detail := s!"function {index} is not a declared local function" }
  | bodyTwice name =>
      Report.failure
        { phase := .assemble, kind := .invalidModule, decl := name, detail := "body set twice" }
  | noFunction name index =>
      Report.failure
        { phase := .assemble, kind := .invalidModule, decl := name, value := some (toString index),
          detail := s!"export of undeclared function {index}" }
  | noGlobal name index =>
      Report.failure
        { phase := .assemble, kind := .invalidModule, decl := name, value := some (toString index),
          detail := s!"export of undeclared global {index}" }
  | duplicateExport name =>
      Report.failure
        { phase := .assemble, kind := .duplicateExport, decl := name,
          detail := "export name already used" }
  | missingBody name =>
      Report.failure
        { phase := .assemble, kind := .missingBody, decl := name,
          detail := "declared function has no body" }
  | invalid cause =>
      Report.because
        { phase := .assemble, kind := .invalidModule, detail := "validate module" }
        (.plain cause.message)

end BuildError

namespace Builder

/-- An empty builder. -/
def new (config : Config) : Builder :=
  { config := { config with
      memoryName := if config.memoryName = "" then defaultMemoryName else config.memoryName
      memoryPages := if config.memoryPages = 0 then 1 else config.memoryPages } }

def setMemoryPages (builder : Builder) (pages : UInt32) : Builder :=
  { builder with config := { builder.config with memoryPages := pages } }

/-- The number of functions, imported ones included. -/
def numFunctions (builder : Builder) : Nat := builder.imports.length + builder.funcs.length

def addImport (builder : Builder) (module name : String) (type : FuncType) :
    Except BuildError (UInt32 × Builder) :=
  if builder.funcs.isEmpty then
    .ok (builder.imports.length.toUInt32,
      { builder with imports := builder.imports ++ [⟨module, name, type⟩] })
  else .error (.lateImport module name)

def declareFunction (builder : Builder) (name : String) (type : FuncType) : UInt32 × Builder :=
  (builder.numFunctions.toUInt32,
    { builder with funcs := builder.funcs ++ [{ name, type }] })

/-- Gives a declared function its body. -/
def setBody (builder : Builder) (index : UInt32) (body : Body) : Except BuildError Builder :=
  let place := index.toNat - builder.imports.length
  if index.toNat < builder.imports.length then .error (.notLocal index)
  else
    match builder.funcs[place]? with
    | none => .error (.notLocal index)
    | some function =>
        match function.body with
        | some _ => .error (.bodyTwice function.name)
        | none =>
            .ok { builder with
              funcs := builder.funcs.set place { function with body := some body } }

def addGlobal (builder : Builder) (item : Global) : UInt32 × Builder :=
  (builder.globals.length.toUInt32, { builder with globals := builder.globals ++ [item] })

/-- Adds an export whose name is not in use yet. -/
def addExport (builder : Builder) (item : Export) : Except BuildError Builder :=
  if item.name ∈ builder.exports.map Export.name ∨ item.name = builder.config.memoryName then
    .error (.duplicateExport item.name)
  else .ok { builder with exports := builder.exports ++ [item] }

def exportFunction (builder : Builder) (name : String) (index : UInt32) :
    Except BuildError Builder :=
  if index.toNat < builder.numFunctions then builder.addExport ⟨name, .function, index⟩
  else .error (.noFunction name index)

def exportGlobal (builder : Builder) (name : String) (index : UInt32) :
    Except BuildError Builder :=
  if index.toNat < builder.globals.length then builder.addExport ⟨name, .global, index⟩
  else .error (.noGlobal name index)

/-- The names of all functions in the order of their indices. -/
def functionNames (builder : Builder) : List String :=
  builder.imports.map ImportedFunction.name ++ builder.funcs.map Function.name

def functionName? (builder : Builder) (index : UInt32) : Option String :=
  builder.functionNames[index.toNat]?

/-- Adds an imported function to a module. -/
def placeImport (module : Module) (item : ImportedFunction) : Module :=
  let (type, module) := module.addType item.type
  { module with imports := module.imports ++ [⟨item.module, item.name, .function type⟩] }

/-- Adds a function with its body to a module. -/
def placeFunction (module : Module) (function : Function) : Except BuildError Module :=
  match function.body with
  | none => .error (.missingBody function.name)
  | some body =>
      let (type, module) := module.addType function.type
      .ok { module with
        funcs := module.funcs ++ [type]
        code := module.code ++ [⟨LocalRun.compact body.locals, Instr.encodeAll body.instrs⟩] }

/-- The limits of the memory. -/
def memoryLimits (config : Config) : Limits where
  min := config.memoryPages.toUInt64
  max := if config.maxPages = 0 then none else some config.maxPages.toUInt64

/-- The custom sections: the names, if they are asked for. -/
def nameSections (builder : Builder) : List CustomSection :=
  if builder.config.emitNames then
    [nameSection builder.config.moduleName
      (builder.functionNames.zipIdx.map fun entry => (entry.2.toUInt32, entry.1))]
  else []

/-- The module that has been described. -/
def module (builder : Builder) : Except BuildError Module := do
  let imported := builder.imports.foldl placeImport {}
  let module ← builder.funcs.foldlM placeFunction imported
  return { module with
    memories := [memoryLimits builder.config]
    globals := builder.globals
    exports := ⟨builder.config.memoryName, .memory, 0⟩ :: builder.exports
    customs := builder.nameSections }

/-- The bytes of the module that has been described, after it has been checked. -/
def build (builder : Builder) : Except BuildError (List UInt8) := do
  let module ← builder.module
  module.validate.mapError .invalid
  return module.encode

end Builder

end RecordWasm.Assembly
