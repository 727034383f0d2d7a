import RecordWasm.Failure
import RecordWasm.Machine.Exec
import RecordWasm.Machine.Image

/-!
# Loading and starting modules

An engine holds the functions that modules may import and the limit on their memories.  It loads a
binary module, which can then be started any number of times: every instance has a memory and
globals of its own.
-/

namespace RecordWasm.Machine

open Wasm

/-- A function of the outside, with the values it always answers. -/
structure HostFunction where
  name : String
  params : List ValType
  answer : List Value
  deriving Repr

def HostFunction.type (function : HostFunction) : FuncType :=
  ⟨function.params, function.answer.map fun value => value.type.valType⟩

structure HostModule where
  name : String
  functions : List HostFunction
  deriving Repr

/-- The function of a name; a later one hides an earlier one. -/
def HostModule.function? (host : HostModule) (name : String) : Option HostFunction :=
  host.functions.reverse.find? fun function => function.name == name

structure Engine where
  limitPages : Nat := maxPages.toNat
  hosts : List HostModule := []
  deriving Repr

/-- The body of a function, ready to run. -/
structure Body where
  locals : List ValType
  steps : List Step
  deriving Repr

/-- A module whose bodies can be run, one for each function of its own.  When it is closed, it can
still be looked at, but no longer be started. -/
structure Loaded extends Image where
  bodies : List Body
  closed : Bool := false

/-- An exported function as a caller sees it. -/
structure Signature where
  name : String
  type : FuncType
  deriving DecidableEq, Repr

/-- The base-2 logarithm of the number of bytes that a value of a type takes. -/
def naturalAlign : NumType → UInt32
  | .i32 | .f32 => 2
  | .i64 | .f64 => 3

/-- Whether the operand of an instruction can be run: accesses are aligned to at most their size,
their offsets are those of a 32-bit address space, and there is one memory. -/
def runnable (instr : Instr) : Bool :=
  match Opcode.ofByte? instr.opcode, instr.immediate with
  | some (.load type), .mem arg | some (.store type), .mem arg =>
      arg.align ≤ naturalAlign type && arg.offset ≤ 0xFFFFFFFF && arg.memory == 0
  | some .memorySize, .memory index | some .memoryGrow, .memory index => index == 0
  | some _, _ => true
  | none, _ => false

/-- A body ready to run; `none` if something in it cannot be run. -/
def Body.ofFuncBody? (types : List FuncType) (body : FuncBody) : Option Body := do
  let instrs ← (Instr.decodeAll body.code).toOption
  if !(instrs.all runnable && body.locals.all fun run => Image.knownType run.type) then none
  return ⟨LocalRun.expand body.locals, ← Step.ofInstrs? types instrs⟩

namespace Engine

/-- An engine whose memories have at most so many pages, or, if that is zero, as many as there can
be; `none` if a memory cannot have so many. -/
def withLimit? (pages : UInt32) : Option Engine :=
  if pages = 0 then some {}
  else if pages.toUInt64 ≤ maxPages then some { limitPages := pages.toNat }
  else none

/-- Makes functions available to the modules that are started from now on. -/
def register (engine : Engine) (host : HostModule) : Except Failure Engine :=
  if engine.hosts.any fun known => known.name == host.name then
    .error (Report.failure
      { phase := .runtime, kind := .instantiation, value := some host.name
        detail := s!"host module {Text.quoted host.name} already registered" })
  else if host.name = "" then
    .error (Report.instantiation.because (.plain "a host module needs a name"))
  else .ok { engine with hosts := engine.hosts ++ [host] }

/-- Whether a memory may start out under the engine's limit. -/
def admits (engine : Engine) (limits : Limits) : Bool := limits.min.toNat ≤ engine.limitPages

/-- Reads a binary module and gets it ready to run. -/
def load (engine : Engine) (bytes : List UInt8) : Except Failure Loaded :=
  let refuse (cause : String) : Failure :=
    Report.because { phase := .runtime, kind := .invalidModule, detail := "compile failed" }
      (.plain cause)
  match Image.parse? bytes with
  | none => .error (refuse "malformed module")
  | some image =>
      if !image.sound then .error (refuse "invalid module")
      else if !image.module.memories.all engine.admits then
        .error (refuse "memory over the limit")
      else
        match image.module.code.mapM (Body.ofFuncBody? image.module.types) with
        | some bodies => .ok { image with bodies }
        | none => .error (refuse "malformed function body")

/-- The function of the outside that an import asks for. -/
def resolve? (engine : Engine) (module name : String) (type : FuncType) : Option Function := do
  let host ← engine.hosts.find? fun host => host.name == module
  let function ← host.function? name
  if function.type = type then return .hosted function.name type function.answer else none

end Engine

namespace Loaded

def close (loaded : Loaded) : Loaded := { loaded with closed := true }

/-- The signature of an exported function. -/
def signature? (loaded : Loaded) (item : Export) : Option Signature :=
  if item.kind = .function then (loaded.module.funcType? item.index).map (⟨item.name, ·⟩)
  else none

/-- The exported functions, sorted by name. -/
def exports (loaded : Loaded) : List Signature :=
  (loaded.module.exports.filterMap loaded.signature?).mergeSort
    fun first second => decide (first.name ≤ second.name)

/-- The exported function of a name. -/
def export? (loaded : Loaded) (name : String) : Option Signature :=
  loaded.module.export? name >>= loaded.signature?

/-- The functions of the module's own, in order. -/
def coded (loaded : Loaded) : List Function :=
  (loaded.module.funcs.zip loaded.bodies).map fun (type, body) =>
    .coded ((loaded.module.types[type.toNat]?).getD ⟨[], []⟩) body.locals body.steps

end Loaded

/-- The value that a global starts out with. -/
def initialValue (item : Global) : Value :=
  match Instr.decodeAll item.init with
  | .ok (constant :: _) =>
      match constant.immediate with
      | .i32 value => .i32 value.toUInt32
      | .i64 value => .i64 value.toUInt64
      | .f32 bits => .f32 bits
      | .f64 bits => .f64 bits
      | _ => .zero (kept item.type.valType)
  | _ => .zero (kept item.type.valType)

end RecordWasm.Machine
