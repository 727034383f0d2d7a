import RecordWasm.Wasm.Instr.Codec

/-!
# Modules

The sections of a module that the binary format carries here: types, imports, functions, memories,
globals, exports, code and custom sections.  Imported functions and globals come first in their
index spaces.
-/

namespace RecordWasm.Wasm

/-- The size of one page of linear memory in bytes. -/
def pageSize : Nat := 65536

structure Limits where
  min : UInt64
  max : Option UInt64
  deriving DecidableEq, Repr

structure GlobalType where
  valType : ValType
  mutable : Bool
  deriving DecidableEq, Repr

/-- What kind of thing an import or export is, as the binary format spells it. -/
structure ExternKind where
  byte : UInt8
  deriving DecidableEq, Repr

namespace ExternKind

abbrev function : ExternKind := ⟨0⟩
abbrev memory : ExternKind := ⟨2⟩
abbrev global : ExternKind := ⟨3⟩

end ExternKind

/-- What an import brings in.  A memory or global import may lack its description, and a module
built by hand may hold a kind that the format does not know. -/
inductive ImportDesc where
  | function (type : UInt32)
  | memory (limits : Option Limits)
  | global (type : Option GlobalType)
  | other (kind : UInt8)
  deriving DecidableEq, Repr

def ImportDesc.kind : ImportDesc → ExternKind
  | .function _ => .function
  | .memory _ => .memory
  | .global _ => .global
  | .other kind => ⟨kind⟩

structure Import where
  module : String
  name : String
  desc : ImportDesc
  deriving DecidableEq, Repr

/-- A global with the raw bytes of its initializer, the closing byte included. -/
structure Global where
  type : GlobalType
  init : List UInt8
  deriving DecidableEq, Repr

structure Export where
  name : String
  kind : ExternKind
  index : UInt32
  deriving DecidableEq, Repr

/-- A run of locals of one type. -/
structure LocalRun where
  count : UInt32
  type : ValType
  deriving DecidableEq, Repr

/-- A function body: its locals and the raw bytes of its code, the closing byte included. -/
structure FuncBody where
  locals : List LocalRun
  code : List UInt8
  deriving DecidableEq, Repr

structure CustomSection where
  name : String
  content : List UInt8
  deriving DecidableEq, Repr

structure Module where
  types : List FuncType := []
  imports : List Import := []
  funcs : List UInt32 := []
  memories : List Limits := []
  globals : List Global := []
  exports : List Export := []
  code : List FuncBody := []
  customs : List CustomSection := []
  deriving DecidableEq, Repr

/-- Groups neighbouring locals of one type into runs. -/
def LocalRun.compact : List ValType → List LocalRun
  | [] => []
  | type :: rest =>
      match compact rest with
      | [] => [⟨1, type⟩]
      | run :: runs =>
          if run.type = type then ⟨run.count + 1, type⟩ :: runs else ⟨1, type⟩ :: run :: runs

/-- The number of locals that runs stand for. -/
def LocalRun.total : List LocalRun → Nat
  | [] => 0
  | run :: runs => run.count.toNat + total runs

/-- The locals that runs stand for. -/
def LocalRun.expand (runs : List LocalRun) : List ValType :=
  runs.flatMap fun run => List.replicate run.count.toNat run.type

namespace Module

/-- The type indices of the imported functions, in order. -/
def importedFuncs (module : Module) : List UInt32 :=
  module.imports.filterMap fun item =>
    match item.desc with
    | .function type => some type
    | _ => none

/-- The types of the imported globals, in order. -/
def importedGlobals (module : Module) : List (Option GlobalType) :=
  module.imports.filterMap fun item =>
    match item.desc with
    | .global type => some type
    | _ => none

/-- The limits of the imported memories, in order. -/
def importedMemories (module : Module) : List (Option Limits) :=
  module.imports.filterMap fun item =>
    match item.desc with
    | .memory limits => some limits
    | _ => none

/-- The type indices of all functions, imported ones first. -/
def funcSpace (module : Module) : List UInt32 := module.importedFuncs ++ module.funcs

/-- The types of all globals, imported ones first. -/
def globalSpace (module : Module) : List (Option GlobalType) :=
  module.importedGlobals ++ module.globals.map fun item => some item.type

def numFuncs (module : Module) : Nat := module.importedFuncs.length + module.funcs.length

def numGlobals (module : Module) : Nat := module.importedGlobals.length + module.globals.length

def numMemories (module : Module) : Nat := module.importedMemories.length + module.memories.length

/-- The signature of a function, if its index and the index of its type are in range. -/
def funcType? (module : Module) (index : UInt32) : Option FuncType :=
  module.funcSpace[index.toNat]? >>= fun type => module.types[type.toNat]?

/-- The type of a global, if its index is in range and an import of it is described. -/
def globalType? (module : Module) (index : UInt32) : Option GlobalType :=
  (module.globalSpace[index.toNat]?).join

/-- The first export of a name. -/
def export? (module : Module) (name : String) : Option Export :=
  module.exports.find? fun item => item.name == name

/-- The index of a signature, adding it behind the others if it is new. -/
def addType (module : Module) (type : FuncType) : UInt32 × Module :=
  match module.types.idxOf? type with
  | some index => (index.toUInt32, module)
  | none => (module.types.length.toUInt32, { module with types := module.types ++ [type] })

end Module

end RecordWasm.Wasm
