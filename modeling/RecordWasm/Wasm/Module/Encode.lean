import RecordWasm.Wasm.Module

/-!
# Modules as bytes

A module is its header followed by its non-empty sections in the order of their numbers, the custom
sections last.
-/

namespace RecordWasm.Wasm

open Binary

/-- The first four bytes of a module, read as a number. -/
def magic : UInt32 := 0x6D736100

/-- The version of the binary format. -/
def version : UInt32 := 1

/-- The byte in front of every signature. -/
def funcTypeByte : UInt8 := 0x60

/-- The sections with a number of their own. -/
inductive Section where
  | custom | types | imports | functions | memories | globals | exports | code
  deriving DecidableEq, Repr

namespace Section

def id : Section → UInt8
  | custom => 0
  | types => 1
  | imports => 2
  | functions => 3
  | memories => 5
  | globals => 6
  | exports => 7
  | code => 10

def all : List Section := [custom, types, imports, functions, memories, globals, exports, code]

def ofId? (id : UInt8) : Option Section := all.find? fun candidate => candidate.id == id

/-- The name of a section in messages. -/
def name : Section → String
  | custom => "custom"
  | types => "type"
  | imports => "import"
  | functions => "function"
  | memories => "memory"
  | globals => "global"
  | exports => "export"
  | code => "code"

/-- A section with the given content. -/
def frame (kind : Section) (content : List UInt8) : List UInt8 := kind.id :: Write.vec content

/-- A section that lists items, left out if there are none. -/
def list {α : Type} (kind : Section) (item : α → List UInt8) : List α → List UInt8
  | [] => []
  | items => kind.frame (Write.sequence item items)

end Section

def ValType.encode (type : ValType) : List UInt8 := [type.byte]

def FuncType.encode (type : FuncType) : List UInt8 :=
  funcTypeByte ::
    (Write.sequence ValType.encode type.params ++ Write.sequence ValType.encode type.results)

def Limits.encode (limits : Limits) : List UInt8 :=
  match limits.max with
  | none => 0 :: Write.u64 limits.min
  | some max => 1 :: (Write.u64 limits.min ++ Write.u64 max)

def GlobalType.encode (type : GlobalType) : List UInt8 :=
  [type.valType.byte, if type.mutable then 1 else 0]

/-- The description behind the kind of an import; a missing one takes no bytes. -/
def ImportDesc.encode : ImportDesc → List UInt8
  | .function type => Write.u32 type
  | .memory (some limits) => limits.encode
  | .global (some type) => type.encode
  | _ => []

def Import.encode (item : Import) : List UInt8 :=
  Write.name item.module ++ Write.name item.name ++ item.desc.kind.byte :: item.desc.encode

def Global.encode (item : Global) : List UInt8 := item.type.encode ++ item.init

def Export.encode (item : Export) : List UInt8 :=
  Write.name item.name ++ item.kind.byte :: Write.u32 item.index

def LocalRun.encode (run : LocalRun) : List UInt8 := Write.u32 run.count ++ [run.type.byte]

def FuncBody.encode (body : FuncBody) : List UInt8 :=
  Write.sequence LocalRun.encode body.locals ++ body.code

def CustomSection.encode (custom : CustomSection) : List UInt8 :=
  Section.custom.frame (Write.name custom.name ++ custom.content)

def Module.encode (module : Module) : List UInt8 :=
  Write.u32le magic ++ Write.u32le version ++
  Section.types.list FuncType.encode module.types ++
  Section.imports.list Import.encode module.imports ++
  Section.functions.list Write.u32 module.funcs ++
  Section.memories.list Limits.encode module.memories ++
  Section.globals.list Global.encode module.globals ++
  Section.exports.list Export.encode module.exports ++
  Section.code.list (fun body => Write.vec body.encode) module.code ++
  module.customs.flatMap CustomSection.encode

/-- Keeps the last entry of each index. -/
def lastOfEach : List (UInt32 × String) → List (UInt32 × String)
  | [] => []
  | entry :: rest =>
      if rest.any fun later => later.1 == entry.1 then lastOfEach rest else entry :: lastOfEach rest

/-- The custom section that names the module, if it has a name, and its functions by index.  Of two
names for one index the later holds. -/
def nameSection (moduleName : String) (funcNames : List (UInt32 × String)) : CustomSection :=
  let moduleNames := if moduleName = "" then [] else 0 :: Write.vec (Write.name moduleName)
  let entries := (lastOfEach funcNames).mergeSort fun left right => left.1 ≤ right.1
  let functions := Write.sequence (fun entry => Write.u32 entry.1 ++ Write.name entry.2) entries
  ⟨"name", moduleNames ++ 1 :: Write.vec functions⟩

end RecordWasm.Wasm
