import RecordWasm.Wasm.Module.Encode

/-!
# Modules read from bytes

Sections other than custom ones stand in increasing order of their numbers.  Each section is read on
its own, with positions counted from its start; bytes left over at the end of a section are ignored.
-/

namespace RecordWasm.Wasm

open Binary

/-- Why the content of a section is refused. -/
inductive SectionError where
  | read (cause : ReadError)
  | typeForm (index : Nat) (form : UInt8)
  | typeParams (index : Nat) (cause : ReadError)
  | typeResults (index : Nat) (cause : ReadError)
  | importKind (module name : String) (kind : UInt8)
  | limitsFlags (flags : UInt8)
  | mutability (byte : UInt8)
  | constOpcode (byte : UInt8)
  | constUnterminated
  | globalInit (index : Nat) (cause : SectionError)
  | body (index : Nat) (cause : ReadError)
  deriving DecidableEq, Repr

def SectionError.message : SectionError → String
  | .read cause => cause.message
  | .typeForm index form => s!"type {index}: unsupported form 0x{Text.hexByte form}"
  | .typeParams index cause => s!"type {index} params: {cause.message}"
  | .typeResults index cause => s!"type {index} results: {cause.message}"
  | .importKind module name kind => s!"import {module}.{name}: unsupported kind {kind}"
  | .limitsFlags flags => s!"unsupported limits flags 0x{Text.hexByte flags}"
  | .mutability byte => s!"invalid mutability 0x{Text.hexByte byte}"
  | .constOpcode byte => s!"unsupported constant opcode 0x{Text.hexByte byte}"
  | .constUnterminated => "constant expression not terminated by end"
  | .globalInit index cause => s!"global {index} init: {cause.message}"
  | .body index cause => s!"body {index}: {cause.message}"

/-- Why a byte string is no module. -/
inductive ParseError where
  | header (position : Nat) (cause : ReadError)
  | magic
  | version
  | outOfOrder (id : UInt8)
  | sectionFrame (position : Nat) (cause : ReadError)
  | inSection (kind : Section) (cause : SectionError)
  | unsupportedSection (id : UInt8)
  deriving DecidableEq, Repr

def ParseError.message : ParseError → String
  | .header position cause => locatedMessage "header" position cause.message
  | .magic => "invalid wasm magic number"
  | .version => "invalid wasm version"
  | .outOfOrder id => s!"section {id} appears out of order"
  | .sectionFrame position cause => locatedMessage "section data" position cause.message
  | .inSection kind cause => s!"{kind.name} section: {cause.message}"
  | .unsupportedSection id => s!"section 0x{Text.hexByte id}: unsupported section"

/-- A reader of section content. -/
abbrev ReadSection := EStateM SectionError Cursor

/-- Runs a reader of raw bytes, giving its failures a cause. -/
def liftRead {α : Type} (cause : ReadError → SectionError) (read : Read α) : ReadSection α :=
  fun cursor =>
    match read cursor with
    | .ok value next => .ok value next
    | .error failure next => .error (cause failure) next

instance : MonadLift Read ReadSection := ⟨liftRead .read⟩

/-- Reads `count` items in turn, telling each its index. -/
def itemsFrom {m : Type → Type} [Monad m] {α : Type} (item : Nat → m α) :
    (index count : Nat) → m (List α)
  | _, 0 => return []
  | index, count + 1 => do
      let first ← item index
      return first :: (← itemsFrom item (index + 1) count)

/-- Reads items behind their number. -/
def items {α : Type} (item : Nat → ReadSection α) : ReadSection (List α) := do
  let count ← Read.u32
  itemsFrom item 0 count.toNat

def ValType.readAll : Read (List ValType) := do
  let count ← Read.u32
  Read.times (do return ⟨← Read.byte⟩) count.toNat

def FuncType.read (index : Nat) : ReadSection FuncType := do
  let form ← Read.byte
  if form ≠ funcTypeByte then throw (.typeForm index form)
  let params ← liftRead (.typeParams index) ValType.readAll
  let results ← liftRead (.typeResults index) ValType.readAll
  return ⟨params, results⟩

/-- The flags are judged after the minimum has been read. -/
def Limits.read : ReadSection Limits := do
  let flags ← Read.byte
  let min ← Read.u64
  if flags = 0 then return ⟨min, none⟩
  if flags = 1 then return ⟨min, some (← Read.u64)⟩
  throw (.limitsFlags flags)

def GlobalType.read : ReadSection GlobalType := do
  let type ← Read.byte
  let mutable ← Read.byte
  if mutable > 1 then throw (.mutability mutable)
  return ⟨⟨type⟩, mutable == 1⟩

/-- Reads what stands behind the names of an import. -/
def Import.readNamed (module name : String) : ReadSection Import := do
  let kind ← Read.byte
  if kind = ExternKind.function.byte then return ⟨module, name, .function (← Read.u32)⟩
  if kind = ExternKind.memory.byte then return ⟨module, name, .memory (some (← Limits.read))⟩
  if kind = ExternKind.global.byte then return ⟨module, name, .global (some (← GlobalType.read))⟩
  throw (.importKind module name kind)

def Import.read (_ : Nat) : ReadSection Import := do
  let module ← Read.name
  let name ← Read.name
  Import.readNamed module name

/-- One constant instruction and the closing byte, written back in its shortest form. -/
def readConstExpr : ReadSection (List UInt8) := do
  let byte ← Read.byte
  let operand ←
    match Opcode.ofByte? byte with
    | some (.const type) => (Opcode.const type).operand
    | some .globalGet => Opcode.globalGet.operand
    | _ => throw (.constOpcode byte)
  let close ← Read.byte
  if close ≠ Opcode.close.byte then throw .constUnterminated
  return byte :: (operand.encode ++ [close])

def Global.read (index : Nat) : ReadSection Global := do
  let type ← GlobalType.read
  let init ← fun cursor =>
    match readConstExpr cursor with
    | .ok value next => .ok value next
    | .error cause next => .error (.globalInit index cause) next
  return ⟨type, init⟩

/-- Reads what stands behind the name of an export. -/
def Export.readNamed (name : String) : ReadSection Export := do
  let kind ← Read.byte
  return ⟨name, ⟨kind⟩, ← Read.u32⟩

def Export.read (_ : Nat) : ReadSection Export := do
  Export.readNamed (← Read.name)

def LocalRun.read : Read LocalRun := do
  let count ← Read.u32
  return ⟨count, ⟨← Read.byte⟩⟩

/-- A function body: the bytes behind its locals are its code. -/
def FuncBody.ofBytes (bytes : List UInt8) : Except ReadError FuncBody :=
  let locals : Read (List LocalRun) := do
    let count ← Read.u32
    Read.times LocalRun.read count.toNat
  match locals (.start bytes) with
  | .ok runs cursor => .ok ⟨runs, cursor.rest⟩
  | .error cause _ => .error cause

def FuncBody.read (index : Nat) : ReadSection FuncBody := do
  let bytes ← liftRead (.body index) Read.vec
  match FuncBody.ofBytes bytes with
  | .ok body => return body
  | .error cause => throw (.body index cause)

/-- A name and everything behind it. -/
def CustomSection.read (size : Nat) : ReadSection CustomSection := do
  let name ← Read.name
  let position ← Read.position
  let content ← Read.bytes ((size : Int) - position)
  return ⟨name, content⟩

/-- Adds the content of one section to a module. -/
def Section.readInto (kind : Section) (content : List UInt8) (module : Module) :
    ReadSection Module :=
  match kind with
  | .custom => do
      let custom ← CustomSection.read content.length
      return { module with customs := module.customs ++ [custom] }
  | .types => do return { module with types := ← items FuncType.read }
  | .imports => do return { module with imports := ← items Import.read }
  | .functions => do return { module with funcs := ← items fun _ => Read.u32 }
  | .memories => do return { module with memories := ← items fun _ => Limits.read }
  | .globals => do return { module with globals := ← items Global.read }
  | .exports => do return { module with exports := ← items Export.read }
  | .code => do return { module with code := ← items FuncBody.read }

/-- Reads at most `count` sections, each of which takes at least one byte; `last` is the number of
the last section that was not custom. -/
def Module.parseSections :
    (count : Nat) → (last : UInt8) → Module → Cursor → Except ParseError Module
  | 0, _, module, _ => .ok module
  | count + 1, last, module, cursor =>
      match cursor.rest with
      | [] => .ok module
      | id :: rest =>
          if id ≠ Section.custom.id ∧ id ≤ last then .error (.outOfOrder id)
          else
            match Read.vec ⟨rest, cursor.position + 1⟩ with
            | .error cause stopped => .error (.sectionFrame stopped.position cause)
            | .ok content next =>
                match Section.ofId? id with
                | none => .error (.unsupportedSection id)
                | some kind =>
                    match kind.readInto content module (.start content) with
                    | .error cause _ => .error (.inSection kind cause)
                    | .ok module _ =>
                        parseSections count
                          (if id = Section.custom.id then last else id) module next

/-- Reads a fixed word of the header. -/
def readHeaderWord (word : UInt32) (mismatch : ParseError) (cursor : Cursor) :
    Except ParseError Cursor :=
  match Read.u32le cursor with
  | .error cause stopped => .error (.header stopped.position cause)
  | .ok value next => if value = word then .ok next else .error mismatch

/-- Reads a module. -/
def Module.parse (bytes : List UInt8) : Except ParseError Module := do
  let cursor ← readHeaderWord magic .magic (.start bytes)
  let cursor ← readHeaderWord version .version cursor
  parseSections bytes.length 0 {} cursor

end RecordWasm.Wasm
