import RecordWasm.Wasm.Module.Validate

/-!
# Modules read in limited memory

Reading as it goes where memory is limited.  A list whose length is announced gets room for all of
its items before the first one is read, whatever the count is, and the program is stopped if there
is no such room.  Room for whatever grows with the bytes that are read is taken to be there.
-/

namespace RecordWasm.Wasm

open Binary

/-- What stops the program. -/
inductive Crash where
  /-- So many bytes of memory are asked for and not there. -/
  | memory (bytes : Nat)
  /-- An operand is not of the kind its operation is taken to have. -/
  | assertion (instr : Instr)
  /-- An element is behind the end of its list. -/
  | index (place : Nat)
  /-- An import is not described. -/
  | undescribed (index : UInt32)
  /-- A negative number of bytes is asked for. -/
  | length (count : Int)
  /-- A slice starts behind the end of its bytes. -/
  | slice (position : Nat)
  deriving DecidableEq, Repr

/-- Why a computation comes to no result. -/
inductive Halt (ε : Type) where
  | crash (cause : Crash)
  | failed (cause : ε)
  deriving DecidableEq, Repr

/-- Gives failures another cause. -/
def Halt.map {ε δ : Type} (describe : ε → δ) : Halt ε → Halt δ
  | .crash cause => .crash cause
  | .failed cause => .failed (describe cause)

/-- A reader that may stop the program. -/
abbrev Reserving (ε : Type) := EStateM (Halt ε) Cursor

/-! The bytes that an item of a list takes where addresses have 64 bits. -/

def FuncType.size : Nat := 48
def Import.size : Nat := 56
def funcIndexSize : Nat := 4
def LocalRun.size : Nat := 8

namespace Reserving

variable {ε δ α : Type}

/-- Runs a reader that cannot stop the program. -/
def of (read : EStateM ε Cursor α) : Reserving ε α := read.adaptExcept .failed

/-- Gives failures another cause. -/
def mapError (describe : δ → ε) (read : Reserving δ α) : Reserving ε α :=
  read.adaptExcept (Halt.map describe)

def crash (cause : Crash) : Reserving ε α := throw (.crash cause)

instance : MonadLift Read (Reserving ReadError) := ⟨of⟩

instance : MonadLift ReadSection (Reserving SectionError) := ⟨of⟩

/-- Makes room for so many bytes. -/
def reserve (room bytes : Nat) : Reserving ε Unit :=
  if bytes ≤ room then return else crash (.memory bytes)

/-- Reads a count and makes room for as many items of `size` bytes. -/
def count (room size : Nat) : Reserving ReadError Nat := do
  let count ← Read.u32
  reserve room (count.toNat * size)
  return count.toNat

/-- Reads items behind their number.  A `size` of zero is that of items which join a list that grows
with them. -/
def items (room size : Nat) (item : Nat → Reserving SectionError α) :
    Reserving SectionError (List α) := do
  let count ← Read.u32
  reserve room (count.toNat * size)
  itemsFrom item 0 count.toNat

variable (room : Nat)

/-- A byte vector behind its length. -/
def vec : Reserving ReadError (List UInt8) := do
  Read.take (← count room 1)

/-- A UTF-8 text behind its length in bytes. -/
def name : Reserving ReadError String := do
  Read.text (← vec room)

def valTypes : Reserving ReadError (List ValType) := do
  Read.times (do return ⟨← Read.byte⟩) (← count room 1)

def funcType (index : Nat) : Reserving SectionError FuncType := do
  let form ← Read.byte
  if form ≠ funcTypeByte then throw (.failed (.typeForm index form))
  let params ← mapError (.typeParams index) (valTypes room)
  let results ← mapError (.typeResults index) (valTypes room)
  return ⟨params, results⟩

def importItem (_ : Nat) : Reserving SectionError Import := do
  let module ← mapError .read (name room)
  let name ← mapError .read (name room)
  Import.readNamed module name

def exportItem (_ : Nat) : Reserving SectionError Export := do
  Export.readNamed (← mapError .read (name room))

/-- What a reader answers, without the place it reaches. -/
def answer : EStateM.Result ε Cursor α → Except ε α
  | .ok value _ => .ok value
  | .error cause _ => .error cause

/-- The bytes from a position on. -/
def sliceFrom (bytes : List UInt8) (position : Nat) : Reserving ε (List UInt8) :=
  if position ≤ bytes.length then return bytes.drop position else crash (.slice position)

/-- A function body: the bytes behind its locals are its code. -/
def bodyParts (bytes : List UInt8) : Reserving ReadError FuncBody := do
  let runs ← Read.times LocalRun.read (← count room LocalRun.size)
  return ⟨runs, ← sliceFrom bytes (← Read.position)⟩

def body (index : Nat) : Reserving SectionError FuncBody := do
  let bytes ← mapError (.body index) (vec room)
  match answer (bodyParts room bytes (.start bytes)) with
  | .ok body => return body
  | .error halt => throw (halt.map (.body index))

/-- A name and everything behind it.  To ask for a negative number of bytes counts as a crash,
though such a request would be answered with an error. -/
def custom (size : Nat) : Reserving SectionError CustomSection := do
  let name ← mapError .read (name room)
  let position ← Read.position
  let count := (size : Int) - position
  if count < 0 then crash (.length count)
  reserve room count.toNat
  return ⟨name, ← Read.bytes count⟩

/-- Adds the content of one section to a module. -/
def readInto (kind : Section) (content : List UInt8) (module : Module) :
    Reserving SectionError Module :=
  match kind with
  | .custom => do
      let custom ← custom room content.length
      return { module with customs := module.customs ++ [custom] }
  | .types => do return { module with types := ← items room FuncType.size (funcType room) }
  | .imports => do return { module with imports := ← items room Import.size (importItem room) }
  | .functions => do
      return { module with funcs := ← items room funcIndexSize fun _ => Read.u32 }
  | .exports => do return { module with exports := ← items room 0 (exportItem room) }
  | .code => do return { module with code := ← items room 0 (body room) }
  | .memories | .globals => of (kind.readInto content module)

/-- Reads one more section into a module if there are bytes left; the state also tells the number of
the last section that was not custom. -/
def readSection (state : UInt8 × Module × Cursor) :
    Except (Halt ParseError) (Module ⊕ UInt8 × Module × Cursor) := do
  let (last, module, cursor) := state
  match cursor.rest with
  | [] => return .inl module
  | id :: rest =>
      if id ≠ Section.custom.id ∧ id ≤ last then throw (.failed (.outOfOrder id))
      match vec room ⟨rest, cursor.position + 1⟩ with
      | .error halt stopped => throw (halt.map (.sectionFrame stopped.position))
      | .ok content next =>
          match Section.ofId? id with
          | none => throw (.failed (.unsupportedSection id))
          | some kind =>
              let module ← (answer (readInto room kind content module (.start content))).mapError
                (Halt.map (.inSection kind))
              return .inr (if id = Section.custom.id then last else id, module, next)

/-- Reads at most `count` sections, each of which takes at least one byte. -/
def readSections : (count : Nat) → UInt8 × Module × Cursor → Except (Halt ParseError) Module
  | 0, (_, module, _) => .ok module
  | count + 1, state => do
      match ← readSection room state with
      | .inl module => return module
      | .inr next => readSections count next

/-- Reads a module. -/
def parse (bytes : List UInt8) : Except (Halt ParseError) Module := do
  let cursor ← (readHeaderWord magic .magic (.start bytes)).mapError .failed
  let cursor ← (readHeaderWord version .version cursor).mapError .failed
  readSections room bytes.length (0, {}, cursor)

/-- Reads a module and checks it. -/
def parseValid (bytes : List UInt8) : Except (Halt LoadError) Module := do
  let module ← (parse room bytes).mapError (Halt.map .parse)
  (module.validate.mapError .invalid).mapError .failed
  return module

end Reserving

end RecordWasm.Wasm
