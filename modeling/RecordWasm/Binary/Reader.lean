/-!
# Reading the binary format

A reader walks a byte string from front to back.  It is a function of a `Cursor`, the bytes still
unread together with the number of bytes consumed, and it keeps the cursor when it fails, because
messages name the position that a failing read has reached.

Integers are LEB128 numbers: groups of seven bits, lowest first, every byte but the last with its
high bit set.
-/

namespace RecordWasm.Binary

/-- The unread bytes and the number of bytes already consumed. -/
structure Cursor where
  rest : List UInt8
  position : Nat
  deriving DecidableEq, Repr

/-- The cursor in front of a whole byte string. -/
def Cursor.start (bytes : List UInt8) : Cursor := ⟨bytes, 0⟩

/-- Why a read failed.  Every cause but the bare end of input carries the position reached. -/
inductive ReadError where
  | endOfInput
  | truncated (position : Nat)
  | negativeLength (position : Nat)
  | overflow (position : Nat)
  | invalidName (position : Nat)
  deriving DecidableEq, Repr

/-- Puts the position in front of a cause. -/
def atPosition (position : Nat) (cause : String) : String :=
  s!"at position {position}: {cause}"

def ReadError.message : ReadError → String
  | .endOfInput => "EOF"
  | .truncated position => atPosition position "unexpected EOF"
  | .negativeLength position => atPosition position "negative length"
  | .overflow position => atPosition position "leb128: overflow"
  | .invalidName position => atPosition position "invalid UTF-8 in name"

/-- A cause located inside a named part of a module; the part may be left empty. -/
def locatedMessage (part : String) (position : Nat) (cause : String) : String :=
  if part = "" then s!"wasm: {atPosition position cause}"
  else s!"wasm: {part} {atPosition position cause}"

/-- A reader that may fail, leaving the cursor where the failing step left it. -/
abbrev Read := EStateM ReadError Cursor

namespace Read

/-- Fails with a cause located at the present position. -/
def failHere {α : Type} (cause : Nat → ReadError) : Read α :=
  fun cursor => .error (cause cursor.position) cursor

/-- The number of bytes consumed so far. -/
def position : Read Nat := fun cursor => .ok cursor.position cursor

def byte : Read UInt8 := fun cursor =>
  match cursor.rest with
  | [] => .error .endOfInput cursor
  | first :: rest => .ok first ⟨rest, cursor.position + 1⟩

/-- Exactly `count` bytes.  A short input is consumed to its end before the read fails. -/
def take (count : Nat) : Read (List UInt8) := fun cursor =>
  let taken := cursor.rest.take count
  if taken.length < count then
    .error (.truncated (cursor.position + taken.length)) ⟨[], cursor.position + taken.length⟩
  else
    .ok taken ⟨cursor.rest.drop count, cursor.position + count⟩

/-- Exactly `count` bytes, refusing a negative count. -/
def bytes : Int → Read (List UInt8)
  | .ofNat count => take count
  | .negSucc _ => failHere .negativeLength

/-- The number of groups a reader of `bits`-bit integers looks at before it gives up. -/
def maxGroups (bits : Nat) : Nat := (bits + 13) / 7

/-- Reads at most `groups` groups onto `value`, the next one weighing `2 ^ shift`. -/
def unsignedGroups : (groups shift value : Nat) → Read Nat
  | 0, _, _ => failHere .overflow
  | groups + 1, shift, value => do
      let group ← byte
      let value := value + (group.toNat % 128) <<< shift
      if group < 0x80 then return value
      unsignedGroups groups (shift + 7) value

/-- Like `unsignedGroups`, with the second highest bit of the last group as the sign. -/
def signedGroups : (groups shift value : Nat) → Read Int
  | 0, _, _ => failHere .overflow
  | groups + 1, shift, value => do
      let group ← byte
      let value := value + (group.toNat % 128) <<< shift
      if group < 0x80 then
        return if group.toNat % 128 < 64 then (value : Int)
          else (value : Int) - (1 <<< (shift + 7) : Nat)
      signedGroups groups (shift + 7) value

/-- An unsigned number that has to fit in 32 bits. -/
def u32 : Read UInt32 := do
  let value ← unsignedGroups (maxGroups 32) 0 0
  if value < 1 <<< 32 then return value.toUInt32
  failHere .overflow

/-- The low 64 bits of an unsigned number. -/
def u64 : Read UInt64 := do
  return (← unsignedGroups (maxGroups 64) 0 0).toUInt64

/-- The low 32 bits of a signed number. -/
def s32 : Read Int32 := do
  return Int32.ofInt (← signedGroups (maxGroups 32) 0 0)

/-- The low 64 bits of a signed number. -/
def s64 : Read Int64 := do
  return Int64.ofInt (← signedGroups (maxGroups 64) 0 0)

/-- The number whose base-256 digits are the bytes, lowest first. -/
def littleEndian (digits : List UInt8) : Nat :=
  digits.foldr (fun digit high => digit.toNat + 256 * high) 0

def u32le : Read UInt32 := do
  return (littleEndian (← take 4)).toUInt32

/-- The bits of a single-precision number. -/
def f32 : Read UInt32 := u32le

/-- The bits of a double-precision number. -/
def f64 : Read UInt64 := do
  return (littleEndian (← take 8)).toUInt64

/-- A byte vector behind its length. -/
def vec : Read (List UInt8) := do
  take (← u32).toNat

/-- The text that bytes are in UTF-8. -/
def text (content : List UInt8) : Read String :=
  match String.fromUTF8? ⟨content.toArray⟩ with
  | some text => return text
  | none => failHere .invalidName

/-- A UTF-8 text behind its length in bytes. -/
def name : Read String := do
  text (← vec)

/-- Reads `count` items in turn. -/
def times {α : Type} (item : Read α) : (count : Nat) → Read (List α)
  | 0 => return []
  | count + 1 => do
      let first ← item
      return first :: (← times item count)

end Read

end RecordWasm.Binary
