import RecordWasm.Wasm.Module.Validate

/-!
# Module images

An image is what the machine makes of a binary module: the module itself, the function that runs
first and the bytes that the memory starts out with.  The machine takes the sections in any order, a
later one of a kind in place of an earlier one, and every section has to end where its content does.
-/

namespace RecordWasm.Machine

open Wasm Binary

/-- Bytes for the memory.  Those without an address are not put anywhere. -/
structure Segment where
  address : Option Int32
  bytes : List UInt8
  deriving DecidableEq, Repr

structure Image where
  module : Module := {}
  /-- The index of the function that runs first. -/
  start : Option UInt32 := none
  segments : List Segment := []
  /-- The number of segments as announced in front of the code. -/
  announced : Option UInt32 := none
  deriving DecidableEq, Repr

/-- What a section of an image holds. -/
inductive Part where
  | standard (kind : Section)
  | start
  | segments
  | announcement
  deriving DecidableEq, Repr

def Part.ofId? (id : UInt8) : Option Part :=
  match Section.ofId? id with
  | some kind => some (.standard kind)
  | none =>
      if id = 8 then some .start
      else if id = 11 then some .segments
      else if id = 12 then some .announcement
      else none

/-- A reader of images, which gives no causes. -/
abbrev ReadImage := StateT Cursor Option

instance : MonadLift ReadSection ReadImage where
  monadLift read cursor :=
    match read cursor with
    | .ok value next => some (value, next)
    | .error _ _ => none

/-- Reads a constant address. -/
def readAddress : ReadImage Int32 := do
  match Instr.decodeAll (← readConstExpr) with
  | .ok (⟨_, .i32 address⟩ :: _) => return address
  | _ => failure

/-- Reads a segment: its kind is told by the number in front of it, and there is one memory. -/
def Segment.read : ReadImage Segment := do
  let kind ← Read.u32
  let address ←
    if kind = 0 then some <$> readAddress
    else if kind = 1 then pure none
    else if kind = 2 then do
      if (← Read.u32) = 0 then some <$> readAddress else failure
    else failure
  return ⟨address, ← Read.vec⟩

/-- Reads a number of segments. -/
def Segment.readTimes : (count : Nat) → ReadImage (List Segment)
  | 0 => return []
  | count + 1 => do
      let first ← Segment.read
      return first :: (← Segment.readTimes count)

/-- Adds the content of one section to an image. -/
def Part.readInto (part : Part) (content : List UInt8) (image : Image) : ReadImage Image :=
  match part with
  | .standard kind => do return { image with module := ← kind.readInto content image.module }
  | .start => do
      if image.start.isSome then failure
      return { image with start := some (← Read.u32) }
  | .segments => do
      let count ← Read.u32
      return { image with segments := ← Segment.readTimes count.toNat }
  | .announcement => do
      return { image with announced := some (← Read.u32) }

namespace Image

/-- Reads at most `count` sections, each of which takes at least one byte. -/
def parseSections? : (count : Nat) → Image → Cursor → Option Image
  | 0, image, _ => some image
  | count + 1, image, cursor =>
      match cursor.rest with
      | [] => some image
      | id :: rest =>
          match Part.ofId? id, Read.vec ⟨rest, cursor.position + 1⟩ with
          | some part, .ok content next =>
              match part.readInto content image (.start content) with
              | some (image, ⟨[], _⟩) => parseSections? count image next
              | _ => none
          | _, _ => none

/-- Reads an image. -/
def parse? (bytes : List UInt8) : Option Image := do
  let header : Except ParseError Cursor := do
    readHeaderWord version .version (← readHeaderWord magic .magic (.start bytes))
  parseSections? bytes.length {} (← header.toOption)

/-- Whether the byte of a value type is one that the machine knows: a number, a vector or a
reference. -/
def knownType (type : ValType) : Bool :=
  type.numType?.isSome || type.byte == 0x7B || type.byte == 0x70 || type.byte == 0x6F

/-- Whether everything in an image fits together: the module is valid, its types are known, its
imports say where they come from, the first function takes and gives nothing, and segments with an
address have a memory to go to. -/
def sound (image : Image) : Bool :=
  image.module.validate.isOk &&
  (image.module.types.all fun type => (type.params ++ type.results).all knownType) &&
  (image.module.imports.all fun item => item.module ≠ "") &&
  (image.start.all fun index => image.module.funcType? index = some ⟨[], []⟩) &&
  (image.segments.all fun segment => segment.address.isNone || 0 < image.module.numMemories) &&
  (image.announced.all fun count => count.toNat = image.segments.length)

end Image

end RecordWasm.Machine
