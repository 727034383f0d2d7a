/-!
# Writing the binary format

Every writer maps a value to the bytes that stand for it; larger encodings are concatenations.
Integers are written as LEB128 numbers of the fewest groups.
-/

namespace RecordWasm.Binary.Write

/-- The LEB128 form of a number of at most `more + 1` groups. -/
def unsignedGroups : (more value : Nat) → List UInt8
  | 0, value => [(value % 128).toUInt8]
  | more + 1, value =>
      if value < 128 then [value.toUInt8]
      else (value % 128 + 128).toUInt8 :: unsignedGroups more (value / 128)

/-- The signed LEB128 form of a number of at most `more + 1` groups. -/
def signedGroups : (more : Nat) → (value : Int) → List UInt8
  | 0, value => [(value % 128).toNat.toUInt8]
  | more + 1, value =>
      if -64 ≤ value ∧ value < 64 then [(value % 128).toNat.toUInt8]
      else ((value % 128).toNat + 128).toUInt8 :: signedGroups more (value / 128)

def u64 (value : UInt64) : List UInt8 := unsignedGroups 9 value.toNat

def u32 (value : UInt32) : List UInt8 := u64 value.toUInt64

def s64 (value : Int64) : List UInt8 := signedGroups 9 value.toInt

def s32 (value : Int32) : List UInt8 := s64 value.toInt64

/-- The `count` lowest base-256 digits of a number, lowest first. -/
def littleEndian : (count value : Nat) → List UInt8
  | 0, _ => []
  | count + 1, value => value.toUInt8 :: littleEndian count (value / 256)

def u32le (value : UInt32) : List UInt8 := littleEndian 4 value.toNat

/-- A single-precision number, given by its bits. -/
def f32 (bits : UInt32) : List UInt8 := littleEndian 4 bits.toNat

/-- A double-precision number, given by its bits. -/
def f64 (bits : UInt64) : List UInt8 := littleEndian 8 bits.toNat

/-- A byte vector behind its length, the framing of sections and function bodies. -/
def vec (content : List UInt8) : List UInt8 := u32 content.length.toUInt32 ++ content

/-- A text behind its length in bytes. -/
def name (text : String) : List UInt8 := vec text.toUTF8.toList

/-- A sequence of items behind its length. -/
def sequence {α : Type} (item : α → List UInt8) (items : List α) : List UInt8 :=
  u32 items.length.toUInt32 ++ items.flatMap item

end RecordWasm.Binary.Write
