import RecordWasm.Wasm.ValType
import RecordWasm.Binary.Writer

/-!
# Values of the machine

A value carries its number type.  Floating-point values are their bits, so that moving one about
never changes it.  The outside of the machine sees every value as a 64-bit word.
-/

namespace RecordWasm.Machine

open Wasm

inductive Value where
  | i32 (word : UInt32)
  | i64 (word : UInt64)
  | f32 (bits : UInt32)
  | f64 (bits : UInt64)
  deriving DecidableEq, Repr

namespace Value

def type : Value → NumType
  | i32 _ => .i32
  | i64 _ => .i64
  | f32 _ => .f32
  | f64 _ => .f64

/-- The value as a word; a narrow one is filled up with zeros. -/
def word : Value → UInt64
  | i32 word => word.toUInt64
  | i64 word => word
  | f32 bits => bits.toUInt64
  | f64 bits => bits

/-- The value of a type that a word stands for; a narrow one takes the lower half. -/
def ofWord : NumType → UInt64 → Value
  | .i32, word => i32 word.toUInt32
  | .i64, word => i64 word
  | .f32, word => f32 word.toUInt32
  | .f64, word => f64 word

def zero (type : NumType) : Value := ofWord type 0

/-- The truth value of a condition. -/
def ofBool (condition : Bool) : Value := i32 (if condition then 1 else 0)

/-- The bytes that a value takes in memory, lowest first. -/
def bytes (value : Value) : List UInt8 :=
  match value with
  | i32 word | f32 word => Binary.Write.littleEndian 4 word.toNat
  | i64 word | f64 word => Binary.Write.littleEndian 8 word.toNat

@[simp] theorem type_ofWord (type : NumType) (word : UInt64) : (ofWord type word).type = type := by
  cases type <;> rfl

@[simp] theorem ofWord_type_word (value : Value) : ofWord value.type value.word = value := by
  cases value <;> simp [type, word, ofWord]

@[simp] theorem type_zero (type : NumType) : (zero type).type = type := type_ofWord type 0

end Value

/-- The number of bytes that a value of a type takes in memory. -/
def storageSize : NumType → Nat
  | .i32 | .f32 => 4
  | .i64 | .f64 => 8

/-- The number that bytes stand for, lowest first. -/
def ofLittleEndian : List UInt8 → Nat
  | [] => 0
  | byte :: rest => byte.toNat + 256 * ofLittleEndian rest

/-- The value of a type that bytes stand for. -/
def Value.ofBytes (type : NumType) (bytes : List UInt8) : Value :=
  ofWord type (ofLittleEndian bytes).toUInt64

/-- Bytes written with the lowest first read back as the number they were taken from, up to its
higher digits. -/
theorem ofLittleEndian_littleEndian (count value : Nat) :
    ofLittleEndian (Binary.Write.littleEndian count value) = value % 1 <<< (8 * count) := by
  induction count generalizing value with
  | zero => simp [ofLittleEndian, Binary.Write.littleEndian, Nat.mod_one]
  | succ count ih =>
      have hShift : 1 <<< (8 * (count + 1)) = 256 * 1 <<< (8 * count) := by
        rw [Nat.mul_add, Nat.mul_one, Nat.shiftLeft_add, Nat.shiftLeft_eq _ 8, Nat.mul_comm]
      rw [hShift, Nat.mod_mul]
      simp [ofLittleEndian, Binary.Write.littleEndian, ih]

/-- A value reads back from the bytes it takes in memory. -/
@[simp] theorem Value.ofBytes_bytes (value : Value) : ofBytes value.type value.bytes = value := by
  have hWord : ∀ word : UInt64, (word.toNat % 1 <<< 64).toUInt64 = word := by
    intro word
    have hBound := word.toNat_lt
    rw [Nat.mod_eq_of_lt (by simpa using hBound)]
    simp
  have hHalf : ∀ word : UInt32, (word.toNat % 1 <<< 32).toUInt64.toUInt32 = word := by
    intro word
    have hBound := word.toNat_lt
    rw [Nat.mod_eq_of_lt (by simpa using hBound)]
    simp
  cases value <;>
    simp only [ofBytes, type, bytes, ofWord, ofLittleEndian_littleEndian, hWord, hHalf]

/-- The number type in which the machine keeps values of a type.  A type that is no number type is
kept as a 64-bit word. -/
def kept (type : ValType) : NumType := type.numType?.getD .i64

/-- The name of a type where modules are run: a reference to an outside object has one there. -/
def typeName (type : ValType) : String := if type.byte = 0x6F then "externref" else type.name

end RecordWasm.Machine
