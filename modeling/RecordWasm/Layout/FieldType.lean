import RecordWasm.Syntax.Ty
import RecordWasm.Wasm.ValType

/-!
# How fields are stored
-/

namespace RecordWasm.Layout

/-- The stored form of a field.  `unknown` is a code without a form of its own; it takes a word. -/
inductive FieldType where
  | i32 | i64 | f32 | f64 | bool | ptr | unknown
  deriving DecidableEq, Repr

namespace FieldType

def ofCode : UInt8 → FieldType
  | 0 => i32
  | 1 => i64
  | 2 => f32
  | 3 => f64
  | 4 => bool
  | 5 => ptr
  | _ => unknown

/-- The size in bytes. -/
def size : FieldType → UInt32
  | i64 | f64 => 8
  | _ => 4

/-- Every field is aligned to its size. -/
def align (type : FieldType) : UInt32 := type.size

/-- The base-2 logarithm of the alignment. -/
def alignLog2 (type : FieldType) : UInt32 := if type.align = 8 then 3 else 2

/-- The type of the value a load of the field leaves. -/
def numType : FieldType → Wasm.NumType
  | i64 => .i64
  | f32 => .f32
  | f64 => .f64
  | _ => .i32

def isReference : FieldType → Bool
  | ptr => true
  | _ => false

def name : FieldType → String
  | i32 => "i32"
  | i64 => "i64"
  | f32 => "f32"
  | f64 => "f64"
  | bool => "bool"
  | ptr => "ptr"
  | unknown => "unknown"

/-- The stored form of a type; `void` has none. -/
def ofTy? : Syntax.Ty → Option FieldType
  | .void => none
  | .i32 | .enum _ => some i32
  | .i64 => some i64
  | .f32 => some f32
  | .f64 => some f64
  | .bool => some bool
  | .record _ | .string => some ptr

end FieldType

/-- The first multiple of a power of two at or above an offset, in 32-bit arithmetic; an alignment
of zero leaves the offset alone. -/
def alignTo (offset align : UInt32) : UInt32 :=
  if align = 0 then offset else (offset + align - 1) &&& ~~~(align - 1)

end RecordWasm.Layout
