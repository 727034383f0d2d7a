import RecordWasm.Machine.Value
import RecordWasm.Wasm.Opcode

/-!
# Arithmetic

Integers are bit vectors: one definition serves both widths.  Floating-point operators work on the
bits of their operands.
-/

namespace RecordWasm.Machine

open Wasm

/-- What stops a run. -/
inductive Trap where
  | unreachable
  | divideByZero
  | overflow
  | outOfBounds
  deriving DecidableEq, Repr

def Trap.message : Trap → String
  | .unreachable => "unreachable"
  | .divideByZero => "integer divide by zero"
  | .overflow => "integer overflow"
  | .outOfBounds => "out of bounds memory access"

/-- Division and remainder stop at a divisor of zero, and signed division where the quotient does
not fit.  Shifts take their amount modulo the width. -/
def intApply {width : Nat} (operator : IntOperator) (left right : BitVec width) :
    Except Trap (BitVec width) :=
  let unlessZero (result : Except Trap (BitVec width)) :=
    if right = 0 then .error .divideByZero else result
  match operator with
  | .add => .ok (left + right)
  | .sub => .ok (left - right)
  | .mul => .ok (left * right)
  | .divS => unlessZero <|
      if left = BitVec.intMin width ∧ right = -1 then .error .overflow
      else .ok (left.sdiv right)
  | .divU => unlessZero (.ok (left.udiv right))
  | .remS => unlessZero (.ok (left.srem right))
  | .remU => unlessZero (.ok (left.umod right))
  | .and => .ok (left &&& right)
  | .or => .ok (left ||| right)
  | .xor => .ok (left ^^^ right)
  | .shl => .ok (left <<< (right.toNat % width))
  | .shrS => .ok (left.sshiftRight (right.toNat % width))
  | .shrU => .ok (left >>> (right.toNat % width))

def intHolds {width : Nat} (relation : IntRelation) (left right : BitVec width) : Bool :=
  match relation with
  | .eq => left == right
  | .ne => left != right
  | .ltS => left.slt right
  | .ltU => left.ult right
  | .gtS => right.slt left
  | .gtU => right.ult left
  | .leS => left.sle right
  | .leU => left.ule right
  | .geS => right.sle left
  | .geU => right.ule left

def singleApply (operator : FloatOperator) (left right : UInt32) : UInt32 :=
  let x := Float32.ofBits left
  let y := Float32.ofBits right
  match operator with
  | .add => (x + y).toBits
  | .sub => (x - y).toBits
  | .mul => (x * y).toBits
  | .div => (x / y).toBits

def doubleApply (operator : FloatOperator) (left right : UInt64) : UInt64 :=
  let x := Float.ofBits left
  let y := Float.ofBits right
  match operator with
  | .add => (x + y).toBits
  | .sub => (x - y).toBits
  | .mul => (x * y).toBits
  | .div => (x / y).toBits

def singleHolds (relation : FloatRelation) (left right : UInt32) : Bool :=
  let x := Float32.ofBits left
  let y := Float32.ofBits right
  match relation with
  | .eq => x == y
  | .ne => x != y
  | .lt => x < y
  | .gt => y < x
  | .le => x ≤ y
  | .ge => y ≤ x

def doubleHolds (relation : FloatRelation) (left right : UInt64) : Bool :=
  let x := Float.ofBits left
  let y := Float.ofBits right
  match relation with
  | .eq => x == y
  | .ne => x != y
  | .lt => x < y
  | .gt => y < x
  | .le => x ≤ y
  | .ge => y ≤ x

/-- The sign bit is cleared or flipped, whatever the value is. -/
def singleSign (operator : FloatSign) (bits : UInt32) : UInt32 :=
  match operator with
  | .abs => bits &&& 0x7FFFFFFF
  | .neg => bits ^^^ 0x80000000

def doubleSign (operator : FloatSign) (bits : UInt64) : UInt64 :=
  match operator with
  | .abs => bits &&& 0x7FFFFFFFFFFFFFFF
  | .neg => bits ^^^ 0x8000000000000000

/-- An operator with one operand; `none` if the operand has another type. -/
def applyUnary (opcode : Opcode) (operand : Value) : Option Value :=
  match opcode, operand with
  | .eqz .w32, .i32 word => some (.ofBool (word == 0))
  | .eqz .w64, .i64 word => some (.ofBool (word == 0))
  | .floatSign .w32 operator, .f32 bits => some (.f32 (singleSign operator bits))
  | .floatSign .w64 operator, .f64 bits => some (.f64 (doubleSign operator bits))
  | .wrap, .i64 word => some (.i32 word.toUInt32)
  | .extendS, .i32 word => some (.i64 word.toInt32.toInt64.toUInt64)
  | .extendU, .i32 word => some (.i64 word.toUInt64)
  | .demote, .f64 bits => some (.f32 (Float.ofBits bits).toFloat32.toBits)
  | .promote, .f32 bits => some (.f64 (Float32.ofBits bits).toFloat.toBits)
  | .convertS, .i64 word => some (.f64 word.toInt64.toFloat.toBits)
  | _, _ => none

/-- An operator with two operands; `none` if they have other types. -/
def applyBinary (opcode : Opcode) (left right : Value) : Option (Except Trap Value) :=
  match opcode, left, right with
  | .int .w32 operator, .i32 x, .i32 y =>
      some ((intApply operator x.toBitVec y.toBitVec).map fun word => .i32 ⟨word⟩)
  | .int .w64 operator, .i64 x, .i64 y =>
      some ((intApply operator x.toBitVec y.toBitVec).map fun word => .i64 ⟨word⟩)
  | .compareInt .w32 relation, .i32 x, .i32 y =>
      some (.ok (.ofBool (intHolds relation x.toBitVec y.toBitVec)))
  | .compareInt .w64 relation, .i64 x, .i64 y =>
      some (.ok (.ofBool (intHolds relation x.toBitVec y.toBitVec)))
  | .float .w32 operator, .f32 x, .f32 y => some (.ok (.f32 (singleApply operator x y)))
  | .float .w64 operator, .f64 x, .f64 y => some (.ok (.f64 (doubleApply operator x y)))
  | .compareFloat .w32 relation, .f32 x, .f32 y => some (.ok (.ofBool (singleHolds relation x y)))
  | .compareFloat .w64 relation, .f64 x, .f64 y => some (.ok (.ofBool (doubleHolds relation x y)))
  | _, _, _ => none

end RecordWasm.Machine
