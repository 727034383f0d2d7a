import RecordWasm.Lowering.Typing
import RecordWasm.Decimal.Reading

/-!
# Operators and constants
-/

namespace RecordWasm.Lowering

open Syntax Layout Wasm

/-- The operations on integers of a width. -/
def intOperator? (width : Width) : String → Option Opcode
  | "+" => some (.int width .add)
  | "-" => some (.int width .sub)
  | "*" => some (.int width .mul)
  | "/" => some (.int width .divS)
  | "%" => some (.int width .remS)
  | "==" => some (.compareInt width .eq)
  | "!=" => some (.compareInt width .ne)
  | "<" => some (.compareInt width .ltS)
  | "<=" => some (.compareInt width .leS)
  | ">" => some (.compareInt width .gtS)
  | ">=" => some (.compareInt width .geS)
  | _ => none

/-- The operations on floating-point numbers of a width; there is no remainder. -/
def floatOperator? (width : Width) : String → Option Opcode
  | "+" => some (.float width .add)
  | "-" => some (.float width .sub)
  | "*" => some (.float width .mul)
  | "/" => some (.float width .div)
  | "==" => some (.compareFloat width .eq)
  | "!=" => some (.compareFloat width .ne)
  | "<" => some (.compareFloat width .lt)
  | "<=" => some (.compareFloat width .le)
  | ">" => some (.compareFloat width .gt)
  | ">=" => some (.compareFloat width .ge)
  | _ => none

/-- The operation that an operator stands for at a type. -/
def operator? (type : Ty) (op : String) : Option Opcode :=
  match numType? type with
  | some .i64 => intOperator? .w64 op
  | some .f32 => floatOperator? .w32 op
  | some .f64 => floatOperator? .w64 op
  | _ => intOperator? .w32 op

/-- The operation that tests two values of a type for equality. -/
def equality (type : Ty) : Opcode :=
  match numType? type with
  | some .i64 => .compareInt .w64 .eq
  | some .f32 => .compareFloat .w32 .eq
  | some .f64 => .compareFloat .w64 .eq
  | _ => .compareInt .w32 .eq

/-- The width of the integers that represent a type. -/
def intWidth (type : Ty) : Width :=
  match type with
  | .i64 => .w64
  | _ => .w32

/-- An integer as a constant of a type. -/
def constInt (type : Ty) (value : Int64) : Instr :=
  match type with
  | .i64 => .i64Const value
  | .f32 => .f32Const (Ieee.single.ofInt value.toInt).toUInt32
  | .f64 => .f64Const (Ieee.double.ofInt value.toInt).toUInt64
  | _ => .i32Const value.toInt32

/-- A floating-point number as a constant of a type. -/
def constFloat (type : Ty) (bits : UInt64) : Instr :=
  match type with
  | .f32 => .f32Const (Decimal.narrow bits)
  | _ => .f64Const bits

/-- The load that reads a field of the record whose address is on the stack. -/
def loadInstr (field : Field) : Instr :=
  .access (Opcode.load field.type.numType).byte field.type.alignLog2 field.offset

/-- The store that writes a field of the record whose address is below the value on the stack. -/
def storeInstr (field : Field) : Instr :=
  .access (Opcode.store field.type.numType).byte field.type.alignLog2 field.offset

/-- Allocates a record and keeps its address in a local; an allocation that failed traps. -/
def allocCode (env : Env) (decl : String) (record : Record) (address : UInt32) :
    Except Failure Code :=
  match Heap.checkAlign record.align with
  | .error cause =>
      .error (Report.because
        { phase := .codegen, kind := .invalidConfig, decl, value := some (toString record.align),
          detail := s!"record {record.name} has alignment {record.align}" } cause)
  | .ok () =>
      .ok [.i32Const record.size.toInt32, .i32Const record.align.toInt32, .call env.heap.allocFunc,
        .localTee address, (Opcode.eqz .w32).instr, .ifThen voidBlock,
        Opcode.unreachable.instr, .close]

end RecordWasm.Lowering
