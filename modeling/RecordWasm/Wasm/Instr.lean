import RecordWasm.Wasm.Opcode
import RecordWasm.Decimal.Shortest

/-!
# Instructions and their text

An instruction is the byte of its operation and an immediate operand.  The two are independent: the
encoding follows the immediate, so an instruction built by hand may pair any byte with any operand.
`Opcode.instr` and `Opcode.with` build the instructions of known operations.
-/

namespace RecordWasm.Wasm

/-- The operand of a memory access; `align` is the base-2 logarithm of the alignment. -/
structure MemArg where
  align : UInt32
  offset : UInt64
  memory : UInt32
  deriving DecidableEq, Repr

/-- The operand that follows the byte of an operation.  Floating-point constants are their bits. -/
inductive Immediate where
  | none
  | block (type : Int32)
  | branch (label : UInt32)
  | call (function : UInt32)
  | local (index : UInt32)
  | global (index : UInt32)
  | mem (arg : MemArg)
  | memory (index : UInt32)
  | i32 (value : Int32)
  | i64 (value : Int64)
  | f32 (bits : UInt32)
  | f64 (bits : UInt64)
  deriving DecidableEq, Repr

structure Instr where
  opcode : UInt8
  immediate : Immediate := .none
  deriving DecidableEq, Repr

/-- An instruction without an operand. -/
def Opcode.instr (opcode : Opcode) : Instr := ⟨opcode.byte, .none⟩

/-- An instruction with an operand. -/
def Opcode.with (opcode : Opcode) (immediate : Immediate) : Instr := ⟨opcode.byte, immediate⟩

namespace Instr

def close : Instr := Opcode.close.instr

def i32Const (value : Int32) : Instr := (Opcode.const .i32).with (.i32 value)

def i64Const (value : Int64) : Instr := (Opcode.const .i64).with (.i64 value)

def f32Const (bits : UInt32) : Instr := (Opcode.const .f32).with (.f32 bits)

def f64Const (bits : UInt64) : Instr := (Opcode.const .f64).with (.f64 bits)

def localGet (index : UInt32) : Instr := Opcode.localGet.with (.local index)

def localSet (index : UInt32) : Instr := Opcode.localSet.with (.local index)

def localTee (index : UInt32) : Instr := Opcode.localTee.with (.local index)

def globalGet (index : UInt32) : Instr := Opcode.globalGet.with (.global index)

def globalSet (index : UInt32) : Instr := Opcode.globalSet.with (.global index)

def block (type : Int32) : Instr := Opcode.block.with (.block type)

def loop (type : Int32) : Instr := Opcode.loop.with (.block type)

def ifThen (type : Int32) : Instr := Opcode.ifThen.with (.block type)

def br (label : UInt32) : Instr := Opcode.br.with (.branch label)

def brIf (label : UInt32) : Instr := Opcode.brIf.with (.branch label)

def call (function : UInt32) : Instr := Opcode.call.with (.call function)

def memorySize : Instr := Opcode.memorySize.with (.memory 0)

def memoryGrow : Instr := Opcode.memoryGrow.with (.memory 0)

/-- A load or store of the first memory. -/
def access (opcode : UInt8) (align offset : UInt32) : Instr :=
  ⟨opcode, .mem ⟨align, offset.toUInt64, 0⟩⟩

/-- Whether the instruction has the byte of the given operation. -/
def is (instr : Instr) (opcode : Opcode) : Bool := instr.opcode == opcode.byte

/-- Whether the instruction opens a structured frame. -/
def opensFrame (instr : Instr) : Bool :=
  instr.is .block || instr.is .loop || instr.is .ifThen

/-- The function a call instruction calls. -/
def callTarget? (instr : Instr) : Option UInt32 :=
  match instr.immediate with
  | .call function => if instr.is .call then some function else none
  | _ => none

/-- The alignment in bytes, as far as it fits in 32 bits. -/
def alignBytes (log2 : UInt32) : Nat := if log2 < 32 then 1 <<< log2.toNat else 0

/-- The value type a non-empty block type stands for. -/
def blockResult (type : Int32) : ValType := ⟨(type.toInt % 128).toNat.toUInt8⟩

/-- The operand as text, with a blank in front of it. -/
def operandText : Immediate → String
  | .none => ""
  | .block type => if type = voidBlock then "" else s!" (result {(blockResult type).name})"
  | .branch label => s!" {label}"
  | .call function => s!" {function}"
  | .local index => s!" {index}"
  | .global index => s!" {index}"
  | .mem arg => s!" offset={arg.offset} align={alignBytes arg.align}"
  | .memory _ => ""
  | .i32 value => s!" {value}"
  | .i64 value => s!" {value}"
  | .f32 bits => " " ++ Decimal.singleText bits
  | .f64 bits => " " ++ Decimal.doubleText bits

/-- The instruction in the style of the text format, such as `br_if 1`. -/
def text (instr : Instr) : String := Opcode.nameOf instr.opcode ++ operandText instr.immediate

/-- The lines of a listing, each indented by the number of frames around it. -/
def listingFrom : (depth : Nat) → List Instr → String
  | _, [] => ""
  | depth, instr :: rest =>
      let depth := if instr.is .close || instr.is .otherwise then depth - 1 else depth
      let inner := if instr.opensFrame || instr.is .otherwise then depth + 1 else depth
      String.join (List.replicate depth "  ") ++ instr.text ++ "\n" ++ listingFrom inner rest

/-- One instruction a line, indented by nesting depth. -/
def listing (instrs : List Instr) : String := listingFrom 0 instrs

end Instr

end RecordWasm.Wasm
