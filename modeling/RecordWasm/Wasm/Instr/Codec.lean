import RecordWasm.Wasm.Instr
import RecordWasm.Binary.Reader
import RecordWasm.Binary.Writer
import RecordWasm.Text.Basic

/-!
# Instructions as bytes

Encoding follows the immediate, decoding follows the operation: `Opcode.operand` says which operand
a byte is read with.
-/

namespace RecordWasm.Wasm

open Binary

namespace Immediate

/-- The alignment field that announces an explicit memory index. -/
def memoryFlag : UInt32 := 0x40

def encode : Immediate → List UInt8
  | .none => []
  | .block type => Write.s32 type
  | .branch index | .call index | .local index | .global index | .memory index => Write.u32 index
  | .mem arg =>
      (if arg.memory = 0 then Write.u32 arg.align
        else Write.u32 (arg.align ||| memoryFlag) ++ Write.u32 arg.memory) ++ Write.u64 arg.offset
  | .i32 value => Write.s32 value
  | .i64 value => Write.s64 value
  | .f32 bits => Write.f32 bits
  | .f64 bits => Write.f64 bits

end Immediate

def Instr.encode (instr : Instr) : List UInt8 := instr.opcode :: instr.immediate.encode

def Instr.encodeAll (instrs : List Instr) : List UInt8 := instrs.flatMap Instr.encode

/-- The memory operand of a load or store. -/
def MemArg.read : Read MemArg := do
  let align ← Read.u32
  if align &&& Immediate.memoryFlag = 0 then
    return ⟨align, ← Read.u64, 0⟩
  let memory ← Read.u32
  return ⟨align &&& ~~~ Immediate.memoryFlag, ← Read.u64, memory⟩

/-- Reads the operand that belongs to an operation. -/
def Opcode.operand : Opcode → Read Immediate
  | .block | .loop | .ifThen => return .block (← Read.s32)
  | .br | .brIf => return .branch (← Read.u32)
  | .call => return .call (← Read.u32)
  | .localGet | .localSet | .localTee => return .local (← Read.u32)
  | .globalGet | .globalSet => return .global (← Read.u32)
  | .load _ | .store _ => return .mem (← MemArg.read)
  | .memorySize | .memoryGrow => return .memory (← Read.u32)
  | .const .i32 => return .i32 (← Read.s32)
  | .const .i64 => return .i64 (← Read.s64)
  | .const .f32 => return .f32 (← Read.f32)
  | .const .f64 => return .f64 (← Read.f64)
  | _ => return .none

/-- Why a byte string is no instruction sequence. -/
inductive DecodeError where
  | read (cause : ReadError)
  | unknownOpcode (byte : UInt8) (offset : Nat)
  deriving DecidableEq, Repr

def DecodeError.message : DecodeError → String
  | .read cause => cause.message
  | .unknownOpcode byte offset => s!"unknown opcode 0x{Text.hexByte byte} at offset {offset}"

/-- Decodes at most `count` instructions, each of which takes at least one byte. -/
def Instr.decodeUpTo : (count : Nat) → Cursor → Except DecodeError (List Instr)
  | 0, _ => .ok []
  | count + 1, cursor =>
      match cursor.rest with
      | [] => .ok []
      | byte :: rest =>
          match Opcode.ofByte? byte with
          | none => .error (.unknownOpcode byte cursor.position)
          | some opcode =>
              match opcode.operand ⟨rest, cursor.position + 1⟩ with
              | .error cause _ => .error (.read cause)
              | .ok immediate next => do
                  return ⟨byte, immediate⟩ :: (← decodeUpTo count next)

/-- Decodes a byte string into the instructions it consists of. -/
def Instr.decodeAll (code : List UInt8) : Except DecodeError (List Instr) :=
  decodeUpTo code.length (.start code)

/-- The initializer of a global that starts out as an `i32` constant. -/
def Instr.i32ConstExpr (value : Int32) : List UInt8 :=
  encodeAll [i32Const value, close]

end RecordWasm.Wasm
