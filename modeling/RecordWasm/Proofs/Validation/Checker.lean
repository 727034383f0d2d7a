import RecordWasm.Machine.Engine

/-!
# Checking operand types

The algorithm by which operand types are checked one instruction after the other.  It keeps a stack
of operand types and a stack of open frames.  Behind a jump the rest of a frame is never reached:
its operands may then be taken from below the ones that are known, and have any type.
-/

namespace RecordWasm.Validation

open Wasm

/-- What the instructions of a function may refer to. -/
structure Scope where
  locals : List ValType
  types : List FuncType
  function? : UInt32 → Option FuncType
  global? : UInt32 → Option GlobalType
  memories : Nat

/-- What the functions of a module may refer to. -/
def Scope.ofModule (module : Module) (locals : List ValType) : Scope where
  locals := locals
  types := module.types
  function? := module.funcType?
  global? := module.globalType?
  memories := module.numMemories

/-- The type of an operand, which is not known in code that is never reached. -/
abbrev Operand := Option ValType

/-- An open frame: what opened it, the values it takes and leaves, how many operands are below it,
and whether the code that follows is never reached. -/
structure Frame where
  opcode : Opcode
  takes : List ValType
  leaves : List ValType
  height : Nat
  unreachable : Bool := false
  deriving DecidableEq, Repr

/-- The types of the values that a branch to a frame carries. -/
def Frame.label (frame : Frame) : List ValType :=
  if frame.opcode = .loop then frame.takes else frame.leaves

/-- The operands, latest first, and the open frames, innermost first. -/
structure Checker where
  operands : List Operand
  frames : List Frame
  deriving DecidableEq, Repr

namespace Checker

def push (checker : Checker) (type : Operand) : Checker :=
  { checker with operands := type :: checker.operands }

/-- Puts operands on the stack, the last of them on top. -/
def pushAll (checker : Checker) (types : List ValType) : Checker :=
  { checker with operands := types.reverse.map some ++ checker.operands }

/-- Takes the operand on top, which has to belong to the innermost frame. -/
def pop? (checker : Checker) : Option (Operand × Checker) :=
  match checker.frames, checker.operands with
  | [], _ => none
  | frame :: _, operands =>
      if operands.length = frame.height then
        if frame.unreachable then some (none, checker) else none
      else
        match operands with
        | [] => none
        | top :: below => some (top, { checker with operands := below })

/-- Takes an operand of a type. -/
def take? (checker : Checker) (type : ValType) : Option Checker := do
  let (operand, checker) ← checker.pop?
  if operand = none ∨ operand = some type then return checker else none

/-- Takes operands of types, given from the top downwards. -/
def takeDown? (checker : Checker) : List ValType → Option Checker
  | [] => some checker
  | type :: rest => do (← checker.take? type).takeDown? rest

/-- Takes operands of types, the last of which is on top. -/
def takeAll? (checker : Checker) (types : List ValType) : Option Checker :=
  checker.takeDown? types.reverse

/-- Opens a frame whose first operands are the values it takes. -/
def enter (checker : Checker) (opcode : Opcode) (takes leaves : List ValType) : Checker :=
  { checker with
    frames := ⟨opcode, takes, leaves, checker.operands.length, false⟩ :: checker.frames }.pushAll
    takes

/-- Closes the innermost frame, which has to leave its values and nothing else. -/
def leave? (checker : Checker) : Option (Frame × Checker) :=
  match checker.frames with
  | [] => none
  | frame :: outer => do
      let checker ← checker.takeAll? frame.leaves
      if checker.operands.length = frame.height then
        return (frame, { checker with frames := outer })
      else none

/-- The rest of the innermost frame is never reached. -/
def stop? (checker : Checker) : Option Checker :=
  match checker.frames with
  | [] => none
  | frame :: outer =>
      some ⟨checker.operands.drop (checker.operands.length - frame.height),
        { frame with unreachable := true } :: outer⟩

end Checker

/-- The values that a block takes and leaves. -/
def Scope.block? (scope : Scope) (type : Int32) : Option (List ValType × List ValType) :=
  if type = voidBlock then some ([], [])
  else if type < 0 then
    (NumType.all.find? fun number => number.blockType == type).map fun number =>
      ([], [number.valType])
  else (scope.types[type.toInt.toNat]?).map fun sig => (sig.params, sig.results)

/-- The operands of an operation on numbers, the last of which is on top, and its result. -/
def operation? : Opcode → Option (List NumType × NumType)
  | .eqz width => some ([width.intType], .i32)
  | .compareInt width _ => some ([width.intType, width.intType], .i32)
  | .compareFloat width _ => some ([width.floatType, width.floatType], .i32)
  | .int width _ => some ([width.intType, width.intType], width.intType)
  | .floatSign width _ => some ([width.floatType], width.floatType)
  | .float width _ => some ([width.floatType, width.floatType], width.floatType)
  | .wrap => some ([.i64], .i32)
  | .extendS | .extendU => some ([.i32], .i64)
  | .demote => some ([.f64], .f32)
  | .promote => some ([.f32], .f64)
  | .convertS => some ([.i64], .f64)
  | _ => none

/-- An access of a memory that is there, aligned to at most its size and within 32-bit addresses. -/
def Scope.admits (scope : Scope) (type : NumType) (arg : MemArg) : Bool :=
  arg.memory.toNat < scope.memories && arg.align ≤ Machine.naturalAlign type &&
    arg.offset ≤ 0xFFFFFFFF

/-- The type of a constant. -/
def constant? : NumType → Immediate → Option ValType
  | .i32, .i32 _ => some .i32
  | .i64, .i64 _ => some .i64
  | .f32, .f32 _ => some .f32
  | .f64, .f64 _ => some .f64
  | _, _ => none

namespace Checker

/-- Checks an operation with its immediate operand. -/
def check? (scope : Scope) (checker : Checker) : Opcode → Immediate → Option Checker
  | .unreachable, .none => checker.stop?
  | .nop, .none => some checker
  | .block, .block type => do
      let (takes, leaves) ← scope.block? type
      return (← checker.takeAll? takes).enter .block takes leaves
  | .loop, .block type => do
      let (takes, leaves) ← scope.block? type
      return (← checker.takeAll? takes).enter .loop takes leaves
  | .ifThen, .block type => do
      let (takes, leaves) ← scope.block? type
      return (← (← checker.take? .i32).takeAll? takes).enter .ifThen takes leaves
  | .otherwise, .none => do
      let (frame, checker) ← checker.leave?
      if frame.opcode = .ifThen then return checker.enter .otherwise frame.takes frame.leaves
      else none
  | .close, .none => do
      let (frame, checker) ← checker.leave?
      -- A conditional without an alternative has to leave what it takes.
      if frame.opcode = .ifThen ∧ frame.takes ≠ frame.leaves then none
      else return checker.pushAll frame.leaves
  | .br, .branch label => do
      let frame ← checker.frames[label.toNat]?
      (← checker.takeAll? frame.label).stop?
  | .brIf, .branch label => do
      let frame ← checker.frames[label.toNat]?
      return (← (← checker.take? .i32).takeAll? frame.label).pushAll frame.label
  | .ret, .none => do
      let frame ← checker.frames.getLast?
      (← checker.takeAll? frame.leaves).stop?
  | .call, .call function => do
      let type ← scope.function? function
      return (← checker.takeAll? type.params).pushAll type.results
  | .drop, .none => do return (← checker.pop?).2
  | .select, .none => do
      let (second, checker) ← (← checker.take? .i32).pop?
      let (first, checker) ← checker.pop?
      if first = none ∨ second = none ∨ first = second then return checker.push (first <|> second)
      else none
  | .localGet, .local index => do return checker.push (some (← scope.locals[index.toNat]?))
  | .localSet, .local index => do checker.take? (← scope.locals[index.toNat]?)
  | .localTee, .local index => do
      let type ← scope.locals[index.toNat]?
      return (← checker.take? type).push (some type)
  | .globalGet, .global index => do return checker.push (some (← scope.global? index).valType)
  | .globalSet, .global index => do
      let type ← scope.global? index
      if type.mutable then checker.take? type.valType else none
  | .load type, .mem arg =>
      if scope.admits type arg then do return (← checker.take? .i32).push (some type.valType)
      else none
  | .store type, .mem arg =>
      if scope.admits type arg then do (← checker.take? type.valType).take? .i32 else none
  | .memorySize, .memory index =>
      if index.toNat < scope.memories then some (checker.push (some .i32)) else none
  | .memoryGrow, .memory index =>
      if index.toNat < scope.memories then do return (← checker.take? .i32).push (some .i32)
      else none
  | .const type, immediate => do return checker.push (some (← constant? type immediate))
  | opcode, .none => do
      let (operands, result) ← operation? opcode
      return (← checker.takeAll? (operands.map NumType.valType)).push (some result.valType)
  | _, _ => none

/-- Checks an instruction inside an open frame. -/
def step? (scope : Scope) (checker : Checker) (instr : Instr) : Option Checker := do
  checker.check? scope (← Opcode.ofByte? instr.opcode) instr.immediate

/-- Checks instructions; none may follow when the outermost frame is closed. -/
def run? (scope : Scope) (checker : Checker) : List Instr → Option Checker
  | [] => some checker
  | instr :: rest =>
      if checker.frames.isEmpty then none else do (← checker.step? scope instr).run? scope rest

end Checker

/-- Whether a body passes: it leaves the results of its function and closes all frames. -/
def valid (scope : Scope) (results : List ValType) (instrs : List Instr) : Bool :=
  match Checker.run? scope ⟨[], [⟨.block, [], results, 0, false⟩]⟩ instrs with
  | some checker => checker.frames.isEmpty
  | none => false

end RecordWasm.Validation
