import Mathlib.Data.PFun
import RecordWasm.Wasm.Module.Reserve

/-!
# Reading and validation with crashes

Reading and validation once more, in a form in which they may crash or run for ever.  Room is asked
for as `Reserving` asks for it, of a machine that has only so much; operands are taken to be of the
kind of their operation, lists are accessed by index, descriptions of imports are taken to be there,
and loops go on until their own condition stops them.  Whatever can neither crash nor go on for ever
is shared with the functions that do not.
-/

namespace RecordWasm.Validation

open Wasm Binary

/-- A computation that may fail with a cause, crash, or never end. -/
abbrev Attempt (ε : Type) := ExceptT ε (ExceptT Crash Option)

namespace Attempt

variable {ε δ α σ : Type}

/-- A computation that ends without a crash. -/
def of (result : Except ε α) : Attempt ε α := some (.ok result)

def crash (cause : Crash) : Attempt ε α := some (.error cause)

/-- A computation that ends, if the program is not stopped. -/
def ofHalt : Except (Halt ε) α → Attempt ε α
  | .ok value => of (.ok value)
  | .error (.failed cause) => of (.error cause)
  | .error (.crash cause) => crash cause

/-- Gives failures another cause. -/
def mapError (describe : ε → δ) (attempt : Attempt ε α) : Attempt δ α := attempt.adapt describe

/-- Runs a reader; `describe` is told where a failure leaves the cursor. -/
def run (read : EStateM ε Cursor α) (describe : Cursor → ε → δ) (cursor : Cursor) :
    Attempt δ (α × Cursor) :=
  match read cursor with
  | .ok value next => of (.ok (value, next))
  | .error cause stopped => of (.error (describe stopped cause))

/-- The element at a place. -/
def get (items : List α) (place : Nat) : Attempt ε α :=
  match items[place]? with
  | some item => of (.ok item)
  | none => crash (.index place)

/-- What one round comes to: the end of its loop, or the state of the next round. -/
def settle : Except Crash (Except ε (α ⊕ σ)) → Except Crash (Except ε α) ⊕ σ
  | .ok (.ok (.inl value)) => .inl (.ok (.ok value))
  | .ok (.ok (.inr next)) => .inr next
  | .ok (.error cause) => .inl (.ok (.error cause))
  | .error cause => .inl (.error cause)

/-- The rounds of a loop as a partial function. -/
def rounds (round : σ → Attempt ε (α ⊕ σ)) : σ →. Except Crash (Except ε α) ⊕ σ :=
  fun state => (ExceptT.run (round state)).run.map settle

open Classical in
/-- Goes round from state to state until a round ends the loop, which none may ever do. -/
noncomputable def loop (round : σ → Attempt ε (α ⊕ σ)) (state : σ) : Attempt ε α :=
  ((rounds round).fix state).toOption

end Attempt

end RecordWasm.Validation

namespace RecordWasm.Wasm.Immediate

def label? : Immediate → Option UInt32
  | .branch label => some label
  | _ => .none

def function? : Immediate → Option UInt32
  | .call function => some function
  | _ => .none

def local? : Immediate → Option UInt32
  | .local index => some index
  | _ => .none

def global? : Immediate → Option UInt32
  | .global index => some index
  | _ => .none

end RecordWasm.Wasm.Immediate

namespace RecordWasm.Validation.Guarded

open Wasm Binary Attempt

/-- Reads one more group of a number onto `value`, the group weighing `2 ^ shift`; `last` makes the
number of the last group.  A failure tells where it leaves the cursor. -/
def groupsRound {α : Type} (last : UInt8 → (shift value : Nat) → α) (bits : Nat)
    (state : Nat × Nat × Cursor) :
    Attempt (Cursor × ReadError) (α × Cursor ⊕ Nat × Nat × Cursor) := do
  let (shift, value, cursor) := state
  let (group, next) ← run Read.byte Prod.mk cursor
  let value := value + (group.toNat % 128) <<< shift
  if group < 0x80 then return .inl (last group shift value, next)
  let shift := shift + 7
  if bits + 7 ≤ shift then throw (next, .overflow next.position)
  return .inr (shift, value, next)

/-- The result of the last group of an unsigned number. -/
def unsignedLast (_ : UInt8) (_ value : Nat) : Nat := value

/-- The result of the last group of a signed number, whose second highest bit is the sign. -/
def signedLast (group : UInt8) (shift value : Nat) : Int :=
  if group.toNat % 128 < 64 then value else (value : Int) - (1 <<< (shift + 7) : Nat)

/-- Reads a number in groups, until the last group or one that does not fit. -/
noncomputable def readGroups {α : Type} (last : UInt8 → (shift value : Nat) → α) (bits : Nat)
    (cursor : Cursor) : Attempt (Cursor × ReadError) (α × Cursor) :=
  loop (groupsRound last bits) (0, 0, cursor)

/-- Writes one more group of what is left of a number. -/
def unsignedRound (state : List UInt8 × Nat) : Attempt Empty (List UInt8 ⊕ List UInt8 × Nat) :=
  let (written, value) := state
  let group := value % 128
  let rest := value / 128
  if rest = 0 then return .inl (written ++ [group.toUInt8])
  else return .inr (written ++ [(group + 128).toUInt8], rest)

/-- As `unsignedRound`; the second highest bit of the last group is the sign. -/
def signedRound (state : List UInt8 × Int) : Attempt Empty (List UInt8 ⊕ List UInt8 × Int) :=
  let (written, value) := state
  let group := (value % 128).toNat
  let rest := value / 128
  if rest = 0 ∧ group < 64 ∨ rest = -1 ∧ 64 ≤ group then return .inl (written ++ [group.toUInt8])
  else return .inr (written ++ [(group + 128).toUInt8], rest)

/-- Writes a number in groups, until nothing is left of it. -/
noncomputable def writeUnsigned (value : UInt64) : Attempt Empty (List UInt8) :=
  loop unsignedRound ([], value.toNat)

noncomputable def writeSigned (value : Int64) : Attempt Empty (List UInt8) :=
  loop signedRound ([], value.toInt)

/-- Decodes one more instruction if the position is inside the code. -/
def decodeRound (length : Nat) (state : List Instr × Cursor) :
    Attempt DecodeError (List Instr ⊕ List Instr × Cursor) := do
  let (instrs, cursor) := state
  if cursor.position < length then
    let (byte, next) ← run Read.byte (fun _ => DecodeError.read) cursor
    match Opcode.ofByte? byte with
    | none => throw (.unknownOpcode byte (next.position - 1))
    | some opcode =>
        let (immediate, next) ← run opcode.operand (fun _ => DecodeError.read) next
        return .inr (instrs ++ [⟨byte, immediate⟩], next)
  else return .inl instrs

noncomputable def decode (code : List UInt8) : Attempt DecodeError (List Instr) :=
  loop (decodeRound code.length) ([], .start code)

/-- The operand of an instruction, taken to be of the given kind. -/
def operand {ε : Type} (kind? : Immediate → Option UInt32) (instr : Instr) : Attempt ε UInt32 :=
  match kind? instr.immediate with
  | some value => of (.ok value)
  | none => crash (.assertion instr)

/-- The type of a global among the given imports and the globals of the module behind them. -/
def globalType {ε : Type} (module : Module) :
    List Import → (index : Nat) → Attempt ε (Option GlobalType)
  | [], index =>
      if module.globals.length ≤ index then return none
      else return some (← get module.globals index).type
  | item :: rest, index =>
      match item.desc with
      | .global type => if index = 0 then return type else globalType module rest (index - 1)
      | _ => globalType module rest index

/-- Checks one instruction inside `depth` open frames and gives the number open after it. -/
def step (module : Module) (context : BodyContext) (pc depth : Nat) (instr : Instr) :
    Attempt BodyError Nat :=
  match Opcode.ofByte? instr.opcode with
  | some .block | some .loop | some .ifThen => return depth + 1
  | some .otherwise => do
      of (require (2 ≤ depth) (.elseOutside pc))
      return depth
  | some .close => return depth - 1
  | some .br | some .brIf => do
      let label ← operand Immediate.label? instr
      of (require (label.toNat < depth) (.branchDepth pc instr label depth))
      return depth
  | some .call => do
      let function ← operand Immediate.function? instr
      of (require (function.toNat < context.funcs) (.callTarget pc function))
      return depth
  | some .localGet | some .localSet | some .localTee => do
      let index ← operand Immediate.local? instr
      of (require (index.toNat < context.locals) (.localIndex pc instr context.locals))
      return depth
  | some .globalGet => do
      let index ← operand Immediate.global? instr
      of (require (index.toNat < context.globals.length) (.globalIndex pc instr))
      return depth
  | some .globalSet => do
      let index ← operand Immediate.global? instr
      of (require (index.toNat < context.globals.length) (.globalIndex pc instr))
      match ← globalType module module.imports index.toNat with
      | some type => of (require type.mutable (.immutableGlobal pc index))
      | none => crash (.undescribed index)
      return depth
  | some (.load _) | some (.store _) | some .memorySize | some .memoryGrow => do
      of (require context.hasMemory (.noMemory pc instr))
      return depth
  | _ => return depth

/-- Checks instructions from number `pc` on. -/
def check (module : Module) (context : BodyContext) :
    (pc depth : Nat) → List Instr → Attempt BodyError Unit
  | _, depth, [] => of (require (depth = 0) (.unterminated depth))
  | pc, depth, instr :: rest => do
      of (require (depth ≠ 0) (.afterEnd pc instr))
      let depth ← step module context pc depth instr
      check module context (pc + 1) depth rest

noncomputable def validateBody (module : Module) (type : FuncType) (body : FuncBody) :
    Attempt BodyError Unit := do
  let instrs ← mapError .decode (decode body.code)
  check module (module.bodyContext type body) 0 1 instrs

/-- Checks the bodies from the one at a place on, each against the type of the function there. -/
noncomputable def validateBodies (module : Module) :
    (place : Nat) → List FuncBody → Attempt ValidationError Unit
  | _, [] => return
  | place, body :: rest => do
      let type ← get module.types (← get module.funcs place).toNat
      mapError (.function (module.importedFuncs.length + place)) (validateBody module type body)
      validateBodies module (place + 1) rest

/-- Checks that an initializer is a constant of the type of its global. -/
noncomputable def validateGlobal (item : Global) : Attempt InitError Unit := do
  let instrs ← mapError .decode (decode item.init)
  of (require (instrs.length = 2) .notSingle)
  of (require ((← get instrs 1).opcode = Opcode.close.byte) .notSingle)
  let constant ← get instrs 0
  match Opcode.ofByte? constant.opcode with
  | some (.const type) =>
      of (require (type.valType = item.type.valType) (.mismatch type.valType item.type.valType))
  | _ => throw (.unsupported constant.opcode)

noncomputable def validateGlobals : (index : Nat) → List Global → Attempt ValidationError Unit
  | _, [] => return
  | index, item :: rest => do
      mapError (.globalInit index) (validateGlobal item)
      validateGlobals (index + 1) rest

noncomputable def validate (module : Module) : Attempt ValidationError Unit := do
  of module.validateTypeIndices
  of (module.validateExportsFrom 0 [] module.exports)
  of (require (module.code.length = module.funcs.length)
    (.codeCount module.code.length module.funcs.length))
  of module.validateMemories
  validateGlobals 0 module.globals
  validateBodies module 0 module.code

/-- Reads one section after the other, as long as there are any. -/
noncomputable def readSections (room : Nat) (state : UInt8 × Module × Cursor) :
    Attempt ParseError Module :=
  loop (fun state => ofHalt (Reserving.readSection room state)) state

noncomputable def parse (room : Nat) (bytes : List UInt8) : Attempt ParseError Module := do
  let cursor ← of (readHeaderWord magic .magic (.start bytes))
  let cursor ← of (readHeaderWord version .version cursor)
  readSections room (0, {}, cursor)

/-- Reads a module and checks it, on a machine that has `room` bytes for what it asks for. -/
noncomputable def parseValid (room : Nat) (bytes : List UInt8) : Attempt LoadError Module := do
  let module ← mapError .parse (parse room bytes)
  mapError .invalid (validate module)
  return module

end RecordWasm.Validation.Guarded
