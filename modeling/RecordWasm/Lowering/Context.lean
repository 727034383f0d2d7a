import RecordWasm.Lowering.Env

/-!
# The place where code is generated

A context tells what a piece of source stands in: the function, the names in scope, the frames that
are open and the loop that `break` and `continue` refer to.  Generating code hands out slots for
locals, which are never used twice, and may fail.
-/

namespace RecordWasm.Lowering

open Syntax Layout Wasm

/-- The name of the receiver inside methods. -/
def selfName : String := "self"

/-- A local of the function. -/
structure Slot where
  index : UInt32
  type : Ty
  deriving DecidableEq, Repr

/-- The frames that `break` and `continue` leave, numbered from the outermost. -/
structure LoopTargets where
  leave : Nat
  next : Nat
  deriving DecidableEq, Repr

structure Context where
  env : Env
  /-- The name of the function, with its receiver if it is a method. -/
  name : String
  /-- The record whose method the function is, empty for a free function. -/
  receiver : String := ""
  result : Ty
  /-- The names in scope, innermost first. -/
  scope : List (String × Slot) := []
  /-- The number of open frames, that of the function not counted. -/
  frames : Nat := 0
  loop : Option LoopTargets := none

namespace Context

def lookup? (context : Context) (name : String) : Option Slot :=
  (context.scope.find? fun entry => entry.1 == name).map Prod.snd

def bind (context : Context) (name : String) (slot : Slot) : Context :=
  { context with scope := (name, slot) :: context.scope }

/-- The context inside one more frame. -/
def inFrame (context : Context) : Context := { context with frames := context.frames + 1 }

/-- The label of an open frame, counted from the innermost. -/
def label (context : Context) (frame : Nat) : UInt32 := (context.frames - 1 - frame).toUInt32

def report (context : Context) (pos : Position) (kind : Kind) (detail : String) : Report :=
  { phase := .codegen, kind, decl := context.name, pos, detail }

end Context

/-- The slots of a function: how many parameters it has and the types of the locals behind them. -/
structure Slots where
  params : Nat := 0
  locals : List NumType := []
  deriving DecidableEq, Repr

/-- Generating code hands out slots and may fail. -/
abbrev Gen := StateT Slots (Except Failure)

/-- Hands out a slot for a value of a type. -/
def newSlot (type : Ty) : Gen Slot := do
  let slots ← get
  let index := slots.params + slots.locals.length
  set { slots with locals := slots.locals ++ [(numType? type).getD .i32] }
  return ⟨index.toUInt32, type⟩

namespace Context

def fail {α : Type} (context : Context) (pos : Position) (kind : Kind) (detail : String) : Gen α :=
  throw (context.report pos kind detail).failure

/-- Something that has no code. -/
def unsupported {α : Type} (context : Context) (pos : Position) (construct : String) : Gen α :=
  throw { context.report pos .unsupported construct with value := some construct }.failure

def mismatch {α : Type} (context : Context) (pos : Position) (want got : Ty) : Gen α :=
  throw { context.report pos .typeMismatch s!"expected {want.text}, got {got.text}" with
    value := some got.text }.failure

end Context

abbrev Code := List Instr

/-- The code of an expression and the type of the value it leaves. -/
structure Lowered where
  code : Code
  type : Ty

end RecordWasm.Lowering
