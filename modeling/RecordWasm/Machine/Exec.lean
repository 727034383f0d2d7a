import RecordWasm.Machine.Code
import RecordWasm.Machine.Memory
import RecordWasm.Machine.Numeric

/-!
# Running code

`State.perform` does the work of an instruction without control flow.  `exec` runs structured code;
its fuel counts steps, and a run that uses it up is told apart from one that ends.  The stack is a
list with its top in front.  What a run changed in the store stays changed when it traps.
-/

namespace RecordWasm.Machine

open Wasm

/-- A call that left the machine. -/
structure HostCall where
  name : String
  arguments : List Value
  deriving DecidableEq, Repr

/-- What outlives a call.  The calls to the outside are kept latest first. -/
structure Store where
  globals : List Value := []
  memory : Option Memory := none
  calls : List HostCall := []
  deriving Repr

/-- A function of an instance: one of the outside, which always gives the same answer, or code. -/
inductive Function where
  | hosted (name : String) (type : FuncType) (answer : List Value)
  | coded (type : FuncType) (locals : List ValType) (body : List Step)
  deriving Repr

def Function.type : Function → FuncType
  | hosted _ type _ => type
  | coded type _ _ => type

/-- A point of a run inside one function. -/
structure State where
  store : Store
  locals : List Value
  stack : List Value
  deriving Repr

/-- Why an instruction does not end normally.  `stuck` stands for operands that are missing or of
the wrong type. -/
inductive Fault where
  | trap (cause : Trap)
  | stuck
  deriving DecidableEq, Repr

namespace State

def push (state : State) (value : Value) : State := { state with stack := value :: state.stack }

/-- The state inside a frame that takes values. -/
def enter (state : State) (takes : Nat) : State :=
  { state with stack := state.stack.take takes }

/-- The state behind a frame: of what the frame has on its stack some values are left. -/
def leave (state : State) (takes leaves : Nat) (inner : State) : State :=
  { inner with stack := inner.stack.take leaves ++ state.stack.drop takes }

/-- The address that a memory instruction refers to. -/
def effective (base : UInt32) (arg : MemArg) : Nat := base.toNat + arg.offset.toNat

def load (state : State) (type : NumType) (arg : MemArg) : Except Fault State :=
  match state.store.memory, state.stack with
  | some memory, .i32 base :: below =>
      match memory.read? (effective base arg) (storageSize type) with
      | some bytes => .ok { state with stack := .ofBytes type bytes :: below }
      | none => .error (.trap .outOfBounds)
  | _, _ => .error .stuck

def save (state : State) (type : NumType) (arg : MemArg) : Except Fault State :=
  match state.store.memory, state.stack with
  | some memory, value :: .i32 base :: below =>
      if value.type = type then
        match memory.write? (effective base arg) value.bytes with
        | some memory =>
            .ok { state with store := { state.store with memory := some memory }, stack := below }
        | none => .error (.trap .outOfBounds)
      else .error .stuck
  | _, _ => .error .stuck

/-- Pops the number of pages asked for and pushes the number before, or -1. -/
def growMemory (state : State) : Except Fault State :=
  match state.store.memory, state.stack with
  | some memory, .i32 delta :: below =>
      let (before, memory) := memory.grow delta.toNat
      let answer : UInt32 := (before.map Nat.toUInt32).getD 0xFFFFFFFF
      .ok { state with
            store := { state.store with memory := some memory }, stack := .i32 answer :: below }
  | _, _ => .error .stuck

/-- Overwrites an item of a list; `none` if there is no such item or the types differ. -/
def replace? (values : List Value) (index : UInt32) (value : Value) : Option (List Value) :=
  match values[index.toNat]? with
  | some old => if old.type = value.type then some (values.set index.toNat value) else none
  | none => none

/-- The stack after an operator, if its operands are there. -/
def operate (opcode : Opcode) (stack : List Value) : Except Fault (List Value) :=
  match stack with
  | [] => .error .stuck
  | top :: below =>
      match applyUnary opcode top, below with
      | some result, _ => .ok (result :: below)
      | none, left :: below =>
          match applyBinary opcode left top with
          | some (.ok result) => .ok (result :: below)
          | some (.error cause) => .error (.trap cause)
          | none => .error .stuck
      | none, [] => .error .stuck

/-- Does the work of an instruction without control flow. -/
def perform (state : State) (opcode : Opcode) (immediate : Immediate) : Except Fault State :=
  match opcode, immediate, state.stack with
  | .nop, _, _ => .ok state
  | .drop, _, _ :: below => .ok { state with stack := below }
  | .select, _, .i32 condition :: second :: first :: below =>
      if first.type = second.type then
        .ok { state with stack := (if condition ≠ 0 then first else second) :: below }
      else .error .stuck
  | .localGet, .local index, _ =>
      match state.locals[index.toNat]? with
      | some value => .ok (state.push value)
      | none => .error .stuck
  | .localSet, .local index, value :: below =>
      match replace? state.locals index value with
      | some locals => .ok { state with locals, stack := below }
      | none => .error .stuck
  | .localTee, .local index, value :: _ =>
      match replace? state.locals index value with
      | some locals => .ok { state with locals }
      | none => .error .stuck
  | .globalGet, .global index, _ =>
      match state.store.globals[index.toNat]? with
      | some value => .ok (state.push value)
      | none => .error .stuck
  | .globalSet, .global index, value :: below =>
      match replace? state.store.globals index value with
      | some globals =>
          .ok { state with store := { state.store with globals }, stack := below }
      | none => .error .stuck
  | .load type, .mem arg, _ => state.load type arg
  | .store type, .mem arg, _ => state.save type arg
  | .memorySize, _, _ =>
      match state.store.memory with
      | some memory => .ok (state.push (.i32 memory.pages.toUInt32))
      | none => .error .stuck
  | .memoryGrow, _, _ => state.growMemory
  | .const .i32, .i32 value, _ => .ok (state.push (.i32 value.toUInt32))
  | .const .i64, .i64 value, _ => .ok (state.push (.i64 value.toUInt64))
  | .const .f32, .f32 bits, _ => .ok (state.push (.f32 bits))
  | .const .f64, .f64 bits, _ => .ok (state.push (.f64 bits))
  | opcode, _, stack =>
      match operate opcode stack with
      | .ok stack => .ok { state with stack }
      | .error fault => .error fault

/-- The state in which a function's code starts: its arguments, the last of which is on top of the
stack, and its other locals, which are zero. -/
def call (state : State) (type : FuncType) (locals : List ValType) : State where
  store := state.store
  locals := (state.stack.take type.params.length).reverse ++
    locals.map fun type => .zero (kept type)
  stack := []

end State

/-- How a run ends. -/
inductive Outcome where
  | next (state : State)
  | branch (label : Nat) (state : State)
  | ret (state : State)
  | trap (cause : Trap) (store : Store)
  | stuck
  | exhausted
  deriving Repr

/-- Runs code.  A branch is counted outward from the frame it stands in; one that leaves all frames
of a function returns from it. -/
def exec (functions : Array Function) : (fuel : Nat) → List Step → State → Outcome
  | 0, _, _ => .exhausted
  | _ + 1, [], state => .next state
  | fuel + 1, step :: rest, state =>
      match step with
      | .plain opcode immediate =>
          match state.perform opcode immediate with
          | .ok state => exec functions fuel rest state
          | .error (.trap cause) => .trap cause state.store
          | .error .stuck => .stuck
      | .unreachable => .trap .unreachable state.store
      | .block arity body =>
          match exec functions fuel body (state.enter arity.takes) with
          | .next inner | .branch 0 inner =>
              exec functions fuel rest (state.leave arity.takes arity.leaves inner)
          | .branch (label + 1) inner => .branch label inner
          | ended => ended
      | .loop arity body =>
          match exec functions fuel body (state.enter arity.takes) with
          | .next inner => exec functions fuel rest (state.leave arity.takes arity.leaves inner)
          | .branch 0 inner =>
              exec functions fuel (.loop arity body :: rest)
                (state.leave arity.takes arity.takes inner)
          | .branch (label + 1) inner => .branch label inner
          | ended => ended
      | .choose arity yes no =>
          match state.stack with
          | .i32 condition :: below =>
              exec functions fuel (.block arity (if condition ≠ 0 then yes else no) :: rest)
                { state with stack := below }
          | _ => .stuck
      | .br label => .branch label state
      | .brIf label =>
          match state.stack with
          | .i32 condition :: below =>
              let state := { state with stack := below }
              if condition ≠ 0 then .branch label state else exec functions fuel rest state
          | _ => .stuck
      | .ret => .ret state
      | .call function =>
          match functions[function]? with
          | none => .stuck
          | some (.hosted name type answer) =>
              let count := type.params.length
              let call : HostCall := ⟨name, (state.stack.take count).reverse⟩
              exec functions fuel rest
                { state with
                  store := { state.store with calls := call :: state.store.calls }
                  stack := answer.reverse ++ state.stack.drop count }
          | some (.coded type locals body) =>
              match exec functions fuel body (state.call type locals) with
              | .next inner | .ret inner | .branch 0 inner =>
                  exec functions fuel rest
                    { store := inner.store
                      locals := state.locals
                      stack := inner.stack.take type.results.length ++
                        state.stack.drop type.params.length }
              | .branch (_ + 1) _ => .stuck
              | ended => ended

end RecordWasm.Machine
