import RecordWasm.Machine.Engine

/-!
# Instances

An instance is a started module: its functions, its globals and its memory.  Calls name an exported
function and pass words; a call that traps keeps what it changed before.
-/

namespace RecordWasm.Machine

open Wasm

structure Instance where
  functions : Array Function := #[]
  exports : List Export := []
  globals : List Value := []
  memory : Option Memory := none
  closed : Bool := false
  deriving Repr

/-- The result of a call, the instance after it and the calls it made to the outside, in order. -/
structure CallResult where
  results : Except Failure (List UInt64)
  after : Instance
  calls : List HostCall := []

/-- Goes on in the instance that a call left, unless the call failed. -/
def CallResult.andThen (first : CallResult) (next : Instance → CallResult) : CallResult :=
  match first.results with
  | .error _ => first
  | .ok _ =>
      let second := next first.after
      { second with calls := first.calls ++ second.calls }

namespace Instance

/-- More steps than any run takes that ends in a lifetime. -/
def fuel : Nat := 1 <<< 62

def exported? (inst : Instance) (kind : ExternKind) (name : String) : Option Nat :=
  (inst.exports.find? fun item => item.name == name && item.kind == kind).map
    fun item => item.index.toNat

/-- An exported function, with its index. -/
def function? (inst : Instance) (name : String) : Option (Nat × Function) := do
  let index ← inst.exported? .function name
  return (index, ← inst.functions[index]?)

/-- Runs a function on arguments of its parameter types. -/
def run (inst : Instance) (index : Nat) (arguments : List Value) : Outcome :=
  exec inst.functions fuel [.call index]
    { store := { globals := inst.globals, memory := inst.memory }
      locals := []
      stack := arguments.reverse }

/-- The instance with what a run left in the store. -/
def keep (inst : Instance) (store : Store) : Instance :=
  { inst with globals := store.globals, memory := store.memory }

/-- Runs a function on words; failures call it by the name. -/
def invoke (inst : Instance) (name : String) (index : Nat) (type : FuncType)
    (arguments : List UInt64) : CallResult :=
  let values := (type.params.zip arguments).map fun (type, word) => .ofWord (kept type) word
  let broken (cause : String) := Except.error ((Report.trap name).because (.plain cause))
  match inst.run index values with
  | .next state =>
      ⟨.ok (state.stack.reverse.map Value.word), inst.keep state.store, state.store.calls.reverse⟩
  | .trap cause store =>
      ⟨broken ("wasm error: " ++ cause.message), inst.keep store, store.calls.reverse⟩
  | .exhausted => ⟨broken "out of fuel", inst, []⟩
  | _ => ⟨broken "ill-typed code", inst, []⟩

/-- Calls an exported function. -/
def call (inst : Instance) (name : String) (arguments : List UInt64) : CallResult :=
  match inst.function? name with
  | none => ⟨.error (Report.notFound .runtime "export" name).failure, inst, []⟩
  | some (index, function) =>
      let params := function.type.params
      if params.length ≠ arguments.length then
        let report : Report :=
          { phase := .runtime, kind := .invalidInput, decl := name
            detail := s!"{name} takes {params.length} arguments, got {arguments.length}" }
        ⟨.error report.failure, inst, []⟩
      else inst.invoke name index function.type arguments

/-- Calls an exported function that gives one result of a type. -/
def callOne (inst : Instance) (name : String) (type : NumType) (arguments : List UInt64) :
    CallResult :=
  match inst.function? name with
  | none => ⟨.error (Report.notFound .runtime "export" name).failure, inst, []⟩
  | some (_, function) =>
      if function.type.results = [type.valType] then inst.call name arguments
      else
        let names := " ".intercalate (function.type.results.map typeName)
        let report : Report :=
          { phase := .runtime, kind := .invalidInput, decl := name
            detail := s!"{name} returns [{names}], not a single {type.name}" }
        ⟨.error report.failure, inst, []⟩

/-- The value of an exported global. -/
def global? (inst : Instance) (name : String) : Option UInt64 := do
  let index ← inst.exported? .global name
  return (← inst.globals[index]?).word

/-- The size of the memory in bytes; a memory of the whole address space reads zero. -/
def memorySize (inst : Instance) : UInt32 := ((inst.memory.map Memory.size).getD 0).toUInt32

/-- What is left of an instance when it is closed. -/
def close (_ : Instance) : Instance := { closed := true }

/-- The name of the exported function that runs when an instance starts. -/
def entry : String := "_start"

/-- Runs what has to run before an instance can be used: the first function of the image, then the
exported entry, each if there is one. -/
def prepare (inst : Instance) (first : Option UInt32) : CallResult :=
  let idle (inst : Instance) : CallResult := ⟨.ok [], inst, []⟩
  let prepared :=
    match first with
    | some index => inst.invoke "start" index.toNat ⟨[], []⟩ []
    | none => idle inst
  prepared.andThen fun inst => if (inst.function? entry).isSome then inst.call entry []
    else idle inst

end Instance

/-- The memory with the bytes of a segment put at its address; `none` if they do not fit there. -/
def Segment.place? (segment : Segment) (memory : Memory) : Option Memory :=
  match segment.address with
  | none => some memory
  | some address =>
      if address < 0 then none else memory.write? address.toInt.toNat segment.bytes

/-- What came of starting a module, with the calls it made to the outside, in order. -/
structure StartResult where
  result : Except Failure Instance
  calls : List HostCall := []

namespace Engine

/-- The functions that a module imports; `none` if one is not available. -/
def imported? (engine : Engine) (module : Module) : Option (List Function) :=
  module.imports.mapM fun item =>
    match item.desc with
    | .function type =>
        module.types[type.toNat]? >>= fun type => engine.resolve? item.module item.name type
    | _ => none

/-- The memory that a module starts out with. -/
def memory? (engine : Engine) (module : Module) : Option Memory :=
  module.memories.head?.map fun limits =>
    { pages := limits.min.toNat
      limit := min ((limits.max.map UInt64.toNat).getD engine.limitPages) engine.limitPages }

/-- Makes an instance of a module: every import is looked up, the memory and the globals are
fresh. -/
def instantiate (engine : Engine) (loaded : Loaded) : Except Failure Instance :=
  let refuse (cause : String) : Failure := Report.instantiation.because (.plain cause)
  if loaded.closed then .error (refuse "module closed")
  else
    match engine.imported? loaded.module with
    | none => .error (refuse "import not available")
    | some hosted =>
        let fresh (memory : Option Memory) : Instance :=
          { functions := (hosted ++ loaded.coded).toArray
            exports := loaded.module.exports
            globals := loaded.module.globals.map initialValue
            memory }
        match engine.memory? loaded.module with
        | none => .ok (fresh none)
        | some memory =>
            match loaded.segments.foldlM (fun memory segment => segment.place? memory) memory with
            | some memory => .ok (fresh (some memory))
            | none => .error (refuse "segment out of bounds")

/-- Starts a module: an instance is made, and what has to run first is run. -/
def start (engine : Engine) (loaded : Loaded) : StartResult :=
  match engine.instantiate loaded with
  | .error failure => { result := .error failure }
  | .ok inst =>
      let prepared := inst.prepare loaded.start
      match prepared.results with
      | .ok _ => { result := .ok prepared.after, calls := prepared.calls }
      | .error failure =>
          { result := .error (Report.instantiation.because failure), calls := prepared.calls }

end Engine

namespace Memory

/-- The failure of an access outside the memory. -/
def outOfBounds (access : String) (offset length : Nat) : Failure :=
  (Report.invalidInput .runtime
    s!"{access} out of bounds: offset={offset}, length={length}").failure

/-- Reads bytes from outside the machine. -/
def read (memory : Memory) (offset length : Nat) : Except Failure (List UInt8) :=
  match memory.read? offset length with
  | some bytes => .ok bytes
  | none => .error (outOfBounds "read" offset length)

/-- Writes bytes from outside the machine. -/
def write (memory : Memory) (offset : Nat) (bytes : List UInt8) : Except Failure Memory :=
  match memory.write? offset bytes with
  | some memory => .ok memory
  | none => .error (outOfBounds "write" offset bytes.length)

/-- Reads a value from outside the machine. -/
def readValue (memory : Memory) (offset : Nat) (type : NumType) : Except Failure Value :=
  (memory.read offset (storageSize type)).map (Value.ofBytes type)

end Memory

end RecordWasm.Machine
