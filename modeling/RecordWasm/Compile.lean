import RecordWasm.Lowering.Function

/-!
# Compiling programs

Records are laid out, the heap is installed behind the imports, all functions are declared, and then
each is compiled on its own.  Indices are fixed before the first function is compiled: imports, the
two functions of the heap, free functions, methods by record, constructors.  The failures of all
functions are reported together.
-/

namespace RecordWasm

open Syntax Layout Lowering Assembly

/-- How a module is made.  Zero and the empty name stand for defaults. -/
structure CompileConfig where
  heapBase : UInt32 := 0
  initialPages : UInt32 := 0
  maxPages : UInt32 := 0
  memoryName : String := ""
  /-- Keeps the functions of the heap out of the exports. -/
  hideAlloc : Bool := false
  emitNames : Bool := false
  deriving DecidableEq, Repr

/-- What a function of the module is compiled from. -/
inductive Job where
  | function (decl : FuncDecl)
  | constructor (record : String)

/-- A declared function: what it is compiled from, its export name and its index. -/
structure Declared where
  job : Job
  name : String
  index : UInt32

structure Compiled where
  binary : List UInt8
  registry : Registry
  functions : List FunctionBody

namespace Compile

def duplicateName (name detail : String) : Failure :=
  Report.failure { phase := .assemble, kind := .duplicateExport, decl := name, detail }

/-- The names that the functions of the heap take. -/
def reserved : List String := [Heap.allocName, Heap.resetName]

/-- Declares the imports, whose names have to differ from each other and from the heap's. -/
def addImports : List ImportDecl → Builder → List FuncRef → Except Failure (Builder × List FuncRef)
  | [], builder, refs => .ok (builder, refs)
  | decl :: rest, builder, refs =>
      if decl.name ∈ refs.map FuncRef.name ∨ decl.name ∈ reserved then
        .error (duplicateName decl.name
          s!"import {decl.module}.{decl.name} reuses the name {decl.name}")
      else do
        let ref := FuncRef.ofImport decl 0
        let (index, builder) ← (builder.addImport decl.module decl.name ref.type).mapError
          BuildError.failure
        addImports rest builder (refs ++ [{ ref with index }])

/-- What has been declared so far. -/
structure Declarations where
  env : Env
  builder : Builder
  /-- The names in use. -/
  seen : List String
  declared : List Declared := []

/-- Declares one function under a name that is not in use. -/
def Declarations.add (state : Declarations) (job : Job) (name : String) (ref : FuncRef)
    (register : Env → FuncRef → Env) : Except Failure Declarations :=
  let (index, builder) := state.builder.declareFunction name ref.type
  if name ∈ state.seen then
    .error (duplicateName name s!"function {name} declared twice")
  else
    .ok {
      env := register state.env { ref with index }
      builder
      seen := name :: state.seen
      declared := state.declared ++ [⟨job, name, index⟩] }

def declareFunction (state : Declarations) (decl : FuncDecl) : Except Failure Declarations :=
  state.add (.function decl) decl.name (.ofDecl decl 0) Env.addFunction

/-- Declares the methods of a record. -/
def declareMethods (state : Declarations) (record : RecordDecl) : Except Failure Declarations :=
  record.methods.foldlM (fun state method =>
    let decl := { method with receiver := record.name }
    state.add (.function decl) decl.qualifiedName (.ofDecl decl 0) fun env ref =>
      env.addMethod record.name ref) state

def declareConstructor (state : Declarations) (record : RecordDecl) :
    Except Failure Declarations :=
  match state.env.registry.get? record.name with
  | none => .ok state
  | some found =>
      let ref := state.env.constructorRef found 0
      state.add (.constructor record.name) ref.name ref fun env ref =>
        env.addConstructor record.name ref

/-- Declares free functions, then methods by record, then one constructor for every record. -/
def declareAll (program : Program) (state : Declarations) : Except Failure Declarations := do
  let state ← program.functions.foldlM declareFunction state
  let state ← program.records.foldlM declareMethods state
  program.records.foldlM declareConstructor state

def compileJob (env : Env) : Job → Except Failure FunctionBody
  | .function decl => lowerFunction env decl
  | .constructor record => lowerConstructor env record

/-- All bodies in order, or all failures in order. -/
def collect {α : Type} : List (Except Failure α) → Except Failures (List α)
  | [] => .ok []
  | .ok value :: rest => (collect rest).map (value :: ·)
  | .error failure :: rest =>
      match collect rest with
      | .ok _ => .error [failure]
      | .error failures => .error (failure :: failures)

/-- Compiles all functions, unless the work has been cancelled. -/
def compileJobs (cancelled : Bool) (env : Env) (declared : List Declared) :
    Except Failures (List FunctionBody) :=
  if cancelled then .error [.plain "context canceled"]
  else collect (declared.map fun item => compileJob env item.job)

/-- Gives every declared function its body. -/
def setBodies (builder : Builder) (bodies : List (Declared × FunctionBody)) :
    Except BuildError Builder :=
  bodies.foldlM (fun builder (item, body) =>
    builder.setBody item.index ⟨body.locals, body.instrs⟩) builder

/-- Exports the functions of the heap, unless they are hidden, and all declared functions. -/
def exportAll (config : CompileConfig) (handle : Heap.Handle) (declared : List Declared)
    (builder : Builder) : Except BuildError Builder := do
  let builder ←
    if config.hideAlloc then pure builder
    else do
      let builder ← builder.exportFunction Heap.allocName handle.allocFunc
      builder.exportFunction Heap.resetName handle.resetFunc
  declared.foldlM (fun builder item => builder.exportFunction item.name item.index) builder

/-- One failure as the outcome of the whole work. -/
def single {α : Type} (result : Except Failure α) : Except Failures α :=
  result.mapError fun failure => [failure]

/-- A program whose functions are compiled, before its module is written. -/
structure Assembled where
  env : Env
  handle : Heap.Handle
  builder : Builder
  declared : List Declared
  bodies : List FunctionBody

/-- Lays out the records, declares and compiles all functions and exports them; `cancelled` says
that the work is not wanted any more, which is noticed when the functions are compiled. -/
def assemble (config : CompileConfig) (cancelled : Bool) (program : Program) :
    Except Failures Assembled := do
  let registry ← single ((Layout.compute program.records).mapError LayoutError.failure)
  let builder := Builder.new {
    moduleName := program.name
    memoryName := config.memoryName
    maxPages := config.maxPages
    emitNames := config.emitNames }
  let (builder, imports) ← single (addImports program.imports builder [])
  let base := if config.heapBase = 0 then Heap.defaultBase else config.heapBase
  let pages := if config.initialPages = 0 then Heap.defaultPages else config.initialPages
  let (handle, builder) ← single (Heap.install builder base pages)
  let builder := builder.setMemoryPages handle.memoryPages
  let env := imports.foldl Env.addFunction (Env.ofProgram program registry handle)
  let state ← single (declareAll program
    { env, builder, seen := imports.map FuncRef.name ++ reserved })
  let bodies ← compileJobs cancelled state.env state.declared
  let builder ← single <| Except.mapError BuildError.failure do
    let builder ← setBodies state.builder (state.declared.zip bodies)
    exportAll config handle state.declared builder
  return { env := state.env, handle, builder, declared := state.declared, bodies }

/-- Compiles a program. -/
def program (config : CompileConfig) (cancelled : Bool) (program : Program) :
    Except Failures Compiled := do
  let assembled ← assemble config cancelled program
  let binary ← single (assembled.builder.build.mapError BuildError.failure)
  return { binary, registry := assembled.env.registry, functions := assembled.bodies }

/-- The failure of compiling no program at all. -/
def noProgram : Failures := [(Report.invalidInput .codegen "nil program").failure]

end Compile

end RecordWasm
