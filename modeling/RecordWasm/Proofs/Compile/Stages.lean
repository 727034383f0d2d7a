import RecordWasm.Proofs.Compile.Declarations
import RecordWasm.Proofs.Heap.Install
import RecordWasm.Proofs.Layout.Inheritance
import RecordWasm.Proofs.Lowering.Bodies
import Mathlib.Data.List.Forall2
import Mathlib.Data.List.Nodup

/-!
# The stages of a compilation

What each stage adds to the module, and from that the shape of the module as a whole: imports, the
two functions of the heap, then the declared functions in order, each with the body that was
compiled for it.
-/

namespace RecordWasm.Compile

open Syntax Layout Lowering Assembly Wasm

/-- The function that an import brings in. -/
def importedFunction (decl : ImportDecl) : ImportedFunction :=
  ⟨decl.module, decl.name, (FuncRef.ofImport decl 0).type⟩

/-- The references to imports, the first of which has the given index. -/
def importRefs : (first : Nat) → List ImportDecl → List FuncRef
  | _, [] => []
  | first, decl :: rest => .ofImport decl first.toUInt32 :: importRefs (first + 1) rest

theorem map_name_importRefs (first : Nat) (decls : List ImportDecl) :
    (importRefs first decls).map FuncRef.name = decls.map ImportDecl.name := by
  induction decls generalizing first with
  | nil => rfl
  | cons decl rest ih => simp [importRefs, FuncRef.ofImport, ih]

theorem addImports_ok {decls : List ImportDecl} {builder after : Builder} {refs all : List FuncRef}
    (hFuncs : builder.funcs = []) (hNames : (refs.map FuncRef.name ++ reserved).Nodup)
    (hAdd : addImports decls builder refs = .ok (after, all)) :
    after = { builder with imports := builder.imports ++ decls.map importedFunction } ∧
      all = refs ++ importRefs builder.imports.length decls ∧
      (all.map FuncRef.name ++ reserved).Nodup := by
  induction decls generalizing builder refs with
  | nil =>
      cases hAdd
      exact ⟨by simp, by simp [importRefs], hNames⟩
  | cons decl rest ih =>
      rw [addImports] at hAdd
      split at hAdd
      · cases hAdd
      · rename_i hNew
        rw [not_or] at hNew
        simp only [bind_ok, mapError_ok, Builder.addImport, hFuncs, List.isEmpty_nil,
          if_true] at hAdd
        obtain ⟨_, hImport, hRest⟩ := hAdd
        cases hImport
        have hStep : (((refs ++ [FuncRef.ofImport decl builder.imports.length.toUInt32]).map
            FuncRef.name) ++ reserved).Nodup := by
          rw [List.map_append, List.append_assoc]
          refine List.nodup_middle.2 (List.nodup_cons.2 ⟨?_, hNames⟩)
          simpa [FuncRef.ofImport, not_or] using hNew
        obtain ⟨hAfter, hAll, hNodup⟩ := ih rfl hStep hRest
        refine ⟨?_, ?_, hNodup⟩
        · simp [hAfter, importedFunction, hFuncs]
        · simp [hAll, importRefs]

/-- A declared function with its body. -/
def bodied (item : Declared) (body : FunctionBody) : Assembly.Function :=
  { name := item.name, type := body.type, body := some ⟨body.locals, body.instrs⟩ }

/-- All bodies or none. -/
theorem collect_ok {α : Type} {results : List (Except Failure α)} {values : List α}
    (hCollect : collect results = .ok values) : results = values.map .ok := by
  induction results generalizing values with
  | nil =>
      cases hCollect
      rfl
  | cons first rest ih =>
      cases first with
      | error failure =>
          rw [collect] at hCollect
          split at hCollect <;> cases hCollect
      | ok value =>
          rw [collect, map_ok] at hCollect
          obtain ⟨others, hRest, rfl⟩ := hCollect
          rw [ih hRest, List.map_cons]

theorem compileJobs_ok {cancelled : Bool} {env : Env} {declared : List Declared}
    {bodies : List FunctionBody} (hCompile : compileJobs cancelled env declared = .ok bodies) :
    List.Forall₂ (fun item body => compileJob env item.job = .ok body) declared bodies := by
  rw [compileJobs] at hCompile
  split at hCompile
  · cases hCompile
  · have hEach := collect_ok hCompile
    rw [← List.forall₂_eq_eq_eq, List.forall₂_map_left_iff, List.forall₂_map_right_iff] at hEach
    exact hEach

/-- The body of a job has the signature of the job. -/
theorem compileJob_type {env : Env} {job : Job} {body : FunctionBody}
    (hCompile : compileJob env job = .ok body) : body.type = jobType env job := by
  cases job with
  | function decl =>
      obtain ⟨_, -, hType, -⟩ := lowerBody_of_lowerFunction hCompile
      exact hType
  | constructor record =>
      obtain ⟨found, _, hFound, -, rfl⟩ := lowerConstructor_eq_ok.1 hCompile
      simp [jobType, hFound]

/-- Every declared function gets the body that was compiled for it. -/
theorem setBodies_eq {env : Env} {declared : List Declared} {bodies : List FunctionBody}
    {builder : Builder} {front : List Assembly.Function}
    (hFuncs : builder.funcs = front ++ declared.map (blank env))
    (hBodies : List.Forall₂ (fun item body => body.type = jobType env item.job) declared bodies)
    (hIndex : ∀ place item, declared[place]? = some item →
      item.index.toNat = builder.imports.length + (front.length + place)) :
    setBodies builder (declared.zip bodies) =
      .ok { builder with funcs := front ++ List.zipWith bodied declared bodies } := by
  induction hBodies generalizing builder front with
  | nil =>
      rw [List.map_nil] at hFuncs
      rw [List.zipWith_nil_left, ← hFuncs]
      rfl
  | @cons item body declared bodies hType _ ih =>
      have hFirst :=
        @Builder.setBody_blank builder item.index ⟨body.locals, body.instrs⟩ front.length
          (blank env item) (hIndex 0 item rfl) (by simp [hFuncs]) rfl
      rw [setBodies, List.zip_cons_cons, List.foldlM_cons]
      simp only [hFirst]
      refine (@ih _ (front ++ [bodied item body]) (by simp [hFuncs, blank, bodied, hType])
        (fun place other hOther => ?_)).trans (by simp)
      rw [hIndex (place + 1) other hOther, List.length_append, List.length_singleton]
      simp only
      omega

/-- Exports change nothing but the exports. -/
theorem addExport_ok {builder after : Builder} {item : Export}
    (hAdd : builder.addExport item = .ok after) :
    after = { builder with exports := builder.exports ++ [item] } := by
  rw [Builder.addExport] at hAdd
  split at hAdd
  · cases hAdd
  · cases hAdd
    rfl

theorem exportFunction_ok {builder after : Builder} {name : String} {index : UInt32}
    (hExport : builder.exportFunction name index = .ok after) :
    after = { builder with exports := builder.exports ++ [⟨name, .function, index⟩] } := by
  rw [Builder.exportFunction] at hExport
  split at hExport
  · exact addExport_ok hExport
  · cases hExport

/-- The exports of the declared functions. -/
def declaredExports (declared : List Declared) : List Export :=
  declared.map fun item => ⟨item.name, .function, item.index⟩

theorem exportAll_ok {config : CompileConfig} {handle : Heap.Handle} {declared : List Declared}
    {builder after : Builder} (hExport : exportAll config handle declared builder = .ok after) :
    ∃ front, after = { builder with
      exports := builder.exports ++ front ++ declaredExports declared } := by
  have hFront : ∃ front, declared.foldlM (fun builder item =>
      builder.exportFunction item.name item.index)
        { builder with exports := builder.exports ++ front } = .ok after := by
    rw [exportAll] at hExport
    split at hExport
    · exact ⟨[], by simpa using hExport⟩
    · simp only [bind_ok] at hExport
      obtain ⟨first, hAlloc, second, hReset, hDeclared⟩ := hExport
      rw [exportFunction_ok hReset, exportFunction_ok hAlloc, List.append_assoc] at hDeclared
      exact ⟨_, hDeclared⟩
  obtain ⟨front, hDeclared⟩ := hFront
  refine ⟨front, ?_⟩
  refine foldlM_ok (fun done now => now = { builder with
    exports := builder.exports ++ front ++ declaredExports done }) ?_ ?_ hDeclared
  · simp [declaredExports]
  · intro done item before next _ hBefore hItem
    rw [exportFunction_ok hItem, hBefore]
    simp [declaredExports]

/-! ## The whole module -/

theorem setBody_length {builder after : Builder} {index : UInt32} {body : Assembly.Body}
    (hSet : builder.setBody index body = .ok after) :
    after.numFunctions = builder.numFunctions := by
  rw [Builder.setBody] at hSet
  split at hSet
  · cases hSet
  · split at hSet
    · cases hSet
    · split at hSet
      · cases hSet
      · cases hSet
        simp [Builder.numFunctions]

theorem setBodies_length {builder after : Builder} {bodies : List (Declared × FunctionBody)}
    (hSet : setBodies builder bodies = .ok after) : after.numFunctions = builder.numFunctions :=
  foldlM_ok (fun _ now => now.numFunctions = builder.numFunctions) rfl
    (fun _ _ _ _ _ hBefore hItem => (setBody_length hItem).trans hBefore) hSet

theorem install_length {builder installed : Builder} {base pages : UInt32} {handle : Heap.Handle}
    (hInstall : Heap.install builder base pages = .ok (handle, installed)) :
    installed.numFunctions = builder.numFunctions + 2 := by
  simp only [Heap.install, Heap.installWith, bind_ok, mapError_ok, pure_ok, Heap.setBody]
    at hInstall
  obtain ⟨_, _, middle, hAlloc, after, hReset, hResult⟩ := hInstall
  cases hResult
  rw [setBody_length hReset, setBody_length hAlloc]
  simp [Builder.addGlobal, Builder.declareFunction, Builder.numFunctions]
  omega

theorem single_ok {α : Type} {result : Except Failure α} {value : α} :
    single result = .ok value ↔ result = .ok value :=
  mapError_ok

/-- The builder once the imports are declared. -/
def importing (config : CompileConfig) (program : Program) : Builder :=
  { Builder.new {
      moduleName := program.name
      memoryName := config.memoryName
      maxPages := config.maxPages
      emitNames := config.emitNames } with
    imports := program.imports.map importedFunction }

theorem numFunctions_importing (config : CompileConfig) (program : Program) :
    (importing config program).numFunctions = program.imports.length := by
  rw [Builder.numFunctions, importing, List.length_map]
  rfl

/-- The base of the heap that a configuration asks for. -/
def baseOf (config : CompileConfig) : UInt32 :=
  if config.heapBase = 0 then Heap.defaultBase else config.heapBase

/-- The pages of the heap that a configuration asks for. -/
def pagesOf (config : CompileConfig) : UInt32 :=
  if config.initialPages = 0 then Heap.defaultPages else config.initialPages

theorem baseOf_ne_zero (config : CompileConfig) : baseOf config ≠ 0 := by
  rw [baseOf]
  split
  · decide
  · assumption

/-- The environment in which the functions of a program are declared. -/
def startEnv (program : Program) (registry : Registry) (handle : Heap.Handle) : Env :=
  { Env.ofProgram program registry handle with funcs := (importRefs 0 program.imports).reverse }

theorem foldl_addFunction (refs : List FuncRef) (env : Env) :
    refs.foldl Env.addFunction env = { env with funcs := refs.reverse ++ env.funcs } := by
  induction refs generalizing env with
  | nil => rfl
  | cons ref rest ih => simp [ih, Env.addFunction]

/-- What there is before the first function of a program is declared. -/
def startOf (program : Program) (registry : Registry) (handle : Heap.Handle) (installed : Builder) :
    Declarations where
  env := startEnv program registry handle
  builder := installed.setMemoryPages handle.memoryPages
  seen := program.imports.map ImportDecl.name ++ reserved

/-- The number of pages has no part in what a builder holds. -/
theorem parts_setMemoryPages (builder : Builder) (pages : UInt32) :
    (builder.setMemoryPages pages).imports = builder.imports ∧
      (builder.setMemoryPages pages).funcs = builder.funcs ∧
      (builder.setMemoryPages pages).globals = builder.globals ∧
      (builder.setMemoryPages pages).exports = builder.exports ∧
      (builder.setMemoryPages pages).numFunctions = builder.numFunctions :=
  ⟨rfl, rfl, rfl, rfl, rfl⟩

/-- Lays out the records, installs the heap and declares and compiles all functions, none of which
has its body in the module yet. -/
def prepare (config : CompileConfig) (cancelled : Bool) (program : Program) :
    Except Failures Assembled := do
  let registry ← single ((Layout.compute program.records).mapError LayoutError.failure)
  let builder := Builder.new {
    moduleName := program.name
    memoryName := config.memoryName
    maxPages := config.maxPages
    emitNames := config.emitNames }
  let (builder, imports) ← single (addImports program.imports builder [])
  let (handle, builder) ← single (Heap.install builder (baseOf config) (pagesOf config))
  let builder := builder.setMemoryPages handle.memoryPages
  let env := imports.foldl Env.addFunction (Env.ofProgram program registry handle)
  let state ← single (declareAll program
    { env, builder, seen := imports.map FuncRef.name ++ reserved })
  let bodies ← compileJobs cancelled state.env state.declared
  return { env := state.env, handle, builder := state.builder, declared := state.declared, bodies }

/-- Gives all functions their bodies and exports them. -/
def complete (config : CompileConfig) (prepared : Assembled) : Except BuildError Builder := do
  let builder ← setBodies prepared.builder (prepared.declared.zip prepared.bodies)
  exportAll config prepared.handle prepared.declared builder

theorem assemble_eq (config : CompileConfig) (cancelled : Bool) (program : Program) :
    assemble config cancelled program = (do
      let prepared ← prepare config cancelled program
      let builder ← single ((complete config prepared).mapError BuildError.failure)
      return { prepared with builder }) := by
  simp only [assemble, prepare, complete, baseOf, pagesOf, bind_assoc, pure_bind]

/-- The stages that lead to compiled functions. -/
theorem prepare_ok {config : CompileConfig} {cancelled : Bool} {program : Program}
    {prepared : Assembled} (hPrepare : prepare config cancelled program = .ok prepared) :
    ∃ registry installed state,
      Layout.compute program.records = .ok registry ∧
      (program.imports.map ImportDecl.name ++ reserved).Nodup ∧
      Heap.install (importing config program) (baseOf config) (pagesOf config) =
        .ok (prepared.handle, installed) ∧
      declareAll program (startOf program registry prepared.handle installed) = .ok state ∧
      compileJobs cancelled state.env state.declared = .ok prepared.bodies ∧
      prepared.env = state.env ∧ prepared.builder = state.builder ∧
      prepared.declared = state.declared := by
  simp only [prepare, bind_ok, single_ok, mapError_ok, pure_ok] at hPrepare
  obtain ⟨registry, hRegistry, ⟨imported, imports⟩, hImports, ⟨handle, installed⟩, hInstall, state,
    hDeclare, bodies, hCompile, rfl⟩ := hPrepare
  obtain ⟨rfl, rfl, hNames⟩ := addImports_ok rfl (by decide) hImports
  simp only [List.nil_append, map_name_importRefs, foldl_addFunction] at hDeclare hNames
  refine ⟨registry, installed, state, hRegistry, hNames, hInstall, ?_, hCompile, rfl, rfl, rfl⟩
  rw [← hDeclare, startOf, startEnv]
  simp [Builder.new, Env.ofProgram]

/-- The stages that a compilation goes through. -/
theorem assemble_ok {config : CompileConfig} {cancelled : Bool} {program : Program}
    {assembled : Assembled} (hAssemble : assemble config cancelled program = .ok assembled) :
    ∃ registry handle installed state filled,
      Layout.compute program.records = .ok registry ∧
      (program.imports.map ImportDecl.name ++ reserved).Nodup ∧
      Heap.install (importing config program) (baseOf config) (pagesOf config) =
        .ok (handle, installed) ∧
      declareAll program (startOf program registry handle installed) = .ok state ∧
      compileJobs cancelled state.env state.declared = .ok assembled.bodies ∧
      setBodies state.builder (state.declared.zip assembled.bodies) = .ok filled ∧
      exportAll config handle state.declared filled = .ok assembled.builder ∧
      assembled.env = state.env ∧ assembled.handle = handle ∧
      assembled.declared = state.declared := by
  simp only [assemble_eq, complete, bind_ok, single_ok, mapError_ok, pure_ok] at hAssemble
  obtain ⟨prepared, hPrepare, builder, ⟨filled, hSet, hExport⟩, rfl⟩ := hAssemble
  obtain ⟨registry, installed, state, hRegistry, hNames, hInstall, hDeclare, hCompile,
    hEnv, hBuilder, hDeclared⟩ := prepare_ok hPrepare
  rw [hBuilder, hDeclared] at hSet
  rw [hDeclared] at hExport
  exact ⟨registry, prepared.handle, installed, state, filled, hRegistry, hNames, hInstall, hDeclare,
    hCompile, hSet, hExport, hEnv, rfl, hDeclared⟩

/-- What is known of a program whose functions are compiled. -/
structure Assembled.Fits (assembled : Assembled) (program : Program) : Prop where
  registry : Layout.compute program.records = .ok assembled.env.registry
  same : SameRecords assembled.env (startEnv program assembled.env.registry assembled.handle)
  imports : assembled.builder.imports = program.imports.map importedFunction
  base : assembled.handle.base ≠ 0
  handle : assembled.handle.cursorGlobal = 0 ∧ assembled.handle.limitGlobal = 1 ∧
    assembled.handle.allocFunc.toNat = program.imports.length ∧
    assembled.handle.resetFunc.toNat = program.imports.length + 1
  globals : assembled.builder.globals =
    [Heap.wordGlobal assembled.handle.base, Heap.wordGlobal assembled.handle.limit]
  funcs : assembled.builder.funcs = assembled.handle.functions ++
    List.zipWith bodied assembled.declared assembled.bodies
  compiled : List.Forall₂ (fun item body => compileJob assembled.env item.job = .ok body)
    assembled.declared assembled.bodies
  index : ∀ place item, assembled.declared[place]? = some item →
    item.index.toNat = program.imports.length + (2 + place)
  arises : ∀ item ∈ assembled.declared, Arises program assembled.env.registry item.name item.job
  constructed : ∀ record ∈ program.records, ∀ found,
    assembled.env.registry.get? record.name = some found →
      ∃ index, ⟨.constructor record.name, constructorName found.name, index⟩ ∈ assembled.declared
  names : (assembled.declared.map Declared.name ++ program.imports.map ImportDecl.name).Nodup
  referred : Referred program (startEnv program assembled.env.registry assembled.handle)
    assembled.env assembled.declared
  exports : ∃ front, assembled.builder.exports = front ++ declaredExports assembled.declared

/-- The heap stands right behind the imports. -/
theorem install_importing {config : CompileConfig} {program : Program} {handle : Heap.Handle}
    {installed : Builder}
    (hInstall : Heap.install (importing config program) (baseOf config) (pagesOf config) =
      .ok (handle, installed))
    (hFew : program.imports.length + 2 ≤ 2 ^ 32) :
    installed.imports = program.imports.map importedFunction ∧
      installed.funcs = handle.functions ∧
      installed.globals = [Heap.wordGlobal handle.base, Heap.wordGlobal handle.limit] ∧
      handle.base = baseOf config ∧ handle.cursorGlobal = 0 ∧ handle.limitGlobal = 1 ∧
      handle.allocFunc.toNat = program.imports.length ∧
      handle.resetFunc.toNat = program.imports.length + 1 ∧
      installed.config = (importing config program).config ∧ installed.exports = [] := by
  have hImports := numFunctions_importing config program
  obtain ⟨-, rfl, rfl⟩ := Heap.install_eq hInstall (by omega)
  refine ⟨rfl, rfl, rfl, rfl, rfl, rfl, ?_, ?_, rfl, rfl⟩
  · rw [Heap.handleAt, hImports]
    exact toNat_toUInt32 (by omega)
  · rw [Heap.handleAt, hImports]
    exact toNat_toUInt32 (by omega)

/-- Where everything stands once all functions are declared. -/
structure Placed (config : CompileConfig) (program : Program) (handle : Heap.Handle)
    (installed : Builder) (state : Declarations) : Prop where
  listed : Listed program (startOf program state.env.registry handle installed) state
  imports : state.builder.imports = program.imports.map importedFunction
  funcs : state.builder.funcs = handle.functions ++
    state.declared.map (blank (startEnv program state.env.registry handle))
  globals : state.builder.globals = [Heap.wordGlobal handle.base, Heap.wordGlobal handle.limit]
  config : state.builder.config =
    { (importing config program).config with memoryPages := handle.memoryPages }
  exports : state.builder.exports = []
  base : handle.base ≠ 0
  handle : handle.cursorGlobal = 0 ∧ handle.limitGlobal = 1 ∧
    handle.allocFunc.toNat = program.imports.length ∧
    handle.resetFunc.toNat = program.imports.length + 1
  index : ∀ place item, state.declared[place]? = some item →
    item.index.toNat = program.imports.length + (2 + place)

theorem declareAll_placed {config : CompileConfig} {program : Program} {registry : Registry}
    {handle : Heap.Handle} {installed : Builder} {state : Declarations}
    (hNames : (program.imports.map ImportDecl.name ++ reserved).Nodup)
    (hInstall : Heap.install (importing config program) (baseOf config) (pagesOf config) =
      .ok (handle, installed))
    (hDeclare : declareAll program (startOf program registry handle installed) = .ok state)
    (hFew : state.builder.numFunctions ≤ 2 ^ 32) :
    state.env.registry = registry ∧ Placed config program handle installed state := by
  have hListed := (declareAll_reaches hDeclare).listed rfl hNames
  obtain rfl : registry = state.env.registry := hListed.same.registry.symm
  obtain ⟨hSameImports, hSameFuncs, hSameGlobals, hSameExports, hSameCount⟩ :=
    parts_setMemoryPages installed handle.memoryPages
  have hFirst : (installed.setMemoryPages handle.memoryPages).numFunctions =
      program.imports.length + 2 := by
    rw [hSameCount, install_length hInstall, numFunctions_importing]
  have hBuilder := hListed.builder
  have hIndex := hListed.index
  rw [startOf] at hBuilder hIndex
  simp only [hSameImports, hSameFuncs, hSameGlobals, hFirst] at hBuilder hIndex
  have hTotal : program.imports.length + 2 + state.declared.length ≤ 2 ^ 32 := by
    rw [hBuilder, Builder.numFunctions, List.length_append,
      List.length_map, ← Nat.add_assoc] at hFew
    rw [hSameCount, Builder.numFunctions] at hFirst
    simp only at hFew
    omega
  obtain ⟨hImports, hFuncs, hGlobals, hBase, hCursor, hLimit, hAlloc, hReset, hConfig, hExports⟩ :=
    install_importing hInstall (by omega)
  refine ⟨rfl, hListed, ?_, ?_, ?_, ?_, ?_, hBase ▸ baseOf_ne_zero config,
    ⟨hCursor, hLimit, hAlloc, hReset⟩, fun place item hItem => ?_⟩
  · rw [hBuilder]
    exact hImports
  · rw [hBuilder, ← hFuncs]
  · rw [hBuilder]
    exact hGlobals
  · rw [hBuilder, ← hConfig]
    rfl
  · simp only [hBuilder]
    exact hSameExports.trans hExports
  · have hBound := (List.getElem?_eq_some_iff.1 hItem).1
    rw [hIndex place item hItem, ← Nat.add_assoc]
    exact toNat_toUInt32 (by omega)

/-- The functions of a program get their bodies. -/
theorem Placed.setBodies_eq {config : CompileConfig} {program : Program} {handle : Heap.Handle}
    {installed : Builder} {state : Declarations} {cancelled : Bool} {bodies : List FunctionBody}
    (hPlaced : Placed config program handle installed state)
    (hCompile : compileJobs cancelled state.env state.declared = .ok bodies) :
    setBodies state.builder (state.declared.zip bodies) = .ok { state.builder with
      funcs := handle.functions ++ List.zipWith bodied state.declared bodies } := by
  have hTypes : List.Forall₂ (fun item body => body.type =
      jobType (startEnv program state.env.registry handle) item.job) state.declared bodies :=
    (compileJobs_ok hCompile).imp fun item body hBody => by
      rw [compileJob_type hBody, hPlaced.listed.same.jobType]
      rfl
  refine Compile.setBodies_eq hPlaced.funcs hTypes fun place item hItem => ?_
  rw [hPlaced.index place item hItem, hPlaced.imports, List.length_map]
  rfl

/-- A program that is compiled fits together, if its functions have indices. -/
theorem assemble_fits {config : CompileConfig} {cancelled : Bool} {program : Program}
    {assembled : Assembled} (hAssemble : assemble config cancelled program = .ok assembled)
    (hFew : assembled.builder.numFunctions ≤ 2 ^ 32) : assembled.Fits program := by
  obtain ⟨registry, handle, installed, state, filled, hRegistry, hNames, hInstall,
    hDeclare, hCompile, hSet, hExport, hEnv, hSameHandle, hDeclared⟩ := assemble_ok hAssemble
  rcases assembled with ⟨env, heap, builder, declared, bodies⟩
  simp only at hCompile hSet hExport hEnv hSameHandle hDeclared hFew
  subst hEnv hSameHandle hDeclared
  obtain ⟨front, rfl⟩ := exportAll_ok hExport
  obtain ⟨rfl, hPlaced⟩ := declareAll_placed hNames hInstall hDeclare
    (setBodies_length hSet ▸ hFew)
  obtain rfl := Except.ok.inj (hSet.symm.trans (hPlaced.setBodies_eq hCompile))
  refine ⟨hRegistry, hPlaced.listed.same, hPlaced.imports, hPlaced.base, hPlaced.handle,
    hPlaced.globals, rfl, compileJobs_ok hCompile, hPlaced.index, hPlaced.listed.arises,
    fun record hRecord found => declareAll_constructs hDeclare hRecord, ?_,
    (declareAll_reaches hDeclare).referred rfl hNames, _, rfl⟩
  have hFresh := hPlaced.listed.fresh
  rw [startOf, ← List.append_assoc] at hFresh
  exact ((List.reverse_perm _).append_right _).nodup_iff.1 (List.nodup_append.1 hFresh).1

/-- A program that is compiled is assembled first. -/
theorem program_ok {config : CompileConfig} {cancelled : Bool} {source : Program}
    {assembled : Assembled} {compiled : Compiled}
    (hCompile : program config cancelled source = .ok compiled)
    (hAssemble : assemble config cancelled source = .ok assembled) :
    assembled.builder.build = .ok compiled.binary ∧ compiled.registry = assembled.env.registry := by
  simp only [program, hAssemble, bind_ok, single_ok, mapError_ok, pure_ok] at hCompile
  obtain ⟨_, hSame, binary, hBuild, rfl⟩ := hCompile
  cases hSame
  exact ⟨hBuild, rfl⟩

namespace Assembled.Fits

variable {assembled : Assembled} {program : Program} (hFits : assembled.Fits program)
include hFits

theorem lays : assembled.env.registry.Lays assembled.env.records := by
  rw [hFits.same.records]
  exact compute_lays hFits.registry

/-- The body of a declared function stands at its place, behind the functions of the heap. -/
theorem body_at {place : Nat} {item : Declared} (hItem : assembled.declared[place]? = some item) :
    ∃ body, assembled.bodies[place]? = some body ∧ compileJob assembled.env item.job = .ok body ∧
      assembled.builder.funcs[2 + place]? = some (bodied item body) := by
  obtain ⟨hBound, hEq⟩ := List.getElem?_eq_some_iff.1 hItem
  have hOther : place < assembled.bodies.length := hFits.compiled.length_eq ▸ hBound
  have hCompiled := hFits.compiled.get hBound hOther
  rw [List.get_eq_getElem, hEq] at hCompiled
  refine ⟨assembled.bodies[place], List.getElem?_eq_getElem hOther, hCompiled, ?_⟩
  rw [hFits.funcs, List.getElem?_append_right (by simp [Heap.Handle.functions])]
  simp [Heap.Handle.functions, List.getElem?_zipWith, hItem, hOther]

/-- A declared function stands in the module with the body that was compiled for it. -/
theorem placed {item : Declared} (hItem : item ∈ assembled.declared) :
    ∃ body place, compileJob assembled.env item.job = .ok body ∧
      assembled.builder.funcs[place]? = some (bodied item body) ∧
      item.index.toNat = assembled.builder.imports.length + place := by
  obtain ⟨place, hPlace⟩ := List.getElem?_of_mem hItem
  obtain ⟨body, -, hCompiled, hFunction⟩ := hFits.body_at hPlace
  refine ⟨body, 2 + place, hCompiled, hFunction, ?_⟩
  rw [hFits.index place item hPlace, hFits.imports, List.length_map]

/-- A declared function runs the body that was compiled for it. -/
theorem linked {functions : Array Machine.Function}
    (hLinked : assembled.builder.Linked functions) {item : Declared}
    (hItem : item ∈ assembled.declared) :
    ∃ body types steps, compileJob assembled.env item.job = .ok body ∧
      Machine.Step.ofInstrs? types body.instrs = some steps ∧
      functions[item.index.toNat]? = some (.coded body.type body.locals steps) := by
  obtain ⟨body, place, hCompile, hFunction, hIndex⟩ := hFits.placed hItem
  obtain ⟨types, steps, hRead, hCoded⟩ := hLinked place _ _ hFunction rfl
  exact ⟨body, types, steps, hCompile, hRead, hIndex ▸ hCoded⟩

end Assembled.Fits

end RecordWasm.Compile
