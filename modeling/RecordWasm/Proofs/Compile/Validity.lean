import RecordWasm.Proofs.Assembly.Validity
import RecordWasm.Proofs.Binary.LocalRuns
import RecordWasm.Proofs.Lowering.Structure
import RecordWasm.Proofs.Validation.Program

/-!
# Compiled programs are valid

Once all functions of a program are compiled, the limits of the memory are the only thing that can
still be refused.  The binary is read back as the module that was assembled.
-/

namespace RecordWasm.Compile

open Syntax Layout Lowering Assembly Wasm Validation

/-- The exports of the heap, unless they are hidden. -/
def heapExports (config : CompileConfig) (handle : Heap.Handle) : List Export :=
  if config.hideAlloc then []
  else [⟨Heap.allocName, .function, handle.allocFunc⟩,
    ⟨Heap.resetName, .function, handle.resetFunc⟩]

/-- All exports of functions in their order. -/
def exportsOf (config : CompileConfig) (assembled : Assembled) : List Export :=
  heapExports config assembled.handle ++ declaredExports assembled.declared

def exportOne (builder : Builder) (item : Export) : Except BuildError Builder :=
  builder.exportFunction item.name item.index

theorem exportAll_fold (config : CompileConfig) (handle : Heap.Handle) (declared : List Declared)
    (builder : Builder) :
    exportAll config handle declared builder =
      (heapExports config handle ++ declaredExports declared).foldlM exportOne builder := by
  rw [exportAll, heapExports, List.foldlM_append]
  have hDeclared (builder : Builder) : declared.foldlM (fun builder item =>
      builder.exportFunction item.name item.index) builder =
      (declaredExports declared).foldlM exportOne builder := by
    rw [declaredExports, List.foldlM_map]
    rfl
  simp only [hDeclared]
  split
  · rfl
  · simp only [List.foldlM_cons, List.foldlM_nil, bind_assoc, pure_bind, exportOne]

/-- Functions with names of their own are exported. -/
theorem exports_eq {items : List Export} {builder : Builder}
    (hNames : (builder.config.memoryName :: (builder.exports ++ items).map Export.name).Nodup)
    (hItems : ∀ item ∈ items, item.kind = .function ∧ item.index.toNat < builder.numFunctions) :
    items.foldlM exportOne builder = .ok { builder with exports := builder.exports ++ items } := by
  induction items generalizing builder with
  | nil => simp [pure, Except.pure]
  | cons item rest ih =>
      obtain ⟨hKind, hIndex⟩ := hItems item List.mem_cons_self
      have hNew : ¬(item.name ∈ builder.exports.map Export.name ∨
          item.name = builder.config.memoryName) := by
        simp only [List.map_append, List.map_cons, List.nodup_cons, List.nodup_append,
          List.mem_append, List.mem_cons] at hNames
        rintro (hOld | hMemory)
        · exact hNames.2.2.2 _ hOld _ (.inl rfl) rfl
        · exact hNames.1 (.inr (.inl hMemory.symm))
      have hFirst : exportOne builder item =
          .ok { builder with exports := builder.exports ++ [item] } := by
        rw [exportOne, Builder.exportFunction, if_pos hIndex, Builder.addExport,
          if_neg hNew, ← hKind]
      rw [List.foldlM_cons, hFirst]
      refine (@ih { builder with exports := builder.exports ++ [item] } ?_ fun other hOther =>
        hItems other (List.mem_cons_of_mem _ hOther)).trans ?_
      · rw [List.append_assoc]
        exact hNames
      · rw [List.append_assoc]
        rfl

/-- What is known of a program whose functions are compiled but have no bodies in the module. -/
structure Ready (config : CompileConfig) (prepared : Assembled) : Prop where
  filled : setBodies prepared.builder (prepared.declared.zip prepared.bodies) = .ok
    { prepared.builder with
      funcs := prepared.handle.functions ++ List.zipWith bodied prepared.declared prepared.bodies }
  exports : prepared.builder.exports = []
  /-- The names of exports differ from each other and from that of the memory. -/
  names : (prepared.builder.config.memoryName :: (exportsOf config prepared).map Export.name).Nodup
  /-- All exported functions are there. -/
  indices : ∀ item ∈ exportsOf config prepared, item.kind = .function ∧
    item.index.toNat < prepared.builder.numFunctions
  pages : prepared.builder.config.memoryPages = prepared.handle.memoryPages
  maxPages : prepared.builder.config.maxPages = config.maxPages
  globals : prepared.builder.globals =
    [Heap.wordGlobal prepared.handle.base, Heap.wordGlobal prepared.handle.limit]

/-- The builder once all functions have their bodies and are exported. -/
def completed (config : CompileConfig) (prepared : Assembled) : Builder :=
  { prepared.builder with
    funcs := prepared.handle.functions ++ List.zipWith bodied prepared.declared prepared.bodies
    exports := exportsOf config prepared }

namespace Ready

variable {config : CompileConfig} {prepared : Assembled} (hReady : Ready config prepared)
include hReady

theorem numFunctions :
    (completed config prepared).numFunctions = prepared.builder.numFunctions := by
  have hSame := setBodies_length hReady.filled
  exact hSame

/-- Nothing keeps the functions from getting their bodies and being exported. -/
theorem complete : complete config prepared = .ok (completed config prepared) := by
  rw [Compile.complete, bind_ok]
  refine ⟨_, hReady.filled, (exportAll_fold _ _ _ _).trans ((exports_eq ?_ ?_).trans ?_)⟩
  · rw [hReady.exports]
    exact hReady.names
  · intro item hItem
    have hCount := setBodies_length hReady.filled
    rw [hCount]
    exact hReady.indices item hItem
  · rw [hReady.exports]
    rfl

theorem assemble {cancelled : Bool} {program : Program}
    (hPrepare : prepare config cancelled program = .ok prepared) :
    assemble config cancelled program =
      .ok { prepared with builder := completed config prepared } := by
  rw [assemble_eq, hPrepare]
  refine bind_ok.2 ⟨prepared, rfl, ?_⟩
  rw [hReady.complete]
  rfl

end Ready

section Bodies

variable {place : BodyContext}

/-- The instructions of a body are well formed and pass the check. -/
def Accepts (place : BodyContext) (instrs : List Instr) : Prop :=
  (∀ instr ∈ instrs, instr.wellFormed = true) ∧ place.checkFrom 0 1 instrs = .ok ()

/-- Code that passes is accepted when it is closed. -/
theorem accepts_of_passes {code : Code} (hPasses : Passes place 0 code) :
    Accepts place (code ++ [.close]) := by
  refine ⟨fun instr hInstr => ?_, ?_⟩
  · rw [List.mem_append, List.mem_singleton] at hInstr
    rcases hInstr with hInside | rfl
    · exact hPasses.formed instr hInside
    · rfl
  · have hClose (pc : Nat) : place.step pc (0 + 1) .close = .ok 0 := rfl
    rw [hPasses.checked, checkFrom_cons (hClose _)]
    rfl

theorem accepts_function {env : Env} {decl : FuncDecl} {body : FunctionBody}
    (hLower : lowerFunction env decl = .ok body) (hAdmits : Admits place env)
    (hLocals : body.type.params.length + body.locals.length = place.locals) :
    Accepts place body.instrs := by
  obtain ⟨code, after, hType, hBodyLocals, hInstrs, hBody, hTypes⟩ := lowerFunction_derives hLower
  rw [hType, params_signature, length_flatMap_reprs hTypes, hBodyLocals, List.length_map] at hLocals
  have hParams := hBody.grows.params
  have hRoom : after.size ≤ place.locals := by
    rw [Slots.size, hParams]
    exact Nat.le_of_eq hLocals
  have hSits : Sits place (entryPoint env decl) := by
    refine ⟨hAdmits, fun entry hEntry => ?_, fun hReceiver => ?_⟩
    · obtain ⟨index, hIndex, hPlace⟩ := mem_entryScope hEntry
      have hBound := (List.getElem?_eq_some_iff.1 hPlace).1
      have hLow := toNat_toUInt32_le index
      rw [hIndex]
      omega
    · have hMethod :
          decl.isMethod = true := by simpa [FuncDecl.isMethod, entryPoint] using hReceiver
      rw [paramTypes, if_pos hMethod, List.length_append, List.length_singleton] at hLocals
      omega
  rw [hInstrs]
  exact accepts_of_passes (hBody.passes hRoom hSits)

theorem passes_storeParams {address : UInt32} {index : Nat} {fields : List Field}
    (hMemory : place.hasMemory = true) (hAddress : address.toNat < place.locals)
    (hRoom : index + fields.length ≤ place.locals) :
    Passes place 0 (storeParams address index fields) := by
  induction fields generalizing index with
  | nil => exact .nil
  | cons field rest ih =>
      rw [List.length_cons] at hRoom
      have hParam : index.toUInt32.toNat < place.locals := by
        have hLow := toNat_toUInt32_le index
        omega
      exact ((Passes.localGet hAddress).cons ((Passes.localGet hParam).cons
        (.store hMemory field))).append (ih (by omega))

theorem accepts_constructor {env : Env} {name : String} {body : FunctionBody}
    (hLays : env.registry.Lays env.records) (hLower : lowerConstructor env name = .ok body)
    (hAdmits : Admits place env)
    (hLocals : body.type.params.length + body.locals.length = place.locals) :
    Accepts place body.instrs := by
  obtain ⟨record, alloc, hGet, hAlloc, rfl⟩ := lowerConstructor_eq_ok.1 hLower
  simp only [length_constructorRef hLays hGet, List.length_singleton] at hLocals
  have hAddress : record.fields.length.toUInt32.toNat < place.locals := by
    have hLow := toNat_toUInt32_le record.fields.length
    omega
  have hStores := @passes_storeParams place _ 0 record.fields hAdmits.memory hAddress (by omega)
  have hCode := accepts_of_passes ((passes_alloc hAdmits hAddress hAlloc).append
    (hStores.append (.localGet hAddress)))
  simpa using hCode

section Heap

variable {handle : Heap.Handle}

/-- The globals of a heap are there and may be set. -/
structure HoldsGlobals (place : BodyContext) (handle : Heap.Handle) : Prop where
  cursor : place.globals[handle.cursorGlobal.toNat]? = some (some ⟨.i32, true⟩)
  limit : place.globals[handle.limitGlobal.toNat]? = some (some ⟨.i32, true⟩)

theorem accepts_alloc (hGlobals : HoldsGlobals place handle) (hMemory : place.hasMemory = true)
    (hLocals : place.locals = 5) : Accepts place handle.allocInstrs := by
  have hGet {frames : Nat} (index : UInt32) (hIndex : index.toNat < 5) :
      Passes place frames [.localGet index] := .localGet (hLocals ▸ hIndex)
  have hTee {frames : Nat} (index : UInt32) (hIndex : index.toNat < 5) :
      Passes place frames [.localTee index] := .localTee (hLocals ▸ hIndex)
  have hCursor {frames : Nat} : Passes place frames [.globalGet handle.cursorGlobal] :=
    .globalGet (List.getElem?_eq_some_iff.1 hGlobals.cursor).1
  have hLimit {frames : Nat} : Passes place frames [.globalGet handle.limitGlobal] :=
    .globalGet (List.getElem?_eq_some_iff.1 hGlobals.limit).1
  have hRequest : Passes place 0
      [.globalGet handle.cursorGlobal, .localGet 1, Heap.add32, .i32Const 1, Heap.sub32,
        .i32Const 0, .localGet 1, Heap.sub32, (Opcode.int .w32 .and).instr, .localTee 2,
        .localGet 0, Heap.add32, .localTee 3, .globalGet handle.limitGlobal,
        (Opcode.compareInt .w32 .gtU).instr] :=
    hCursor.cons ((hGet 1 (by decide)).cons ((Passes.int _ _).cons ((Passes.i32Const _).cons
      ((Passes.int _ _).cons ((Passes.i32Const _).cons ((hGet 1 (by decide)).cons
      ((Passes.int _ _).cons ((Passes.int _ _).cons ((hTee 2 (by decide)).cons
      ((hGet 0 (by decide)).cons ((Passes.int _ _).cons ((hTee 3 (by decide)).cons
      (hLimit.cons (.compareInt _ _))))))))))))))
  have hPages : Passes place 1
      [.localGet 3, .globalGet handle.limitGlobal, Heap.sub32,
        .i32Const (Heap.pageBytes - 1).toInt32, Heap.add32, .i32Const 16,
        (Opcode.int .w32 .shrU).instr, .localTee 4, .memoryGrow, .i32Const (-1),
        (Opcode.compareInt .w32 .eq).instr] :=
    (hGet 3 (by decide)).cons (hLimit.cons ((Passes.int _ _).cons ((Passes.i32Const _).cons
      ((Passes.int _ _).cons ((Passes.i32Const _).cons ((Passes.int _ _).cons
      ((hTee 4 (by decide)).cons ((Passes.memoryGrow hMemory).cons ((Passes.i32Const _).cons
      (.compareInt _ _))))))))))
  have hFailed :
      Passes place 1 (.ifThen voidBlock :: [.i32Const 0, Opcode.ret.instr] ++ [.close]) :=
    ((Passes.i32Const _).cons .ret).ifThen voidBlock
  have hRaised : Passes place 1
      [.globalGet handle.limitGlobal, .localGet 4, .i32Const 16, (Opcode.int .w32 .shl).instr,
        Heap.add32, .globalSet handle.limitGlobal] :=
    hLimit.cons ((hGet 4 (by decide)).cons ((Passes.i32Const _).cons ((Passes.int _ _).cons
      ((Passes.int _ _).cons (.globalSet hGlobals.limit rfl)))))
  have hMoved : Passes place 0 [.localGet 3, .globalSet handle.cursorGlobal, .localGet 2] :=
    (hGet 3 (by decide)).cons ((Passes.globalSet hGlobals.cursor rfl).cons (hGet 2 (by decide)))
  have hWhole := hRequest.append (((hPages.append (hFailed.append hRaised)).ifThen voidBlock).append
    hMoved)
  exact accepts_of_passes hWhole

theorem accepts_reset (hGlobals : HoldsGlobals place handle) : Accepts place handle.resetInstrs :=
  accepts_of_passes ((Passes.i32Const _).cons (.globalSet hGlobals.cursor rfl))

end Heap

end Bodies

/-! ## Whole programs -/

/-- A function has no more locals than instructions. -/
theorem compileJob_locals {env : Env} {job : Job} {body : FunctionBody}
    (hCompile : compileJob env job = .ok body) : body.locals.length ≤ body.instrs.length := by
  cases job with
  | function decl =>
      obtain ⟨code, after, -, hLocals, hInstrs, hBody, -⟩ := lowerFunction_derives hCompile
      have hLength := hBody.grows.length
      rw [hLocals, hInstrs, List.length_map, List.length_append]
      simp only [List.length_nil, Nat.zero_add] at hLength
      omega
  | constructor record =>
      obtain ⟨_, _, -, -, rfl⟩ := lowerConstructor_eq_ok.1 hCompile
      simp only [List.length_append, List.length_cons]
      omega

section Program

variable {assembled : Assembled} {program : Program} {module : Module}

/-- The functions that a program may call are those of its module. -/
theorem Assembled.Fits.admits (hFits : assembled.Fits program) {place : BodyContext}
    (hMemory : place.hasMemory = true) (hFuncs : place.funcs = assembled.builder.numFunctions) :
    Admits place assembled.env := by
  have hImports : assembled.builder.imports.length = program.imports.length := by
    rw [hFits.imports, List.length_map]
  have hDeclared (item : Declared) (hItem : item ∈ assembled.declared) :
      item.index.toNat < place.funcs := by
    obtain ⟨_, index, -, hFunction, hIndex⟩ := hFits.placed hItem
    have hBound := (List.getElem?_eq_some_iff.1 hFunction).1
    rw [hFuncs, Builder.numFunctions]
    omega
  refine ⟨hMemory, ?_, fun ref hRef => ?_, fun entry hEntry => ?_, fun entry hEntry => ?_⟩
  · have hHeap : assembled.env.heap = assembled.handle := hFits.same.heap
    obtain ⟨-, -, hAlloc, -⟩ := hFits.handle
    rw [hHeap, hAlloc, hFuncs, Builder.numFunctions, hImports, hFits.funcs, List.length_append]
    have hTwo : assembled.handle.functions.length = 2 := rfl
    omega
  · rcases hFits.referred.funcs ref hRef with hImport | ⟨decl, -, -, hItem⟩
    · obtain ⟨index, decl, hDecl, rfl⟩ := mem_importRefs (List.mem_reverse.1 hImport)
      have hBound := (List.getElem?_eq_some_iff.1 hDecl).1
      have hLow := toNat_toUInt32_le (0 + index)
      rw [hFuncs, Builder.numFunctions]
      simp only [FuncRef.ofImport]
      omega
    · exact hDeclared _ hItem
  · rcases hFits.referred.methods entry.1 entry.2 hEntry with hNone | ⟨decl, -, -, -, hItem⟩
    · cases hNone
    · exact hDeclared _ hItem
  · rcases hFits.referred.constructors entry.1 entry.2 hEntry with hNone | ⟨found, -, -, hItem⟩
    · cases hNone
    · exact hDeclared _ hItem

/-- All functions of a program that is assembled are accepted in its module. -/
theorem validateBody_assembled (hSigned : Signed assembled program module)
    {function : Assembly.Function} {body : Assembly.Body}
    (hFunction : function ∈ assembled.builder.funcs) (hBody : function.body = some body)
    (hFew : body.instrs.length < 2 ^ 32) :
    module.validateBody function.type
      ⟨LocalRun.compact body.locals, Instr.encodeAll body.instrs⟩ = .ok () := by
  let place := module.bodyContext function.type
    ⟨LocalRun.compact body.locals, Instr.encodeAll body.instrs⟩
  have hMemory : place.hasMemory = true := by
    simp [place, Module.bodyContext, Module.numMemories, hSigned.memories]
  have hAdmits : Admits place assembled.env :=
    hSigned.fits.admits hMemory (hSigned.holds.numFuncs hSigned.types)
  have hLocals (hShort : body.locals.length < 2 ^ 32) :
      function.type.params.length + body.locals.length = place.locals := by
    simp only [place, Module.bodyContext, LocalRun.total_compact hShort]
  suffices hAccepts : Accepts place body.instrs from validateBody_ok hAccepts.1 hAccepts.2
  rw [hSigned.fits.funcs, List.mem_append] at hFunction
  rcases hFunction with hHeap | hDeclared
  · -- The functions of the heap are `alloc` and `reset`.
    have hGlobals : HoldsGlobals place assembled.handle := by
      obtain ⟨hCursor, hLimit, -, -⟩ := hSigned.fits.handle
      have hSpace : place.globals = [some ⟨.i32, true⟩, some ⟨.i32, true⟩] := by
        simp only [place, Module.bodyContext, Module.globalSpace, hSigned.holds.globals,
          hSigned.globals, hSigned.fits.globals]
        rfl
      exact ⟨by rw [hCursor, hSpace]; rfl, by rw [hLimit, hSpace]; rfl⟩
    rcases List.mem_cons.1 hHeap with rfl | hReset
    · cases hBody
      exact accepts_alloc hGlobals hMemory rfl
    · obtain rfl := List.mem_singleton.1 hReset
      cases hBody
      exact accepts_reset hGlobals
  · obtain ⟨index, hIndex⟩ := List.getElem?_of_mem hDeclared
    rw [List.getElem?_zipWith_eq_some] at hIndex
    obtain ⟨item, compiled, hItem, hCompiled, rfl⟩ := hIndex
    cases hBody
    obtain ⟨hBound, rfl⟩ := List.getElem?_eq_some_iff.1 hItem
    obtain ⟨hOther, rfl⟩ := List.getElem?_eq_some_iff.1 hCompiled
    have hCompile := hSigned.fits.compiled.get hBound hOther
    rw [List.get_eq_getElem, List.get_eq_getElem] at hCompile
    have hShort := Nat.lt_of_le_of_lt (compileJob_locals hCompile) hFew
    cases hJob : assembled.declared[index].job with
    | function decl =>
        rw [hJob] at hCompile
        exact accepts_function hCompile hAdmits (hLocals hShort)
    | constructor record =>
        rw [hJob] at hCompile
        exact accepts_constructor hSigned.fits.lays hCompile hAdmits (hLocals hShort)

end Program

/-- Words start out as one constant of their type. -/
theorem validate_wordGlobal (value : UInt32) : (Heap.wordGlobal value).validate = .ok () := by
  have hFormed : ∀ instr ∈ [Instr.i32Const value.toInt32, .close], instr.wellFormed = true := by
    simp [Instr.i32Const, Instr.close, Opcode.admits]
  rw [Global.validate, Heap.wordGlobal, Instr.i32ConstExpr]
  simp only [decodeAll_encodeAll hFormed]
  rfl

/-- The module that is assembled is valid if the limits of its memory are. -/
theorem Ready.validate {config : CompileConfig} {prepared : Assembled} {program : Program}
    {module : Module} (hReady : Ready config prepared)
    (hFits : Assembled.Fits { prepared with builder := completed config prepared } program)
    (hFew : prepared.builder.numFunctions < 2 ^ 32)
    (hModule : (completed config prepared).module = .ok module)
    (hLength : module.encode.length < 2 ^ 32) :
    module.validate =
      (Builder.memoryLimits prepared.builder.config).validate.mapError (.memory 0) := by
  have hCount := hReady.numFunctions
  obtain ⟨hHolds, hGlobals, hMemories⟩ := Builder.module_holds hModule
  obtain ⟨hTypes, -, hBodies⟩ := hHolds.length_le
  have hSigned : Signed { prepared with builder := completed config prepared } program module :=
    ⟨hFits, hHolds, hGlobals, by rw [hMemories]; rfl, by omega, by rw [hCount]; exact hFew⟩
  refine @validate_module (completed config prepared) module hModule (by omega) hReady.names
    ?_ ?_ ?_
  · rw [hCount]
    exact hReady.indices
  · intro item hItem
    rw [completed, hReady.globals] at hItem
    rcases List.mem_cons.1 hItem with rfl | hLimit
    · exact validate_wordGlobal _
    · rw [List.mem_singleton.1 hLimit]
      exact validate_wordGlobal _
  · intro function hFunction body hBody
    obtain ⟨other, hOther, hShort⟩ := hBodies function hFunction
    obtain rfl := Option.some.inj (hBody.symm.trans hOther)
    exact validateBody_assembled hSigned hFunction hBody (by omega)

/-- A module whose globals are words can be read back. -/
theorem parse_module {builder : Builder} {module : Module} (hModule : builder.module = .ok module)
    (hWords : ∀ item ∈ builder.globals, ∃ word, item = Heap.wordGlobal word)
    (hLength : module.encode.length < 2 ^ 32) : Module.parse module.encode = .ok module := by
  obtain ⟨hHolds, hGlobals, -⟩ := Builder.module_holds hModule
  obtain ⟨hTypes, -, -⟩ := hHolds.length_le
  refine Module.parse_encode ⟨fun item hItem => ?_, fun item hItem => ?_⟩
    (Module.sized_of_length hLength)
  · obtain ⟨type, -, hDesc⟩ := hHolds.import_function (by omega) hItem
    rw [hDesc]
    rfl
  · rw [hGlobals] at hItem
    obtain ⟨word, rfl⟩ := hWords item hItem
    exact ⟨_, rfl, rfl⟩

/-- The globals of a heap are words. -/
theorem words_of_globals {globals : List Global} {handle : Heap.Handle}
    (hGlobals : globals = [Heap.wordGlobal handle.base, Heap.wordGlobal handle.limit]) :
    ∀ item ∈ globals, ∃ word, item = Heap.wordGlobal word := by
  intro item hItem
  rw [hGlobals] at hItem
  rcases List.mem_cons.1 hItem with rfl | hLimit
  · exact ⟨_, rfl⟩
  · exact ⟨_, List.mem_singleton.1 hLimit⟩

end RecordWasm.Compile
