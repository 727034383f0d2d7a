import RecordWasm.Proofs.Assembly.Module
import RecordWasm.Proofs.Binary.Modules
import Mathlib.Data.List.Nodup

/-!
# The module of a builder is valid

What a builder describes passes the check of modules as far as types, exports and the number of
memories go.  What is left are the globals and the bodies, and the limits of the memory.
-/

namespace RecordWasm.Assembly

open Wasm Binary

/-- Items that pass one by one pass together. -/
theorem checkFrom_ok {α ε : Type} {check : Nat → α → Except ε Unit} {items : List α}
    (hItems : ∀ index, ∀ item ∈ items, check index item = .ok ()) (start : Nat) :
    checkFrom check start items = .ok () := by
  induction items generalizing start with
  | nil => rfl
  | cons item rest ih =>
      rw [checkFrom, hItems start item List.mem_cons_self]
      exact ih (fun index other hOther => hItems index other (List.mem_cons_of_mem _ hOther)) _

theorem require_of {ε : Type} {condition : Prop} [Decidable condition] {cause : ε}
    (hCondition : condition) : require condition cause = .ok () := if_pos hCondition

namespace Holds

variable {module : Module} {imports : List ImportedFunction} {funcs : List Function}
  (hHolds : Holds module imports funcs) (hFew : module.types.length ≤ 2 ^ 32)
include hHolds hFew

/-- Every function has a type that is there. -/
theorem type_lt {index : UInt32} (hIndex : index ∈ module.funcSpace) :
    index.toNat < module.types.length := by
  have hNamed := hHolds.named hFew
  obtain ⟨place, hBound, rfl⟩ := List.getElem_of_mem hIndex
  have hLength := hNamed.length_eq
  have hType := hNamed.get (by omega) hBound
  exact (List.getElem?_eq_some_iff.1 hType).1

/-- The types of the functions that are not imported. -/
theorem named_own : Named module.types (funcs.map Function.type) module.funcs := by
  have hNamed := hHolds.named hFew
  have hLength := hNamed.length_eq
  have hOwn := hHolds.own
  simp only [Module.funcSpace, List.length_append, List.length_map] at hLength
  have hDrop := List.forall₂_drop imports.length hNamed
  rw [Module.funcSpace, List.drop_left' (by simp), List.drop_left' (by omega)] at hDrop
  exact hDrop

theorem numFuncs : module.numFuncs = imports.length + funcs.length := by
  have hLength := (hHolds.named hFew).length_eq
  rw [Module.funcSpace, List.length_append, List.length_append, List.length_map,
    List.length_map] at hLength
  exact hLength.symm

/-- All imports are functions. -/
theorem import_function {item : Import} (hItem : item ∈ module.imports) :
    ∃ type ∈ module.importedFuncs, item.desc = .function type := by
  have hCount := hHolds.numFuncs hFew
  have hAll : module.importedFuncs.length = module.imports.length := by
    rw [Module.numFuncs, hHolds.own] at hCount
    rw [hHolds.imported]
    omega
  rw [Module.importedFuncs, List.length_filterMap_eq_countP] at hAll
  have hSome := List.countP_eq_length.1 hAll item hItem
  cases hDesc : item.desc with
  | function type =>
      refine ⟨type, List.mem_filterMap.2 ⟨item, hItem, ?_⟩, rfl⟩
      rw [hDesc]
  | memory limits =>
      rw [hDesc] at hSome
      cases hSome
  | global type =>
      rw [hDesc] at hSome
      cases hSome
  | other kind =>
      rw [hDesc] at hSome
      cases hSome

/-- A type index and the code beside it belong to one function. -/
theorem entry {entry : UInt32 × FuncBody} (hEntry : entry ∈ module.funcs.zip module.code) :
    ∃ function ∈ funcs, module.types[entry.1.toNat]? = some function.type ∧
      Coded function entry.2 := by
  obtain ⟨place, hBound, rfl⟩ := List.getElem_of_mem hEntry
  rw [List.length_zip] at hBound
  have hOwn := hHolds.own
  have hPlace : place < funcs.length := by omega
  have hCoded := hHolds.coded.get hPlace (by omega)
  have hType := (hHolds.named_own hFew).get (by simpa using hPlace) (by omega)
  exact ⟨funcs[place], List.getElem_mem hPlace, by simpa using hType, by simpa using hCoded⟩

end Holds

section Checks

variable {builder : Builder} {module : Module}

/-- The parts of a module that do not depend on its functions. -/
theorem Builder.module_parts (hModule : builder.module = .ok module) :
    module.exports = ⟨builder.config.memoryName, .memory, 0⟩ :: builder.exports ∧
      module.customs = builder.nameSections := by
  simp only [Builder.module, bind_ok, pure_ok] at hModule
  obtain ⟨inner, -, rfl⟩ := hModule
  exact ⟨rfl, rfl⟩

/-- The imports of a module are those of its builder. -/
theorem Builder.module_imports (hModule : builder.module = .ok module) :
    module.imports.map (fun item => (item.module, item.name)) =
      builder.imports.map fun item => (item.module, item.name) := by
  have hTypes (module : Module) (type : FuncType) :
      (module.addType type).2.imports = module.imports := by
    obtain ⟨more, hMore⟩ := addType_prefix module type
    rw [hMore]
  have hImports (items : List ImportedFunction) (start : Module) :
      (items.foldl placeImport start).imports.map (fun item => (item.module, item.name)) =
        start.imports.map (fun item => (item.module, item.name)) ++
          items.map fun item => (item.module, item.name) := by
    induction items generalizing start with
    | nil => simp
    | cons item rest ih => simp [ih, placeImport, hTypes]
  simp only [Builder.module, bind_ok, pure_ok] at hModule
  obtain ⟨inner, hFuncs, rfl⟩ := hModule
  have hSame : inner.imports = (builder.imports.foldl placeImport {}).imports := by
    refine foldlM_ok (fun _ now => now.imports = (builder.imports.foldl placeImport {}).imports) rfl
      ?_ hFuncs
    intro _ function before after _ hBefore hPlace
    rw [placeFunction] at hPlace
    split at hPlace
    · cases hPlace
    · rw [Except.ok.injEq] at hPlace
      subst hPlace
      exact (hTypes before function.type).trans hBefore
  simp [hSame, hImports]

theorem validateTypeIndices_ok {imports : List ImportedFunction} {funcs : List Function}
    (hHolds : Holds module imports funcs) (hFew : module.types.length ≤ 2 ^ 32) :
    module.validateTypeIndices = .ok () := by
  rw [Module.validateTypeIndices, bind_ok]
  refine ⟨(), checkFrom_ok (fun index type hType => ?_) 0,
    checkFrom_ok (fun index item hItem => ?_) 0⟩
  · exact require_of (hHolds.type_lt hFew (List.mem_append_right _ hType))
  · obtain ⟨type, hType, hDesc⟩ := hHolds.import_function hFew hItem
    rw [hDesc]
    exact require_of (hHolds.type_lt hFew (List.mem_append_left _ hType))

/-- Exports with names of their own that refer to something are accepted. -/
theorem validateExportsFrom_ok {exports : List Export} {seen : List String}
    (hNames : (exports.map Export.name ++ seen).Nodup)
    (hIndices : ∀ item ∈ exports, ∃ limit, module.exportLimit? item.kind = some limit ∧
      item.index.toNat < limit) (index : Nat) :
    module.validateExportsFrom index seen exports = .ok () := by
  induction exports generalizing index seen with
  | nil => rfl
  | cons item rest ih =>
      rw [List.map_cons, List.cons_append, List.nodup_cons] at hNames
      obtain ⟨hNew, hRest⟩ := hNames
      obtain ⟨limit, hLimit, hIndex⟩ := hIndices item List.mem_cons_self
      have hLater : (rest.map Export.name ++ item.name :: seen).Nodup :=
        List.nodup_middle.2 (List.nodup_cons.2 ⟨hNew, hRest⟩)
      have hFresh : item.name ∉ seen := fun hSeen => hNew (List.mem_append_right _ hSeen)
      rw [Module.validateExportsFrom, hLimit, require_of hFresh]
      simp only [require_of hIndex]
      exact ih hLater (fun other hOther => hIndices other (List.mem_cons_of_mem _ hOther)) _

/-- Code that is well formed and passes the check is accepted as a body. -/
theorem validateBody_ok {type : FuncType} {body : Body}
    (hFormed : ∀ instr ∈ body.instrs, instr.wellFormed = true)
    (hChecked : (module.bodyContext type
      ⟨LocalRun.compact body.locals, Instr.encodeAll body.instrs⟩).checkFrom 0 1 body.instrs =
        .ok ()) :
    module.validateBody type ⟨LocalRun.compact body.locals, Instr.encodeAll body.instrs⟩ =
      .ok () := by
  rw [Module.validateBody]
  simp only [decodeAll_encodeAll hFormed]
  exact hChecked

/-- The module of a builder is valid if its globals and bodies are and the limits of its memory are;
nothing else can be wrong with it. -/
theorem validate_module (hModule : builder.module = .ok module)
    (hFew : module.types.length ≤ 2 ^ 32)
    (hNames : (builder.config.memoryName :: builder.exports.map Export.name).Nodup)
    (hExports : ∀ item ∈ builder.exports, item.kind = .function ∧
      item.index.toNat < builder.numFunctions)
    (hGlobals : ∀ item ∈ builder.globals, item.validate = .ok ())
    (hBodies : ∀ function ∈ builder.funcs, ∀ body, function.body = some body →
      module.validateBody function.type
        ⟨LocalRun.compact body.locals, Instr.encodeAll body.instrs⟩ = .ok ()) :
    module.validate = (Builder.memoryLimits builder.config).validate.mapError (.memory 0) := by
  obtain ⟨hHolds, hSameGlobals, hMemories⟩ := Builder.module_holds hModule
  obtain ⟨hSameExports, -⟩ := Builder.module_parts hModule
  have hOne : module.numMemories = 1 := by
    rw [Module.numMemories, hHolds.memories, hMemories]
    rfl
  have hListed : module.validateExportsFrom 0 [] module.exports = .ok () := by
    rw [hSameExports]
    refine validateExportsFrom_ok (by simpa using hNames) (fun item hItem => ?_) 0
    rcases List.mem_cons.1 hItem with rfl | hOther
    · exact ⟨1, by rw [← hOne]; rfl, Nat.one_pos⟩
    · obtain ⟨hKind, hIndex⟩ := hExports item hOther
      refine ⟨module.numFuncs, by rw [hKind]; rfl, ?_⟩
      rwa [hHolds.numFuncs hFew]
  have hCount : module.code.length = module.funcs.length := by
    rw [← hHolds.coded.length_eq, hHolds.own]
  have hBodiesOk : module.validateBodies = .ok () := by
    refine checkFrom_ok (fun index entry hEntry => ?_) _
    obtain ⟨function, hFunction, hType, body, hBody, hCode⟩ := hHolds.entry hFew hEntry
    simp only [hType, hCode, hBodies function hFunction body hBody]
    rfl
  have hInits : checkFrom (fun index item => (Global.validate item).mapError
      (ValidationError.globalInit index)) 0 module.globals = .ok () := by
    refine checkFrom_ok (fun index item hItem => ?_) 0
    rw [hGlobals item (hSameGlobals ▸ hItem)]
    rfl
  have hLimits : module.validateMemories =
      (Builder.memoryLimits builder.config).validate.mapError (.memory 0) := by
    rw [Module.validateMemories, require_of (Nat.le_of_eq hOne), hMemories,
      @checkFrom_ok _ _ _ module.imports]
    · rw [checkFrom]
      cases (Builder.memoryLimits builder.config).validate <;> rfl
    · intro index item hItem
      obtain ⟨type, -, hDesc⟩ := hHolds.import_function hFew hItem
      rw [hDesc]
  rw [Module.validate, validateTypeIndices_ok hHolds hFew, hListed, require_of hCount, hLimits]
  cases (Builder.memoryLimits builder.config).validate with
  | error cause => rfl
  | ok _ =>
      simp only [hInits, hBodiesOk]
      rfl

end Checks

end RecordWasm.Assembly
