import RecordWasm.Assembly.Builder
import RecordWasm.Proofs.Success
import Mathlib.Algebra.BigOperators.Group.List.Basic
import Mathlib.Algebra.Order.BigOperators.Group.List
import Mathlib.Algebra.Order.Group.Nat
import Mathlib.Algebra.GroupWithZero.Nat
import Mathlib.Data.List.Forall2

/-!
# The module of a builder

The functions of a module are those of its builder, imports first, and each has its signature among
the types of the module.  What the module is written as is at least as long as all of its code, so
that the length of the binary bounds everything that is counted in it.
-/

namespace RecordWasm.Assembly

open Wasm Binary

/-- Indices of known signatures stand for signatures. -/
def Named (known : List FuncType) : List FuncType → List UInt32 → Prop :=
  List.Forall₂ fun type index => known[index.toNat]? = some type

theorem addType_prefix (module : Module) (type : FuncType) :
    ∃ more, (module.addType type).2 = { module with types := module.types ++ more } := by
  rw [Module.addType]
  split
  · exact ⟨[], by simp⟩
  · exact ⟨[type], rfl⟩

/-- A signature that was added is found under its index. -/
theorem addType_found {module : Module} {type : FuncType}
    (hFew : (module.addType type).2.types.length ≤ 2 ^ 32) :
    (module.addType type).2.types[(module.addType type).1.toNat]? = some type := by
  rw [Module.addType] at hFew ⊢
  split at hFew
  · rename_i index hIndex
    obtain ⟨hBound, hFound, -⟩ := List.idxOf?_eq_some_iff.1 hIndex
    simp only at hFew ⊢
    rw [toNat_toUInt32 (by omega), List.getElem?_eq_getElem hBound, hFound]
  · rw [List.length_append, List.length_singleton] at hFew
    simp only
    rw [toNat_toUInt32 (by omega)]
    simp

theorem Named.mono {known more types : List FuncType} {indices : List UInt32}
    (hNamed : Named known types indices) : Named (known ++ more) types indices :=
  hNamed.imp fun type index hType => by
    rw [List.getElem?_append_left (List.getElem?_eq_some_iff.1 hType).1, hType]

/-- One more signature with its index. -/
theorem Named.add {module : Module} {types : List FuncType} {indices : List UInt32}
    (hNamed : Named module.types types indices) (type : FuncType)
    (hFew : (module.addType type).2.types.length ≤ 2 ^ 32) :
    Named (module.addType type).2.types (types ++ [type])
      (indices ++ [(module.addType type).1]) := by
  obtain ⟨more, hMore⟩ := addType_prefix module type
  refine List.rel_append ?_ (.cons (addType_found hFew) .nil)
  rw [hMore]
  exact hNamed.mono

/-- The code section holds the body of a function. -/
def Coded (function : Function) (code : FuncBody) : Prop :=
  ∃ body, function.body = some body ∧
    code = ⟨LocalRun.compact body.locals, Instr.encodeAll body.instrs⟩

/-- A module holds imported functions and functions of its own, and no other imports. -/
structure Holds (module : Module) (imports : List ImportedFunction) (funcs : List Function) :
    Prop where
  imported : module.imports.length = imports.length
  named : module.types.length ≤ 2 ^ 32 →
    Named module.types (imports.map ImportedFunction.type ++ funcs.map Function.type)
      module.funcSpace
  own : module.funcs.length = funcs.length
  signed : ∀ function ∈ funcs, function.type ∈ module.types
  globals : module.importedGlobals = []
  memories : module.importedMemories = []
  coded : List.Forall₂ Coded funcs module.code

theorem holds_nothing : Holds {} [] [] :=
  ⟨rfl, fun _ => .nil, rfl, by simp, rfl, rfl, .nil⟩

theorem Holds.placeImport {module : Module} {imports : List ImportedFunction}
    (hHolds : Holds module imports []) (item : ImportedFunction) :
    Holds (Builder.placeImport module item) (imports ++ [item]) [] := by
  obtain ⟨more, hMore⟩ := addType_prefix module item.type
  obtain ⟨hImported, hNamed, hOwn, -, hGlobals, hMemories, hCoded⟩ := hHolds
  have hNone : module.funcs = [] := List.eq_nil_of_length_eq_zero hOwn
  constructor
  · simp [Builder.placeImport, hMore, hImported]
  · intro hFew
    have hSmall : module.types.length ≤ 2 ^ 32 := by
      simp only [Builder.placeImport, hMore, List.length_append] at hFew
      omega
    have hOld := hNamed hSmall
    simp only [Module.funcSpace, hNone, List.append_nil, List.map_nil] at hOld
    have hNew := hOld.add item.type hFew
    simpa [Module.funcSpace, Module.importedFuncs, Builder.placeImport, hMore, hNone] using hNew
  · simp [Builder.placeImport, hMore, hOwn]
  · simp
  · simpa [Builder.placeImport, hMore, Module.importedGlobals] using hGlobals
  · simpa [Builder.placeImport, hMore, Module.importedMemories] using hMemories
  · simpa [Builder.placeImport, hMore] using hCoded

theorem Holds.placeFunction {module after : Module} {imports : List ImportedFunction}
    {funcs : List Function} (hHolds : Holds module imports funcs) {function : Function}
    (hPlace : Builder.placeFunction module function = .ok after) :
    Holds after imports (funcs ++ [function]) := by
  obtain ⟨more, hMore⟩ := addType_prefix module function.type
  obtain ⟨hImported, hNamed, hOwn, hSigned, hGlobals, hMemories, hCoded⟩ := hHolds
  rw [Builder.placeFunction] at hPlace
  split at hPlace
  · cases hPlace
  · rename_i body hBody
    rw [Except.ok.injEq] at hPlace
    subst hPlace
    constructor
    · simp [hMore, hImported]
    · intro hFew
      have hSmall : module.types.length ≤ 2 ^ 32 := by
        simp only [hMore, List.length_append] at hFew
        omega
      have hNew := (hNamed hSmall).add function.type hFew
      simpa [Module.funcSpace, Module.importedFuncs, hMore] using hNew
    · simp [hMore, hOwn]
    · intro other hOther
      rw [List.mem_append, List.mem_singleton] at hOther
      rcases hOther with hOld | rfl
      · simp [hMore, hSigned other hOld]
      · rw [Module.addType]
        split
        · rename_i index hIndex
          obtain ⟨hBound, hFound, -⟩ := List.idxOf?_eq_some_iff.1 hIndex
          simp only [← hFound, List.getElem_mem]
        · simp
    · simpa [hMore, Module.importedGlobals] using hGlobals
    · simpa [hMore, Module.importedMemories] using hMemories
    · simp only [hMore]
      exact List.rel_append hCoded (.cons ⟨body, hBody, rfl⟩ .nil)

/-- The module of a builder holds what the builder describes. -/
theorem Builder.module_holds {builder : Builder} {module : Module}
    (hModule : builder.module = .ok module) :
    Holds module builder.imports builder.funcs ∧ module.globals = builder.globals ∧
      module.memories = [memoryLimits builder.config] := by
  simp only [Builder.module, bind_ok, pure_ok] at hModule
  obtain ⟨inner, hFuncs, rfl⟩ := hModule
  have hImports : ∀ done rest, builder.imports = done ++ rest → ∀ start, Holds start done [] →
      Holds (rest.foldl placeImport start) builder.imports [] := by
    intro done rest
    induction rest generalizing done with
    | nil =>
        intro hAll start hStart
        rw [hAll, List.append_nil]
        exact hStart
    | cons item rest ih =>
        intro hAll start hStart
        exact ih (done ++ [item]) (by simp [hAll]) _ (hStart.placeImport item)
  have hInner : Holds inner builder.imports builder.funcs :=
    foldlM_ok (fun done now => Holds now builder.imports done)
      (hImports [] builder.imports rfl {} holds_nothing)
      (fun _ _ _ _ _ hBefore hPlace => hBefore.placeFunction hPlace) hFuncs
  exact ⟨⟨hInner.imported, hInner.named, hInner.own, hInner.signed, hInner.globals, hInner.memories,
    hInner.coded⟩, rfl, rfl⟩

/-- The signature of a function of the module is the one it was described with. -/
theorem Holds.funcType? {module : Module} {imports : List ImportedFunction} {funcs : List Function}
    (hHolds : Holds module imports funcs) (hFew : module.types.length ≤ 2 ^ 32) (index : UInt32) :
    module.funcType? index =
      (imports.map ImportedFunction.type ++ funcs.map Function.type)[index.toNat]? := by
  have hNamed := hHolds.named hFew
  have hLength := hNamed.length_eq
  rw [Module.funcType?]
  by_cases hIndex : index.toNat < module.funcSpace.length
  · have hType := hNamed.get (by omega) hIndex
    rw [List.get_eq_getElem, List.get_eq_getElem] at hType
    rw [List.getElem?_eq_getElem hIndex, List.getElem?_eq_getElem (by omega)]
    exact hType
  · rw [List.getElem?_eq_none (by omega), List.getElem?_eq_none (by omega)]
    rfl

/-! ## The length of the binary -/

theorem length_u32_pos (value : UInt32) : 1 ≤ (Write.u32 value).length := by
  rw [Write.u32, Write.u64, Write.unsignedGroups]
  split <;> simp

/-- The items of a section take no more bytes than the section. -/
theorem sum_le_length_list {α : Type} (kind : Section) (item : α → List UInt8) (items : List α) :
    (items.map fun one => (item one).length).sum ≤ (kind.list item items).length := by
  cases items with
  | nil => simp
  | cons first rest =>
      simp only [Section.list, Section.frame, Write.vec, Write.sequence, List.length_cons,
        List.length_append, List.length_flatMap]
      omega

/-- Items that take a byte at least are no more than the bytes of their section. -/
theorem count_le_length_list {α : Type} (kind : Section) {item : α → List UInt8} (items : List α)
    (hItem : ∀ one, 1 ≤ (item one).length) : items.length ≤ (kind.list item items).length := by
  refine le_trans ?_ (sum_le_length_list kind item items)
  simpa using List.length_le_sum_of_one_le (items.map fun one => (item one).length)
    (by simpa using fun one _ => hItem one)

/-- An item takes no more bytes than its section. -/
theorem item_le_length_list {α : Type} (kind : Section) (item : α → List UInt8) {items : List α}
    {one : α} (hOne : one ∈ items) : (item one).length ≤ (kind.list item items).length := by
  refine le_trans (List.le_sum_of_mem ?_) (sum_le_length_list kind item items)
  exact List.mem_map.2 ⟨one, hOne, rfl⟩

theorem length_encodeAll (instrs : List Instr) :
    instrs.length ≤ (Instr.encodeAll instrs).length := by
  induction instrs with
  | nil => simp
  | cons instr rest ih =>
      have hCons : Instr.encodeAll (instr :: rest) = instr.encode ++ Instr.encodeAll rest := rfl
      rw [hCons, List.length_append, Instr.encode, List.length_cons, List.length_cons]
      omega

/-- A module is at least as long as its parts together. -/
theorem length_encode (module : Module) :
    (Section.types.list FuncType.encode module.types).length +
        (Section.imports.list Import.encode module.imports).length +
        (Section.functions.list Write.u32 module.funcs).length +
        (Section.code.list (fun body => Write.vec body.encode) module.code).length ≤
      module.encode.length := by
  simp only [Module.encode, List.length_append]
  omega

theorem length_params (type : FuncType) : type.params.length ≤ type.encode.length := by
  have hBytes : ∀ params : List ValType, (params.flatMap ValType.encode).length =
      params.length := by
    intro params
    simp [List.length_flatMap, ValType.encode]
  simp only [FuncType.encode, Write.sequence, List.length_cons, List.length_append, hBytes]
  omega

/-- The code of a body is part of the body. -/
theorem length_body (body : Body) : body.instrs.length ≤
    (Write.vec (FuncBody.encode ⟨LocalRun.compact body.locals,
      Instr.encodeAll body.instrs⟩)).length := by
  have hInstrs := length_encodeAll body.instrs
  simp only [Write.vec, FuncBody.encode, List.length_append]
  omega

/-- A module is at least as long as there are signatures and functions, and as the parameters and
the instructions of each function. -/
theorem Holds.length_le {module : Module} {imports : List ImportedFunction} {funcs : List Function}
    (hHolds : Holds module imports funcs) :
    module.types.length ≤ module.encode.length ∧
      imports.length + funcs.length ≤ module.encode.length ∧
      ∀ function ∈ funcs, ∃ body, function.body = some body ∧
        function.type.params.length + body.instrs.length ≤ module.encode.length := by
  have hParts := length_encode module
  have hTypes : module.types.length ≤ (Section.types.list FuncType.encode module.types).length :=
    count_le_length_list .types module.types (by simp [FuncType.encode])
  have hImports : module.imports.length ≤
      (Section.imports.list Import.encode module.imports).length :=
    count_le_length_list .imports module.imports (by simp [Import.encode]; omega)
  have hFuncs : module.funcs.length ≤ (Section.functions.list Write.u32 module.funcs).length :=
    count_le_length_list .functions module.funcs length_u32_pos
  refine ⟨by omega, ?_, ?_⟩
  · rw [← hHolds.imported, ← hHolds.own]
    omega
  · intro function hFunction
    obtain ⟨place, hPlace⟩ := List.getElem?_of_mem hFunction
    obtain ⟨code, hCode, body, hBody, rfl⟩ : ∃ code ∈ module.code, Coded function code := by
      have hLength := hHolds.coded.length_eq
      obtain ⟨hBound, rfl⟩ := List.getElem?_eq_some_iff.1 hPlace
      exact ⟨module.code[place], List.getElem_mem _, hHolds.coded.get hBound (by omega)⟩
    refine ⟨body, hBody, ?_⟩
    have hType := item_le_length_list .types FuncType.encode (hHolds.signed function hFunction)
    have hCoded := item_le_length_list .code (fun body => Write.vec body.encode) hCode
    have hParams := length_params function.type
    have hInstrs := length_body body
    omega

/-- The binary is at least as long as what is counted in it. -/
theorem Builder.build_length {builder : Builder} {binary : List UInt8}
    (hBuild : builder.build = .ok binary) :
    ∃ module, builder.module = .ok module ∧ module.types.length ≤ binary.length ∧
      builder.numFunctions ≤ binary.length ∧
      ∀ function ∈ builder.funcs, ∃ body, function.body = some body ∧
        function.type.params.length + body.instrs.length ≤ binary.length := by
  simp only [Builder.build, bind_ok, mapError_ok, pure_ok] at hBuild
  obtain ⟨module, hModule, -, -, rfl⟩ := hBuild
  exact ⟨module, hModule, (module_holds hModule).1.length_le⟩

end RecordWasm.Assembly
