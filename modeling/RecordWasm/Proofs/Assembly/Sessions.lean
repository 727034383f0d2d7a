import RecordWasm.Proofs.Assembly.Steps
import RecordWasm.Proofs.Assembly.Validity
import Mathlib.Data.List.Perm.Subperm

/-!
# The module that a history describes

The module of a builder is read off from the history of operations and replies: every index has the
signature that it was given out for, every function that was declared has the code of its one body,
and types and exports are listed once.  There is no module as long as a function has no body.
-/

namespace RecordWasm.Assembly

open Wasm

/-- A module holds each signature once and no other than those of its functions, and the functions
that have an index have their signatures. -/
structure Typed (module : Module) (declared : List FuncType) : Prop where
  distinct : module.types.Nodup
  used : ∀ type ∈ module.types, type ∈ declared
  count : module.funcSpace.length = declared.length
  types : ∀ place index, place < 2 ^ 32 → module.funcSpace[place]? = some index →
    module.types[index.toNat]? = declared[place]?

/-- A signature is found or added behind the others, and there is only one of it. -/
theorem addType_distinct {module : Module} (hDistinct : module.types.Nodup) (type : FuncType) :
    ∃ number ≤ module.types.length, (module.addType type).1 = number.toUInt32 ∧
      (module.addType type).2.types[number]? = some type ∧ (module.addType type).2.types.Nodup ∧
      ∀ other ∈ (module.addType type).2.types, other ∈ module.types ++ [type] := by
  rw [Module.addType]
  split
  · rename_i number hNumber
    obtain ⟨hBound, hFound, -⟩ := List.idxOf?_eq_some_iff.1 hNumber
    exact ⟨number, Nat.le_of_lt hBound, rfl, by rw [List.getElem?_eq_getElem hBound, hFound],
      hDistinct, fun other hOther => List.mem_append_left _ hOther⟩
  · rename_i hNone
    have hNew : type ∉ module.types := by simpa using hNone
    refine ⟨module.types.length, Nat.le_refl _, rfl, by simp, ?_, fun other hOther => hOther⟩
    rw [List.nodup_append_comm]
    exact List.nodup_cons.2 ⟨hNew, hDistinct⟩

/-- One more function with its signature. -/
theorem Typed.add {module next : Module} {declared : List FuncType} (hTyped : Typed module declared)
    {type : FuncType} (hTypes : next.types = (module.addType type).2.types)
    (hSpace : next.funcSpace = module.funcSpace ++ [(module.addType type).1]) :
    Typed next (declared ++ [type]) := by
  obtain ⟨hDistinct, hUsed, hCount, hKnown⟩ := hTyped
  have hFew : module.types.length ≤ declared.length :=
    (List.subperm_of_subset hDistinct hUsed).length_le
  obtain ⟨more, hMore⟩ := addType_prefix module type
  obtain ⟨number, hNumber, hIndex, hFound, hOnce, hOnly⟩ := addType_distinct hDistinct type
  refine ⟨hTypes ▸ hOnce, ?_, by simp [hSpace, hCount], ?_⟩
  · intro other hOther
    rcases List.mem_append.1 (hOnly other (hTypes ▸ hOther)) with hOld | hNew
    · exact List.mem_append_left _ (hUsed other hOld)
    · exact List.mem_append_right _ hNew
  · intro place index hSmall hPlace
    rw [hSpace] at hPlace
    rcases Nat.lt_or_ge place declared.length with hOld | hNew
    · rw [List.getElem?_append_left (by omega)] at hPlace
      have hType := hKnown place index hSmall hPlace
      rw [List.getElem?_eq_getElem hOld] at hType
      rw [hTypes, hMore, List.getElem?_append_left hOld, List.getElem?_eq_getElem hOld,
        List.getElem?_append_left (List.getElem?_eq_some_iff.1 hType).1, hType]
    · -- The new signature has a number below that of the function, which is a word.
      obtain rfl : place = declared.length := by
        have hBound := (List.getElem?_eq_some_iff.1 hPlace).1
        rw [List.length_append, List.length_singleton] at hBound
        omega
      rw [← hCount, List.getElem?_concat_length] at hPlace
      cases hPlace
      rw [hTypes, hIndex, toNat_toUInt32 (by omega), hFound, List.getElem?_concat_length]

/-- Imports are placed before there are functions. -/
theorem typed_imports (items : List ImportedFunction) :
    Typed (items.foldl Builder.placeImport {}) (items.map ImportedFunction.type) ∧
      (items.foldl Builder.placeImport {}).funcs = [] := by
  induction items using List.reverseRecOn with
  | nil => exact ⟨⟨.nil, by simp, rfl, by simp [Module.funcSpace, Module.importedFuncs]⟩, rfl⟩
  | append_singleton items last ih =>
      rw [List.foldl_append, List.foldl_cons, List.foldl_nil, List.map_append]
      generalize items.foldl Builder.placeImport {} = module at ih ⊢
      obtain ⟨more, hMore⟩ := addType_prefix module last.type
      refine ⟨ih.1.add rfl ?_, by simp [Builder.placeImport, hMore, ih.2]⟩
      simp [Module.funcSpace, Module.importedFuncs, Builder.placeImport, hMore, ih.2]

theorem Typed.placeFunction {module next : Module} {declared : List FuncType} {function : Function}
    (hTyped : Typed module declared) (hPlace : Builder.placeFunction module function = .ok next) :
    Typed next (declared ++ [function.type]) := by
  rw [Builder.placeFunction] at hPlace
  split at hPlace
  · cases hPlace
  · rw [Except.ok.injEq] at hPlace
    subst hPlace
    obtain ⟨more, hMore⟩ := addType_prefix module function.type
    refine hTyped.add rfl ?_
    simp [Module.funcSpace, Module.importedFuncs, hMore]

/-- The module of a builder has the signatures of its functions. -/
theorem Builder.module_typed {builder : Builder} {module : Module}
    (hModule : builder.module = .ok module) :
    Typed module (builder.heads.map fun head => head.2.1) := by
  simp only [Builder.module, bind_ok, pure_ok] at hModule
  obtain ⟨inner, hFuncs, rfl⟩ := hModule
  have hInner : Typed inner (builder.imports.map ImportedFunction.type ++
      builder.funcs.map Function.type) := by
    refine foldlM_ok (fun done now => Typed now
      (builder.imports.map ImportedFunction.type ++ done.map Function.type)) ?_ ?_ hFuncs
    · simpa using (typed_imports builder.imports).1
    · intro done function before after _ hBefore hPlace
      rw [List.map_append, ← List.append_assoc]
      exact hBefore.placeFunction hPlace
  have hHeads : (builder.heads.map fun head => head.2.1) =
      builder.imports.map ImportedFunction.type ++ builder.funcs.map Function.type := by
    simp [heads, Function.comp_def]
  rw [hHeads]
  exact ⟨hInner.distinct, hInner.used, hInner.count, hInner.types⟩

/-- Every word is the index of a function with its signature, or of none. -/
theorem Typed.funcType? {module : Module} {declared : List FuncType}
    (hTyped : Typed module declared) (index : UInt32) :
    module.funcType? index = declared[index.toNat]? := by
  rw [Module.funcType?]
  cases hIndex : module.funcSpace[index.toNat]? with
  | none =>
      rw [List.getElem?_eq_none_iff, hTyped.count] at hIndex
      rw [List.getElem?_eq_none hIndex]
      rfl
  | some type => exact hTyped.types index.toNat type index.toNat_lt hIndex

/-- The first of some functions that has no body. -/
structure Lacking (funcs : List Function) (place : Nat) (function : Function) : Prop where
  found : funcs[place]? = some function
  body : function.body = none
  first : ∀ (earlier : Nat) (other : Function), earlier < place → funcs[earlier]? = some other →
    other.body ≠ none

/-- In front of the first function without a body may stand one with a body. -/
theorem lacking_succ {first : Function} {rest : List Function} {place : Nat} {function : Function}
    (hFirst : first.body ≠ none) :
    Lacking (first :: rest) (place + 1) function ↔ Lacking rest place function := by
  constructor
  · rintro ⟨hFound, hBody, hEarlier⟩
    exact ⟨hFound, hBody, fun earlier other hLess hOther =>
      hEarlier (earlier + 1) other (by omega) hOther⟩
  · rintro ⟨hFound, hBody, hEarlier⟩
    refine ⟨hFound, hBody, fun earlier other hLess hOther => ?_⟩
    cases earlier with
    | zero =>
        cases hOther
        exact hFirst
    | succ earlier => exact hEarlier earlier other (by omega) hOther

/-- The first function without a body is the one that is told about. -/
theorem placeFunctions_error {funcs : List Function} {start : Module} {cause : BuildError} :
    funcs.foldlM Builder.placeFunction start = .error cause ↔ ∃ place function,
      Lacking funcs place function ∧ cause = .missingBody function.name := by
  induction funcs generalizing start with
  | nil =>
      constructor
      · intro hError
        cases hError
      · rintro ⟨place, function, hLacking, -⟩
        cases hLacking.found
  | cons first rest ih =>
      rw [List.foldlM_cons, Builder.placeFunction]
      cases hBody : first.body with
      | none =>
          constructor
          · intro hError
            cases hError
            exact ⟨0, first, ⟨rfl, hBody, by simp⟩, rfl⟩
          · rintro ⟨place, function, hLacking, rfl⟩
            cases place with
            | zero =>
                cases hLacking.found
                rfl
            | succ place => exact absurd hBody (hLacking.first 0 first (Nat.succ_pos place) rfl)
      | some body =>
          have hFirst : first.body ≠ none := by simp [hBody]
          refine ih.trans ⟨?_, ?_⟩
          · rintro ⟨place, function, hLacking, hCause⟩
            exact ⟨place + 1, function, (lacking_succ hFirst).2 hLacking, hCause⟩
          · rintro ⟨place, function, hLacking, hCause⟩
            cases place with
            | zero =>
                cases hLacking.found
                exact absurd hLacking.body hFirst
            | succ place => exact ⟨place, function, (lacking_succ hFirst).1 hLacking, hCause⟩

/-- There is no module exactly if some function has no body. -/
theorem Builder.module_error {builder : Builder} {cause : BuildError} :
    builder.module = .error cause ↔ ∃ place function,
      Lacking builder.funcs place function ∧ cause = .missingBody function.name := by
  rw [← @placeFunctions_error _ (builder.imports.foldl placeImport {}), Builder.module]
  cases builder.funcs.foldlM placeFunction (builder.imports.foldl placeImport {}) with
  | error other => simp [Bind.bind, Except.bind]
  | ok module => simp [Bind.bind, Except.bind, Pure.pure, Except.pure]

/-! ## Sessions -/

/-- The first function that a history has declared and given no body to. -/
structure Unfinished (history : History) (place : Nat) (call : Call) : Prop where
  found : (calls history)[place]? = some call
  own : call.imported = false
  missing : ∀ body, ¬Bodied history place body
  first : ∀ (earlier : Nat) (other : Call), earlier < place →
    (calls history)[earlier]? = some other →
    other.imported = false → ∃ body, Bodied history earlier body

section Sessions

variable {history : History} {builder : Builder} (hCounted : Counted history builder)
  (hEmbodied : Embodied history builder)

include hCounted in
theorem Counted.head_eq (place : Nat) :
    ((calls history)[place]?.map fun call => (call.name, call.type, call.imported)) =
      builder.heads[place]? := by
  rw [← hCounted.heads, List.getElem?_map]

include hCounted in
/-- All imports come before all functions. -/
theorem Counted.ordered :
    (calls history).Pairwise fun earlier later => later.imported = true →
      earlier.imported = true := by
  have hHeads : builder.heads.Pairwise fun earlier later => later.2.2 = true →
      earlier.2.2 = true := by
    refine List.pairwise_append.2 ⟨?_, ?_, ?_⟩
    · exact List.pairwise_map.2 (List.pairwise_of_forall fun _ _ _ => rfl)
    · exact List.pairwise_map.2 (List.pairwise_of_forall fun _ _ hImported => by cases hImported)
    · intro earlier hEarlier later _ _
      obtain ⟨item, -, rfl⟩ := List.mem_map.1 hEarlier
      rfl
  rw [← hCounted.heads, List.pairwise_map] at hHeads
  exact hHeads

include hCounted in
/-- Functions that were declared are the ones behind the imports. -/
theorem Counted.function_of_call {place : Nat} {call : Call}
    (hCall : (calls history)[place]? = some call)
    (hOwn : call.imported = false) : ∃ rest function, place = builder.imports.length + rest ∧
      builder.funcs[rest]? = some function ∧ function.name = call.name := by
  have hHead := hCounted.head_eq place
  rw [hCall, Option.map_some, hOwn, Builder.heads] at hHead
  rcases Nat.lt_or_ge place builder.imports.length with hImport | hFunction
  · rw [List.getElem?_append_left (by simpa using hImport)] at hHead
    simp [List.getElem?_eq_getElem hImport] at hHead
  · rw [List.getElem?_append_right (by simpa using hFunction), List.length_map, List.getElem?_map,
      eq_comm, Option.map_eq_some_iff] at hHead
    obtain ⟨function, hFound, hSame⟩ := hHead
    simp only [Prod.mk.injEq] at hSame
    exact ⟨place - builder.imports.length, function, by omega, hFound, hSame.1⟩

include hCounted in
theorem Counted.call_of_function {rest : Nat} {function : Function}
    (hFunction : builder.funcs[rest]? = some function) :
    ∃ call, (calls history)[builder.imports.length + rest]? = some call ∧ call.imported = false ∧
      call.name = function.name := by
  have hHead := hCounted.head_eq (builder.imports.length + rest)
  rw [Builder.heads, List.getElem?_append_right (by simp), List.length_map, Nat.add_sub_cancel_left,
    List.getElem?_map, hFunction, Option.map_some, Option.map_eq_some_iff] at hHead
  obtain ⟨call, hCall, hSame⟩ := hHead
  simp only [Prod.mk.injEq] at hSame
  exact ⟨call, hCall, hSame.2.2, hSame.1⟩

include hCounted hEmbodied in
/-- The first function of a builder without a body is the first one that was given none. -/
theorem lacking_iff_unfinished {cause : BuildError} :
    (∃ place function, Lacking builder.funcs place function ∧ cause = .missingBody function.name) ↔
      ∃ place call, Unfinished history place call ∧ cause = .missingBody call.name := by
  constructor
  · rintro ⟨rest, function, ⟨hFound, hNone, hFirst⟩, rfl⟩
    obtain ⟨call, hCall, hOwn, hName⟩ := hCounted.call_of_function hFound
    refine ⟨_, call, ⟨hCall, hOwn, ?_, ?_⟩, by rw [hName]⟩
    · intro body hBodied
      rw [← hEmbodied.bodies rest function hFound body, hNone] at hBodied
      cases hBodied
    · intro earlier other hLess hOther hDeclared
      obtain ⟨place, before, rfl, hBefore, -⟩ := hCounted.function_of_call hOther hDeclared
      obtain ⟨body, hBody⟩ := Option.ne_none_iff_exists'.1 (hFirst place before (by omega) hBefore)
      exact ⟨body, (hEmbodied.bodies place before hBefore body).1 hBody⟩
  · rintro ⟨place, call, ⟨hCall, hOwn, hMissing, hFirst⟩, rfl⟩
    obtain ⟨rest, function, rfl, hFound, hName⟩ := hCounted.function_of_call hCall hOwn
    refine ⟨rest, function, ⟨hFound, ?_, ?_⟩, by rw [hName]⟩
    · rw [Option.eq_none_iff_forall_ne_some]
      intro body hBody
      exact hMissing body ((hEmbodied.bodies rest function hFound body).1 hBody)
    · intro earlier other hLess hOther
      obtain ⟨before, hBefore, hDeclared, -⟩ := hCounted.call_of_function hOther
      obtain ⟨body, hBodied⟩ := hFirst _ before (by omega) hBefore hDeclared
      rw [(hEmbodied.bodies earlier other hOther body).2 hBodied]
      simp

end Sessions

/-- What a history says about the module of its builder. -/
structure Described (memoryName : String) (history : History) (module : Module) : Prop where
  signatures : ∀ index : UInt32,
    module.funcType? index = (calls history)[index.toNat]?.map Call.type
  code : ∀ place call, (calls history)[place]? = some call → call.imported = false →
    ∃ body, Bodied history place body ∧ module.code[place - module.imports.length]? =
      some ⟨LocalRun.compact body.locals, Instr.encodeAll body.instrs⟩
  distinct : module.types.Nodup
  used : ∀ type ∈ module.types, ∃ call ∈ calls history, call.type = type
  exports : module.exports = ⟨memoryName, .memory, 0⟩ :: history.filterMap exported?
  names : (module.exports.map Export.name).Nodup
  indices : ∀ item ∈ module.exports, ∃ limit, module.exportLimit? item.kind = some limit ∧
    item.index.toNat < limit

/-- The module of a builder is the one that its history describes. -/
theorem described_of_module {memoryName : String} {history : History} {builder : Builder}
    {module : Module} (hCounted : Counted history builder) (hEmbodied : Embodied history builder)
    (hExporting : Exporting memoryName history builder) (hModule : builder.module = .ok module) :
    Described memoryName history module := by
  obtain ⟨hHolds, hGlobals, hMemories⟩ := Builder.module_holds hModule
  have hTyped := Builder.module_typed hModule
  have hTypes : (builder.heads.map fun head => head.2.1) = (calls history).map Call.type := by
    rw [← hCounted.heads, List.map_map]
    rfl
  have hExports : module.exports = ⟨memoryName, .memory, 0⟩ :: builder.exports := by
    rw [(Builder.module_parts hModule).1, hExporting.memory]
  rw [hTypes] at hTyped
  refine ⟨?_, ?_, hTyped.distinct, ?_, by rw [hExports, hExporting.exports], ?_, ?_⟩
  · intro index
    rw [hTyped.funcType?, List.getElem?_map]
  · intro place call hCall hOwn
    obtain ⟨rest, function, rfl, hFound, -⟩ := hCounted.function_of_call hCall hOwn
    obtain ⟨hBound, rfl⟩ := List.getElem?_eq_some_iff.1 hFound
    have hCount := hHolds.coded.length_eq
    obtain ⟨body, hBody, hCode⟩ := hHolds.coded.get hBound (by omega)
    refine ⟨body, (hEmbodied.bodies rest _ hFound body).1 hBody, ?_⟩
    rw [hHolds.imported, Nat.add_sub_cancel_left, List.getElem?_eq_getElem (by omega)]
    exact congrArg some hCode
  · intro type hType
    exact List.mem_map.1 (hTyped.used type hType)
  · rw [hExports]
    exact hExporting.names
  · intro item hItem
    rw [hExports] at hItem
    rcases List.mem_cons.1 hItem with rfl | hOther
    · refine ⟨module.numMemories, rfl, ?_⟩
      rw [Module.numMemories, hHolds.memories, hMemories]
      exact Nat.one_pos
    · rcases hExporting.indices item hOther with ⟨hKind, hIndex⟩ | ⟨hKind, hIndex⟩
      · have hCount : module.numFuncs = builder.numFunctions := by
          have hLength := hTyped.count
          rwa [Module.funcSpace, List.length_append, List.length_map, hCounted.length] at hLength
        exact ⟨module.numFuncs, by rw [hKind]; rfl, hCount ▸ hIndex⟩
      · refine ⟨module.numGlobals, by rw [hKind]; rfl, ?_⟩
        rwa [Module.numGlobals, hHolds.globals, hGlobals, List.length_nil, Nat.zero_add]

/-- Whatever operations are performed on a new builder: the functions get the numbers from zero on
in the order of the calls, imports first; step by step an operation comes to what the functions of
the builder make of it, and one that fails has changed nothing by then; no function is given two
bodies; there is no module exactly if some function was given no body, and the first such function
is told about; and a module is the one that the calls describe. -/
theorem session_describes (config : Config) (operations : List Operation) :
    let session := Session.of config operations
    (calls session.history).map Call.index =
      (List.range (calls session.history).length).map Nat.toUInt32 ∧
    ((calls session.history).Pairwise fun earlier later =>
      later.imported = true → earlier.imported = true) ∧
    (∀ (builder : Builder) (operation : Operation),
      operation.perform builder = operation.apply builder) ∧
    (∀ (builder : Builder) (operation : Operation) (cause : BuildError) (left : Builder),
      operation.performing builder = .error cause left → left = builder) ∧
    (∀ (builder : Builder) (operation : Operation) (cause : BuildError),
      (operation.perform builder).1 = .refused cause → (operation.perform builder).2 = builder) ∧
    (session.history.filterMap bodyIndex?).Nodup ∧
    (∀ cause, session.builder.module = .error cause ↔ ∃ place call,
      Unfinished session.history place call ∧ cause = .missingBody call.name) ∧
    ∀ module, session.builder.module = .ok module →
      Described (Builder.new config).config.memoryName session.history module := by
  intro session
  have hCounted : Counted session.history session.builder :=
    Session.induction config ⟨rfl, rfl⟩ (fun _ _ _ _ _ hBefore hStep => hBefore.step hStep)
      operations
  have hEmbodied : Embodied session.history session.builder :=
    Session.induction config ⟨by simp [Builder.new], by simp, .nil⟩
      (fun _ _ _ _ _ hBefore hStep => hBefore.step hStep) operations
  have hExporting :
      Exporting (Builder.new config).config.memoryName session.history session.builder :=
    Session.induction config ⟨rfl, rfl, by simp [Builder.new], by simp [Builder.new]⟩
      (fun _ _ _ _ _ hBefore hStep => hBefore.step hStep) operations
  refine ⟨hCounted.indices, hCounted.ordered, fun builder operation => operation.perform_eq builder,
    fun _ _ _ _ => performing_error, fun _ _ _ => perform_refused, hEmbodied.once, ?_,
    fun module => described_of_module hCounted hEmbodied hExporting⟩
  intro cause
  rw [Builder.module_error, lacking_iff_unfinished hCounted hEmbodied]

/-- A late import, a second body and an export under the name of the memory are refused, and the
module is described by what was accepted. -/
theorem session_describes_refusals :
    let void : FuncType := ⟨[], []⟩
    let operations : List Operation := [.addImport "env" "log" void, .declareFunction "run" void,
      .addImport "env" "late" void, .setBody 1 ⟨[.i32, .i32], [.close]⟩, .setBody 1 ⟨[], [.close]⟩,
      .exportFunction "memory" 1, .exportFunction "run" 1]
    let session := Session.of {} operations
    session.history.map Prod.snd = [.index 0, .index 1, .refused (.lateImport "env" "late"), .done,
      .refused (.bodyTwice "run"), .refused (.duplicateExport "memory"), .done] ∧
    ∃ module, session.builder.module = .ok module ∧ Described "memory" session.history module := by
  intro void operations session
  obtain ⟨module, hModule, -⟩ :=
    @ok_of_any _ _ session.builder.module (fun _ => true) (by decide +kernel)
  obtain ⟨-, -, -, -, -, -, -, hDescribed⟩ := session_describes {} operations
  exact ⟨by decide +kernel, module, hModule, hDescribed module hModule⟩

end RecordWasm.Assembly
