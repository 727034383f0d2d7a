import RecordWasm.Proofs.Compile.Validity
import RecordWasm.Proofs.Lowering.Calls

/-!
# Indices of functions

The imports of a program come first in its module, then the functions of the heap, and then the free
functions, methods and constructors in the order of their declaration.  The tables that names are
looked up in, the exports, the code and all calls agree on these indices.
-/

namespace RecordWasm.Compile

open Syntax Layout Lowering Assembly Wasm Validation

/-- What a function is looked up by. -/
inductive Key where
  | function (name : String)
  | method (record name : String)
  | constructor (record : String)
  deriving DecidableEq

/-- What a declared function comes from. -/
inductive Origin where
  | function (decl : FuncDecl)
  | method (decl : FuncDecl)
  | constructor (record : RecordDecl)

namespace Origin

def job : Origin → Job
  | function decl | method decl => .function decl
  | constructor record => .constructor record.name

def key : Origin → Key
  | function decl => .function decl.name
  | method decl => .method decl.receiver decl.name
  | constructor record => .constructor record.name

/-- The name that the function is exported under. -/
def name : Origin → String
  | function decl => decl.name
  | method decl => decl.qualifiedName
  | constructor record => constructorName record.name

/-- Functions with one key have one name. -/
theorem name_of_key {first second : Origin} (hKey : first.key = second.key) :
    first.name = second.name := by
  cases first <;> cases second <;>
    simp_all [key, name, FuncDecl.qualifiedName, FuncDecl.isMethod]

end Origin

/-- All methods, by record. -/
def methodDecls (program : Program) : List FuncDecl := program.records.flatMap methodsOf

/-- All declared functions: free functions, then methods by record, then one constructor for every
record. -/
def originsOf (program : Program) : List Origin :=
  program.functions.map .function ++ (methodDecls program).map .method ++
    program.records.map .constructor

/-- Declares what a function comes from. -/
def declareOrigin (state : Declarations) : Origin → Except Failure Declarations
  | .function decl => declareFunction state decl
  | .method decl => state.add (.function decl) decl.qualifiedName (.ofDecl decl 0) fun env ref =>
      env.addMethod decl.receiver ref
  | .constructor record => declareConstructor state record

theorem foldlM_flatMap {α β σ ε : Type} (step : σ → β → Except ε σ) (split : α → List β)
    (items : List α) (state : σ) :
    (items.flatMap split).foldlM step state =
      items.foldlM (fun state item => (split item).foldlM step state) state := by
  induction items generalizing state with
  | nil => rfl
  | cons item rest ih =>
      rw [List.flatMap_cons, List.foldlM_append, List.foldlM_cons]
      simp only [ih]

/-- Declaring a program is declaring its functions one after the other. -/
theorem declareAll_eq (program : Program) (state : Declarations) :
    declareAll program state = (originsOf program).foldlM declareOrigin state := by
  have hMethods (state : Declarations) : program.records.foldlM declareMethods state =
      ((methodDecls program).map Origin.method).foldlM declareOrigin state := by
    rw [List.foldlM_map, methodDecls, foldlM_flatMap]
    congr 1
    funext state record
    rw [declareMethods, methodsOf, List.foldlM_map]
    rfl
  have hRest (state : Declarations) : (program.records.foldlM declareMethods state >>=
      program.records.foldlM declareConstructor) =
      ((methodDecls program).map Origin.method ++ program.records.map Origin.constructor).foldlM
        declareOrigin state := by
    rw [List.foldlM_append, hMethods]
    congr 1
    funext state
    rw [List.foldlM_map]
    rfl
  rw [originsOf, List.append_assoc, List.foldlM_append, List.foldlM_map, declareAll]
  simp only [hRest]
  rfl

/-- The entry for a key in the tables of an environment. -/
def Key.ref? (env : Env) : Key → Option FuncRef
  | function name => env.function? name
  | method record name =>
      (env.methods.find? fun entry => entry.1 == record && entry.2.name == name).map Prod.snd
  | constructor record => env.constructor? record

/-- An environment with all entries of another. -/
structure Extends (before after : Env) : Prop where
  registry : after.registry = before.registry
  funcs : before.funcs ⊆ after.funcs
  methods : before.methods ⊆ after.methods
  constructors : before.constructors ⊆ after.constructors

theorem isSome_find?_mono {α : Type} {before after : List α} {check : α → Bool}
    (hSubset : before ⊆ after) (hSome : (before.find? check).isSome = true) :
    (after.find? check).isSome = true := by
  rw [List.find?_isSome] at hSome ⊢
  obtain ⟨item, hItem, hCheck⟩ := hSome
  exact ⟨item, hSubset hItem, hCheck⟩

/-- An entry stays in the tables. -/
theorem Extends.ref? {before after : Env} (hExtends : Extends before after) {key : Key}
    (hSome : (key.ref? before).isSome = true) : (key.ref? after).isSome = true := by
  cases key with
  | function name => exact isSome_find?_mono hExtends.funcs hSome
  | method record name =>
      rw [Key.ref?, Option.isSome_map] at hSome ⊢
      exact isSome_find?_mono hExtends.methods hSome
  | constructor record =>
      rw [Key.ref?, Env.constructor?, Option.isSome_map] at hSome ⊢
      exact isSome_find?_mono hExtends.constructors hSome

theorem Extends.trans {first second third : Env} (hFirst : Extends first second)
    (hSecond : Extends second third) : Extends first third :=
  ⟨hSecond.registry.trans hFirst.registry, List.Subset.trans hFirst.funcs hSecond.funcs,
    List.Subset.trans hFirst.methods hSecond.methods,
    List.Subset.trans hFirst.constructors hSecond.constructors⟩

/-- The functions declared so far, and what they come from. -/
structure Tracks (start state : Declarations) (origins : List Origin) : Prop where
  declared : state.declared.map (fun item => (item.job, item.name)) =
    origins.map fun origin => (origin.job, origin.name)
  extends_ : Extends start.env state.env
  known : ∀ origin ∈ origins, (origin.key.ref? state.env).isSome = true

/-- One more function joins the declarations and the tables. -/
theorem declareOrigin_ok {state after : Declarations} {origin : Origin}
    (hLaid : ∀ record, origin = .constructor record →
      ∃ found, state.env.registry.get? record.name = some found)
    (hDeclare : declareOrigin state origin = .ok after) :
    (∃ index, after.declared = state.declared ++ [⟨origin.job, origin.name, index⟩]) ∧
      Extends state.env after.env ∧ (origin.key.ref? after.env).isSome = true := by
  cases origin with
  | function decl =>
      obtain ⟨-, rfl⟩ := add_ok hDeclare
      refine ⟨⟨_, rfl⟩, ⟨rfl, List.subset_cons_self _ _, List.Subset.refl _, List.Subset.refl _⟩,
        ?_⟩
      simp [Origin.key, Key.ref?, Declarations.grow, Env.addFunction, Env.function?, FuncRef.ofDecl]
  | method decl =>
      rw [declareOrigin] at hDeclare
      obtain ⟨-, rfl⟩ := add_ok hDeclare
      refine ⟨⟨_, rfl⟩, ⟨rfl, List.Subset.refl _, List.subset_cons_self _ _, List.Subset.refl _⟩,
        ?_⟩
      simp [Origin.key, Key.ref?, Declarations.grow, Env.addMethod, FuncRef.ofDecl]
  | constructor record =>
      obtain ⟨found, hFound⟩ := hLaid record rfl
      rw [declareOrigin, declareConstructor, hFound] at hDeclare
      obtain ⟨-, rfl⟩ := add_ok hDeclare
      have hName := Registry.name_of_get? hFound
      refine ⟨⟨state.next, ?_⟩,
        ⟨rfl, List.Subset.refl _, List.Subset.refl _, List.subset_cons_self _ _⟩, ?_⟩
      · rw [Declarations.grow, Env.constructorRef, hName]
        rfl
      · simp [Origin.key, Key.ref?, Declarations.grow, Env.addConstructor, Env.constructor?]

/-- All functions of a program are declared in order, and their keys are known. -/
theorem declareAll_tracks {program : Program} {start state : Declarations}
    (hNone : start.declared = [])
    (hLaid : ∀ record ∈ program.records, ∃ found, start.env.registry.get? record.name = some found)
    (hDeclare : declareAll program start = .ok state) : Tracks start state (originsOf program) := by
  rw [declareAll_eq] at hDeclare
  refine foldlM_ok (fun done now => Tracks start now done) ?_ ?_ hDeclare
  · exact ⟨by simp [hNone], ⟨rfl, List.Subset.refl _, List.Subset.refl _, List.Subset.refl _⟩,
      by simp⟩
  · intro done origin before after hOrigin hBefore hStep
    have hRecord (record : RecordDecl) (hSame : origin = .constructor record) :
        ∃ found, before.env.registry.get? record.name = some found := by
      rw [hBefore.extends_.registry]
      refine hLaid record ?_
      simpa [originsOf, hSame] using hOrigin
    obtain ⟨⟨index, hDeclared⟩, hExtends, hKnown⟩ := declareOrigin_ok hRecord hStep
    refine ⟨by simp [hDeclared, hBefore.declared], hBefore.extends_.trans hExtends, ?_⟩
    intro other hOther
    rw [List.mem_append, List.mem_singleton] at hOther
    rcases hOther with hOld | rfl
    · exact hExtends.ref? (hBefore.known other hOld)
    · exact hKnown

/-! ## The functions of an assembled program -/

/-- The functions of a program are declared in order and can be looked up. -/
structure Assembled.Ordered (assembled : Assembled) (program : Program) : Prop where
  fits : assembled.Fits program
  declared : assembled.declared.map (fun item => (item.job, item.name)) =
    (originsOf program).map fun origin => (origin.job, origin.name)
  known : ∀ origin ∈ originsOf program, (origin.key.ref? assembled.env).isSome = true
  imported : ∀ decl ∈ program.imports, (assembled.env.function? decl.name).isSome = true

theorem assemble_ordered {config : CompileConfig} {cancelled : Bool} {program : Program}
    {assembled : Assembled} (hAssemble : assemble config cancelled program = .ok assembled)
    (hFits : assembled.Fits program) : assembled.Ordered program := by
  obtain ⟨registry, handle, installed, state, filled, hRegistry, -, -, hDeclare, -, -, -, hEnv, -,
    hDeclared⟩ := assemble_ok hAssemble
  have hTracks := declareAll_tracks rfl (fun record hRecord => compute_covers hRegistry hRecord)
    hDeclare
  refine ⟨hFits, hDeclared ▸ hTracks.declared, hEnv ▸ hTracks.known, fun decl hDecl => ?_⟩
  rw [hEnv]
  refine isSome_find?_mono hTracks.extends_.funcs (List.find?_isSome.2 ?_)
  have hName : decl.name ∈ (importRefs 0 program.imports).map FuncRef.name := by
    rw [map_name_importRefs]
    exact List.mem_map_of_mem hDecl
  obtain ⟨ref, hRef, hSame⟩ := List.mem_map.1 hName
  exact ⟨ref, List.mem_reverse.2 hRef, by simpa using hSame⟩

/-- The first item that passes a check is the only one. -/
theorem findIdx?_of_only {α : Type} {items : List α} {check : α → Bool} {place : Nat} {item : α}
    (hItem : items[place]? = some item) (hCheck : check item = true)
    (hOnly : ∀ other found, items[other]? = some found → check found = true → other = place) :
    items.findIdx? check = some place := by
  obtain ⟨hBound, rfl⟩ := List.getElem?_eq_some_iff.1 hItem
  refine List.findIdx?_eq_some_iff_getElem.2 ⟨hBound, hCheck, fun other hOther hFound => ?_⟩
  have hSame := hOnly other _ (List.getElem?_eq_getElem (hOther.trans hBound)) hFound
  omega

/-- The place of the import that a key refers to. -/
def importPlace? (program : Program) : Key → Option Nat
  | .function name => program.imports.findIdx? fun decl => decl.name == name
  | _ => none

/-- The index of what a key refers to.  Imports come first, then the two functions of the heap, and
then what is declared. -/
def indexOf? (program : Program) (key : Key) : Option Nat :=
  (importPlace? program key).or
    (((originsOf program).findIdx? fun origin => origin.key == key).map
      fun place => program.imports.length + (2 + place))

/-- The index of a method of a record, or of its nearest ancestor that has one of the name. -/
def methodIndex? (program : Program) (registry : Registry) (record name : String) : Option Nat :=
  (registry.ancestors record).findSome? fun owner => indexOf? program (.method owner name)

/-- The indices that names stand for.  A call by name refers to a free function or import first,
then to a method of the receiver, and then to a constructor. -/
def indicesOf (program : Program) (registry : Registry) : Indices where
  callee receiver name :=
    (indexOf? program (.function name)).or <|
      (if receiver = "" then none else methodIndex? program registry receiver name).or <|
        (Text.after? constructorMark name).bind fun record => indexOf? program (.constructor record)
  method := methodIndex? program registry
  alloc := program.imports.length

namespace Assembled.Ordered

variable {assembled : Assembled} {program : Program} (hOrdered : assembled.Ordered program)
include hOrdered

/-- The declaration that stands at the place of what it comes from. -/
theorem item_at {place : Nat} {origin : Origin}
    (hOrigin : (originsOf program)[place]? = some origin) :
    ∃ item, assembled.declared[place]? = some item ∧ item.job = origin.job ∧
      item.name = origin.name := by
  have hSame : (assembled.declared[place]?).map (fun item => (item.job, item.name)) =
      some (origin.job, origin.name) := by
    rw [← List.getElem?_map, hOrdered.declared, List.getElem?_map, hOrigin]
    rfl
  obtain ⟨item, hItem, hBoth⟩ := Option.map_eq_some_iff.1 hSame
  exact ⟨item, hItem, (Prod.mk.inj hBoth).1, (Prod.mk.inj hBoth).2⟩

/-- What a declaration comes from stands at its place. -/
theorem origin_of_item {item : Declared} (hItem : item ∈ assembled.declared) :
    ∃ (place : Nat) (origin : Origin), assembled.declared[place]? = some item ∧
      (originsOf program)[place]? = some origin ∧ item.job = origin.job ∧
      item.name = origin.name := by
  obtain ⟨place, hPlace⟩ := List.getElem?_of_mem hItem
  have hLength := congrArg List.length hOrdered.declared
  rw [List.length_map, List.length_map] at hLength
  have hBound : place < (originsOf program).length :=
    hLength ▸ (List.getElem?_eq_some_iff.1 hPlace).1
  obtain ⟨other, hOther, hJob, hName⟩ := hOrdered.item_at (List.getElem?_eq_getElem hBound)
  obtain rfl := Option.some.inj (hPlace.symm.trans hOther)
  exact ⟨place, _, hPlace, List.getElem?_eq_getElem hBound, hJob, hName⟩

theorem names_origins : (originsOf program).map Origin.name =
    assembled.declared.map Declared.name := by
  have hNames := congrArg (List.map Prod.snd) hOrdered.declared
  rw [List.map_map, List.map_map] at hNames
  exact hNames.symm

/-- Names are unique. -/
theorem place_unique {first second : Nat} {one other : Origin}
    (hFirst : (originsOf program)[first]? = some one)
    (hSecond : (originsOf program)[second]? = some other) (hName : one.name = other.name) :
    first = second := by
  have hNodup : ((originsOf program).map Origin.name).Nodup := by
    rw [hOrdered.names_origins]
    exact (List.nodup_append.1 hOrdered.fits.names).1
  have hBound := (List.getElem?_eq_some_iff.1 hFirst).1
  refine (List.getElem?_inj (by simpa using hBound) hNodup).1 ?_
  rw [List.getElem?_map, List.getElem?_map, hFirst, hSecond, Option.map_some,
    Option.map_some, hName]

/-- A declaration with the name of a function is its declaration. -/
theorem index_of_name {item : Declared} {place : Nat} {origin : Origin}
    (hItem : item ∈ assembled.declared) (hOrigin : (originsOf program)[place]? = some origin)
    (hName : item.name = origin.name) :
    item.index.toNat = program.imports.length + (2 + place) := by
  obtain ⟨found, other, hFound, hOther, -, hSame⟩ := hOrdered.origin_of_item hItem
  obtain rfl := hOrdered.place_unique hOther hOrigin (hSame ▸ hName)
  exact hOrdered.fits.index found item hFound

/-- Where the entry for a key comes from. -/
theorem ref_from {key : Key} {ref : FuncRef} (hRef : key.ref? assembled.env = some ref) :
    (∃ (place : Nat) (decl : ImportDecl), program.imports[place]? = some decl ∧
      key = .function decl.name ∧ ref = .ofImport decl place.toUInt32) ∨
    ∃ origin ∈ originsOf program, origin.key = key ∧ ref.type = jobType assembled.env origin.job ∧
      ∃ item ∈ assembled.declared, item.name = origin.name ∧ item.index = ref.index := by
  have hReferred := hOrdered.fits.referred
  cases key with
  | function name =>
      have hName : ref.name = name := by simpa using List.find?_some hRef
      rcases hReferred.funcs ref (List.mem_of_find?_eq_some hRef) with hImport |
        ⟨decl, hDecl, hEq, hItem⟩
      · obtain ⟨place, decl, hDecl, rfl⟩ := mem_importRefs (List.mem_reverse.1 hImport)
        rw [Nat.zero_add]
        exact .inl ⟨place, decl, hDecl, by rw [← hName]; rfl, rfl⟩
      · refine .inr ⟨.function decl, by simp [originsOf, hDecl], ?_, ?_, _, hItem, rfl, rfl⟩
        · rw [← hName, hEq]
          rfl
        · rw [hEq]
          rfl
  | method record name =>
      obtain ⟨entry, hEntry, rfl⟩ := Option.map_eq_some_iff.1 hRef
      have hNames := List.find?_some hEntry
      simp only [Bool.and_eq_true, beq_iff_eq] at hNames
      rcases hReferred.methods entry.1 entry.2 (List.mem_of_find?_eq_some hEntry) with hNone |
        ⟨decl, ⟨owner, hOwner, -, hDecl⟩, hReceiver, hEq, hItem⟩
      · cases hNone
      · refine .inr ⟨.method decl, ?_, ?_, ?_, _, hItem, rfl, rfl⟩
        · have hMethod : decl ∈ methodDecls program := List.mem_flatMap.2 ⟨owner, hOwner, hDecl⟩
          simp [originsOf, hMethod]
        · rw [← hNames.1, ← hNames.2, hEq, ← hReceiver]
          rfl
        · rw [hEq]
          rfl
  | constructor record =>
      obtain ⟨entry, hEntry, rfl⟩ := Option.map_eq_some_iff.1 hRef
      have hName : entry.1 = record := by simpa using List.find?_some hEntry
      rcases hReferred.constructors entry.1 entry.2 (List.mem_of_find?_eq_some hEntry) with hNone |
        ⟨found, hFound, hEq, hItem⟩
      · cases hNone
      · obtain ⟨place, origin, -, hOrigin, hJob, hSame⟩ := hOrdered.origin_of_item hItem
        cases origin with
        | function decl | method decl => cases hJob
        | constructor owner =>
            have hOwner : entry.1 = owner.name := Job.constructor.inj hJob
            refine .inr ⟨.constructor owner, List.mem_of_getElem? hOrigin, ?_, ?_, _, hItem,
              hSame, rfl⟩
            · rw [← hName, hOwner]
              rfl
            · have hSameRecords := hOrdered.fits.same
              rw [Origin.job, ← hOwner, hSameRecords.jobType, jobType, hFound, hEq]
              rfl

/-- No import has the name of a declared function. -/
theorem importPlace?_origin {origin : Origin} (hOrigin : origin ∈ originsOf program) :
    importPlace? program origin.key = none := by
  cases origin with
  | method | constructor => rfl
  | function decl =>
      have hName : decl.name ∈ assembled.declared.map Declared.name := by
        rw [← hOrdered.names_origins]
        exact List.mem_map_of_mem (f := Origin.name) hOrigin
      refine List.findIdx?_eq_none_iff.2 fun other hOther => ?_
      have hDiffer := (List.nodup_append.1 hOrdered.fits.names).2.2 _ hName _
        (List.mem_map_of_mem (f := ImportDecl.name) hOther)
      simpa using Ne.symm hDiffer

/-- The index of a declared function. -/
theorem indexOf?_origin {place : Nat} {origin : Origin}
    (hOrigin : (originsOf program)[place]? = some origin) :
    indexOf? program origin.key = some (program.imports.length + (2 + place)) := by
  have hPlace : (originsOf program).findIdx? (fun other => other.key == origin.key) =
      some place := by
    refine findIdx?_of_only hOrigin (by simp) fun other found hFound hKey => ?_
    exact hOrdered.place_unique hFound hOrigin (Origin.name_of_key (by simpa using hKey))
  rw [indexOf?, hOrdered.importPlace?_origin (List.mem_of_getElem? hOrigin), hPlace]
  rfl

/-- The index of an import. -/
theorem indexOf?_import {place : Nat} {decl : ImportDecl}
    (hDecl : program.imports[place]? = some decl) :
    indexOf? program (.function decl.name) = some place := by
  have hNodup : (program.imports.map ImportDecl.name).Nodup :=
    (List.nodup_append.1 hOrdered.fits.names).2.1
  have hBound := (List.getElem?_eq_some_iff.1 hDecl).1
  have hPlace : importPlace? program (.function decl.name) = some place := by
    refine findIdx?_of_only hDecl (by simp) fun other found hFound hName => ?_
    have hOther := (List.getElem?_eq_some_iff.1 hFound).1
    refine (List.getElem?_inj (by simpa using hOther) hNodup).1 ?_
    rw [List.getElem?_map, List.getElem?_map, hFound, hDecl]
    simpa using hName
  rw [indexOf?, hPlace]
  rfl

/-- All that has an index has an entry. -/
theorem isSome_ref {key : Key} {index : Nat} (hIndex : indexOf? program key = some index) :
    (key.ref? assembled.env).isSome = true := by
  rw [indexOf?, Option.or_eq_some_iff] at hIndex
  rcases hIndex with hImport | ⟨-, hOwn⟩
  · cases key with
    | method | constructor => cases hImport
    | function name =>
        obtain ⟨hBound, hName, -⟩ := List.findIdx?_eq_some_iff_getElem.1 hImport
        have hSome := hOrdered.imported _ (List.getElem_mem hBound)
        rwa [beq_iff_eq.1 hName] at hSome
  · obtain ⟨place, hPlace, -⟩ := Option.map_eq_some_iff.1 hOwn
    obtain ⟨hBound, hKey, -⟩ := List.findIdx?_eq_some_iff_getElem.1 hPlace
    have hSome := hOrdered.known _ (List.getElem_mem hBound)
    rwa [beq_iff_eq.1 hKey] at hSome

/-- The entry for a key has the index of what the key refers to. -/
theorem index_of_key (key : Key) :
    (key.ref? assembled.env).map (fun ref => ref.index.toNat) = indexOf? program key := by
  cases hRef : key.ref? assembled.env with
  | none =>
      cases hIndex : indexOf? program key with
      | none => rfl
      | some index =>
          have hSome := hOrdered.isSome_ref hIndex
          rw [hRef] at hSome
          cases hSome
  | some ref =>
      rcases hOrdered.ref_from hRef with ⟨place, decl, hDecl, rfl, rfl⟩ |
        ⟨origin, hOrigin, rfl, -, item, hItem, hName, hIndex⟩
      · have hBound := (List.getElem?_eq_some_iff.1 hDecl).1
        have hFew := assembled.handle.allocFunc.toNat_lt
        rw [hOrdered.fits.handle.2.2.1] at hFew
        rw [hOrdered.indexOf?_import hDecl, Option.map_some, FuncRef.ofImport,
          toNat_toUInt32 (by omega)]
      · obtain ⟨place, hPlace⟩ := List.getElem?_of_mem hOrigin
        rw [hOrdered.indexOf?_origin hPlace, ← hOrdered.index_of_name hItem hPlace hName, hIndex]
        rfl

theorem index_of_method (record name : String) :
    (assembled.env.method? record name).map (fun ref => ref.index.toNat) =
      methodIndex? program assembled.env.registry record name := by
  rw [Env.method?, methodIndex?, List.map_findSome?]
  congr 1
  funext owner
  exact hOrdered.index_of_key (.method owner name)

/-- A call by name refers to the function with the index that the name stands for. -/
theorem index_of_callee {context : Context} (hEnv : context.env = assembled.env) (name : String) :
    (context.callee? name).map (fun ref => ref.index.toNat) =
      (indicesOf program assembled.env.registry).callee context.receiver name := by
  have hCallee : context.callee? name = (assembled.env.function? name).or
      ((if context.receiver = "" then none else assembled.env.method? context.receiver name).or
        ((Text.after? constructorMark name).bind assembled.env.constructor?)) := by
    rw [Context.callee?, Context.ownMethod?, hEnv]
    split <;> simp_all [Bind.bind]
  have hOwn : (if context.receiver = "" then none else
      assembled.env.method? context.receiver name).map (fun ref => ref.index.toNat) =
      if context.receiver = "" then none else
        methodIndex? program assembled.env.registry context.receiver name := by
    split
    · rfl
    · exact hOrdered.index_of_method _ _
  have hConstructor : ((Text.after? constructorMark name).bind assembled.env.constructor?).map
      (fun ref => ref.index.toNat) =
      (Text.after? constructorMark name).bind fun record =>
        indexOf? program (.constructor record) := by
    rw [Option.map_bind]
    congr 1
    funext record
    exact hOrdered.index_of_key (.constructor record)
  have hFunction := hOrdered.index_of_key (.function name)
  rw [Key.ref?] at hFunction
  rw [hCallee, Option.map_or, Option.map_or, hFunction, hOwn, hConstructor]
  rfl

/-- Names stand for the indices of what they refer to. -/
theorem suit : (indicesOf program assembled.env.registry).Suit assembled.env where
  callee := fun context hEnv name ref hCallee => by
    rw [← hOrdered.index_of_callee hEnv, hCallee]
    rfl
  method := fun record name ref hMethod => by
    have hIndex := hOrdered.index_of_method record name
    rw [hMethod] at hIndex
    exact hIndex.symm
  alloc := by
    have hHeap : assembled.env.heap = assembled.handle := hOrdered.fits.same.heap
    rw [hHeap, hOrdered.fits.handle.2.2.1]
    rfl

/-- The entry for an import. -/
theorem ref_of_import {place : Nat} {decl : ImportDecl}
    (hDecl : program.imports[place]? = some decl) :
    assembled.env.function? decl.name = some (.ofImport decl place.toUInt32) := by
  have hIndex := hOrdered.indexOf?_import hDecl
  have hBound := (List.getElem?_eq_some_iff.1 hDecl).1
  obtain ⟨ref, hRef⟩ := Option.isSome_iff_exists.1
    (hOrdered.imported decl (List.mem_of_getElem? hDecl))
  rcases @ref_from _ _ hOrdered (.function decl.name) ref hRef with ⟨other, found, hFound,
    hKey, rfl⟩ | ⟨origin, hOrigin, hKey, -⟩
  · rw [hKey, hOrdered.indexOf?_import hFound, Option.some.injEq] at hIndex
    subst hIndex
    obtain rfl := Option.some.inj (hFound.symm.trans hDecl)
    exact hRef
  · obtain ⟨found, hFound⟩ := List.getElem?_of_mem hOrigin
    rw [← hKey, hOrdered.indexOf?_origin hFound, Option.some.injEq] at hIndex
    omega

/-- The entry for a declared function. -/
theorem ref_of_origin {place : Nat} {origin : Origin}
    (hOrigin : (originsOf program)[place]? = some origin) :
    ∃ ref item, origin.key.ref? assembled.env = some ref ∧
      assembled.declared[place]? = some item ∧ item.job = origin.job ∧ item.name = origin.name ∧
      item.index = ref.index ∧ ref.type = jobType assembled.env origin.job := by
  have hMem := List.mem_of_getElem? hOrigin
  obtain ⟨ref, hRef⟩ := Option.isSome_iff_exists.1 (hOrdered.known origin hMem)
  rcases hOrdered.ref_from hRef with ⟨other, decl, hDecl, hKey, -⟩ |
    ⟨other, hOther, hKey, hType, item, hItem, hName, hIndex⟩
  · -- An import would have an index in front of all that is declared.
    have hImport := hOrdered.indexOf?_import hDecl
    rw [← hKey, hOrdered.indexOf?_origin hOrigin, Option.some.injEq] at hImport
    have hBound := (List.getElem?_eq_some_iff.1 hDecl).1
    omega
  · have hSame := Origin.name_of_key hKey
    obtain ⟨found, hFound⟩ := List.getElem?_of_mem hOther
    obtain rfl := hOrdered.place_unique hFound hOrigin hSame
    obtain rfl := Option.some.inj (hFound.symm.trans hOrigin)
    obtain ⟨own, hOwn, hJob, hOwnName⟩ := hOrdered.item_at hOrigin
    refine ⟨ref, own, hRef, hOwn, hJob, hOwnName, ?_, hType⟩
    rw [← hIndex, ← UInt32.toNat_inj, hOrdered.index_of_name hItem hOrigin hName,
      hOrdered.fits.index found own hOwn]

end Assembled.Ordered

/-! ## The module -/

/-- The code of a function stands at its place. -/
theorem code_at {module : Module} {imports : List ImportedFunction}
    {funcs : List Assembly.Function} (hHolds : Holds module imports funcs) {place : Nat}
    {function : Assembly.Function} {body : Assembly.Body}
    (hFunction : funcs[place]? = some function) (hBody : function.body = some body) :
    module.code[place]? = some ⟨LocalRun.compact body.locals, Instr.encodeAll body.instrs⟩ := by
  obtain ⟨hBound, rfl⟩ := List.getElem?_eq_some_iff.1 hFunction
  have hOther : place < module.code.length := hHolds.coded.length_eq ▸ hBound
  obtain ⟨found, hFound, hCode⟩ := hHolds.coded.get hBound hOther
  obtain rfl := Option.some.inj (hBody.symm.trans hFound)
  rw [List.get_eq_getElem] at hCode
  rw [List.getElem?_eq_getElem hOther, hCode]

/-- What is written can be read back. -/
theorem parseValid_of_compiled {config : CompileConfig} {cancelled : Bool} {program : Program}
    {assembled : Assembled} {compiled : Compiled} {module : Module}
    (hCompile : Compile.program config cancelled program = .ok compiled)
    (hAssemble : assemble config cancelled program = .ok assembled)
    (hModule : assembled.builder.module = .ok module) (hFits : assembled.Fits program)
    (hSmall : compiled.binary.length < 2 ^ 32) :
    Module.parseValid compiled.binary = .ok module := by
  obtain ⟨hBuild, -⟩ := program_ok hCompile hAssemble
  simp only [Builder.build, hModule, bind_ok, mapError_ok, pure_ok] at hBuild
  obtain ⟨_, hSame, _, hValidate, hBinary⟩ := hBuild
  cases hSame
  rw [← hBinary] at hSmall ⊢
  have hParse := parse_module hModule (words_of_globals hFits.globals) hSmall
  simp only [Module.parseValid, hParse, bind_ok, mapError_ok, pure_ok]
  exact ⟨module, rfl, _, hValidate, rfl⟩

/-- The functions that a function calls in the source, in the order of evaluation. -/
def Origin.calls (program : Program) (env : Env) : Origin → List (Option Nat)
  | function decl | method decl =>
      stmtsCalls (indicesOf program env.registry) (entryPoint env decl) decl.body
  | constructor _ => [some program.imports.length]

theorem Assembled.Ordered.calls {assembled : Assembled} {program : Program}
    (hOrdered : assembled.Ordered program) {origin : Origin} {body : FunctionBody}
    (hCompile : compileJob assembled.env origin.job = .ok body) :
    callsIn body.instrs = origin.calls program assembled.env := by
  have hHeap : assembled.env.heap = assembled.handle := hOrdered.fits.same.heap
  cases origin with
  | function decl | method decl => exact lowerFunction_calls hCompile hOrdered.suit
  | constructor record =>
      rw [lowerConstructor_calls hCompile, hHeap, hOrdered.fits.handle.2.2.1]
      rfl

/-- Function indices agree everywhere.  Imports have their places as indices, the functions of the
heap stand behind them, and then come the free functions, the methods by record and the
constructors.  In the module that is read back, each function has the signature that its calls are
checked against, the code that was compiled for it, and its own name among the exports.  Every call
that was compiled is a call of the source, and has the index of what the source calls. -/
theorem indices_agree {config : CompileConfig} {cancelled : Bool} {program : Program}
    {compiled : Compiled} (hCompile : Compile.program config cancelled program = .ok compiled)
    (hSmall : compiled.binary.length < 2 ^ 32) :
    ∃ assembled module, assemble config cancelled program = .ok assembled ∧
      Module.parseValid compiled.binary = .ok module ∧
      (∀ (place : Nat) (decl : ImportDecl), program.imports[place]? = some decl →
        ∃ ref item, assembled.env.function? decl.name = some ref ∧ ref.index.toNat = place ∧
          module.imports[place]? = some item ∧ item.module = decl.module ∧ item.name = decl.name ∧
          module.funcType? ref.index = some ref.type) ∧
      (assembled.env.heap.allocFunc.toNat = program.imports.length ∧
        assembled.env.heap.resetFunc.toNat = program.imports.length + 1 ∧
        module.code[0]? = some ⟨LocalRun.compact Heap.allocLocals,
          Instr.encodeAll assembled.env.heap.allocInstrs⟩ ∧
        module.code[1]? = some ⟨[], Instr.encodeAll assembled.env.heap.resetInstrs⟩) ∧
      (compiled.functions.length = (originsOf program).length ∧
        module.code.length = 2 + (originsOf program).length) ∧
      ∀ (place : Nat) (origin : Origin), (originsOf program)[place]? = some origin →
        ∃ ref body, origin.key.ref? assembled.env = some ref ∧
          ref.index.toNat = program.imports.length + 2 + place ∧
          module.funcType? ref.index = some ref.type ∧
          compiled.functions[place]? = some body ∧ module.code[2 + place]? = some body.encode ∧
          ⟨origin.name, .function, ref.index⟩ ∈ module.exports ∧
          callsIn body.instrs = origin.calls program assembled.env := by
  have hProgram := hCompile
  simp only [Compile.program, bind_ok, single_ok, mapError_ok, pure_ok] at hProgram
  obtain ⟨assembled, hAssemble, binary, -, hSame⟩ := hProgram
  have hFunctions : compiled.functions = assembled.bodies := by rw [← hSame]
  obtain ⟨module, hModule, -, hSigned⟩ := signed_of_compiled hCompile hAssemble hSmall
  have hFits := hSigned.fits
  have hOrdered := assemble_ordered hAssemble hFits
  have hHeap : assembled.env.heap = assembled.handle := hFits.same.heap
  refine ⟨assembled, module, hAssemble,
    parseValid_of_compiled hCompile hAssemble hModule hFits hSmall, ?_, ?_, ?_, ?_⟩
  · intro place decl hDecl
    have hBound := (List.getElem?_eq_some_iff.1 hDecl).1
    have hFew := assembled.handle.allocFunc.toNat_lt
    rw [hFits.handle.2.2.1] at hFew
    have hNames := congrArg (fun names => names[place]?) (Builder.module_imports hModule)
    simp only [List.getElem?_map, hFits.imports, hDecl, Option.map_some] at hNames
    obtain ⟨item, hItem, hName⟩ := Option.map_eq_some_iff.1 hNames
    exact ⟨_, item, hOrdered.ref_of_import hDecl, toNat_toUInt32 (by omega), hItem,
      (Prod.mk.inj hName).1, (Prod.mk.inj hName).2, hSigned.funcType?_import hDecl⟩
  · rw [hHeap]
    refine ⟨hFits.handle.2.2.1, hFits.handle.2.2.2, ?_, ?_⟩
    · exact @code_at _ _ _ hSigned.holds 0 _ _ (by rw [hFits.funcs]; rfl) rfl
    · exact @code_at _ _ _ hSigned.holds 1 _ _ (by rw [hFits.funcs]; rfl) rfl
  · have hLength := congrArg List.length hOrdered.declared
    rw [List.length_map, List.length_map, hFits.compiled.length_eq] at hLength
    refine ⟨hFunctions ▸ hLength, ?_⟩
    rw [← hSigned.holds.coded.length_eq, hFits.funcs, List.length_append, List.length_zipWith,
      hFits.compiled.length_eq, Nat.min_self, hLength]
    rfl
  · intro place origin hOrigin
    obtain ⟨ref, item, hRef, hItem, hJob, hName, hIndex, hType⟩ := hOrdered.ref_of_origin hOrigin
    obtain ⟨body, hBody, hCompiled, hFunction⟩ := hFits.body_at hItem
    rw [hJob] at hCompiled
    refine ⟨ref, body, hRef, ?_, ?_, hFunctions ▸ hBody, code_at hSigned.holds hFunction rfl, ?_,
      hOrdered.calls hCompiled⟩
    · rw [← hIndex, hFits.index place item hItem, Nat.add_assoc]
    · rw [← hIndex, hSigned.funcType?_declared (List.mem_of_getElem? hItem), hJob, hType]
    · obtain ⟨front, hExports⟩ := hFits.exports
      rw [(Builder.module_parts hModule).1, hExports, ← hIndex, ← hName]
      refine List.mem_cons_of_mem _ (List.mem_append_right _ ?_)
      exact List.mem_map.2 ⟨item, List.mem_of_getElem? hItem, rfl⟩

/-- A program with an import, a record that inherits a method, and all kinds of calls. -/
def shapes : Program where
  imports := [⟨{}, "host", "log", [⟨{}, "value", .i32⟩], .void⟩]
  records := [
    { name := "Shape"
      fields := [⟨{}, "side", .i32⟩]
      methods := [{
        name := "area"
        params := []
        result := .i32
        body := [.result {} (.binary { type := .i32 } "*" (.ident { type := .i32 } "side")
          (.ident { type := .i32 } "side"))] }] },
    { name := "Square"
      parent := "Shape"
      fields := []
      methods := [{
        name := "report"
        params := []
        result := .void
        body := [.eval {} (.call {} "log" [.call { type := .i32 } "area" []])] }] }]
  functions := [{
    name := "main"
    params := []
    result := .i32
    body := [
      .declare {} "square" (.record "Square")
        (.construct { type := .record "Square" } "Square"
          [.mk {} "side" (.int { type := .i32 } 2)]),
      .eval {} (.methodCall {} (.ident { type := .record "Square" } "square") "report" []),
      .result {} (.methodCall { type := .i32 }
        (.call { type := .record "Shape" } "new_Shape" [.int { type := .i32 } 3]) "area" [])] }]

/-- Behind one import and the heap stand a function, two methods and two constructors.  The function
allocates a record, reports it, makes another one and takes its area; the report logs the area that
is inherited. -/
theorem indices_agree_shapes :
    ∃ (compiled : Compiled) (module : Module), Compile.program {} false shapes = .ok compiled ∧
      Module.parseValid compiled.binary = .ok module ∧
      compiled.functions.map (fun body => callsIn body.instrs) =
        [[some 1, some 5, some 6, some 4], [], [some 4, some 0], [some 1], [some 1]] ∧
      ∀ (place : Nat) (name : String),
        ["main", "Shape.area", "Square.report", "new_Shape", "new_Square"][place]? = some name →
        ∃ index : UInt32, index.toNat = 3 + place ∧ ⟨name, .function, index⟩ ∈ module.exports := by
  obtain ⟨compiled, hCompile, hSmall⟩ := @ok_of_any _ _ (Compile.program {} false shapes)
    (fun compiled => compiled.binary.length < 2 ^ 32) (by decide +kernel)
  obtain ⟨other, hOther, hCalls⟩ := @ok_of_any _ _ (assemble {} false shapes)
    (fun assembled => (originsOf shapes).map (Origin.calls shapes assembled.env) ==
      [[some 1, some 5, some 6, some 4], [], [some 4, some 0], [some 1], [some 1]])
    (by decide +kernel)
  obtain ⟨assembled, module, hAssemble, hRead, -, -, ⟨hLength, -⟩, hOwn⟩ :=
    indices_agree hCompile (of_decide_eq_true hSmall)
  obtain rfl := Except.ok.inj (hAssemble.symm.trans hOther)
  refine ⟨compiled, module, hCompile, hRead, ?_, fun place name hName => ?_⟩
  · rw [← beq_iff_eq.1 hCalls]
    refine List.ext_getElem? fun place => ?_
    rw [List.getElem?_map, List.getElem?_map]
    cases hOrigin : (originsOf shapes)[place]? with
    | none =>
        rw [List.getElem?_eq_none_iff, ← hLength] at hOrigin
        rw [List.getElem?_eq_none hOrigin]
        rfl
    | some origin =>
        obtain ⟨ref, body, -, -, -, hBody, -, -, hSame⟩ := hOwn place origin hOrigin
        rw [hBody, Option.map_some, Option.map_some, hSame]
  · have hNames : ["main", "Shape.area", "Square.report", "new_Shape", "new_Square"] =
        (originsOf shapes).map Origin.name := by decide +kernel
    rw [hNames, List.getElem?_map] at hName
    obtain ⟨origin, hOrigin, rfl⟩ := Option.map_eq_some_iff.1 hName
    obtain ⟨ref, body, -, hIndex, -, -, -, hExport, -⟩ := hOwn place origin hOrigin
    exact ⟨ref.index, hIndex, hExport⟩

end RecordWasm.Compile
