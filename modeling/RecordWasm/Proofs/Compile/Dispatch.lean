import RecordWasm.Proofs.Compile.Indices
import RecordWasm.Proofs.Layout.Chains

/-!
# Methods are looked up along chains of parents

A method call is settled when it is compiled: the chain of the receiver's record is searched, and
the first record on it that declares a method of the name decides.  The chain ends, never comes back
to a record, and has the records that the receiver descends from behind its own.
-/

namespace RecordWasm.Compile

open Syntax Layout Lowering

variable {decls : List RecordDecl} {env : Env} {name : String}

/-- Nothing has been declared so far, but some names are taken, each one once. -/
structure Fresh (start : Declarations) : Prop where
  declared : start.declared = []
  methods : start.env.methods = []
  seen : start.seen.Nodup

/-- The methods that an environment knows are those that records declare. -/
structure Registers (env : Env) (decls : List RecordDecl) : Prop where
  declared : ∀ owner ref, (owner, ref) ∈ env.methods → ∃ decl ∈ decls, decl.name = owner ∧
    ∃ method ∈ methodsOf decl, ref = .ofDecl method ref.index
  known : ∀ decl ∈ decls, ∀ method ∈ methodsOf decl, ∃ ref, (decl.name, ref) ∈ env.methods ∧
    ref.name = method.name

/-- No record of these names declares a method of the name. -/
def Lacks (decls : List RecordDecl) (owners : List String) (name : String) : Prop :=
  ∀ decl ∈ decls, decl.name ∈ owners → ∀ method ∈ methodsOf decl, method.name ≠ name

/-- What looking for a method along a chain of records gives: the method of the first record that
declares one. -/
inductive Finds (env : Env) (decls : List RecordDecl) (chain : List String) (name : String) :
    Option FuncRef → Prop
  | nowhere : Lacks decls chain name → Finds env decls chain name none
  | first {nearer further : List String} {decl : RecordDecl} {method : FuncDecl} {ref : FuncRef} :
      chain = nearer ++ decl.name :: further → Lacks decls nearer name → decl ∈ decls →
      method ∈ methodsOf decl → method.name = name → (decl.name, ref) ∈ env.methods →
      ref = .ofDecl method ref.index → Finds env decls chain name (some ref)

namespace Registers

variable (hRegisters : Registers env decls)
include hRegisters

theorem lacks {owners : List String} (hNone : ∀ owner ∈ owners,
    (env.methods.find? fun entry => entry.1 == owner && entry.2.name == name) = none) :
    Lacks decls owners name := by
  intro decl hDecl hOwner method hMethod hName
  obtain ⟨ref, hEntry, hSame⟩ := hRegisters.known decl hDecl method hMethod
  have hMiss := List.find?_eq_none.1 (hNone decl.name hOwner) (decl.name, ref) hEntry
  simp [hSame, hName] at hMiss

/-- Looking a method up gives that of the first record on the chain that declares one. -/
theorem finds_method (record : String) :
    Finds env decls (env.registry.ancestors record) name (env.method? record name) := by
  rw [Env.method?]
  cases hMethod : (env.registry.ancestors record).findSome? fun owner =>
      (env.methods.find? fun entry => entry.1 == owner && entry.2.name == name).map Prod.snd with
  | none =>
      refine .nowhere (hRegisters.lacks fun owner hOwner => ?_)
      simpa only [Option.map_eq_none_iff] using List.findSome?_eq_none_iff.1 hMethod owner hOwner
  | some ref =>
      obtain ⟨nearer, owner, further, hChain, hOwner, hNearer⟩ :=
        List.findSome?_eq_some_iff.1 hMethod
      obtain ⟨⟨holder, found⟩, hEntry, rfl⟩ := Option.map_eq_some_iff.1 hOwner
      have hKey := List.find?_some hEntry
      simp only [Bool.and_eq_true, beq_iff_eq] at hKey
      obtain ⟨rfl, hName⟩ := hKey
      have hMember := List.mem_of_find?_eq_some hEntry
      obtain ⟨decl, hDecl, rfl, method, hDeclared, hRef⟩ := hRegisters.declared holder found hMember
      refine .first hChain (hRegisters.lacks ?_) hDecl hDeclared ?_ hMember hRef
      · simpa only [Option.map_eq_none_iff] using hNearer
      · rw [← hName, hRef]
        rfl

end Registers

/-- Declaring a program makes the methods of its records known, and no others. -/
theorem Fresh.registers {program : Program} {start state : Declarations} (hFresh : Fresh start)
    (hLaid : ∀ record ∈ program.records, ∃ found, start.env.registry.get? record.name = some found)
    (hDeclare : declareAll program start = .ok state) : Registers state.env program.records := by
  have hReferred := (declareAll_reaches hDeclare).referred hFresh.declared hFresh.seen
  have hTracks := declareAll_tracks hFresh.declared hLaid hDeclare
  refine ⟨fun owner ref hEntry => ?_, fun decl hDecl method hMethod => ?_⟩
  · rcases hReferred.methods owner ref hEntry with hOld |
      ⟨method, ⟨decl, hDecl, hOwner, hMethod⟩, -, hRef, -⟩
    · rw [hFresh.methods] at hOld
      cases hOld
    · exact ⟨decl, hDecl, hOwner, method, hMethod, hRef⟩
  · have hDeclared : method ∈ methodDecls program := List.mem_flatMap.2 ⟨decl, hDecl, hMethod⟩
    have hSome := hTracks.known (.method method) (by simp [originsOf, hDeclared])
    rw [Origin.key, receiver_of_mem hMethod, Key.ref?, Option.isSome_map,
      List.find?_isSome] at hSome
    obtain ⟨⟨owner, ref⟩, hEntry, hNames⟩ := hSome
    simp only [Bool.and_eq_true, beq_iff_eq] at hNames
    obtain ⟨rfl, hName⟩ := hNames
    exact ⟨ref, hEntry, hName⟩

/-- In a registry that is computed of records with names, the loops that climb from record to parent
end.  What is climbed from a record is a chain to a record without parent.  A record descends from
those that come after it on its chain, so none descends from itself, and what an ancestor descends
from is an ancestor too.  Declaring a program with these records makes their methods known, and the
method that is found is that of the first record on the chain that declares one. -/
theorem parent_chains {registry : Registry} (hCompute : Layout.compute decls = .ok registry)
    (hNames : ∀ decl ∈ decls, decl.name ≠ "") :
    (∀ name ∈ registry.names, registry.Climbs name (registry.ancestors name) ∧
      registry.Chain name (registry.ancestors name)) ∧
    (∀ record ∈ registry.layouts, ∀ ancestor,
      registry.Seeks ancestor record.parent (registry.descends record ancestor) ∧
      (registry.descends record ancestor = true ↔
        ancestor ∈ (registry.ancestors record.name).tail)) ∧
    (∀ record ∈ registry.layouts, registry.descends record record.name = false) ∧
    (∀ record ∈ registry.layouts, ∀ middle ∈ registry.layouts, ∀ ancestor,
      registry.descends record middle.name = true → registry.descends middle ancestor = true →
        registry.descends record ancestor = true) ∧
    (∀ program : Program, program.records = decls → ∀ start state, Fresh start →
      start.env.registry = registry → declareAll program start = .ok state →
        state.env.registry = registry ∧ Registers state.env decls) ∧
    ∀ env : Env, env.registry = registry → Registers env decls → ∀ record ∈ registry.names, ∀ name,
      Finds env decls (registry.ancestors record) name (env.method? record name) := by
  have hSorted := Registry.sorted_of_compute hCompute hNames
  refine ⟨fun name hName => ⟨hSorted.climbs_ancestors (.inr hName), hSorted.chain_ancestors hName⟩,
    fun record hRecord ancestor => ⟨hSorted.seeks_descends hRecord, hSorted.descends_iff hRecord⟩,
    fun record hRecord => hSorted.not_descends hRecord,
    fun record hRecord middle hMiddle ancestor => hSorted.descends_trans hRecord hMiddle, ?_, ?_⟩
  · rintro program rfl start state hFresh rfl hDeclare
    have hListed := (declareAll_reaches hDeclare).listed hFresh.declared hFresh.seen
    exact ⟨hListed.same.registry,
      hFresh.registers (fun _ hRecord => compute_covers hCompute hRecord) hDeclare⟩
  · rintro env rfl hRegisters record - name
    exact hRegisters.finds_method record

/-- A record whose parent declares one of the methods of its grandparent anew. -/
def kin : Program where
  records := [
    { name := "Leaf", parent := "Mid", fields := [] },
    { name := "Mid", parent := "Base", fields := [],
      methods :=
        [{ name := "size", params := [], result := .i64, body := [.result {} (.int {} 2)] }] },
    { name := "Base", fields := [],
      methods := [
        { name := "size", params := [], result := .i64, body := [.result {} (.int {} 1)] },
        { name := "kind", params := [], result := .i64, body := [.result {} (.int {} 0)] }] }]
  functions := []

/-- What the methods of these records are declared with. -/
def kinStart (registry : Registry) : Declarations where
  env := .ofProgram kin registry ⟨1024, 65536, 0, 1, 0, 1⟩
  builder := .new {}
  seen := []

/-- The nearer declaration of a method decides, and one that only the furthest ancestor declares is
found there. -/
theorem parent_chains_kin :
    let leaf : Record := ⟨"Leaf", "Mid", [], 0, 1, 0⟩
    let registry : Registry := ⟨[⟨"Base", "", [], 0, 1, 0⟩, ⟨"Mid", "Base", [], 0, 1, 0⟩, leaf]⟩
    Layout.compute kin.records = .ok registry ∧
    registry.Climbs "Leaf" ["Leaf", "Mid", "Base"] ∧ registry.Chain "Leaf" ["Leaf", "Mid", "Base"] ∧
    registry.descends leaf "Base" = true ∧ registry.descends leaf "Leaf" = false ∧
    ∃ state, declareAll kin (kinStart registry) = .ok state ∧
      Finds state.env kin.records ["Leaf", "Mid", "Base"] "size"
        (some ⟨"size", [.record "Mid"], .i64, 0⟩) ∧
      Finds state.env kin.records ["Leaf", "Mid", "Base"] "kind"
        (some ⟨"kind", [.record "Base"], .i64, 2⟩) ∧
      Finds state.env kin.records ["Leaf", "Mid", "Base"] "area" none := by
  intro leaf registry
  have hCompute : Layout.compute kin.records = .ok registry := by
    obtain ⟨found, hFound, hSame⟩ := @ok_of_any _ _ (Layout.compute kin.records)
      (fun found => decide (found = registry)) (by decide +kernel)
    rw [hFound, of_decide_eq_true hSame]
  obtain ⟨state, hDeclare, hMethods⟩ := @ok_of_any _ _ (declareAll kin (kinStart registry))
    (fun state => decide (["size", "kind", "area"].map (state.env.method? "Leaf") =
      [some ⟨"size", [.record "Mid"], .i64, 0⟩, some ⟨"kind", [.record "Base"], .i64, 2⟩, none]))
    (by decide +kernel)
  replace hMethods := of_decide_eq_true hMethods
  obtain ⟨hSize, hKind, hArea⟩ : state.env.method? "Leaf" "size" = _ ∧
      state.env.method? "Leaf" "kind" = _ ∧ state.env.method? "Leaf" "area" = _ := by
    simpa using hMethods
  obtain ⟨hChains, hDescends, hNever, -, hDeclares, hFinds⟩ := parent_chains hCompute (by decide)
  obtain ⟨hRegistry, hRegisters⟩ :=
    hDeclares kin rfl (kinStart registry) state ⟨rfl, rfl, .nil⟩ rfl hDeclare
  have hLeaf : "Leaf" ∈ registry.names := by decide
  have hAncestors : registry.ancestors "Leaf" = ["Leaf", "Mid", "Base"] := by decide
  have hFinds := hFinds state.env hRegistry hRegisters "Leaf" hLeaf
  obtain ⟨hClimbs, hChain⟩ := hChains "Leaf" hLeaf
  rw [hAncestors] at hFinds hClimbs hChain
  refine ⟨hCompute, hClimbs, hChain, (hDescends leaf (by decide) "Base").2.2 (by decide),
    hNever leaf (by decide), state, hDeclare, ?_, ?_, ?_⟩
  · exact hSize ▸ hFinds "size"
  · exact hKind ▸ hFinds "kind"
  · exact hArea ▸ hFinds "area"

end RecordWasm.Compile
