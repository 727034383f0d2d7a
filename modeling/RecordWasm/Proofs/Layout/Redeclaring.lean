import RecordWasm.Proofs.Graph.Registration
import RecordWasm.Proofs.Layout.Reordering

/-!
# The order of declarations is kept

Records that are declared parents first are laid out in the order of their declarations.  The order
of a registry is of that kind, so that records declared anew in it are laid out as they were.
-/

namespace RecordWasm.Layout

open Syntax

variable {decls sorted : List RecordDecl}

/-- The declarations of some names, in the order of the names. -/
def declsOf (decls : List RecordDecl) (names : List String) : List RecordDecl :=
  names.filterMap (declOf? decls)

/-- Records with distinct names are registered in the order of their declarations; the edges name no
other records. -/
theorem nodes_inheritance (hDistinct : ¬Repeats decls) :
    (inheritance decls).nodes = decls.map RecordDecl.name := by
  rw [inheritance_eq, Graph.nodes_ofOps, inheritanceOps, List.map_append, List.map_map]
  refine Graph.eraseDups_front (not_not.1 hDistinct) ?_
  intro name hName
  obtain ⟨op, hOp, rfl⟩ := List.mem_map.1 hName
  obtain ⟨decl, hDecl, hSome⟩ := List.mem_filterMap.1 hOp
  split at hSome
  · cases hSome
  · cases hSome
    exact List.mem_map_of_mem hDecl

/-- Records that are declared parents first are sorted to the order of their declarations, and no
others are. -/
theorem sort_inheritance_iff (hDistinct : ¬Repeats decls) :
    (inheritance decls).sort = .ok (decls.map RecordDecl.name) ↔
      ParentsFirst decls (decls.map RecordDecl.name) := by
  rw [← nodes_inheritance hDistinct, Graph.sort_eq_nodes_iff (nodup_inheritance decls)]
  constructor
  · intro hFirst
    constructor
    · rw [nodes_inheritance hDistinct]
    · intro front name back hSplit parent hParent
      exact hFirst front name back hSplit parent (dependsOn_inheritance.2 hParent)
  · intro hOrder front name back hSplit parent hParent
    exact hOrder.parent_mem front name back hSplit parent (dependsOn_inheritance.1 hParent)

theorem compute_eq (hDistinct : ¬Repeats decls) {order : List String}
    (hSort : (inheritance decls).sort = .ok order) : compute decls = layoutAll decls order := by
  rw [compute, firstDuplicate?_eq_none.2 hDistinct]
  simp only [hSort]

/-- A registry lists the names that its records are sorted to, and lays these out. -/
theorem layoutAll_of_compute {registry : Registry} (hCompute : compute decls = .ok registry) :
    (inheritance decls).sort = .ok registry.names ∧
      layoutAll decls registry.names = .ok registry := by
  have hDistinct := (compute_ok hCompute).1
  cases hSort : (inheritance decls).sort with
  | error cause =>
      rw [compute, firstDuplicate?_eq_none.2 hDistinct] at hCompute
      simp only [hSort] at hCompute
      cases hCompute
  | ok order =>
      rw [compute_eq hDistinct hSort] at hCompute
      have hOrder := (parentsFirst_of_sort hDistinct hSort).1
      obtain ⟨rfl, -⟩ := layoutAll_described hDistinct hOrder (List.append_nil _).symm hCompute
      exact ⟨rfl, hCompute⟩

/-- Laying out looks declarations up by their names, in whatever order they stand. -/
theorem layoutAll_perm (hDistinct : ¬Repeats decls) (hPerm : decls.Perm sorted) :
    layoutAll decls = layoutAll sorted := by
  funext order
  simp only [layoutAll, find?_perm (not_not.1 hDistinct) hPerm]

theorem parentsFirst_of_perm {order : List String} (hOrder : ParentsFirst decls order)
    (hPerm : decls.Perm sorted) : ParentsFirst sorted order := by
  obtain ⟨hNames, hParents⟩ := hOrder
  constructor
  · exact hNames.trans (hPerm.map RecordDecl.name)
  · rw [← namesParent_perm hPerm]
    exact hParents

/-- Records that are declared in the order of a registry are laid out to this registry. -/
theorem compute_again {registry : Registry} (hCompute : compute decls = .ok registry)
    (hPerm : decls.Perm sorted) (hNames : sorted.map RecordDecl.name = registry.names) :
    compute sorted = .ok registry := by
  obtain ⟨hDistinct, -, -, hOrder, -⟩ := compute_ok hCompute
  have hSorted : ¬Repeats sorted := fun hRepeats => hDistinct ((repeats_perm hPerm).2 hRepeats)
  have hSort : (inheritance sorted).sort = .ok registry.names := by
    rw [← hNames, sort_inheritance_iff hSorted, hNames]
    exact parentsFirst_of_perm hOrder hPerm
  rw [compute_eq hSorted hSort, ← layoutAll_perm hDistinct hPerm]
  exact (layoutAll_of_compute hCompute).2

/-- Every declaration is found by its name, so that a list is its own list of declarations. -/
theorem declsOf_names (hDistinct : ¬Repeats decls) :
    declsOf decls (decls.map RecordDecl.name) = decls := by
  rw [declsOf, List.filterMap_map]
  have hFound : ∀ decl ∈ decls, (declOf? decls ∘ RecordDecl.name) decl = some decl :=
    fun decl hDecl => declOf?_of_mem hDistinct hDecl
  rw [List.filterMap_congr hFound, List.filterMap_some]

theorem names_declsOf {names : List String} (hNames : names ⊆ decls.map RecordDecl.name) :
    (declsOf decls names).map RecordDecl.name = names := by
  induction names with
  | nil => rfl
  | cons name rest ih =>
      obtain ⟨hName, hRest⟩ := List.cons_subset.1 hNames
      cases hDecl : declOf? decls name with
      | none =>
          obtain ⟨decl, hMember, rfl⟩ := List.mem_map.1 hName
          exact absurd (List.find?_eq_none.1 hDecl decl hMember) (by simp)
      | some decl =>
          rw [declsOf, List.filterMap_cons_some hDecl, List.map_cons, (mem_declOf? hDecl).2,
            ← declsOf, ih hRest]

theorem perm_declsOf (hDistinct : ¬Repeats decls) {names : List String}
    (hNames : names.Perm (decls.map RecordDecl.name)) : decls.Perm (declsOf decls names) := by
  have hPerm := hNames.symm.filterMap (declOf? decls)
  rw [← declsOf, ← declsOf, declsOf_names hDistinct] at hPerm
  exact hPerm

/-- Ties are broken by the order of declaration: a graph is sorted to the order of its registration
exactly if every node stands behind its dependencies there.  So records that are laid out are laid
out alike when they are declared in the order of the registry, and their order is that of their
declarations exactly if these stand parents first. -/
theorem declared_order_kept :
    (∀ ops : List Graph.Op, (Graph.ofOps ops).nodes = (ops.map Graph.Op.subject).eraseDups ∧
      ((Graph.ofOps ops).sort = .ok (Graph.ofOps ops).nodes ↔
        (Graph.ofOps ops).DepsFirst (Graph.ofOps ops).nodes)) ∧
    ∀ (decls : List RecordDecl) (registry : Registry), compute decls = .ok registry →
      (decls.Perm (declsOf decls registry.names) ∧
        (declsOf decls registry.names).map RecordDecl.name = registry.names ∧
        compute (declsOf decls registry.names) = .ok registry) ∧
      (registry.names = decls.map RecordDecl.name ↔
        ParentsFirst decls (decls.map RecordDecl.name)) := by
  constructor
  · intro ops
    exact ⟨Graph.nodes_ofOps ops, Graph.sort_eq_nodes_iff (Graph.nodup_ofOps ops)⟩
  · intro decls registry hCompute
    obtain ⟨hDistinct, -, -, hOrder, -⟩ := compute_ok hCompute
    have hPerm := perm_declsOf hDistinct hOrder.perm
    have hNames := names_declsOf hOrder.perm.subset
    refine ⟨⟨hPerm, hNames, compute_again hCompute hPerm hNames⟩, ?_⟩
    have hSort := (layoutAll_of_compute hCompute).1
    rw [← sort_inheritance_iff hDistinct, hSort, Except.ok.injEq]

/-- Two records in front of the one that they extend: declared in the order of the registry, with
the base first, they are laid out alike and stand as declared. -/
theorem declared_order_kept_siblings :
    let base : RecordDecl := { name := "Base", fields := [{ name := "a", type := .bool }] }
    let left : RecordDecl :=
      { name := "Left", parent := "Base", fields := [{ name := "b", type := .i64 }] }
    let right : RecordDecl := { name := "Right", parent := "Base", fields := [] }
    ∃ registry, compute [right, left, base] = .ok registry ∧
      registry.names = ["Base", "Right", "Left"] ∧
      compute [base, right, left] = .ok registry ∧
      ¬ParentsFirst [right, left, base] ["Right", "Left", "Base"] := by
  intro base left right
  obtain ⟨registry, hCompute, hNames⟩ := @ok_of_any _ _ (compute [right, left, base])
    (fun registry => decide (registry.names = ["Base", "Right", "Left"])) (by decide +kernel)
  have hNames : registry.names = ["Base", "Right", "Left"] := of_decide_eq_true hNames
  obtain ⟨⟨-, -, hAgain⟩, hDeclared⟩ :=
    declared_order_kept.2 [right, left, base] registry hCompute
  rw [hNames] at hAgain hDeclared
  refine ⟨registry, hCompute, hNames, hAgain, fun hFirst => ?_⟩
  exact absurd (hDeclared.2 hFirst) (by decide)

end RecordWasm.Layout
