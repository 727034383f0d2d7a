import RecordWasm.Proofs.Graph.Building
import RecordWasm.Layout.Registry

/-!
# How records are ordered

The graph of inheritance has one node for each name of a record and one edge for each parent that is
named.  What sorting it answers is therefore told about the declarations alone: whether a parent is
missing, and whether some record is above itself.
-/

namespace RecordWasm.Layout

open Syntax

variable {decls : List RecordDecl}

/-- A declared record names a parent. -/
def NamesParent (decls : List RecordDecl) (child parent : String) : Prop :=
  ∃ decl ∈ decls, decl.name = child ∧ decl.parent = parent ∧ parent ≠ ""

/-- Two records have one name. -/
def Repeats (decls : List RecordDecl) : Prop := ¬(decls.map RecordDecl.name).Nodup

/-- A parent is named that is not declared. -/
def Orphaned (decls : List RecordDecl) : Prop :=
  ∃ child parent, NamesParent decls child parent ∧ parent ∉ decls.map RecordDecl.name

/-- A chain of parents comes back to where it starts. -/
def Cyclic (decls : List RecordDecl) : Prop :=
  ∃ name, Relation.TransGen (NamesParent decls) name name

/-- The names of all records, parents before children. -/
structure ParentsFirst (decls : List RecordDecl) (order : List String) : Prop where
  perm : order.Perm (decls.map RecordDecl.name)
  parent_mem : ∀ front name back, order = front ++ name :: back →
    ∀ parent, NamesParent decls name parent → parent ∈ front

theorem nodup_of_firstDuplicate? {seen : List String} (hSeen : seen.Nodup)
    (hNone : firstDuplicate? seen decls = none) : (decls.map RecordDecl.name ++ seen).Nodup := by
  induction decls generalizing seen with
  | nil => exact hSeen
  | cons first rest ih =>
      rw [firstDuplicate?] at hNone
      split at hNone
      · cases hNone
      · rename_i hNew
        exact List.perm_middle.nodup_iff.1 (ih (List.nodup_cons.2 ⟨hNew, hSeen⟩) hNone)

/-- The record that is reported is the first with the name of an earlier one. -/
theorem split_of_firstDuplicate? {seen : List String} {decl : RecordDecl} (hSeen : seen.Nodup)
    (hSome : firstDuplicate? seen decls = some decl) :
    ∃ front back, decls = front ++ decl :: back ∧ (front.map RecordDecl.name ++ seen).Nodup ∧
      decl.name ∈ front.map RecordDecl.name ++ seen := by
  induction decls generalizing seen with
  | nil => cases hSome
  | cons first rest ih =>
      rw [firstDuplicate?] at hSome
      split at hSome
      · rename_i hThere
        cases hSome
        exact ⟨[], rest, rfl, hSeen, hThere⟩
      · rename_i hNew
        obtain ⟨front, back, rfl, hDistinct, hName⟩ := ih (List.nodup_cons.2 ⟨hNew, hSeen⟩) hSome
        exact ⟨first :: front, back, rfl, List.perm_middle.nodup_iff.1 hDistinct,
          List.perm_middle.mem_iff.1 hName⟩

theorem firstDuplicate?_eq_none : firstDuplicate? [] decls = none ↔ ¬Repeats decls := by
  rw [Repeats, not_not]
  cases hDuplicate : firstDuplicate? [] decls with
  | none => exact iff_of_true rfl (by simpa using nodup_of_firstDuplicate? .nil hDuplicate)
  | some decl =>
      refine iff_of_false (by simp) fun hDistinct => ?_
      obtain ⟨front, back, rfl, -, hName⟩ := split_of_firstDuplicate? .nil hDuplicate
      rw [List.append_nil] at hName
      rw [List.map_append, List.map_cons, List.nodup_append] at hDistinct
      exact hDistinct.2.2 _ hName _ List.mem_cons_self rfl

/-- The steps in which the graph of inheritance is built: all nodes, then all edges. -/
def inheritanceOps (decls : List RecordDecl) : List Graph.Op :=
  decls.map (fun decl => .node decl.name) ++ decls.filterMap fun decl =>
    if decl.parent = "" then none else some (.dep decl.name decl.parent)

theorem inheritance_eq (decls : List RecordDecl) :
    inheritance decls = .ofOps (inheritanceOps decls) := by
  rw [inheritance, inheritanceOps, Graph.ofOps, List.foldl_append, List.foldl_map,
    List.foldl_filterMap]
  congr 1
  funext graph decl
  split <;> rfl

theorem nodup_inheritance (decls : List RecordDecl) : (inheritance decls).nodes.Nodup := by
  rw [inheritance_eq]
  exact Graph.nodup_ofOps _

theorem mem_inheritance {name : String} :
    name ∈ (inheritance decls).nodes ↔ name ∈ decls.map RecordDecl.name := by
  rw [inheritance_eq, Graph.mem_nodes_ofOps, List.mem_map]
  constructor
  · rintro ⟨op, hOp, rfl⟩
    rcases List.mem_append.1 hOp with hNode | hDep
    · obtain ⟨decl, hDecl, rfl⟩ := List.mem_map.1 hNode
      exact ⟨decl, hDecl, rfl⟩
    · obtain ⟨decl, hDecl, hSome⟩ := List.mem_filterMap.1 hDep
      split at hSome <;> cases hSome
      exact ⟨decl, hDecl, rfl⟩
  · rintro ⟨decl, hDecl, rfl⟩
    exact ⟨.node decl.name, List.mem_append_left _ (List.mem_map_of_mem hDecl), rfl⟩

theorem dependsOn_inheritance {child parent : String} :
    (inheritance decls).DependsOn child parent ↔ NamesParent decls child parent := by
  rw [inheritance_eq, Graph.dependsOn_ofOps, inheritanceOps, List.mem_append, List.mem_filterMap]
  constructor
  · rintro (hNode | ⟨decl, hDecl, hSome⟩)
    · obtain ⟨_, -, hNever⟩ := List.mem_map.1 hNode
      cases hNever
    · split at hSome
      · cases hSome
      · rename_i hParent
        cases hSome
        exact ⟨decl, hDecl, rfl, rfl, hParent⟩
  · rintro ⟨decl, hDecl, rfl, rfl, hParent⟩
    exact .inr ⟨decl, hDecl, if_neg hParent⟩

theorem dependsOn_eq (decls : List RecordDecl) :
    (inheritance decls).DependsOn = NamesParent decls := by
  funext child parent
  exact propext dependsOn_inheritance

theorem closed_inheritance : (inheritance decls).Closed ↔ ¬Orphaned decls := by
  simp only [Graph.Closed, dependsOn_inheritance, mem_inheritance, Orphaned, not_exists,
    not_and, not_not]

theorem acyclic_inheritance : (inheritance decls).Acyclic ↔ ¬Cyclic decls := by
  rw [Graph.Acyclic, dependsOn_eq, Cyclic, not_exists]

/-- What is sorted if no name is repeated has all records, parents first. -/
theorem parentsFirst_of_sort {order : List String} (hDistinct : ¬Repeats decls)
    (hSort : (inheritance decls).sort = .ok order) :
    ParentsFirst decls order ∧ ¬Orphaned decls ∧ ¬Cyclic decls := by
  have hAnswers := Graph.sort_answers (nodup_inheritance decls)
  rw [hSort] at hAnswers
  cases hAnswers with
  | order hClosed hAcyclic hPerm hFirst =>
      refine ⟨⟨hPerm.trans ?_, fun front name back hSplit parent hParent => ?_⟩,
        closed_inheritance.1 hClosed, acyclic_inheritance.1 hAcyclic⟩
      · exact (List.perm_ext_iff_of_nodup (nodup_inheritance decls) (not_not.1 hDistinct)).2
          fun _ => mem_inheritance
      · exact hFirst front name back hSplit parent (dependsOn_inheritance.2 hParent)

end RecordWasm.Layout
