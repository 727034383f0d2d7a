import RecordWasm.Proofs.Layout.Faults

/-!
# Records may be declared in any order

What can keep records from being laid out is a matter of which records are declared, and the layout
of a record depends on the layout of its parent and on nothing else that was computed before it.  So
the order of the declarations decides the order of the registry, and never what is in it.
-/

namespace RecordWasm.Layout

open Syntax

variable {decls others : List RecordDecl}

section Failures

variable (hPerm : decls.Perm others)
include hPerm

theorem repeats_perm : Repeats decls ↔ Repeats others :=
  not_congr (hPerm.map RecordDecl.name).nodup_iff

theorem namesParent_perm : NamesParent decls = NamesParent others := by
  funext child parent
  simp only [NamesParent, hPerm.mem_iff]

theorem orphaned_perm : Orphaned decls ↔ Orphaned others := by
  simp only [Orphaned, namesParent_perm hPerm, (hPerm.map RecordDecl.name).mem_iff]

theorem cyclic_perm : Cyclic decls ↔ Cyclic others := by
  simp only [Cyclic, namesParent_perm hPerm]

theorem Inherits.perm {decl : RecordDecl} {inherited : List FieldDecl}
    (hInherits : Inherits decls decl inherited) : Inherits others decl inherited := by
  induction hInherits with
  | root hNone => exact .root hNone
  | child hSome hParent hName _ ih => exact .child hSome (hPerm.mem_iff.1 hParent) hName ih

theorem inherits_perm {decl : RecordDecl} {inherited : List FieldDecl} :
    Inherits decls decl inherited ↔ Inherits others decl inherited :=
  ⟨.perm hPerm, .perm hPerm.symm⟩

theorem compute_error_perm :
    (∃ cause, compute decls = .error cause) ↔ ∃ cause, compute others = .error cause := by
  simp only [compute_error_iff, repeats_perm hPerm, orphaned_perm hPerm, cyclic_perm hPerm,
    inherits_perm hPerm, hPerm.mem_iff]

end Failures

/-- The layout of a record depends on that of its parent alone. -/
theorem layoutOf_congr {left right : Registry} {decl : RecordDecl}
    (hParent : decl.parent = "" ∨ left.get? decl.parent = right.get? decl.parent) :
    layoutOf left decl = layoutOf right decl := by
  have hSame : inheritedFields left decl = inheritedFields right decl := by
    rw [inheritedFields, inheritedFields]
    split
    · rfl
    · rename_i hSome
      rw [hParent.resolve_left hSome]
  rw [layoutOf, layoutOf, hSame]

/-- A record is laid out only behind its parent. -/
theorem parent_of_layoutOf {registry : Registry} {decl : RecordDecl} {record : Record}
    (hLayout : layoutOf registry decl = .ok record) :
    decl.parent = "" ∨ ∃ parent, registry.get? decl.parent = some parent := by
  rw [layoutOf, bind_ok] at hLayout
  obtain ⟨start, hInherit, -⟩ := hLayout
  rw [inheritedFields] at hInherit
  split at hInherit
  · rename_i hNone
    exact .inl hNone
  · split at hInherit
    · cases hInherit
    · rename_i parent hGet
      exact .inr ⟨parent, hGet⟩

/-- A registry lays out each of its records from all the others. -/
theorem Registry.Lays.layoutOf {registry : Registry} (hLays : registry.Lays decls) {name : String}
    {record : Record} (hGet : registry.get? name = some record) :
    ∃ decl, declOf? decls name = some decl ∧ Layout.layoutOf registry decl = .ok record := by
  obtain ⟨front, back, hSplit⟩ := List.append_of_mem (List.mem_of_find?_eq_some hGet)
  obtain ⟨decl, hDecl, hLayout⟩ := hLays.decl front record back hSplit
  rw [Registry.name_of_get? hGet] at hDecl
  have hWhole : registry = ⟨front ++ record :: back⟩ := by rw [← hSplit]
  exact ⟨decl, hDecl, hWhole ▸ layoutOf_append hLayout⟩

/-- The records of one registry are in the other as well. -/
theorem get?_of_mem (hPerm : decls.Perm others) {left right : Registry}
    (hLeft : compute decls = .ok left) (hRight : compute others = .ok right) :
    ∀ record ∈ left.layouts, right.get? record.name = some record := by
  have hDistinct := (compute_ok hLeft).1
  refine (compute_lays hLeft).induction fun front decl record hFront hDecl hLayout => ?_
  obtain ⟨hMember, hName⟩ := mem_declOf? hDecl
  obtain ⟨other, hOther⟩ := compute_covers hRight (hPerm.mem_iff.1 hMember)
  rw [hName] at hOther
  obtain ⟨same, hSame, hOtherLayout⟩ := (compute_lays hRight).layoutOf hOther
  rw [declOf?, ← find?_perm (not_not.1 hDistinct) hPerm, ← declOf?, hDecl] at hSame
  cases hSame
  -- The parent stands in front of the record, so it is known to be the same.
  have hParent : decl.parent = "" ∨ Registry.get? ⟨front⟩ decl.parent = right.get? decl.parent := by
    refine (parent_of_layoutOf hLayout).imp_right ?_
    rintro ⟨parent, hGet⟩
    have hRight := hFront parent (List.mem_of_find?_eq_some hGet)
    rw [Registry.name_of_get? hGet] at hRight
    rw [hGet, hRight]
  rw [layoutOf_congr hParent, hOtherLayout] at hLayout
  cases hLayout
  exact (Registry.name_of_get? hOther).symm ▸ hOther

/-- What one registry gives for a name, the other gives as well. -/
theorem get?_of_perm (hPerm : decls.Perm others) {left right : Registry}
    (hLeft : compute decls = .ok left) (hRight : compute others = .ok right) {name : String}
    {record : Record} (hGet : left.get? name = some record) : right.get? name = some record := by
  have hSame := get?_of_mem hPerm hLeft hRight record (List.mem_of_find?_eq_some hGet)
  rwa [Registry.name_of_get? hGet] at hSame

/-- However the records are ordered, they are laid out or not, and then the registries have the same
records with the same layouts. -/
theorem compute_perm (hPerm : decls.Perm others) :
    ((∃ registry, compute decls = .ok registry) ↔ ∃ registry, compute others = .ok registry) ∧
    ∀ left right, compute decls = .ok left → compute others = .ok right →
      left.names.Perm right.names ∧ ∀ name, left.get? name = right.get? name := by
  constructor
  · have hError := compute_error_perm hPerm
    cases hLeft : compute decls <;> cases hRight : compute others <;> simp_all
  · intro left right hLeft hRight
    have hOrder := (compute_ok hLeft).2.2.2.1.perm
    have hOther := (compute_ok hRight).2.2.2.1.perm
    refine ⟨hOrder.trans ((hPerm.map _).trans hOther.symm), fun name => ?_⟩
    ext record
    exact ⟨get?_of_perm hPerm hLeft hRight, get?_of_perm hPerm.symm hRight hLeft⟩

/-- Two records that extend the same one, declared before it and in either order: the registries
list them in different orders, with the same layouts. -/
theorem compute_perm_siblings :
    let base : RecordDecl := { name := "Base", fields := [{ name := "a", type := .bool }] }
    let left : RecordDecl :=
      { name := "Left", parent := "Base", fields := [{ name := "b", type := .i64 }] }
    let right : RecordDecl := { name := "Right", parent := "Base", fields := [] }
    [left, right, base].Perm [right, base, left] ∧
    ∃ one other, compute [left, right, base] = .ok one ∧ compute [right, base, left] = .ok other ∧
      one.names = ["Base", "Left", "Right"] ∧ other.names = ["Base", "Right", "Left"] ∧
      ∀ name, one.get? name = other.get? name := by
  intro base left right
  have hPerm : [left, right, base].Perm [right, base, left] :=
    .trans (.swap right left [base]) (.cons right (.swap base left []))
  obtain ⟨one, hOne, hOneNames⟩ := @ok_of_any _ _ (compute [left, right, base])
    (fun registry => decide (registry.names = ["Base", "Left", "Right"])) (by decide +kernel)
  obtain ⟨other, hOther, hOtherNames⟩ := @ok_of_any _ _ (compute [right, base, left])
    (fun registry => decide (registry.names = ["Base", "Right", "Left"])) (by decide +kernel)
  exact ⟨hPerm, one, other, hOne, hOther, of_decide_eq_true hOneNames,
    of_decide_eq_true hOtherNames, ((compute_perm hPerm).2 one other hOne hOther).2⟩

end RecordWasm.Layout
