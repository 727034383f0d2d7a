import RecordWasm.Proofs.Layout.Packing

/-!
# When records cannot be laid out

Records are checked in stages: names, parents, cycles, and then the fields of each record, parents
first.  The outcome is told by the declarations alone: layout fails exactly if one of the stages has
something to find, and the failure tells of the first stage that has.  In the last stage it is the
first field at fault of the first record that has one.
-/

namespace RecordWasm.Layout

open Syntax

variable {decls : List RecordDecl} {decl : RecordDecl} {cause : LayoutError} {kind : Kind}

/-- The fields that a record inherits, those of its furthest ancestor first. -/
inductive Inherits (decls : List RecordDecl) : RecordDecl → List FieldDecl → Prop
  | root {decl : RecordDecl} : decl.parent = "" → Inherits decls decl []
  | child {decl parent : RecordDecl} {above : List FieldDecl} : decl.parent ≠ "" → parent ∈ decls →
      parent.name = decl.parent → Inherits decls parent above →
      Inherits decls decl (above ++ parent.fields)

/-- No name stands twice among inherited fields and a record's own, and all own fields can be
stored. -/
structure Faultless (inherited own : List FieldDecl) : Prop where
  distinct : ((inherited ++ own).map FieldDecl.name).Nodup
  stored : ∀ field ∈ own, field.type ≠ .void

/-- What is wrong with a field that stands behind others. -/
def fault? (before : List FieldDecl) (field : FieldDecl) : Option Kind :=
  if field.name ∈ before.map FieldDecl.name then some .duplicateField
  else if field.type = .void then some .unsupportedFieldType
  else none

/-- A field is the first one at fault among a record's own. -/
def FirstFault (inherited own : List FieldDecl) (field : FieldDecl) (kind : Kind) : Prop :=
  ∃ front back, own = front ++ field :: back ∧ Faultless inherited front ∧
    fault? (inherited ++ front) field = some kind

/-- The failures with which a field of a record is refused. -/
inductive Refuses (decl : RecordDecl) (field : FieldDecl) : LayoutError → Kind → Prop
  | inherited : Refuses decl field (.inheritedField decl field) .duplicateField
  | repeated : Refuses decl field (.duplicateField decl field) .duplicateField
  | unsupported : Refuses decl field (.unsupportedField decl field) .unsupportedFieldType

theorem ofTy?_eq_none {type : Ty} : FieldType.ofTy? type = none ↔ type = .void := by
  cases type <;> simp [FieldType.ofTy?]

theorem Faultless.nil {inherited : List FieldDecl}
    (hInherited : (inherited.map FieldDecl.name).Nodup) : Faultless inherited [] :=
  ⟨by simpa using hInherited, by simp⟩

theorem Faultless.add {inherited own : List FieldDecl} {field : FieldDecl}
    (hFaultless : Faultless inherited own) (hField : fault? (inherited ++ own) field = none) :
    Faultless inherited (own ++ [field]) := by
  rw [fault?] at hField
  split at hField
  · cases hField
  · rename_i hNew
    split at hField
    · cases hField
    · rename_i hStored
      refine ⟨?_, List.forall_mem_append.2 ⟨hFaultless.stored, by simpa using hStored⟩⟩
      rw [← List.append_assoc, List.map_append]
      exact hFaultless.distinct.append (by simp) (by simpa using hNew)

theorem not_faultless_iff {inherited own : List FieldDecl} : ¬Faultless inherited own ↔
    ¬((inherited ++ own).map FieldDecl.name).Nodup ∨ ∃ field ∈ own, field.type = .void := by
  constructor
  · intro hNot
    by_contra hNeither
    simp only [not_or, not_not, not_exists, not_and] at hNeither
    exact hNot ⟨hNeither.1, hNeither.2⟩
  · rintro (hTwice | ⟨field, hField, hVoid⟩) hFaultless
    · exact hTwice hFaultless.distinct
    · exact hFaultless.stored field hField hVoid

theorem FirstFault.not_faultless {inherited own : List FieldDecl} {field : FieldDecl}
    (hFirst : FirstFault inherited own field kind) : ¬Faultless inherited own := by
  obtain ⟨front, back, rfl, -, hField⟩ := hFirst
  rintro ⟨hDistinct, hStored⟩
  rw [fault?] at hField
  split at hField
  · rename_i hThere
    rw [← List.append_assoc, List.map_append, List.nodup_append] at hDistinct
    exact hDistinct.2.2 _ hThere _ List.mem_cons_self rfl
  · split at hField
    · rename_i hVoid
      exact hStored field (by simp) hVoid
    · cases hField

section Fields

variable {count : Nat} {start after : List Field × UInt32 × UInt32} {before own : List FieldDecl}

/-- Placing a field fails if something is wrong with it. -/
theorem placeField_fault (decl : RecordDecl) (count : Nat) (field : FieldDecl)
    (hNames : start.1.map Field.name = before.map FieldDecl.name) :
    match placeField decl count start field with
    | .ok after => fault? before field = none ∧
        after.1.map Field.name = (before ++ [field]).map FieldDecl.name
    | .error cause => ∃ kind, fault? before field = some kind ∧ Refuses decl field cause kind := by
  obtain ⟨fields, free, align⟩ := start
  have hFound : (fields.findIdx? fun earlier => earlier.name == field.name).isSome ↔
      field.name ∈ before.map FieldDecl.name := by
    rw [← hNames]
    simp
  rw [placeField, fault?]
  simp only
  cases hIndex : fields.findIdx? fun earlier => earlier.name == field.name with
  | some index =>
      rw [hIndex] at hFound
      rw [if_pos (hFound.1 rfl)]
      refine ⟨_, rfl, ?_⟩
      split
      · exact .inherited
      · exact .repeated
  | none =>
      rw [hIndex] at hFound
      rw [if_neg fun hThere => by cases hFound.2 hThere]
      cases hType : FieldType.ofTy? field.type with
      | none =>
          rw [if_pos (ofTy?_eq_none.1 hType)]
          exact ⟨_, rfl, .unsupported⟩
      | some type =>
          rw [if_neg fun hVoid => by rw [ofTy?_eq_none.2 hVoid] at hType; cases hType]
          exact ⟨rfl, by simpa using hNames⟩

/-- Fields that are placed are without fault. -/
theorem placeFields_faultless (hDistinct : (before.map FieldDecl.name).Nodup)
    (hNames : start.1.map Field.name = before.map FieldDecl.name)
    (hPlace : own.foldlM (placeField decl count) start = .ok after) :
    Faultless before own ∧ after.1.map Field.name = (before ++ own).map FieldDecl.name := by
  refine foldlM_ok (fun done now => Faultless before done ∧
    now.1.map Field.name = (before ++ done).map FieldDecl.name)
      ⟨.nil hDistinct, by simpa using hNames⟩ ?_ hPlace
  rintro done field now next - ⟨hDone, hNow⟩ hField
  have hFault := placeField_fault decl count field hNow
  rw [hField] at hFault
  exact ⟨hDone.add hFault.1, by rw [hFault.2, List.append_assoc]⟩

/-- Fields that cannot be placed have a first one at fault. -/
theorem placeFields_fault (hDistinct : (before.map FieldDecl.name).Nodup)
    (hNames : start.1.map Field.name = before.map FieldDecl.name)
    (hPlace : own.foldlM (placeField decl count) start = .error cause) :
    ∃ field kind, FirstFault before own field kind ∧ Refuses decl field cause kind := by
  obtain ⟨front, field, back, now, hOwn, hFront, hField⟩ := foldlM_error.1 hPlace
  obtain ⟨hFaultless, hNow⟩ := placeFields_faultless hDistinct hNames hFront
  have hFault := placeField_fault decl count field hNow
  rw [hField] at hFault
  obtain ⟨kind, hKind, hRefuses⟩ := hFault
  exact ⟨field, kind, ⟨front, back, hOwn, hFaultless, hKind⟩, hRefuses⟩

end Fields

/-- A record is laid out from a declaration whose fields are without fault. -/
def Described (decls : List RecordDecl) (record : Record) : Prop :=
  ∃ decl ∈ decls, decl.name = record.name ∧ ∃ inherited, Inherits decls decl inherited ∧
    Faultless inherited decl.fields ∧
      record.fields.map Field.name = (inherited ++ decl.fields).map FieldDecl.name

theorem Registry.mem_names_iff {registry : Registry} {name : String} :
    name ∈ registry.names ↔ ∃ record, registry.get? name = some record := by
  rw [Registry.get?, ← Option.isSome_iff_exists, List.find?_isSome]
  simp [Registry.names]

section Records

variable {registry : Registry} (hKnown : ∀ record ∈ registry.layouts, Described decls record)
  (hParent : decl.parent = "" ∨ decl.parent ∈ registry.names)
include hKnown hParent

/-- What a record starts with if its parent is registered. -/
theorem inheritedFields_ok : ∃ start inherited, inheritedFields registry decl = .ok start ∧
    Inherits decls decl inherited ∧ (inherited.map FieldDecl.name).Nodup ∧
      start.1.map Field.name = inherited.map FieldDecl.name := by
  by_cases hNone : decl.parent = ""
  · exact ⟨([], 0, 1), [], if_pos hNone, .root hNone, .nil, rfl⟩
  · obtain ⟨record, hGet⟩ := Registry.mem_names_iff.1 (hParent.resolve_left hNone)
    obtain ⟨parent, hDecl, hName, above, hAbove, hFaultless, hFields⟩ :=
      hKnown record (List.mem_of_find?_eq_some hGet)
    rw [Registry.name_of_get? hGet] at hName
    refine ⟨(record.fields, record.fieldsEnd, record.align), above ++ parent.fields, ?_,
      .child hNone hDecl hName hAbove, hFaultless.distinct, hFields⟩
    rw [inheritedFields, if_neg hNone, hGet]

/-- A record whose parent is registered is laid out, unless one of its fields is at fault. -/
theorem layoutOf_cases (hDecl : decl ∈ decls) :
    match layoutOf registry decl with
    | .ok record => record.name = decl.name ∧ Described decls record
    | .error cause => ∃ inherited field kind, Inherits decls decl inherited ∧
        FirstFault inherited decl.fields field kind ∧ Refuses decl field cause kind := by
  obtain ⟨start, inherited, hStart, hInherits, hDistinct, hNames⟩ :=
    inheritedFields_ok hKnown hParent
  cases hPlace : decl.fields.foldlM (placeField decl start.1.length) start with
  | error cause =>
      obtain ⟨field, kind, hFault⟩ := placeFields_fault hDistinct hNames hPlace
      simp only [layoutOf, hStart, hPlace, bind, Except.bind]
      exact ⟨inherited, field, kind, hInherits, hFault⟩
  | ok after =>
      obtain ⟨hFaultless, hFields⟩ := placeFields_faultless hDistinct hNames hPlace
      simp only [layoutOf, hStart, hPlace, bind, Except.bind, pure, Except.pure]
      exact ⟨trivial, decl, hDecl, rfl, inherited, hInherits, hFaultless, hFields⟩

end Records

/-! ## All records -/

section Orders

variable {order : List String} (hDistinct : ¬Repeats decls) (hOrder : ParentsFirst decls order)
include hDistinct hOrder

/-- Where a name stands in the order, its record is declared and its parent, if any, is done. -/
theorem declOf?_of_order {front back : List String} {name : String}
    (hSplit : order = front ++ name :: back) :
    ∃ decl ∈ decls, decl.name = name ∧ declOf? decls name = some decl ∧
      (decl.parent = "" ∨ decl.parent ∈ front) := by
  have hName : name ∈ decls.map RecordDecl.name := hOrder.perm.mem_iff.1 (by simp [hSplit])
  obtain ⟨decl, hDecl, rfl⟩ := List.mem_map.1 hName
  refine ⟨decl, hDecl, rfl, declOf?_of_mem hDistinct hDecl, or_iff_not_imp_left.2 fun hParent => ?_⟩
  exact hOrder.parent_mem front decl.name back hSplit decl.parent ⟨decl, hDecl, rfl, rfl, hParent⟩

/-- The records in front of some place in the order are laid out if none is at fault. -/
theorem layoutAll_described {front back : List String} (hSplit : order = front ++ back)
    {registry : Registry} (hLayout : layoutAll decls front = .ok registry) :
    registry.names = front ∧ ∀ record ∈ registry.layouts, Described decls record := by
  rw [layoutAll] at hLayout
  refine foldlM_split (fun done now => now.names = done ∧
    ∀ record ∈ now.layouts, Described decls record) ⟨rfl, by simp⟩ ?_ hLayout
  rintro done name rest now next rfl ⟨hNames, hKnown⟩ hStep
  rw [List.append_assoc] at hSplit
  obtain ⟨decl, hDecl, rfl, hFound, hParent⟩ := declOf?_of_order hDistinct hOrder hSplit
  rw [← declOf?, hFound] at hStep
  simp only [bind_ok, pure_ok] at hStep
  obtain ⟨record, hRecord, rfl⟩ := hStep
  have hCases := layoutOf_cases hKnown (hNames ▸ hParent) hDecl
  rw [hRecord] at hCases
  obtain ⟨hName, hDescribed⟩ := hCases
  refine ⟨?_, List.forall_mem_append.2 ⟨hKnown, by simpa using hDescribed⟩⟩
  rw [Registry.names, List.map_append, ← Registry.names, hNames, ← hName]
  rfl

/-- Where laying out fails, a field of the next record is the first one at fault. -/
theorem layoutAll_fault (hLayout : layoutAll decls order = .error cause) :
    ∃ front decl back registry inherited field kind, order = front ++ decl.name :: back ∧
      decl ∈ decls ∧ layoutAll decls front = .ok registry ∧ Inherits decls decl inherited ∧
        FirstFault inherited decl.fields field kind ∧ Refuses decl field cause kind := by
  rw [layoutAll] at hLayout
  obtain ⟨front, name, back, registry, hSplit, hFront, hStep⟩ := foldlM_error.1 hLayout
  obtain ⟨decl, hDecl, rfl, hFound, hParent⟩ := declOf?_of_order hDistinct hOrder hSplit
  obtain ⟨hNames, hKnown⟩ := layoutAll_described hDistinct hOrder hSplit hFront
  rw [← declOf?, hFound] at hStep
  have hCases := layoutOf_cases hKnown (hNames ▸ hParent) hDecl
  simp only at hStep
  cases hRecord : layoutOf registry decl with
  | ok record =>
      rw [hRecord] at hStep
      cases hStep
  | error early =>
      rw [hRecord] at hStep hCases
      cases hStep
      obtain ⟨inherited, field, kind, hInherits, hFault, hRefuses⟩ := hCases
      exact ⟨front, decl, back, registry, inherited, field, kind, hSplit, hDecl, hFront, hInherits,
        hFault, hRefuses⟩

end Orders

/-- What the failure to lay out records tells of them. -/
inductive Blames (decls : List RecordDecl) : LayoutError → Kind → Prop
  | repeated {front back : List RecordDecl} {decl : RecordDecl} : decls = front ++ decl :: back →
      (front.map RecordDecl.name).Nodup → decl.name ∈ front.map RecordDecl.name →
      Blames decls (.duplicateType decl) .duplicateType
  | orphaned {decl : RecordDecl} : ¬Repeats decls → decl ∈ decls → decl.parent ≠ "" →
      decl.parent ∉ decls.map RecordDecl.name → Blames decls (.unknownParent decl) .unknownParent
  | cyclic {decl : RecordDecl} {cycle : List String} : ¬Repeats decls → ¬Orphaned decls →
      decl ∈ decls → cycle.head? = some decl.name → (inheritance decls).IsCycle cycle →
      Blames decls (.cyclic decl cycle) .cyclicInheritance
  | faulty {order front back : List String} {decl : RecordDecl} {inherited : List FieldDecl}
      {field : FieldDecl} {cause : LayoutError} {kind : Kind} :
      ¬Repeats decls → ¬Orphaned decls → ¬Cyclic decls →
      (inheritance decls).sort = .ok order → ParentsFirst decls order →
      order = front ++ decl.name :: back → decl ∈ decls →
      (∀ earlier ∈ decls, earlier.name ∈ front →
        ∃ above, Inherits decls earlier above ∧ Faultless above earlier.fields) →
      Inherits decls decl inherited → FirstFault inherited decl.fields field kind →
      Refuses decl field cause kind → Blames decls cause kind

/-- A failure reports its kind. -/
def Reports (cause : LayoutError) (kind : Kind) : Prop :=
  ∃ report behind, cause.failure = .coded report behind ∧ report.phase = .layout ∧
    report.kind = kind

theorem Refuses.reports {field : FieldDecl} (hRefuses : Refuses decl field cause kind) :
    Reports cause kind := by
  cases hRefuses <;> exact ⟨_, _, rfl, rfl, rfl⟩

namespace Blames

theorem reports (hBlames : Blames decls cause kind) : Reports cause kind := by
  cases hBlames with
  | faulty _ _ _ _ _ _ _ _ _ _ hRefuses => exact hRefuses.reports
  | _ => exact ⟨_, _, rfl, rfl, rfl⟩

/-- No failure tells of a parent that is declared and not registered. -/
theorem ne_unregistered (hBlames : Blames decls cause kind) (decl : RecordDecl) :
    cause ≠ .unregisteredParent decl := by
  rintro rfl
  cases hBlames with
  | faulty _ _ _ _ _ _ _ _ _ _ hRefuses => cases hRefuses

/-- No failure tells of an order that cannot be found for reasons of its own. -/
theorem ne_unordered (hBlames : Blames decls cause kind) (early : Graph.SortError) :
    cause ≠ .unordered early := by
  rintro rfl
  cases hBlames with
  | faulty _ _ _ _ _ _ _ _ _ _ hRefuses => cases hRefuses

/-- No failure is of the kind for which no stage is at fault. -/
theorem isOf_invalidData (hBlames : Blames decls cause kind) :
    cause.failure.isOf .layout .invalidData = false := by
  cases hBlames with
  | faulty _ _ _ _ _ _ _ _ _ _ hRefuses => cases hRefuses <;> rfl
  | _ => rfl

/-- A failure is told of by the first stage that finds something. -/
theorem stage (hBlames : Blames decls cause kind) :
    Repeats decls ∧ kind = .duplicateType ∨
    ¬Repeats decls ∧ Orphaned decls ∧ kind = .unknownParent ∨
    ¬Repeats decls ∧ ¬Orphaned decls ∧ Cyclic decls ∧ kind = .cyclicInheritance ∨
    ¬Repeats decls ∧ ¬Orphaned decls ∧ ¬Cyclic decls ∧
      (∃ decl ∈ decls, ∃ inherited, Inherits decls decl inherited ∧
        ¬Faultless inherited decl.fields) ∧
      (kind = .duplicateField ∨ kind = .unsupportedFieldType) := by
  cases hBlames with
  | repeated hSplit _ hName =>
      refine .inl ⟨?_, rfl⟩
      rw [Repeats, hSplit, List.map_append, List.map_cons, List.nodup_append]
      exact fun hDistinct => hDistinct.2.2 _ hName _ List.mem_cons_self rfl
  | @orphaned decl hDistinct hDecl hParent hUnknown =>
      exact .inr <| .inl ⟨hDistinct, ⟨_, _, ⟨decl, hDecl, rfl, rfl, hParent⟩, hUnknown⟩, rfl⟩
  | cyclic hDistinct hClosed _ _ hCycle =>
      have hCyclic : Cyclic decls := not_not.1 fun hNot =>
        hCycle.not_acyclic (acyclic_inheritance.2 hNot)
      exact .inr <| .inr <| .inl ⟨hDistinct, hClosed, hCyclic, rfl⟩
  | faulty hDistinct hClosed hAcyclic _ _ _ hDecl _ hInherits hFault hRefuses =>
      refine .inr <| .inr <| .inr
        ⟨hDistinct, hClosed, hAcyclic, ⟨_, hDecl, _, hInherits, hFault.not_faultless⟩, ?_⟩
      cases hRefuses <;> simp

end Blames

/-- With distinct names a record inherits the same fields whichever way they are told. -/
theorem Inherits.unique (hDistinct : ¬Repeats decls) {left right : List FieldDecl}
    (hLeft : Inherits decls decl left) (hRight : Inherits decls decl right) : left = right := by
  induction hLeft generalizing right with
  | root hNone =>
      cases hRight with
      | root => rfl
      | child hSome => exact absurd hNone hSome
  | child hSome hParent hName _ ih =>
      cases hRight with
      | root hNone => exact absurd hNone hSome
      | child _ hOther hSame hAbove =>
          obtain rfl :=
            List.inj_on_of_nodup_map (not_not.1 hDistinct) hParent hOther (hName.trans hSame.symm)
          rw [ih hAbove]

/-- Every declaration that is laid out is without fault. -/
theorem faultless_of_described (hDistinct : ¬Repeats decls) {registry : Registry}
    (hKnown : ∀ record ∈ registry.layouts, Described decls record) (hDecl : decl ∈ decls)
    (hName : decl.name ∈ registry.names) :
    ∃ inherited, Inherits decls decl inherited ∧ Faultless inherited decl.fields := by
  obtain ⟨record, hRecord, hSame⟩ := List.mem_map.1 hName
  obtain ⟨other, hOther, hOtherName, inherited, hInherits, hFaultless, -⟩ := hKnown record hRecord
  obtain rfl := List.inj_on_of_nodup_map (not_not.1 hDistinct) hOther hDecl (hOtherName.trans hSame)
  exact ⟨inherited, hInherits, hFaultless⟩

/-- A registry is computed only of records in which no stage finds anything. -/
theorem compute_ok {registry : Registry} (hCompute : compute decls = .ok registry) :
    ¬Repeats decls ∧ ¬Orphaned decls ∧ ¬Cyclic decls ∧ ParentsFirst decls registry.names ∧
      ∀ record ∈ registry.layouts, Described decls record := by
  rw [compute] at hCompute
  split at hCompute
  · cases hCompute
  · rename_i hDuplicate
    have hDistinct := firstDuplicate?_eq_none.1 hDuplicate
    split at hCompute
    · cases hCompute
    · rename_i order hSort
      obtain ⟨hOrder, hClosed, hAcyclic⟩ := parentsFirst_of_sort hDistinct hSort
      obtain ⟨rfl, hKnown⟩ := layoutAll_described hDistinct hOrder (List.append_nil _).symm hCompute
      exact ⟨hDistinct, hClosed, hAcyclic, hOrder, hKnown⟩

/-- Every failure tells of what the first stage finds that finds something. -/
theorem compute_blames (hCompute : compute decls = .error cause) :
    ∃ kind, Blames decls cause kind := by
  rw [compute] at hCompute
  split at hCompute
  · rename_i decl hDuplicate
    cases hCompute
    obtain ⟨front, back, hSplit, hFront, hName⟩ := split_of_firstDuplicate? .nil hDuplicate
    rw [List.append_nil] at hFront hName
    exact ⟨_, .repeated hSplit hFront hName⟩
  · rename_i hDuplicate
    have hDistinct := firstDuplicate?_eq_none.1 hDuplicate
    have hAnswers := Graph.sort_answers (nodup_inheritance decls)
    split at hCompute
    · rename_i early hSort
      cases hCompute
      rw [hSort] at hAnswers
      -- The record that is told of is the declaration of the name that was sorted.
      cases hAnswers with
      | missing hDep hUnknown =>
          obtain ⟨decl, hDecl, rfl, rfl, hParent⟩ := dependsOn_inheritance.1 hDep
          have hFound : (decls.find? fun other => other.name == decl.name) = some decl :=
            declOf?_of_mem hDistinct hDecl
          rw [mem_inheritance] at hUnknown
          simp only [orderError, hFound, Option.getD_some]
          exact ⟨_, .orphaned hDistinct hDecl hParent hUnknown⟩
      | cycle hClosed _ hCycle =>
          obtain ⟨first, next, rest, rfl, hDep⟩ := hCycle.first
          obtain ⟨decl, hDecl, rfl, -, -⟩ := dependsOn_inheritance.1 hDep
          have hFound : (decls.find? fun other => other.name == decl.name) = some decl :=
            declOf?_of_mem hDistinct hDecl
          simp only [orderError, List.headD_cons, hFound, Option.getD_some]
          exact ⟨_, .cyclic hDistinct (closed_inheritance.1 hClosed) hDecl rfl hCycle⟩
    · rename_i order hSort
      obtain ⟨hOrder, hClosed, hAcyclic⟩ := parentsFirst_of_sort hDistinct hSort
      obtain ⟨front, decl, back, registry, inherited, field, kind, hSplit, hDecl, hFront, hInherits,
        hFault, hRefuses⟩ := layoutAll_fault hDistinct hOrder hCompute
      obtain ⟨rfl, hKnown⟩ := layoutAll_described hDistinct hOrder hSplit hFront
      exact ⟨kind, .faulty hDistinct hClosed hAcyclic hSort hOrder hSplit hDecl
        (fun earlier hEarlier hName => faultless_of_described hDistinct hKnown hEarlier hName)
        hInherits hFault hRefuses⟩

/-- Laying out records fails exactly if some stage finds something. -/
theorem compute_error_iff (decls : List RecordDecl) :
    (∃ cause, compute decls = .error cause) ↔
      Repeats decls ∨ Orphaned decls ∨ Cyclic decls ∨
      (∃ decl ∈ decls, ∃ inherited, Inherits decls decl inherited ∧
        ¬((inherited ++ decl.fields).map FieldDecl.name).Nodup) ∨
      ∃ decl ∈ decls, ∃ field ∈ decl.fields, field.type = .void := by
  cases hCompute : compute decls with
  | error cause =>
      refine iff_of_true ⟨cause, rfl⟩ ?_
      obtain ⟨kind, hBlames⟩ := compute_blames hCompute
      rcases hBlames.stage with ⟨hRepeats, -⟩ | ⟨-, hOrphaned, -⟩ | ⟨-, -, hCyclic, -⟩ |
        ⟨-, -, -, ⟨decl, hDecl, inherited, hInherits, hFault⟩, -⟩
      · exact .inl hRepeats
      · exact .inr <| .inl hOrphaned
      · exact .inr <| .inr <| .inl hCyclic
      · rcases not_faultless_iff.1 hFault with hTwice | ⟨field, hField, hVoid⟩
        · exact .inr <| .inr <| .inr <| .inl ⟨decl, hDecl, inherited, hInherits, hTwice⟩
        · exact .inr <| .inr <| .inr <| .inr ⟨decl, hDecl, field, hField, hVoid⟩
  | ok registry =>
      obtain ⟨hDistinct, hClosed, hAcyclic, hOrder, hKnown⟩ := compute_ok hCompute
      have hFaultless {decl : RecordDecl} (hDecl : decl ∈ decls) :=
        faultless_of_described hDistinct hKnown hDecl
          (hOrder.perm.mem_iff.2 (List.mem_map_of_mem hDecl))
      refine iff_of_false (by simp) ?_
      rintro (hRepeats | hOrphaned | hCyclic | ⟨decl, hDecl, inherited, hInherits, hTwice⟩ |
        ⟨decl, hDecl, field, hField, hVoid⟩)
      · exact hDistinct hRepeats
      · exact hClosed hOrphaned
      · exact hAcyclic hCyclic
      · obtain ⟨_, hSame, hFine⟩ := hFaultless hDecl
        exact hTwice (hInherits.unique hDistinct hSame ▸ hFine.distinct)
      · obtain ⟨_, -, hFine⟩ := hFaultless hDecl
        exact hFine.stored field hField hVoid

/-- Laying out records fails if and only if a name is repeated, a parent is missing, a chain of
parents comes back, a field name stands twice among inherited and own fields, or a field cannot be
stored.  What is reported is of the first of these stages that finds something, and in the last
stage the first field at fault of the first record that has one, parents first.  The reports for an
order that is not found for any other reason and for a parent that is not laid out in time are never
made. -/
theorem compute_fails_iff (decls : List RecordDecl) :
    ((∃ cause, compute decls = .error cause) ↔
      Repeats decls ∨ Orphaned decls ∨ Cyclic decls ∨
      (∃ decl ∈ decls, ∃ inherited, Inherits decls decl inherited ∧
        ¬((inherited ++ decl.fields).map FieldDecl.name).Nodup) ∨
      ∃ decl ∈ decls, ∃ field ∈ decl.fields, field.type = .void) ∧
    ∀ cause, compute decls = .error cause →
      (∃ kind, Blames decls cause kind ∧ Reports cause kind ∧
        (Repeats decls → kind = .duplicateType) ∧
        (¬Repeats decls → Orphaned decls → kind = .unknownParent) ∧
        (¬Repeats decls → ¬Orphaned decls → Cyclic decls → kind = .cyclicInheritance) ∧
        (¬Repeats decls → ¬Orphaned decls → ¬Cyclic decls →
          kind = .duplicateField ∨ kind = .unsupportedFieldType)) ∧
      cause.failure.isOf .layout .invalidData = false ∧ (∀ early, cause ≠ .unordered early) ∧
      ∀ decl, cause ≠ .unregisteredParent decl := by
  refine ⟨compute_error_iff decls, fun cause hCompute => ?_⟩
  obtain ⟨kind, hBlames⟩ := compute_blames hCompute
  have hStage := hBlames.stage
  exact ⟨⟨kind, hBlames, hBlames.reports, by tauto, by tauto, by tauto, by tauto⟩,
    hBlames.isOf_invalidData, hBlames.ne_unordered, hBlames.ne_unregistered⟩

/-- A cycle is found before the fields of its records are looked at. -/
example :
    (match compute [{ name := "A", parent := "B", fields := [{ name := "x", type := .void }] },
      { name := "B", parent := "A", fields := [] }] with
    | .error (.cyclic first names) => first.name == "A" && names == ["A", "B", "A"]
    | _ => false) = true := by
  decide

end RecordWasm.Layout
