import RecordWasm.Lowering.Env
import RecordWasm.Proofs.Layout.Ordering
import RecordWasm.Proofs.Layout.Placement

/-!
# What records inherit

Every record of a registry is laid out behind its parent, so its fields start with the fields of
each of its ancestors.  It follows that a field has the same stored form wherever it is looked up,
and that the declared type of a field is represented like its stored form.
-/

namespace RecordWasm.Layout

open Syntax

/-- The first declaration of a name. -/
def declOf? (decls : List RecordDecl) (name : String) : Option RecordDecl :=
  decls.find? fun decl => decl.name == name

theorem mem_declOf? {decls : List RecordDecl} {name : String} {decl : RecordDecl}
    (hDecl : declOf? decls name = some decl) :
    decl ∈ decls ∧ decl.name = name :=
  ⟨List.mem_of_find?_eq_some hDecl, by simpa using List.find?_some hDecl⟩

theorem declOf?_of_mem {decls : List RecordDecl} (hDistinct : ¬Repeats decls) {decl : RecordDecl}
    (hDecl : decl ∈ decls) :
    declOf? decls decl.name = some decl :=
  find?_of_mem (not_not.1 hDistinct) hDecl

theorem Registry.get?_append {front more : List Record} {name : String} {record : Record}
    (hGet : Registry.get? ⟨front⟩ name = some record) :
    Registry.get? ⟨front ++ more⟩ name = some record := by
  rw [Registry.get?] at hGet ⊢
  rw [List.find?_append, hGet]
  rfl

/-- Further records do not change what a record inherits. -/
theorem layoutOf_append {front more : List Record} {decl : RecordDecl} {record : Record}
    (hLayout : layoutOf ⟨front⟩ decl = .ok record) :
    layoutOf ⟨front ++ more⟩ decl = .ok record := by
  simp only [layoutOf, bind_ok, pure_ok] at hLayout ⊢
  obtain ⟨start, hInherit, hRest⟩ := hLayout
  refine ⟨start, ?_, hRest⟩
  rw [inheritedFields] at hInherit ⊢
  split at hInherit
  · rename_i hNone
    rw [if_pos hNone]
    exact hInherit
  · rename_i hSome
    rw [if_neg hSome]
    split at hInherit
    · cases hInherit
    · rename_i parent hParent
      rw [Registry.get?_append hParent]
      exact hInherit

/-- What the layout of a record says about its declaration. -/
structure Follows (registry : Registry) (decl : RecordDecl) (record : Record) : Prop where
  name : record.name = decl.name
  parent : record.parent = decl.parent
  inherits : decl.parent = "" ∨ ∃ parent, registry.get? decl.parent = some parent ∧
    parent.fields <+: record.fields
  fields : ∀ field ∈ decl.fields, ∃ placed ∈ record.fields, placed.name = field.name ∧
    FieldType.ofTy? field.type = some placed.type
  only : ∀ placed ∈ record.fields, (∃ field ∈ decl.fields, field.name = placed.name) ∨
    ∃ parent, registry.get? decl.parent = some parent ∧ placed ∈ parent.fields

theorem layoutOf_follows {registry : Registry} {decl : RecordDecl} {record : Record}
    (hKnown : ∀ record ∈ registry.layouts, Sound record)
    (hLayout : layoutOf registry decl = .ok record) : Follows registry decl record := by
  simp only [layoutOf, bind_ok, pure_ok] at hLayout
  obtain ⟨start, hInherit, placed, hPlace, rfl⟩ := hLayout
  obtain ⟨-, hPrefix, hFields, hOnly⟩ := (placing_inherited hKnown hInherit).placeFields hPlace
  rw [inheritedFields] at hInherit
  split at hInherit
  · rename_i hNone
    cases hInherit
    refine ⟨rfl, rfl, .inl hNone, hFields, fun placed hPlaced => ?_⟩
    exact (hOnly placed hPlaced).elim (fun hNever => by cases hNever) .inl
  · split at hInherit
    · cases hInherit
    · rename_i parent hParent
      cases hInherit
      refine ⟨rfl, rfl, .inr ⟨parent, hParent, hPrefix⟩, hFields, fun placed hPlaced => ?_⟩
      exact (hOnly placed hPlaced).elim (fun hOld => .inr ⟨parent, hParent, hOld⟩) .inl

/-- A registry in which every record is the layout of its declaration, given the records before
it. -/
structure Registry.Lays (registry : Registry) (decls : List RecordDecl) : Prop where
  sound : ∀ record ∈ registry.layouts, Sound record
  decl : ∀ front record back, registry.layouts = front ++ record :: back →
    ∃ decl, declOf? decls record.name = some decl ∧ layoutOf ⟨front⟩ decl = .ok record

/-- Every registry that is computed lays out its records. -/
theorem compute_lays {decls : List RecordDecl} {registry : Registry}
    (hCompute : compute decls = .ok registry) : registry.Lays decls := by
  rw [compute] at hCompute
  split at hCompute
  · cases hCompute
  · split at hCompute
    · cases hCompute
    · rw [layoutAll] at hCompute
      refine foldlM_ok (fun _ now => now.Lays decls) ⟨by simp, by simp⟩ ?_ hCompute
      rintro done name now next _ ⟨hSound, hDecl⟩ hStep
      split at hStep
      · cases hStep
        exact ⟨hSound, hDecl⟩
      · rename_i decl hFound
        simp only [bind_ok, pure_ok] at hStep
        obtain ⟨record, hLayout, rfl⟩ := hStep
        have hName : record.name = name := by
          rw [(layoutOf_follows hSound hLayout).name]
          simpa using List.find?_some hFound
        constructor
        · intro other hOther
          rcases List.mem_append.1 hOther with hOld | hNew
          · exact hSound other hOld
          · rw [List.mem_singleton.1 hNew]
            exact sound_layoutOf hSound hLayout
        · intro front other back hSplit
          rcases List.eq_nil_or_concat back with rfl | ⟨rest, last, rfl⟩
          · obtain ⟨rfl, hLast⟩ := List.append_inj' hSplit rfl
            cases hLast
            exact ⟨decl, hName ▸ hFound, hLayout⟩
          · rw [List.concat_eq_append, ← List.cons_append, ← List.append_assoc] at hSplit
            exact hDecl front other rest (List.append_inj' hSplit rfl).1

/-- Every record has a layout in a registry that is computed. -/
theorem compute_covers {decls : List RecordDecl} {registry : Registry} {decl : RecordDecl}
    (hCompute : compute decls = .ok registry) (hDecl : decl ∈ decls) :
    ∃ record, registry.get? decl.name = some record := by
  rw [compute] at hCompute
  split at hCompute
  · cases hCompute
  · rename_i hDistinct
    split at hCompute
    · cases hCompute
    · rename_i order hSort
      have hOrder := (parentsFirst_of_sort (firstDuplicate?_eq_none.1 hDistinct) hSort).1
      have hOrdered : decl.name ∈ order := hOrder.perm.mem_iff.2 (List.mem_map_of_mem hDecl)
      have hNamed (registry : Registry) (name : String) :
          name ∈ registry.names ↔ ∃ record, registry.get? name = some record := by
        rw [Registry.get?, ← Option.isSome_iff_exists, List.find?_isSome]
        simp [Registry.names]
      rw [layoutAll] at hCompute
      rw [← hNamed]
      refine foldlM_ok (fun done now => ∀ decl ∈ decls, decl.name ∈ done → decl.name ∈ now.names)
        (by simp) ?_ hCompute decl hDecl hOrdered
      intro done name before after _ hBefore hStep other hOther hDone
      rw [List.mem_append, List.mem_singleton] at hDone
      split at hStep
      · rename_i hNone
        cases hStep
        rcases hDone with hOld | hName
        · exact hBefore other hOther hOld
        · have hMiss := List.find?_eq_none.1 hNone other hOther
          simp [hName] at hMiss
      · rename_i found hFound
        simp only [layoutOf, bind_ok, pure_ok] at hStep
        obtain ⟨record, ⟨_, -, _, -, rfl⟩, rfl⟩ := hStep
        have hSame : found.name = name := by simpa using List.find?_some hFound
        rw [Registry.names, List.map_append, List.mem_append]
        rcases hDone with hOld | hName
        · exact .inl (hBefore other hOther hOld)
        · exact .inr (by simp [hName, hSame])

theorem Registry.name_of_get? {registry : Registry} {name : String} {record : Record}
    (hGet : registry.get? name = some record) : record.name = name := by
  simpa using List.find?_some hGet

namespace Registry.Lays

variable {registry : Registry} {decls : List RecordDecl} (hLays : registry.Lays decls)
include hLays

theorem sound_of_get? {name : String} {record : Record} (hGet : registry.get? name = some record) :
    Sound record :=
  hLays.sound record (List.mem_of_find?_eq_some hGet)

theorem follows {name : String} {record : Record} (hGet : registry.get? name = some record) :
    ∃ decl, declOf? decls name = some decl ∧ Follows registry decl record := by
  obtain ⟨front, back, hSplit⟩ := List.append_of_mem (List.mem_of_find?_eq_some hGet)
  obtain ⟨decl, hDecl, hLayout⟩ := hLays.decl front record back hSplit
  rw [Registry.name_of_get? hGet] at hDecl
  refine ⟨decl, hDecl, layoutOf_follows hLays.sound ?_⟩
  have hWhole : registry = ⟨front ++ record :: back⟩ := by rw [← hSplit]
  exact hWhole ▸ layoutOf_append hLayout

/-- The fields of a record start with those of each record on its chain. -/
theorem chain_prefix {count : Nat} {name ancestor : String} {record : Record}
    (hGet : registry.get? name = some record) (hAncestor : ancestor ∈ registry.chain count name) :
    ∃ found, registry.get? ancestor = some found ∧ found.fields <+: record.fields := by
  induction count generalizing name record with
  | zero => cases hAncestor
  | succ count ih =>
      rw [Registry.chain] at hAncestor
      split at hAncestor
      · cases hAncestor
      · rw [hGet] at hAncestor
        rcases List.mem_cons.1 hAncestor with rfl | hAbove
        · exact ⟨record, hGet, List.prefix_rfl⟩
        · obtain ⟨decl, -, hFollows⟩ := hLays.follows hGet
          rw [hFollows.parent] at hAbove
          rcases hFollows.inherits with hNone | ⟨parent, hParent, hPrefix⟩
          · -- A chain that has got to a record without parent ends there.
            rw [hNone] at hAbove
            cases count <;> simp [Registry.chain] at hAbove
          · obtain ⟨found, hFound, hBelow⟩ := ih hParent hAbove
            exact ⟨found, hFound, hBelow.trans hPrefix⟩

/-- The fields of a record start with those of its ancestors. -/
theorem ancestor_prefix {name ancestor : String} {record : Record}
    (hGet : registry.get? name = some record) (hAncestor : ancestor ∈ registry.ancestors name) :
    ∃ found, registry.get? ancestor = some found ∧ found.fields <+: record.fields :=
  hLays.chain_prefix hGet hAncestor

/-- Every field of a record is declared by some record on its chain, if the chain is as long as
there are records in front of it. -/
theorem chain_declares (hNames : ∀ decl ∈ decls, decl.name ≠ "") {count : Nat}
    {front back : List Record} {record : Record} {field : Field}
    (hSplit : registry.layouts = front ++ record :: back)
    (hGet : registry.get? record.name = some record) (hCount : front.length < count)
    (hField : field ∈ record.fields) :
    ∃ owner ∈ registry.chain count record.name, ∃ decl, declOf? decls owner = some decl ∧
      ∃ declared ∈ decl.fields, declared.name = field.name := by
  induction count generalizing front back record with
  | zero => omega
  | succ count ih =>
      obtain ⟨decl, hDecl, hLayout⟩ := hLays.decl front record back hSplit
      have hSound : ∀ other ∈ front, Sound other := fun other hOther =>
        hLays.sound other (by rw [hSplit]; exact List.mem_append_left _ hOther)
      have hFollows := layoutOf_follows hSound hLayout
      have hName : record.name ≠ "" :=
        hFollows.name ▸ hNames decl (List.mem_of_find?_eq_some hDecl)
      rw [Registry.chain, if_neg hName, hGet]
      rcases hFollows.only field hField with hOwn | ⟨parent, hParent, hInherited⟩
      · exact ⟨record.name, List.mem_cons_self, decl, hDecl, hOwn⟩
      · -- The parent stands in front of the record, so one step less suffices for it.
        obtain ⟨-, before, after, hFront, -⟩ := List.find?_eq_some_iff_append.1 hParent
        simp only at hFront
        have hParentName := Registry.name_of_get? hParent
        have hKnown : registry.get? parent.name = some parent := by
          rw [hParentName, ← @Registry.get?_append _ (record :: back) _ _ hParent, ← hSplit]
        obtain ⟨owner, hOwner, hRest⟩ := ih (hSplit.trans (by rw [hFront, List.append_assoc]; rfl))
          hKnown (by simp [hFront] at hCount; omega) hInherited
        refine ⟨owner, List.mem_cons_of_mem _ ?_, hRest⟩
        rw [hFollows.parent, ← hParentName]
        exact hOwner

end Registry.Lays

/-! ## Declared types -/

open Lowering

/-- A name stands for one field only. -/
theorem Sound.field_unique {record : Record} (hSound : Sound record) {left right : Field}
    (hLeft : left ∈ record.fields) (hRight : right ∈ record.fields)
    (hName : left.name = right.name) : left = right :=
  List.inj_on_of_nodup_map hSound.names hLeft hRight hName

theorem numType?_of_ofTy? {type : Ty} {stored : FieldType}
    (hStored : FieldType.ofTy? type = some stored) :
    numType? type = some stored.numType := by
  cases type <;> cases hStored <;> rfl

theorem numType?_storedType (stored : FieldType) :
    numType? (storedType stored) = some stored.numType := by
  cases stored <;> rfl

/-- If all records have names, the type of every field is known. -/
theorem isSome_fieldType? {env : Env} (hLays : env.registry.Lays env.records)
    (hNames : ∀ decl ∈ env.records, decl.name ≠ "") {name : String} {record : Record}
    (hGet : env.registry.get? name = some record) {field : Field} (hField : field ∈ record.fields) :
    (env.fieldType? name field.name).isSome := by
  have hName := Registry.name_of_get? hGet
  obtain ⟨-, front, back, hSplit, -⟩ := List.find?_eq_some_iff_append.1 hGet
  have hShort : front.length < env.registry.layouts.length + 1 := by
    rw [hSplit, List.length_append]
    omega
  obtain ⟨owner, hOwner, decl, hDecl, declared, hDeclared, hSame⟩ :=
    hLays.chain_declares hNames hSplit (hName.symm ▸ hGet) hShort hField
  rw [Env.fieldType?, List.findSome?_isSome_iff]
  refine ⟨owner, hName ▸ hOwner, ?_⟩
  rw [declOf?] at hDecl
  have hFind : (decl.fields.find? fun candidate => candidate.name == field.name).isSome :=
    List.find?_isSome.2 ⟨declared, hDeclared, by simpa using hSame⟩
  obtain ⟨found, hFound⟩ := Option.isSome_iff_exists.1 hFind
  simp only [hDecl, Option.bind_eq_bind, Option.bind_some, hFound]
  rfl

/-- Values of the declared type of a field are represented as the field is stored. -/
theorem numType?_typeOfField {env : Env} (hLays : env.registry.Lays env.records) {name : String}
    {record : Record} (hGet : env.registry.get? name = some record) {field : Field}
    (hField : field ∈ record.fields) :
    numType? (env.typeOfField name field) = some field.type.numType := by
  rw [Env.typeOfField]
  cases hType : env.fieldType? name field.name with
  | none => exact numType?_storedType field.type
  | some type =>
      rw [Env.fieldType?, List.findSome?_eq_some_iff] at hType
      obtain ⟨_, owner, _, hSplit, hOwner, -⟩ := hType
      have hAncestor : owner ∈ env.registry.ancestors name := by simp [hSplit]
      obtain ⟨found, hFound, hPrefix⟩ := hLays.ancestor_prefix hGet hAncestor
      obtain ⟨decl, hDecl, hFollows⟩ := hLays.follows hFound
      rw [declOf?] at hDecl
      simp only [hDecl, Option.bind_eq_bind, Option.bind_some, Option.bind_eq_some_iff] at hOwner
      obtain ⟨declared, hDeclared, hTypeOf⟩ := hOwner
      cases hTypeOf
      obtain ⟨placed, hPlaced, hName, hStored⟩ := hFollows.fields declared
        (List.mem_of_find?_eq_some hDeclared)
      have hSame : placed = field := by
        apply (hLays.sound_of_get? hGet).field_unique (hPrefix.subset hPlaced) hField
        rw [hName]
        simpa using List.find?_some hDeclared
      exact hSame ▸ numType?_of_ofTy? hStored

section Constructors

variable {env : Env} {name : String} {record : Record}

/-- A constructor takes the values of the fields as they are stored. -/
theorem params_constructorRef (hLays : env.registry.Lays env.records)
    (hGet : env.registry.get? name = some record) (index : UInt32) :
    (env.constructorRef record index).type.params =
      record.fields.map fun field => field.type.numType.valType := by
  have hEach : ∀ field ∈ record.fields,
      (numType? (env.typeOfField record.name field)).map Wasm.NumType.valType =
        some field.type.numType.valType := by
    intro field hField
    rw [Registry.name_of_get? hGet, numType?_typeOfField hLays hGet hField, Option.map_some]
  simp only [FuncRef.type, signature, Env.constructorRef, List.filterMap_map]
  exact (List.filterMap_congr hEach).trans (congrFun List.filterMap_eq_map' _)

/-- A constructor takes one value for each field. -/
theorem length_constructorRef (hLays : env.registry.Lays env.records)
    (hGet : env.registry.get? name = some record) (index : UInt32) :
    (env.constructorRef record index).type.params.length = record.fields.length := by
  rw [params_constructorRef hLays hGet, List.length_map]

end Constructors

end RecordWasm.Layout
