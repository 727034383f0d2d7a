import RecordWasm.Proofs.Compile.Declarations
import RecordWasm.Proofs.Layout.Chains

/-!
# Declared types of fields

What a record inherits is found out twice: its layout copies the fields of its parent, and the type
of a field is looked for on the chain of parents when it is needed.  The two agree, because a field
that has a place in a layout is declared by exactly one record on the chain.
-/

namespace RecordWasm.Layout

open Syntax Lowering Compile

variable {decls : List RecordDecl} {name owner field : String} {type : Ty}

/-- A record declares a field with a type. -/
def Declares (decls : List RecordDecl) (owner field : String) (type : Ty) : Prop :=
  ∃ decl ∈ decls, decl.name = owner ∧ ∃ declared ∈ decl.fields, declared.name = field ∧
    declared.type = type

/-- Of some records, one alone declares a field, with this type. -/
structure Declarer (decls : List RecordDecl) (owners : List String) (field owner : String)
    (type : Ty) :
    Prop where
  mem : owner ∈ owners
  declares : Declares decls owner field type
  only : ∀ other ∈ owners, ∀ found, Declares decls other field found → other = owner ∧ found = type

section Stores

variable {declared : List FieldDecl} {fields : List Field}
variable (hStores : List.Forall₂ Stores declared fields)
include hStores

theorem names_of_stores : declared.map FieldDecl.name = fields.map Field.name := by
  induction hStores with
  | nil => rfl
  | cons hFirst _ ih => rw [List.map_cons, List.map_cons, hFirst.1, ih]

theorem exists_stored {own : FieldDecl} (hOwn : own ∈ declared) :
    ∃ placed ∈ fields, Stores own placed := by
  obtain ⟨place, hPlace, rfl⟩ := List.getElem_of_mem hOwn
  have hOther : place < fields.length := hStores.length_eq ▸ hPlace
  exact ⟨fields[place], List.getElem_mem hOther, hStores.get hPlace hOther⟩

theorem exists_declared {placed : Field} (hPlaced : placed ∈ fields) :
    ∃ own ∈ declared, Stores own placed := by
  obtain ⟨place, hPlace, rfl⟩ := List.getElem_of_mem hPlaced
  have hOther : place < declared.length := hStores.length_eq.symm ▸ hPlace
  exact ⟨declared[place], List.getElem_mem hOther, hStores.get hOther hPlace⟩

end Stores

namespace Registry.Lays

variable {registry : Registry} {record : Record} (hLays : registry.Lays decls)
  (hRecord : record ∈ registry.layouts)
include hLays hRecord

/-- The fields that a layout has of its own have names of their own. -/
theorem nodup_own : (record.ownFields.map Field.name).Nodup :=
  (hLays.sound record hRecord).names.sublist ((List.drop_sublist _ _).map _)

/-- A field that a layout has of its own is declared by the record. -/
theorem declares_own {placed : Field} (hPlaced : placed ∈ record.ownFields) :
    ∃ type, Declares decls record.name placed.name type ∧
      FieldType.ofTy? type = some placed.type := by
  obtain ⟨decl, hDecl, hDerived⟩ := hLays.derived hRecord
  obtain ⟨hMember, hName⟩ := mem_declOf? hDecl
  obtain ⟨own, hOwn, hSame, hStored⟩ := exists_declared hDerived.own hPlaced
  exact ⟨own.type, ⟨decl, hMember, hName, own, hOwn, hSame.symm, rfl⟩, hStored⟩

variable (hDistinct : ¬Repeats decls)
include hDistinct

/-- A field that a record declares has a place of its own in the layout, and one type. -/
theorem own_of_declares (hDeclares : Declares decls record.name field type) :
    (∃ placed ∈ record.ownFields, placed.name = field ∧ FieldType.ofTy? type = some placed.type) ∧
      ∀ other, Declares decls record.name field other → other = type := by
  obtain ⟨decl, hDecl, hDerived⟩ := hLays.derived hRecord
  have hOnly {found : RecordDecl} (hFound : found ∈ decls) (hName : found.name = record.name) :
      found = decl := by
    have hSame := declOf?_of_mem hDistinct hFound
    rw [hName, hDecl] at hSame
    exact (Option.some.inj hSame).symm
  obtain ⟨found, hFound, hName, own, hOwn, rfl, rfl⟩ := hDeclares
  obtain rfl := hOnly hFound hName
  refine ⟨?_, ?_⟩
  · obtain ⟨placed, hPlaced, hSame, hStored⟩ := exists_stored hDerived.own hOwn
    exact ⟨placed, hPlaced, hSame, hStored⟩
  · rintro _ ⟨other, hOther, hOtherName, again, hAgain, hSame, rfl⟩
    obtain rfl := hOnly hOther hOtherName
    have hNames := hLays.nodup_own hRecord
    rw [← names_of_stores hDerived.own] at hNames
    rw [List.inj_on_of_nodup_map hNames hAgain hOwn hSame]

/-- A field of its own that no ancestor declares is declared by the record alone. -/
theorem declarer_own {chain : List String} {placed : Field} (hPlaced : placed ∈ record.ownFields)
    (hAbsent : ∀ other ∈ chain, ∀ found, ¬Declares decls other placed.name found) :
    ∃ type, Declarer decls (record.name :: chain) placed.name record.name type ∧
      FieldType.ofTy? type = some placed.type := by
  obtain ⟨type, hDeclares, hStored⟩ := hLays.declares_own hRecord hPlaced
  have hOnly := (hLays.own_of_declares hRecord hDistinct hDeclares).2
  refine ⟨type, ⟨List.mem_cons_self, hDeclares, List.forall_mem_cons.2 ⟨?_, ?_⟩⟩, hStored⟩
  · exact fun other hOther => ⟨rfl, hOnly other hOther⟩
  · exact fun other hOther found hFound => absurd hFound (hAbsent other hOther found)

end Registry.Lays

/-- What one of the ancestors alone declares is still declared by it alone below, unless a
descendant declares it too. -/
theorem Declarer.cons {chain : List String} (hDeclarer : Declarer decls chain field owner type)
    (hAbsent : ∀ found, ¬Declares decls name field found) :
    Declarer decls (name :: chain) field owner type where
  mem := List.mem_cons_of_mem _ hDeclarer.mem
  declares := hDeclarer.declares
  only := List.forall_mem_cons.2
    ⟨fun found hFound => absurd hFound (hAbsent found), hDeclarer.only⟩

section Chains

variable {registry : Registry} {record : Record} {placed : Field} (hLays : registry.Lays decls)
  (hDistinct : ¬Repeats decls) (hSorted : registry.Sorted)
include hLays hDistinct hSorted

/-- What an ancestor declares has a place in the layout. -/
theorem place_of_declares (hRecord : record ∈ registry.layouts)
    (hOwner : owner ∈ registry.ancestors record.name)
    (hDeclares : Declares decls owner field type) :
    ∃ placed ∈ record.fields, placed.name = field := by
  obtain ⟨found, hFound, hPrefix⟩ := hLays.ancestor_prefix (hSorted.get?_of_mem hRecord) hOwner
  obtain ⟨hMember, rfl⟩ := (Registry.get?_iff hSorted.distinct).1 hFound
  obtain ⟨⟨placed, hPlaced, hName, -⟩, -⟩ := hLays.own_of_declares hMember hDistinct hDeclares
  exact ⟨placed, hPrefix.subset (List.mem_of_mem_drop hPlaced), hName⟩

/-- Every field of a layout is declared by one record on the chain alone. -/
theorem exists_declarer {chain : List String} (hClimbs : registry.Climbs name chain)
    (hGet : registry.get? name = some record) (hPlaced : placed ∈ record.fields) :
    ∃ owner type, Declarer decls chain placed.name owner type ∧
      FieldType.ofTy? type = some placed.type := by
  induction hClimbs generalizing record with
  | top => exact absurd (Registry.mem_names_iff.2 ⟨record, hGet⟩) hSorted.named
  | unknown _ hNone => cases hNone.symm.trans hGet
  | @next name found chain _ hFound hAbove ih =>
      obtain rfl := Option.some.inj (hGet.symm.trans hFound)
      obtain ⟨hRecord, rfl⟩ := (Registry.get?_iff hSorted.distinct).1 hGet
      obtain ⟨decl, -, hDerived⟩ := hLays.derived hRecord
      rcases hDerived.fields with ⟨hNone, hFields⟩ | ⟨hSome, parent, hParent, hFields⟩
      · rw [hDerived.parent, hNone] at hAbove
        obtain rfl := hAbove.unique .top
        exact ⟨record.name, hLays.declarer_own hRecord hDistinct (hFields ▸ hPlaced) (by simp)⟩
      · rw [← hDerived.parent] at hParent
        obtain ⟨hMember, hName⟩ := (Registry.get?_iff hSorted.distinct).1 hParent
        -- No field of the parent has the name of a field of the record's own.
        have hNames := (hLays.sound record hRecord).names
        rw [hFields, List.map_append, List.nodup_append] at hNames
        have hApart {above own : Field} (hAbove : above ∈ parent.fields)
            (hOwn : own ∈ record.ownFields) : above.name ≠ own.name :=
          hNames.2.2 _ (List.mem_map_of_mem hAbove) _ (List.mem_map_of_mem hOwn)
        rw [hFields, List.mem_append] at hPlaced
        rcases hPlaced with hInherited | hPlaced
        · obtain ⟨owner, type, hDeclarer, hStored⟩ := ih hParent hInherited
          refine ⟨owner, type, hDeclarer.cons fun found hFound => ?_, hStored⟩
          obtain ⟨⟨own, hOwn, hSame, -⟩, -⟩ := hLays.own_of_declares hRecord hDistinct hFound
          exact hApart hInherited hOwn hSame.symm
        · refine ⟨record.name, hLays.declarer_own hRecord hDistinct hPlaced ?_⟩
          intro other hOther found hFound
          have hClimbs := hSorted.climbs_ancestors (.inr (List.mem_map_of_mem hMember))
          rw [← hName] at hAbove
          rw [hAbove.unique hClimbs] at hOther
          obtain ⟨above, hThere, hSame⟩ :=
            place_of_declares hLays hDistinct hSorted hMember hOther hFound
          exact hApart hThere hPlaced hSame

end Chains

/-! ## The type of a field -/

/-- What is found on a chain of records is declared there. -/
theorem declares_of_fieldType? {env : Env} (hType : env.fieldType? name field = some type) :
    ∃ owner ∈ env.registry.ancestors name, Declares env.records owner field type := by
  rw [Env.fieldType?, List.findSome?_eq_some_iff] at hType
  obtain ⟨nearer, owner, further, hChain, hOwner, -⟩ := hType
  simp only [Option.bind_eq_bind, Option.bind_eq_some_iff] at hOwner
  obtain ⟨decl, hDecl, declared, hDeclared, hSame⟩ := hOwner
  refine ⟨owner, by simp [hChain], decl, List.mem_of_find?_eq_some hDecl, ?_, declared,
    List.mem_of_find?_eq_some hDeclared, ?_, Option.some.inj hSame⟩
  · simpa using List.find?_some hDecl
  · simpa using List.find?_some hDeclared

section Environment

variable {program : Program} {registry : Registry} {heap : Heap.Handle} {env : Env}
  (hCompute : compute program.records = .ok registry)
  (hNames : ∀ decl ∈ program.records, decl.name ≠ "")
  (hSame : SameRecords env (.ofProgram program registry heap))

include hSame in
/-- A type that is found is that of a declaration on the chain. -/
theorem declares_on_chain (hType : env.fieldType? name field = some type) :
    ∃ owner ∈ registry.ancestors name, Declares program.records owner field type := by
  have hRegistry : env.registry = registry := hSame.registry
  have hRecords : env.records = program.records := hSame.records
  rw [← hRegistry, ← hRecords]
  exact declares_of_fieldType? hType

include hCompute hNames hSame

/-- The type that is found for a field of a layout is the one it is declared with. -/
theorem fieldType?_of_field? {record : Record} {placed : Field}
    (hGet : registry.get? name = some record) (hField : record.field? field = some placed) :
    ∃ owner type, Declarer program.records (registry.ancestors name) field owner type ∧
      env.fieldType? name field = some type ∧ FieldType.ofTy? type = some placed.type := by
  have hSorted := Registry.sorted_of_compute hCompute hNames
  have hLays := compute_lays hCompute
  have hRecords : env.records = program.records := hSame.records
  have hRegistry : env.registry = registry := hSame.registry
  obtain rfl : placed.name = field := by simpa using List.find?_some hField
  have hPlaced := List.mem_of_find?_eq_some hField
  have hName : name ∈ registry.names := Registry.mem_names_iff.2 ⟨record, hGet⟩
  obtain ⟨owner, type, hDeclarer, hStored⟩ := exists_declarer hLays (compute_ok hCompute).1 hSorted
    (hSorted.climbs_ancestors (.inr hName)) hGet hPlaced
  obtain ⟨known, hKnown⟩ := Option.isSome_iff_exists.1 <| isSome_fieldType?
    (hRegistry ▸ hRecords ▸ hLays : env.registry.Lays env.records) (hRecords ▸ hNames)
    (hRegistry ▸ hGet) hPlaced
  obtain ⟨other, hOther, hDeclares⟩ := declares_on_chain hSame hKnown
  obtain ⟨-, rfl⟩ := hDeclarer.only other hOther known hDeclares
  exact ⟨owner, known, hDeclarer, hKnown, hStored⟩

/-- A type is found only for a field of the layout. -/
theorem field?_of_fieldType? (hType : env.fieldType? name field = some type) :
    ∃ record, registry.get? name = some record ∧ (record.field? field).isSome = true := by
  have hSorted := Registry.sorted_of_compute hCompute hNames
  obtain ⟨owner, hOwner, hDeclares⟩ := declares_on_chain hSame hType
  obtain ⟨record, hRecord, rfl⟩ := List.mem_map.1 (Registry.mem_of_mem_ancestors hOwner)
  obtain ⟨placed, hPlaced, hSameName⟩ := place_of_declares (compute_lays hCompute)
    (compute_ok hCompute).1 hSorted hRecord hOwner hDeclares
  refine ⟨record, hSorted.get?_of_mem hRecord, List.find?_isSome.2 ⟨placed, hPlaced, ?_⟩⟩
  simpa using hSameName

end Environment

/-- In the environment of a program whose records have names, whatever functions have been
registered there, the type of a field is known if and only if the layout has the field.  It is the
type that one record on the chain alone declares the field with, it is stored as the layout says and
represented by the same value, and no type is ever made up from the stored form. -/
theorem field_types_agree {program : Program} {registry : Registry} {heap : Heap.Handle} {env : Env}
    (hCompute : compute program.records = .ok registry)
    (hNames : ∀ decl ∈ program.records, decl.name ≠ "")
    (hSame : SameRecords env (.ofProgram program registry heap))
    (name field : String) : ((env.fieldType? name field).isSome = true ↔
      ∃ record, registry.get? name = some record ∧ (record.field? field).isSome = true) ∧
    ∀ record placed, registry.get? name = some record → record.field? field = some placed →
      ∃ owner type, Declarer program.records (registry.ancestors name) field owner type ∧
        env.fieldType? name field = some type ∧ env.typeOfField name placed = type ∧
        FieldType.ofTy? type = some placed.type ∧ numType? type = some placed.type.numType := by
  refine ⟨⟨fun hSome => ?_, ?_⟩, fun record placed hGet hField => ?_⟩
  · obtain ⟨type, hType⟩ := Option.isSome_iff_exists.1 hSome
    exact field?_of_fieldType? hCompute hNames hSame hType
  · rintro ⟨record, hGet, hSome⟩
    obtain ⟨placed, hField⟩ := Option.isSome_iff_exists.1 hSome
    obtain ⟨-, type, -, hType, -⟩ := fieldType?_of_field? hCompute hNames hSame hGet hField
    rw [hType]
    rfl
  · obtain ⟨owner, type, hDeclarer, hType, hStored⟩ :=
      fieldType?_of_field? hCompute hNames hSame hGet hField
    refine ⟨owner, type, hDeclarer, hType, ?_, hStored, numType?_of_ofTy? hStored⟩
    obtain rfl : placed.name = field := by simpa using List.find?_some hField
    rw [Env.typeOfField, hType]
    rfl

/-- A program whose last record gets its fields from two others, declared in the wrong order. -/
def figures : Program where
  records := [
    { name := "Leaf", parent := "Mid", fields := [⟨{}, "next", .record "Leaf"⟩] },
    { name := "Mid", parent := "Base", fields := [⟨{}, "count", .i64⟩, ⟨{}, "tint", .enum "Hue"⟩] },
    { name := "Base", fields := [⟨{}, "flag", .bool⟩] }]
  functions := []

/-- A field that is inherited from the parent has the type that the parent declares, also once a
constructor has been registered; the grandparent does not have it. -/
theorem field_types_agree_figures :
    ∃ registry, compute figures.records = .ok registry ∧
      ∀ heap index record, registry.get? "Leaf" = some record →
        let env := (Env.ofProgram figures registry heap).addConstructor "Leaf"
          ((Env.ofProgram figures registry heap).constructorRef record index)
        (∃ owner type, Declarer figures.records ["Leaf", "Mid", "Base"] "tint" owner type ∧
          env.fieldType? "Leaf" "tint" = some type ∧ numType? type = some .i32) ∧
        ¬(env.fieldType? "Base" "tint").isSome = true := by
  obtain ⟨registry, hCompute, hRegistry⟩ := @ok_of_any _ _ (compute figures.records)
    (fun registry => decide (registry.ancestors "Leaf" = ["Leaf", "Mid", "Base"] ∧
      (registry.get? "Leaf" >>= fun record => record.field? "tint") = some ⟨"tint", .i32, 16⟩ ∧
      (registry.get? "Base" >>= fun record => record.field? "tint") = none)) (by decide +kernel)
  obtain ⟨hChain, hLeaf, hBase⟩ := of_decide_eq_true hRegistry
  refine ⟨registry, hCompute, fun heap index record hGet => ?_⟩
  intro env
  have hNames : ∀ decl ∈ figures.records, decl.name ≠ "" := by decide
  have hSame : SameRecords env (.ofProgram figures registry heap) := ⟨rfl, rfl, rfl, rfl⟩
  constructor
  · simp only [hGet, Option.bind_eq_bind, Option.bind_some] at hLeaf
    obtain ⟨owner, type, hDeclarer, hType, -, -, hNumber⟩ :=
      (field_types_agree hCompute hNames hSame "Leaf" "tint").2 record _ hGet hLeaf
    exact ⟨owner, type, hChain ▸ hDeclarer, hType, hNumber⟩
  · rw [(field_types_agree hCompute hNames hSame "Base" "tint").1]
    rintro ⟨base, hGet, hSome⟩
    simp only [hGet, Option.bind_eq_bind, Option.bind_some] at hBase
    rw [hBase] at hSome
    cases hSome

end RecordWasm.Layout
