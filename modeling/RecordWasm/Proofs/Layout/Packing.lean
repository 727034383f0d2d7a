import RecordWasm.Proofs.Layout.Inheritance
import Mathlib.Data.List.Forall2
import Mathlib.Data.List.Induction
import Mathlib.Logic.Relation
import Mathlib.Order.Bounds.Defs

/-!
# Records are packed behind their parents

Every record that is laid out starts with the fields of its parent and goes on with its own in the
order of their declaration.  Each field lies at the least multiple of its alignment behind the field
before it, so a record of at most `2 ^ 28` fields is laid out without ever leaving the address
space, and what holds of the fields of an ancestor, at whatever distance, holds of them in the
record.
-/

namespace RecordWasm.Layout

open Syntax

/-- The offset behind a field, as a number. -/
def Field.limit (field : Field) : Nat := field.offset.toNat + field.type.size.toNat

/-- The offset behind the last of some fields, as a number. -/
def limit (fields : List Field) : Nat := fields.getLast?.elim 0 Field.limit

theorem Placed.limit_eq {fields : List Field} (hPlaced : Placed 0 fields) :
    limit fields = extent 0 (fields.map Field.type) := by
  rcases List.eq_nil_or_concat fields with rfl | ⟨front, last, rfl⟩
  · rfl
  · rw [List.concat_eq_append] at hPlaced ⊢
    have hLast := ((placed_append ..).1 hPlaced).2.1
    simp [limit, Field.limit, extent_append, extent, hLast]

/-- A field is placed behind the ones before it. -/
theorem Placed.offset {front back : List Field} {field : Field}
    (hPlaced : Placed 0 (front ++ field :: back)) :
    field.offset.toNat = roundUp (limit front) field.type.size.toNat := by
  obtain ⟨hFront, hField, -⟩ := (placed_append ..).1 hPlaced
  rw [hField, hFront.limit_eq]

/-- Rounding up gives the least multiple. -/
theorem isLeast_roundUp (value : Nat) {unit : Nat} (hUnit : 0 < unit) :
    IsLeast {multiple | unit ∣ multiple ∧ value ≤ multiple} (roundUp value unit) :=
  ⟨⟨dvd_roundUp value unit, le_roundUp value hUnit⟩, fun _ hMultiple =>
    roundUp_least hMultiple.1 hMultiple.2⟩

/-- A field takes 15 bytes at most, counting those that are left out in front of it. -/
theorem extent_le (free : Nat) (types : List FieldType) :
    extent free types ≤ free + 15 * types.length := by
  induction types generalizing free with
  | nil => exact Nat.le_refl free
  | cons type rest ih =>
      have hRound := roundUp_le free type.size.toNat
      have hSmall : type.size.toNat ≤ 8 := (isAlign_align type).le
      have hRest := ih (roundUp free type.size.toNat + type.size.toNat)
      rw [extent, List.length_cons]
      omega

theorem extent_lt_of_few {fields : List Field} (hFew : fields.length ≤ 2 ^ 28) :
    extent 0 (fields.map Field.type) < extentLimit := by
  have hExtent := extent_le 0 (fields.map Field.type)
  have hLimit : extentLimit = 2 ^ 32 - 8 := rfl
  rw [List.length_map] at hExtent
  omega

/-- The larger of two words is one of them, and no less than the other. -/
theorem max_cases (left right : UInt32) :
    left ≤ right ∧ max left right = right ∨ right ≤ left ∧ max left right = left := by
  by_cases hOrder : left ≤ right
  · exact .inl ⟨hOrder, if_pos hOrder⟩
  · exact .inr ⟨(UInt32.le_total left right).resolve_left hOrder, if_neg hOrder⟩

/-- The largest alignment of some fields, and one if there are none. -/
def widest (fields : List Field) : UInt32 :=
  fields.foldl (fun align field => max align field.type.align) 1

theorem widest_append (front : List Field) (field : Field) :
    widest (front ++ [field]) = max (widest front) field.type.align := by
  rw [widest, List.foldl_append]
  rfl

theorem isAlign_widest (fields : List Field) : IsAlign (widest fields) := by
  induction fields using List.reverseRecOn with
  | nil => exact .inl rfl
  | append_singleton front field ih =>
      rw [widest_append]
      exact ih.max (isAlign_align field.type)

theorem align_le_widest {fields : List Field} {field : Field} (hField : field ∈ fields) :
    field.type.align ≤ widest fields := by
  induction fields using List.reverseRecOn with
  | nil => cases hField
  | append_singleton front last ih =>
      rw [widest_append]
      rcases max_cases (widest front) last.type.align with ⟨hOrder, hMax⟩ | ⟨hOrder, hMax⟩ <;>
        rcases List.mem_append.1 hField with hFront | hLast <;> rw [hMax]
      · exact UInt32.le_trans (ih hFront) hOrder
      · rw [List.mem_singleton.1 hLast]
        exact UInt32.le_refl _
      · exact ih hFront
      · rwa [List.mem_singleton.1 hLast]

theorem one_lt_align (type : FieldType) : ¬type.align ≤ 1 := by cases type <;> decide

/-- Some field is as wide as the widest. -/
theorem widest_attained {fields : List Field} (hSome : fields ≠ []) :
    ∃ field ∈ fields, field.type.align = widest fields := by
  induction fields using List.reverseRecOn with
  | nil => exact absurd rfl hSome
  | append_singleton front last ih =>
      rw [widest_append]
      rcases max_cases (widest front) last.type.align with ⟨-, hMax⟩ | ⟨hOrder, hMax⟩ <;> rw [hMax]
      · exact ⟨last, by simp, rfl⟩
      · have hFront : front ≠ [] := by
          rintro rfl
          exact one_lt_align last.type hOrder
        obtain ⟨field, hField, hSame⟩ := ih hFront
        exact ⟨field, List.mem_append_left _ hField, hSame⟩

theorem isGreatest_widest {fields : List Field} (hSome : fields ≠ []) :
    IsGreatest {align | ∃ field ∈ fields, field.type.align = align} (widest fields) := by
  refine ⟨widest_attained hSome, ?_⟩
  rintro _ ⟨field, hField, rfl⟩
  exact align_le_widest hField

/-- The alignments of records divide the larger ones. -/
theorem IsAlign.dvd {less more : UInt32} (hLess : IsAlign less) (hMore : IsAlign more)
    (hOrder : less ≤ more) : less.toNat ∣ more.toNat := by
  rcases hLess with rfl | rfl | rfl <;> rcases hMore with rfl | rfl | rfl <;>
    first | decide | exact absurd hOrder (by decide)

theorem widest_le_of_prefix {front fields : List Field} (hPrefix : front <+: fields) :
    widest front ≤ widest fields := by
  rcases eq_or_ne front [] with rfl | hSome
  · rcases isAlign_widest fields with hOne | hFour | hEight
    · rw [hOne]; decide
    · rw [hFour]; decide
    · rw [hEight]; decide
  · obtain ⟨field, hField, hSame⟩ := widest_attained hSome
    exact hSame ▸ align_le_widest (hPrefix.subset hField)

/-! ## One record -/

/-- A field is the stored form of a declared one. -/
def Stores (declared : FieldDecl) (field : Field) : Prop :=
  field.name = declared.name ∧ FieldType.ofTy? declared.type = some field.type

/-- What placing one field does. -/
theorem placeField_ok {decl : RecordDecl} {inherited : Nat}
    {before after : List Field × UInt32 × UInt32} {declared : FieldDecl}
    (hPlace : placeField decl inherited before declared = .ok after) :
    ∃ field, Stores declared field ∧ after.1 = before.1 ++ [field] ∧
      after.2.2 = max before.2.2 field.type.align := by
  rw [placeField] at hPlace
  simp only at hPlace
  split at hPlace
  · cases hPlace
  · split at hPlace
    · cases hPlace
    · rename_i type hType
      cases hPlace
      exact ⟨_, ⟨rfl, hType⟩, rfl, rfl⟩

/-- The fields of a declaration are placed in their order behind others. -/
theorem placeFields_ok {decl : RecordDecl} {inherited : Nat}
    {before after : List Field × UInt32 × UInt32} (hWidest : before.2.2 = widest before.1)
    (hPlace : decl.fields.foldlM (placeField decl inherited) before = .ok after) :
    after.2.2 = widest after.1 ∧
      ∃ own, after.1 = before.1 ++ own ∧ List.Forall₂ Stores decl.fields own := by
  refine foldlM_ok (fun done now => now.2.2 = widest now.1 ∧
    ∃ own, now.1 = before.1 ++ own ∧ List.Forall₂ Stores done own) ⟨hWidest,
    [], by simp, .nil⟩ ?_ hPlace
  rintro done declared now next - ⟨hNow, own, hOwn, hDone⟩ hField
  obtain ⟨field, hStores, hFields, hAlign⟩ := placeField_ok hField
  refine ⟨by rw [hAlign, hFields, widest_append, hNow], own ++ [field], ?_, ?_⟩
  · rw [hFields, hOwn, List.append_assoc]
  · exact List.rel_append hDone (.cons hStores .nil)

/-- A record is laid out from its declaration: behind the fields of its parent stand its own. -/
structure Derived (registry : Registry) (decl : RecordDecl) (record : Record) : Prop where
  name : record.name = decl.name
  parent : record.parent = decl.parent
  own : List.Forall₂ Stores decl.fields record.ownFields
  fields : decl.parent = "" ∧ record.fields = record.ownFields ∨
    decl.parent ≠ "" ∧ ∃ parent, registry.get? decl.parent = some parent ∧
      record.fields = parent.fields ++ record.ownFields

theorem layoutOf_derives {registry : Registry} {decl : RecordDecl} {record : Record}
    (hKnown : ∀ record ∈ registry.layouts, record.align = widest record.fields)
    (hLayout : layoutOf registry decl = .ok record) :
    record.align = widest record.fields ∧ Derived registry decl record := by
  simp only [layoutOf, bind_ok, pure_ok] at hLayout
  obtain ⟨start, hInherit, ⟨fields, free, align⟩, hPlace, rfl⟩ := hLayout
  rw [inheritedFields] at hInherit
  split at hInherit
  · rename_i hNone
    cases hInherit
    obtain ⟨hAlign, own, hFields, hOwn⟩ := placeFields_ok rfl hPlace
    obtain rfl : fields = own := hFields
    exact ⟨hAlign, rfl, rfl, hOwn, .inl ⟨hNone, rfl⟩⟩
  · rename_i hSome
    split at hInherit
    · cases hInherit
    · rename_i parent hParent
      cases hInherit
      have hWidest := hKnown parent (List.mem_of_find?_eq_some hParent)
      obtain ⟨hAlign, own, hFields, hOwn⟩ := placeFields_ok hWidest hPlace
      obtain rfl : fields = parent.fields ++ own := hFields
      refine ⟨hAlign, rfl, rfl, ?_, .inr ⟨hSome, parent, hParent, ?_⟩⟩
      · simpa [Record.ownFields] using hOwn
      · simp [Record.ownFields]

/-- Further records do not change what a record is derived from. -/
theorem Derived.append {front more : List Record} {decl : RecordDecl} {record : Record}
    (hDerived : Derived ⟨front⟩ decl record) : Derived ⟨front ++ more⟩ decl record := by
  obtain ⟨hName, hParent, hOwn, hFields⟩ := hDerived
  refine ⟨hName, hParent, hOwn, hFields.imp_right ?_⟩
  rintro ⟨hSome, parent, hGet, hSame⟩
  exact ⟨hSome, parent, Registry.get?_append hGet, hSame⟩

namespace Registry.Lays

variable {registry : Registry} {decls : List RecordDecl} (hLays : registry.Lays decls)
include hLays

/-- What a layout has if all records in front of it have it, all layouts have. -/
theorem induction {motive : Record → Prop} (hStep : ∀ front decl record,
    (∀ earlier ∈ front, motive earlier) → declOf? decls record.name = some decl →
      layoutOf ⟨front⟩ decl = .ok record → motive record) :
    ∀ record ∈ registry.layouts, motive record := by
  suffices hFronts : ∀ front back, registry.layouts = front ++ back →
      ∀ record ∈ front, motive record from
    hFronts registry.layouts [] (List.append_nil _).symm
  intro front
  induction front using List.reverseRecOn with
  | nil => simp
  | append_singleton front last ih =>
      intro back hSplit record hRecord
      rw [List.append_assoc] at hSplit
      have hFront := ih _ hSplit
      rcases List.mem_append.1 hRecord with hEarlier | hLast
      · exact hFront record hEarlier
      · obtain ⟨decl, hDecl, hLayout⟩ := hLays.decl front last back hSplit
        rw [List.mem_singleton.1 hLast]
        exact hStep front decl last hFront hDecl hLayout

theorem widest_align : ∀ record ∈ registry.layouts, record.align = widest record.fields :=
  hLays.induction fun _ _ _ hFront _ hLayout => (layoutOf_derives hFront hLayout).1

/-- Every layout is derived from the declaration of its name. -/
theorem derived {record : Record} (hRecord : record ∈ registry.layouts) :
    ∃ decl, declOf? decls record.name = some decl ∧ Derived registry decl record := by
  obtain ⟨front, back, hSplit⟩ := List.append_of_mem hRecord
  obtain ⟨decl, hDecl, hLayout⟩ := hLays.decl front record back hSplit
  have hFront : ∀ earlier ∈ front, earlier.align = widest earlier.fields := fun earlier hEarlier =>
    hLays.widest_align earlier (by rw [hSplit]; exact List.mem_append_left _ hEarlier)
  have hWhole : registry = ⟨front ++ record :: back⟩ := by rw [← hSplit]
  exact ⟨decl, hDecl, hWhole ▸ (layoutOf_derives hFront hLayout).2.append⟩

end Registry.Lays

/-- A record and the one that it names as its parent. -/
def Registry.Parent (registry : Registry) (record parent : Record) : Prop :=
  record.parent ≠ "" ∧ registry.get? record.parent = some parent

/-- The ancestors of a record, at any distance. -/
def Registry.Ancestor (registry : Registry) : Record → Record → Prop :=
  Relation.TransGen registry.Parent

/-- How the fields of a record lie, and what its size and alignment are. -/
structure Packed (record : Record) : Prop where
  names : (record.fields.map Field.name).Nodup
  first : ∀ field rest, record.fields = field :: rest → field.offset = 0
  offsets : ∀ front field back, record.fields = front ++ field :: back →
    IsLeast {multiple | field.type.align.toNat ∣ multiple ∧
      limit front ≤ multiple} field.offset.toNat
  apart : record.fields.Pairwise fun left right => left.limit ≤ right.offset.toNat
  fieldless : record.fields = [] → record.align = 1
  widest : record.fields ≠ [] →
    IsGreatest {align | ∃ field ∈ record.fields, field.type.align = align} record.align
  align : record.align = 1 ∨ record.align = 4 ∨ record.align = 8
  size : IsLeast {multiple | record.align.toNat ∣ multiple ∧ limit record.fields ≤ multiple}
    record.size.toNat

theorem Sound.packed {record : Record} (hSound : Sound record)
    (hWidest : record.align = widest record.fields) (hFew : record.fields.length ≤ 2 ^ 28) :
    Packed record := by
  obtain ⟨hPlaced, hSize⟩ := hSound.placed (extent_lt_of_few hFew)
  have hOffset {front back : List Field} {field : Field}
      (hSplit : record.fields = front ++ field :: back) :
      field.offset.toNat = roundUp (limit front) field.type.size.toNat :=
    (hSplit ▸ hPlaced).offset
  refine ⟨hSound.names, ?_, ?_, hPlaced.pairwise, ?_, ?_, hSound.align, ?_⟩
  · intro field rest hFields
    have hZero := @hOffset [] rest field hFields
    have hNone : roundUp (limit []) field.type.size.toNat = 0 :=
      Nat.le_zero.1 (roundUp_least (Nat.dvd_zero _) (Nat.le_refl _))
    rw [hNone] at hZero
    exact UInt32.toNat_inj.1 hZero
  · intro front field back hSplit
    rw [hOffset hSplit]
    exact isLeast_roundUp _ (size_pos field.type)
  · intro hNone
    rw [hWidest, hNone]
    rfl
  · intro hSome
    rw [hWidest]
    exact isGreatest_widest hSome
  · rw [hSize, ← hPlaced.limit_eq]
    obtain ⟨exponent, hPower⟩ := hSound.align.power
    exact isLeast_roundUp _ (hPower ▸ Nat.two_pow_pos exponent)

/-- A record starts like another: code for the other works on it. -/
structure Extends (record above : Record) : Prop where
  fields : above.fields <+: record.fields
  size : above.size ≤ record.size
  found : ∀ field ∈ above.fields, above.field? field.name = some field ∧
    record.field? field.name = some field

/-- A field is found by its name. -/
theorem Sound.field?_eq {record : Record} (hSound : Sound record) {field : Field}
    (hField : field ∈ record.fields) : record.field? field.name = some field := by
  rw [Record.field?]
  cases hFound : record.fields.find? fun other => other.name == field.name with
  | none => exact absurd (List.find?_eq_none.1 hFound field hField) (by simp)
  | some other =>
      have hName : other.name = field.name := by simpa using List.find?_some hFound
      rw [hSound.field_unique (List.mem_of_find?_eq_some hFound) hField hName]

theorem Sound.extends {record above : Record} (hSound : Sound record) (hAbove : Sound above)
    (hWidest : record.align = widest record.fields) (hNarrow : above.align = widest above.fields)
    (hFew : record.fields.length ≤ 2 ^ 28) (hPrefix : above.fields <+: record.fields) :
    Extends record above := by
  refine ⟨hPrefix, ?_, fun field hField =>
    ⟨hAbove.field?_eq hField, hSound.field?_eq (hPrefix.subset hField)⟩⟩
  have hFewer : above.fields.length ≤ 2 ^ 28 := le_trans hPrefix.length_le hFew
  obtain ⟨hPlaced, hSize⟩ := hSound.placed (extent_lt_of_few hFew)
  obtain ⟨-, hLess⟩ := hAbove.placed (extent_lt_of_few hFewer)
  have hAlign : above.align.toNat ∣ record.align.toNat := by
    refine hAbove.align.dvd hSound.align ?_
    rw [hWidest, hNarrow]
    exact widest_le_of_prefix hPrefix
  rw [UInt32.le_iff_toNat_le, hLess]
  refine roundUp_least (dvd_trans hAlign ?_) ?_
  · rw [hSize]
    exact dvd_roundUp _ _
  · obtain ⟨more, hFields⟩ := hPrefix
    rw [hSize, ← hFields, List.map_append, extent_append]
    obtain ⟨exponent, hPower⟩ := hSound.align.power
    exact le_trans (le_extent _ _) (le_roundUp _ (hPower ▸ Nat.two_pow_pos exponent))

/-- The fields of an ancestor come first. -/
theorem Registry.Lays.prefix_of_ancestor {registry : Registry} {decls : List RecordDecl}
    (hLays : registry.Lays decls) {record above : Record} (hRecord : record ∈ registry.layouts)
    (hAncestor : registry.Ancestor record above) :
    above ∈ registry.layouts ∧ above.fields <+: record.fields := by
  have hParent {record parent : Record} (hRecord : record ∈ registry.layouts)
      (hParent : registry.Parent record parent) :
      parent ∈ registry.layouts ∧ parent.fields <+: record.fields := by
    obtain ⟨hSome, hGet⟩ := hParent
    obtain ⟨decl, -, hDerived⟩ := hLays.derived hRecord
    rw [hDerived.parent] at hSome hGet
    obtain ⟨hNone, -⟩ | ⟨-, found, hFound, hFields⟩ := hDerived.fields
    · exact absurd hNone hSome
    · cases hGet.symm.trans hFound
      exact ⟨List.mem_of_find?_eq_some hFound, hFields ▸ List.prefix_append _ _⟩
  induction hAncestor with
  | single hOne => exact hParent hRecord hOne
  | tail _ hOne ih =>
      obtain ⟨hMember, hPrefix⟩ := hParent ih.1 hOne
      exact ⟨hMember, hPrefix.trans ih.2⟩

/-- Every layout that is computed is derived from its declaration and packed, and it extends all of
its ancestors, if it has at most so many fields that no offset leaves the address space. -/
theorem compute_packs {decls : List RecordDecl} {registry : Registry} {record : Record}
    (hCompute : compute decls = .ok registry) (hRecord : record ∈ registry.layouts)
    (hFew : record.fields.length ≤ 2 ^ 28) :
    (∃ decl, declOf? decls record.name = some decl ∧ Derived registry decl record) ∧ Packed record ∧
      ∀ above, registry.Ancestor record above → Extends record above := by
  have hLays := compute_lays hCompute
  have hSound := hLays.sound record hRecord
  have hWidest := hLays.widest_align record hRecord
  refine ⟨hLays.derived hRecord, hSound.packed hWidest hFew, fun above hAncestor => ?_⟩
  obtain ⟨hAbove, hPrefix⟩ := hLays.prefix_of_ancestor hRecord hAncestor
  exact hSound.extends (hLays.sound above hAbove) hWidest (hLays.widest_align above hAbove)
    hFew hPrefix

/-- A record that is declared before its parent and grandparent is packed behind both: its field
lies behind the last field of its parent, after the bytes that are left out. -/
theorem compute_packs_grandchild :
    let leaf : RecordDecl :=
      { name := "Leaf", parent := "Mid", fields := [{ name := "d", type := .i64 }] }
    let base : RecordDecl := { name := "Base", fields := [{ name := "a", type := .bool }] }
    let mid : RecordDecl := { name := "Mid", parent := "Base", fields :=
      [{ name := "b", type := .i64 }, { name := "c", type := .i32 }] }
    let laidBase : Record := ⟨"Base", "", [⟨"a", .bool, 0⟩], 4, 4, 0⟩
    let laidMid : Record :=
      ⟨"Mid", "Base", [⟨"a", .bool, 0⟩, ⟨"b", .i64, 8⟩, ⟨"c", .i32, 16⟩], 24, 8, 1⟩
    let laidLeaf : Record :=
      ⟨"Leaf", "Mid", [⟨"a", .bool, 0⟩, ⟨"b", .i64, 8⟩, ⟨"c", .i32, 16⟩, ⟨"d", .i64, 24⟩], 32, 8, 3⟩
    compute [leaf, base, mid] = .ok ⟨[laidBase, laidMid, laidLeaf]⟩ ∧ Packed laidLeaf ∧
      Extends laidLeaf laidBase := by
  intro leaf base mid laidBase laidMid laidLeaf
  obtain ⟨registry, hCompute, hRegistry⟩ := @ok_of_any _ _ (compute [leaf, base, mid])
    (fun registry => decide (registry = ⟨[laidBase, laidMid, laidLeaf]⟩)) (by decide +kernel)
  obtain rfl := of_decide_eq_true hRegistry
  obtain ⟨-, hPacked, hAbove⟩ := @compute_packs _ _ laidLeaf hCompute (by decide) (by decide)
  refine ⟨hCompute, hPacked, hAbove laidBase ?_⟩
  have hParent : Registry.Parent ⟨[laidBase, laidMid, laidLeaf]⟩ laidLeaf laidMid :=
    ⟨by decide, rfl⟩
  have hOther : Registry.Parent ⟨[laidBase, laidMid, laidLeaf]⟩ laidMid laidBase := ⟨by decide, rfl⟩
  exact .tail (.single hParent) hOther

end RecordWasm.Layout
