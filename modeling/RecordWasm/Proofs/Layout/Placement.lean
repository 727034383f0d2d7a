import RecordWasm.Layout.Registry
import RecordWasm.Proofs.Rounding
import RecordWasm.Proofs.Success
import Mathlib.Data.List.Nodup

/-!
# Where fields are placed

Fields are placed one behind the other, each aligned to its size.  `extent` is where they end as a
number, and as long as it stays below the size of the address space the offsets of a layout are the
ones that `Placed` describes: no two fields overlap, and all of them lie inside the record.
-/

namespace RecordWasm.Layout

open Syntax

/-- The end of fields that are placed from a free offset on. -/
def extent (free : Nat) : List FieldType → Nat
  | [] => free
  | type :: rest => extent (roundUp free type.size.toNat + type.size.toNat) rest

/-- The offsets of fields are the first ones possible from a free offset on. -/
def Placed (free : Nat) : List Field → Prop
  | [] => True
  | field :: rest => field.offset.toNat = roundUp free field.type.size.toNat ∧
      Placed (roundUp free field.type.size.toNat + field.type.size.toNat) rest

theorem size_pos (type : FieldType) : 0 < type.size.toNat := by cases type <;> decide

theorem le_extent (free : Nat) (types : List FieldType) : free ≤ extent free types := by
  induction types generalizing free with
  | nil => exact le_rfl
  | cons type rest ih =>
      have hRound := le_roundUp free (size_pos type)
      exact le_trans (by omega) (ih _)

theorem length_le_extent (free : Nat) (types : List FieldType) :
    free + types.length ≤ extent free types := by
  induction types generalizing free with
  | nil => exact le_rfl
  | cons type rest ih =>
      have hRound := le_roundUp free (size_pos type)
      have hRest := ih (roundUp free type.size.toNat + type.size.toNat)
      have hSize := size_pos type
      rw [extent, List.length_cons]
      omega

theorem extent_append (free : Nat) (front back : List FieldType) :
    extent free (front ++ back) = extent (extent free front) back := by
  induction front generalizing free with
  | nil => rfl
  | cons type rest ih => exact ih _

theorem placed_append (free : Nat) (front back : List Field) :
    Placed free (front ++ back) ↔
      Placed free front ∧ Placed (extent free (front.map Field.type)) back := by
  induction front generalizing free with
  | nil => simp [Placed, extent]
  | cons field rest ih => simp [Placed, extent, ih, and_assoc]

/-- A field lies between the free offset and the end. -/
theorem Placed.bounds {free : Nat} {fields : List Field} (hPlaced : Placed free fields)
    {field : Field} (hField : field ∈ fields) :
    free ≤ field.offset.toNat ∧
      field.offset.toNat + field.type.size.toNat ≤ extent free (fields.map Field.type) := by
  induction fields generalizing free with
  | nil => cases hField
  | cons first rest ih =>
      obtain ⟨hOffset, hRest⟩ := hPlaced
      have hRound := le_roundUp free (size_pos first.type)
      rcases List.mem_cons.1 hField with rfl | hLater
      · have hEnd := le_extent (roundUp free field.type.size.toNat + field.type.size.toNat)
          (rest.map Field.type)
        exact ⟨by omega, hOffset ▸ hEnd⟩
      · obtain ⟨hLow, hHigh⟩ := ih hRest hLater
        exact ⟨by omega, hHigh⟩

/-- A field ends before the next one starts. -/
theorem Placed.pairwise {free : Nat} {fields : List Field} (hPlaced : Placed free fields) :
    fields.Pairwise fun left right =>
      left.offset.toNat + left.type.size.toNat ≤ right.offset.toNat := by
  induction fields generalizing free with
  | nil => exact .nil
  | cons first rest ih =>
      obtain ⟨hOffset, hRest⟩ := hPlaced
      refine .cons (fun later hLater => ?_) (ih hRest)
      have hLow := (hRest.bounds hLater).1
      omega

/-- Clearing the bits below an alignment is masking with its negative. -/
theorem alignTo_eq_and_neg (offset : UInt32) {align : UInt32} (hSome : align ≠ 0) :
    alignTo offset align = (offset + align - 1) &&& (0 - align) := by
  rw [alignTo, if_neg hSome, complement_pred]

theorem toNat_alignTo {offset align : UInt32} {exponent : Nat} (hAlign : align.toNat = 2 ^ exponent)
    (hFits : offset.toNat + (align.toNat - 1) < 2 ^ 32) :
    (alignTo offset align).toNat = roundUp offset.toNat align.toNat := by
  rw [alignTo_eq_and_neg offset (ne_zero_of_power hAlign), toNat_rounded_of_lt offset hAlign hFits]

/-- The alignments that records have. -/
def IsAlign (align : UInt32) : Prop := align = 1 ∨ align = 4 ∨ align = 8

theorem IsAlign.power {align : UInt32} (hAlign : IsAlign align) :
    ∃ exponent, align.toNat = 2 ^ exponent := by
  rcases hAlign with rfl | rfl | rfl
  · exact ⟨0, rfl⟩
  · exact ⟨2, rfl⟩
  · exact ⟨3, rfl⟩

theorem IsAlign.le {align : UInt32} (hAlign : IsAlign align) : align.toNat ≤ 8 := by
  rcases hAlign with rfl | rfl | rfl <;> decide

theorem isAlign_align (type : FieldType) : IsAlign type.align := by
  cases type <;> simp [FieldType.align, FieldType.size, IsAlign]

theorem IsAlign.max {left right : UInt32} (hLeft : IsAlign left) (hRight : IsAlign right) :
    IsAlign (max left right) := by
  rcases hLeft with rfl | rfl | rfl <;> rcases hRight with rfl | rfl | rfl <;>
    simp [IsAlign] <;> decide

/-- The largest extent that is surely an address, with room for an alignment. -/
def extentLimit : Nat := 2 ^ 32 - 8

/-- The fields that are placed so far, with the free offset and the alignment. -/
structure Placing (placed : List Field × UInt32 × UInt32) : Prop where
  names : (placed.1.map Field.name).Nodup
  align : IsAlign placed.2.2
  placed : extent 0 (placed.1.map Field.type) < extentLimit →
    Placed 0 placed.1 ∧ placed.2.1.toNat = extent 0 (placed.1.map Field.type)

/-- Placing one more field. -/
theorem Placing.placeField {decl : RecordDecl} {inherited : Nat}
    {before after : List Field × UInt32 × UInt32} {field : FieldDecl} (hPlacing : Placing before)
    (hPlace : placeField decl inherited before field = .ok after) :
    Placing after ∧ ∃ type offset, FieldType.ofTy? field.type = some type ∧
      after.1 = before.1 ++ [⟨field.name, type, offset⟩] := by
  obtain ⟨fields, free, align⟩ := before
  rw [Layout.placeField] at hPlace
  simp only at hPlace
  split at hPlace
  · cases hPlace
  · rename_i hNew
    split at hPlace
    · cases hPlace
    · rename_i type hType
      cases hPlace
      obtain ⟨hNames, hAlign, hPlaced⟩ := hPlacing
      have hFresh : field.name ∉ fields.map Field.name := by
        simpa using hNew
      refine ⟨⟨?_, hAlign.max (isAlign_align type), ?_⟩, type, _, hType, rfl⟩
      · rw [List.map_append]
        exact hNames.append (by simp) (by simpa using hFresh)
      · intro hExtent
        simp only [List.map_append, extent_append, List.map_cons, List.map_nil, extent]
          at hExtent ⊢
        have hRound := le_roundUp (extent 0 (fields.map Field.type)) (size_pos type)
        have hLimit : extentLimit = 2 ^ 32 - 8 := rfl
        obtain ⟨hOld, hFree⟩ := hPlaced (by simp only; omega)
        obtain ⟨exponent, hPower⟩ := (isAlign_align type).power
        have hSmall := (isAlign_align type).le
        simp only at hFree
        have hOffset : (alignTo free type.align).toNat =
            roundUp (extent 0 (fields.map Field.type)) type.size.toNat := by
          rw [toNat_alignTo hPower (by omega), hFree, FieldType.align]
        refine ⟨(placed_append ..).2 ⟨hOld, hOffset, trivial⟩, ?_⟩
        rw [UInt32.toNat_add, hOffset, Nat.mod_eq_of_lt (by omega)]

/-- Fields of a declaration are placed behind others, and nothing else is. -/
structure Behind (before after : List Field) (declared : List FieldDecl) : Prop where
  front : before <+: after
  fields : ∀ field ∈ declared, ∃ placed ∈ after,
    placed.name = field.name ∧ FieldType.ofTy? field.type = some placed.type
  only : ∀ placed ∈ after, placed ∈ before ∨ ∃ field ∈ declared, field.name = placed.name

theorem Behind.add {before now : List Field} {done : List FieldDecl}
    (hBehind : Behind before now done) {field : FieldDecl} {type : FieldType}
    (hType : FieldType.ofTy? field.type = some type) (offset : UInt32) :
    Behind before (now ++ [⟨field.name, type, offset⟩]) (done ++ [field]) := by
  refine ⟨hBehind.front.trans (List.prefix_append ..), fun other hOther => ?_,
    fun placed hPlaced => ?_⟩
  · rw [List.mem_append, List.mem_singleton] at hOther
    rcases hOther with hOld | rfl
    · obtain ⟨placed, hPlaced, hSame⟩ := hBehind.fields other hOld
      exact ⟨placed, List.mem_append_left _ hPlaced, hSame⟩
    · exact ⟨_, List.mem_append_right _ (List.mem_singleton_self _), rfl, hType⟩
  · rw [List.mem_append, List.mem_singleton] at hPlaced
    rcases hPlaced with hOld | rfl
    · rcases hBehind.only placed hOld with hBefore | ⟨other, hOther, hName⟩
      · exact .inl hBefore
      · exact .inr ⟨other, List.mem_append_left _ hOther, hName⟩
    · exact .inr ⟨field, List.mem_append_right _ (List.mem_singleton_self _), rfl⟩

/-- Placing the fields of a declaration behind others. -/
theorem Placing.placeFields {decl : RecordDecl} {inherited : Nat}
    {before after : List Field × UInt32 × UInt32} (hPlacing : Placing before)
    (hPlace : decl.fields.foldlM (Layout.placeField decl inherited) before = .ok after) :
    Placing after ∧ Behind before.1 after.1 decl.fields := by
  refine foldlM_ok (fun done now => Placing now ∧ Behind before.1 now.1 done)
    ⟨hPlacing, List.prefix_rfl, by simp, by simp⟩ ?_ hPlace
  rintro done field now next _ ⟨hNow, hDone⟩ hField
  obtain ⟨hNext, type, offset, hType, hAfter⟩ := hNow.placeField hField
  rw [hAfter]
  exact ⟨hNext, hDone.add hType offset⟩

/-- A record whose fields lie apart from each other inside it. -/
structure Sound (record : Record) : Prop where
  names : (record.fields.map Field.name).Nodup
  align : IsAlign record.align
  placed : extent 0 (record.fields.map Field.type) < extentLimit →
    Placed 0 record.fields ∧
      record.size.toNat = roundUp (extent 0 (record.fields.map Field.type)) record.align.toNat

/-- The end of the last field is the extent of all. -/
theorem Sound.fieldsEnd {record : Record} (hSound : Sound record)
    (hExtent : extent 0 (record.fields.map Field.type) < extentLimit) :
    record.fieldsEnd.toNat = extent 0 (record.fields.map Field.type) := by
  have hPlaced := (hSound.placed hExtent).1
  rw [Record.fieldsEnd]
  split
  · rename_i field hLast
    obtain ⟨front, hFields⟩ := List.getLast?_eq_some_iff.1 hLast
    rw [hFields] at hPlaced hExtent ⊢
    have hField := ((placed_append ..).1 hPlaced).2.1
    simp only [List.map_append, extent_append, List.map_cons, List.map_nil, extent] at hExtent ⊢
    have hLimit : extentLimit = 2 ^ 32 - 8 := rfl
    rw [Field.stop, UInt32.toNat_add, hField, Nat.mod_eq_of_lt (by omega)]
  · rename_i hNone
    rw [List.getLast?_eq_none_iff.1 hNone]
    rfl

/-- What a record is laid out behind. -/
theorem placing_inherited {registry : Registry} {decl : RecordDecl}
    {start : List Field × UInt32 × UInt32}
    (hKnown : ∀ record ∈ registry.layouts, Sound record)
    (hInherit : inheritedFields registry decl = .ok start) : Placing start := by
  rw [inheritedFields] at hInherit
  split at hInherit
  · cases hInherit
    exact ⟨by simp, .inl rfl, fun _ => ⟨trivial, rfl⟩⟩
  · split at hInherit
    · cases hInherit
    · rename_i parent hParent
      cases hInherit
      have hSound := hKnown parent (List.mem_of_find?_eq_some hParent)
      exact ⟨hSound.names, hSound.align, fun hExtent =>
        ⟨(hSound.placed hExtent).1, hSound.fieldsEnd hExtent⟩⟩

/-- A record is sound if the records before it are. -/
theorem sound_layoutOf {registry : Registry} {decl : RecordDecl} {record : Record}
    (hKnown : ∀ record ∈ registry.layouts, Sound record)
    (hLayout : layoutOf registry decl = .ok record) : Sound record := by
  simp only [layoutOf, bind_ok, pure_ok] at hLayout
  obtain ⟨start, hInherit, ⟨fields, free, align⟩, hPlace, rfl⟩ := hLayout
  obtain ⟨⟨hNames, hAlign, hPlaced⟩, -⟩ := (placing_inherited hKnown hInherit).placeFields hPlace
  refine ⟨hNames, hAlign, fun hExtent => ?_⟩
  obtain ⟨hFields, hFree⟩ := hPlaced hExtent
  obtain ⟨exponent, hPower⟩ := hAlign.power
  have hSmall := hAlign.le
  have hLimit : extentLimit = 2 ^ 32 - 8 := rfl
  simp only at hFree hExtent hSmall hPower ⊢
  exact ⟨hFields, by rw [toNat_alignTo hPower (by omega), hFree]⟩

end RecordWasm.Layout
