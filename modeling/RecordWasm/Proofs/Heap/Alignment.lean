import RecordWasm.Proofs.Heap.Pool
import RecordWasm.Proofs.Layout.Packing

/-!
# Two ways of rounding up

Offsets of fields are rounded up by clearing the bits below the alignment, the cursor of the heap by
masking with the negative of the alignment.  `roundings_agree` says that these are one function,
also where the sum wraps around, and that the alignments that are let through are those for which it
rounds up.
-/

namespace RecordWasm.Heap

open Wasm Machine

/-- Whether a word is a power of two can be seen from its bits and those of the word before it. -/
theorem and_pred_eq_zero_iff {align : UInt32} (hSome : align ≠ 0) :
    align &&& (align - 1) = 0 ↔ align.toNat &&& (align.toNat - 1) = 0 := by
  have hPositive : align.toNat ≠ 0 := fun hZero => hSome (UInt32.toNat_inj.1 hZero)
  have hPred : (align - 1).toNat = align.toNat - 1 := by
    have hOne : (1 : UInt32).toNat = 1 := rfl
    have hWord := align.toNat_lt
    rw [UInt32.toNat_sub]
    omega
  rw [← UInt32.toNat_inj, UInt32.toNat_and, hPred, UInt32.toNat_zero]

/-- The test for alignments lets the powers of two through and no other word. -/
theorem checkAlign_ok_iff (align : UInt32) :
    checkAlign align = .ok () ↔ ∃ exponent, align.toNat = 2 ^ exponent := by
  have hTest : checkAlign align = .ok () ↔ align ≠ 0 ∧ align &&& (align - 1) = 0 := by
    rw [checkAlign]
    split
    · rename_i hRefused
      exact ⟨nofun, fun ⟨hSome, hBits⟩ => (hRefused.elim hSome fun hOther => hOther hBits).elim⟩
    · rename_i hPassed
      simpa using hPassed
  have hZero : align ≠ 0 ↔ align.toNat ≠ 0 := by
    rw [ne_eq, ne_eq, ← UInt32.toNat_inj, UInt32.toNat_zero]
  calc checkAlign align = .ok () ↔ align ≠ 0 ∧ align &&& (align - 1) = 0 := hTest
    _ ↔ align.toNat ≠ 0 ∧ align.toNat &&& (align.toNat - 1) = 0 := by
      rw [← hZero]
      exact and_congr_right and_pred_eq_zero_iff
    _ ↔ ∃ exponent, align.toNat = 2 ^ exponent :=
      Nat.ne_zero_and_sub_one_eq_zero_iff_isPowerOfTwo

/-- The emitted body starts by rounding: before anything else it puts this word into the local that
keeps the address. -/
def Handle.RoundsTo (handle : Handle) (cursor align word : UInt32) : Prop :=
  (∀ types, ∃ rest, Step.ofInstrs? types handle.allocInstrs = some (handle.alignSteps ++ rest)) ∧
  ∀ (functions : Array Machine.Function) (fuel : Nat) (store : Store) (size : UInt32),
    store.globals[handle.cursorGlobal.toNat]? = some (.i32 cursor) →
    Leads functions fuel handle.alignSteps (allocState store size align)
      (.next ⟨store, [.i32 size, .i32 align, .i32 word, .i32 0, .i32 0], [.i32 word]⟩)

theorem roundsTo_and_neg (handle : Handle) (cursor align : UInt32) :
    handle.RoundsTo cursor align ((cursor + align - 1) &&& (0 - align)) := by
  refine ⟨fun types => ⟨_, handle.ofInstrs?_allocInstrs types⟩, ?_⟩
  intro functions fuel store size hCursor
  exact leads_alignSteps functions fuel hCursor size align

/-- Clearing the bits below a power of two and masking with its negative give the same word, and the
emitted body computes it from the cursor.  Unless the sum wraps around, it is the least multiple
that is not below the given word.  The alignments that are let through are just the powers of
two. -/
theorem roundings_agree :
    (∀ (value align : UInt32) (exponent : Nat), align.toNat = 2 ^ exponent →
      Layout.alignTo value align = (value + align - 1) &&& ~~~(align - 1) ∧
      Layout.alignTo value align = (value + align - 1) &&& (0 - align) ∧
      (∀ handle : Handle, handle.RoundsTo value align (Layout.alignTo value align)) ∧
      (value.toNat + align.toNat - 1 < 2 ^ 32 →
        IsLeast {multiple | align.toNat ∣ multiple ∧ value.toNat ≤ multiple}
          (Layout.alignTo value align).toNat)) ∧
    ∀ align : UInt32, checkAlign align = .ok () ↔ ∃ exponent, align.toNat = 2 ^ exponent := by
  refine ⟨fun value align exponent hAlign => ?_, checkAlign_ok_iff⟩
  have hSome := ne_zero_of_power hAlign
  have hMasked := Layout.alignTo_eq_and_neg value hSome
  have hPositive : 0 < align.toNat := hAlign ▸ Nat.two_pow_pos exponent
  refine ⟨by rw [Layout.alignTo, if_neg hSome], hMasked, fun handle => ?_, fun hFits => ?_⟩
  · rw [hMasked]
    exact roundsTo_and_neg handle value align
  · rw [Layout.toNat_alignTo hAlign (by omega)]
    exact Layout.isLeast_roundUp _ hPositive

/-- An odd cursor is rounded up to the next multiple of eight. -/
theorem roundings_agree_odd :
    let handle : Handle := ⟨1024, 66560, 0, 1, 0, 1⟩
    let store : Store := ⟨[.i32 1001, .i32 66560], none, []⟩
    (8 : UInt32).toNat = 2 ^ 3 ∧ (1001 : UInt32).toNat + (8 : UInt32).toNat - 1 < 2 ^ 32 ∧
    Layout.alignTo 1001 8 = 1008 ∧ (1001 + 8 - 1 : UInt32) &&& (0 - 8) = 1008 ∧
    Leads #[] 0 handle.alignSteps (allocState store 100 8)
      (.next ⟨store, [.i32 100, .i32 8, .i32 1008, .i32 0, .i32 0], [.i32 1008]⟩) ∧
    IsLeast {multiple | 8 ∣ multiple ∧ 1001 ≤ multiple} 1008 ∧ checkAlign 8 = .ok () := by
  intro handle store
  have hAlign : (8 : UInt32).toNat = 2 ^ 3 := rfl
  have hFits : (1001 : UInt32).toNat + (8 : UInt32).toNat - 1 < 2 ^ 32 := by decide
  obtain ⟨hAgree, hTest⟩ := roundings_agree
  obtain ⟨-, hMasked, hRounds, hLeast⟩ := hAgree 1001 8 3 hAlign
  exact ⟨hAlign, hFits, rfl, hMasked.symm, (hRounds handle).2 #[] 0 store 100 rfl, hLeast hFits,
    (hTest 8).2 ⟨3, hAlign⟩⟩

end RecordWasm.Heap
