import Mathlib.Data.Nat.Bitwise
import Mathlib.Tactic.Common

/-!
# Rounding up

The least multiple of a unit that is not below a number, and how it is found by masking if the unit
is a power of two.
-/

namespace RecordWasm

/-- The least multiple of a unit that is not below a number. -/
def roundUp (value unit : Nat) : Nat := (value + (unit - 1)) / unit * unit

theorem dvd_roundUp (value unit : Nat) : unit ∣ roundUp value unit := Nat.dvd_mul_left ..

theorem le_roundUp (value : Nat) {unit : Nat} (hUnit : 0 < unit) : value ≤ roundUp value unit := by
  have hSplit := Nat.div_add_mod (value + (unit - 1)) unit
  have hRest := Nat.mod_lt (value + (unit - 1)) hUnit
  rw [Nat.mul_comm] at hSplit
  unfold roundUp
  omega

theorem roundUp_le (value unit : Nat) : roundUp value unit ≤ value + (unit - 1) :=
  Nat.div_mul_le_self ..

/-- No multiple of the unit lies between a number and the number rounded up. -/
theorem roundUp_least {value unit multiple : Nat} (hMultiple : unit ∣ multiple)
    (hValue : value ≤ multiple) : roundUp value unit ≤ multiple := by
  obtain ⟨count, rfl⟩ := hMultiple
  rcases Nat.eq_zero_or_pos unit with rfl | hUnit
  · simp [roundUp]
  · have hQuotient : (value + (unit - 1)) / unit ≤ count := by
      apply Nat.le_of_lt_succ
      rw [Nat.div_lt_iff_lt_mul hUnit, Nat.succ_mul, Nat.mul_comm count]
      omega
    rw [roundUp, Nat.mul_comm]
    exact Nat.mul_le_mul_left unit hQuotient

/-- Masking with the negative of a power of two clears the bits below it. -/
theorem toNat_and_neg (value : UInt32) {align : UInt32} {exponent : Nat}
    (hAlign : align.toNat = 2 ^ exponent) :
    (value &&& (0 - align)).toNat = value.toNat / 2 ^ exponent * 2 ^ exponent := by
  have hPower : 2 ^ exponent < 2 ^ 32 := hAlign ▸ align.toNat_lt
  have hSmall : exponent < 32 := (Nat.pow_lt_pow_iff_right (by decide)).1 hPower
  have hMask : (0 - align).toNat = (2 ^ (32 - exponent) - 1) * 2 ^ exponent := by
    rw [UInt32.toNat_sub, hAlign, Nat.sub_mul, ← Nat.pow_add, Nat.one_mul,
      Nat.sub_add_cancel hSmall.le]
    have hPositive := Nat.two_pow_pos exponent
    simp
  rw [UInt32.toNat_and, hMask]
  apply Nat.eq_of_testBit_eq
  intro bit
  rw [Nat.testBit_and, ← Nat.shiftLeft_eq, ← Nat.shiftLeft_eq, Nat.testBit_shiftLeft,
    Nat.testBit_shiftLeft, Nat.testBit_two_pow_sub_one, ← Nat.shiftRight_eq_div_pow,
    Nat.testBit_shiftRight]
  by_cases hBit : exponent ≤ bit
  · by_cases hHigh : bit < 32
    · simp [hBit, Nat.add_sub_cancel' hBit]
      omega
    · have hClear : value.toNat.testBit bit = false :=
        Nat.testBit_lt_two_pow
          (lt_of_lt_of_le value.toNat_lt (Nat.pow_le_pow_right (by decide) (by omega)))
      simp [hBit, Nat.add_sub_cancel' hBit, hClear]
  · simp [hBit]

/-- The complement of the word before another one is the negative of the other one. -/
theorem complement_pred (align : UInt32) : ~~~(align - 1) = 0 - align := by
  apply UInt32.eq_of_toBitVec_eq
  change ~~~(align.toBitVec - 1#32) = 0#32 - align.toBitVec
  bv_omega

section Words

variable {align : UInt32} {exponent : Nat}

theorem ne_zero_of_power (hAlign : align.toNat = 2 ^ exponent) : align ≠ 0 := by
  rintro rfl
  exact (Nat.two_pow_pos exponent).ne hAlign

/-- The size of the address space is a multiple of every power of two among the words. -/
theorem align_dvd_size (hAlign : align.toNat = 2 ^ exponent) : align.toNat ∣ 2 ^ 32 := by
  have hPower : 2 ^ exponent < 2 ^ 32 := hAlign ▸ align.toNat_lt
  rw [hAlign]
  exact Nat.pow_dvd_pow 2 ((Nat.pow_lt_pow_iff_right (by decide)).1 hPower).le

/-- Rounding up does not pass the end of the address space. -/
theorem roundUp_le_size (value : UInt32) (hAlign : align.toNat = 2 ^ exponent) :
    roundUp value.toNat align.toNat ≤ 2 ^ 32 :=
  roundUp_least (align_dvd_size hAlign) value.toNat_lt.le

/-- Adding what is below the alignment and masking rounds up, modulo the size of the address
space. -/
theorem toNat_rounded (value : UInt32) (hAlign : align.toNat = 2 ^ exponent) :
    ((value + align - 1) &&& (0 - align)).toNat = roundUp value.toNat align.toNat % 2 ^ 32 := by
  have hMost := roundUp_le_size value hAlign
  have hPositive : 0 < align.toNat := hAlign ▸ Nat.two_pow_pos exponent
  have hValue := value.toNat_lt
  have hWord := align.toNat_lt
  have hSum : (value + align - 1).toNat = (value.toNat + (align.toNat - 1)) % 2 ^ 32 := by
    have hOne : (1 : UInt32).toNat = 1 := rfl
    rw [UInt32.toNat_sub, UInt32.toNat_add]
    omega
  rw [toNat_and_neg _ hAlign, hSum, ← hAlign]
  by_cases hFits : value.toNat + (align.toNat - 1) < 2 ^ 32
  · have hBelow := roundUp_le value.toNat align.toNat
    rw [Nat.mod_eq_of_lt hFits, Nat.mod_eq_of_lt (by omega), roundUp]
  · -- The sum has wrapped to less than the alignment, and the value is rounded up to the very end.
    obtain ⟨count, hCount⟩ := align_dvd_size hAlign
    have hLeast : 2 ^ 32 ≤ roundUp value.toNat align.toNat := by
      rw [roundUp, hCount, Nat.mul_comm]
      apply Nat.mul_le_mul_right
      rw [Nat.le_div_iff_mul_le hPositive, Nat.mul_comm, ← hCount]
      omega
    rw [Nat.div_eq_of_lt (by omega), Nat.zero_mul, Nat.le_antisymm hMost hLeast, Nat.mod_self]

/-- Nothing is lost as long as the sum does not wrap. -/
theorem toNat_rounded_of_lt (value : UInt32) (hAlign : align.toNat = 2 ^ exponent)
    (hFits : value.toNat + (align.toNat - 1) < 2 ^ 32) :
    ((value + align - 1) &&& (0 - align)).toNat = roundUp value.toNat align.toNat := by
  have hBelow := roundUp_le value.toNat align.toNat
  rw [toNat_rounded value hAlign, Nat.mod_eq_of_lt (by omega)]

end Words

end RecordWasm
