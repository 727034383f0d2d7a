import RecordWasm.Decimal.Reading
import Mathlib.Algebra.Group.Int.Defs
import Mathlib.Tactic.Common

/-!
# Decimal integers

`IsDecimal` is the decimal form of an integer: digits, behind a sign or not.  What is read as an
integer of so many bits are the decimal forms of the integers that have as many, and an integer is
printed in such a form.
-/

namespace RecordWasm.Decimal

/-- A text of digits, one at least. -/
structure AreDigits (text : List Char) : Prop where
  some : text ≠ []
  digits : ∀ character ∈ text, character.isDigit = true

/-- A text is the decimal form of an integer. -/
inductive IsDecimal : List Char → Int → Prop
  | bare {digits : List Char} : AreDigits digits →
      IsDecimal digits (Nat.ofDigitChars 10 digits 0)
  | plus {digits : List Char} : AreDigits digits →
      IsDecimal ('+' :: digits) (Nat.ofDigitChars 10 digits 0)
  | minus {digits : List Char} : AreDigits digits →
      IsDecimal ('-' :: digits) (-(Nat.ofDigitChars 10 digits 0 : Int))

/-- A decimal form is made of digits and signs. -/
theorem IsDecimal.characters {text : List Char} {value : Int} (hForm : IsDecimal text value) :
    ∀ character ∈ text, character.isDigit = true ∨ character = '+' ∨ character = '-' := by
  intro character hCharacter
  cases hForm with
  | bare hDigits => exact .inl (hDigits.digits character hCharacter)
  | plus hDigits =>
      cases hCharacter with
      | head => exact .inr (.inl rfl)
      | tail _ hTail => exact .inl (hDigits.digits character hTail)
  | minus hDigits =>
      cases hCharacter with
      | head => exact .inr (.inr rfl)
      | tail _ hTail => exact .inl (hDigits.digits character hTail)

/-- In base ten exactly the digits have a value. -/
theorem digitIn?_ten (character : Char) :
    digitIn? 10 character =
      if character.isDigit then some (character.toNat - '0'.toNat) else none := by
  have hDigit : character.isDigit = true ↔ '0' ≤ character ∧ character ≤ '9' := by
    simp [Char.isDigit, Char.le_def]
  rw [digitIn?]
  by_cases hIs : '0' ≤ character ∧ character ≤ '9'
  · have hNine : character.toNat ≤ 57 := hIs.2
    have hSmall : character.toNat - '0'.toNat < 10 := by
      rw [show '0'.toNat = 48 from rfl]
      omega
    rw [if_pos hIs, if_pos hSmall, if_pos (hDigit.2 hIs)]
  · rw [if_neg hIs, if_neg (mt hDigit.1 hIs), if_neg]
    split
    · exact Nat.not_lt.2 (Nat.le_add_left 10 _)
    · split
      · exact Nat.not_lt.2 (Nat.le_add_left 10 _)
      · decide

theorem le_ofDigitChars (digits : List Char) (value : Nat) :
    value ≤ Nat.ofDigitChars 10 digits value := by
  induction digits generalizing value with
  | nil => exact Nat.le_refl value
  | cons digit digits ih =>
      rw [Nat.ofDigitChars_cons]
      calc value ≤ 10 * value := Nat.le_mul_of_pos_left value (by decide)
        _ ≤ 10 * value + (digit.toNat - '0'.toNat) := Nat.le_add_right _ _
        _ ≤ _ := ih _

/-- Digits are read as the number that they spell, unless it passes the limit. -/
theorem readDigits_ok {limit value result : Nat} {text : List Char} (hValue : value ≤ limit) :
    readDigits limit value text = .ok result ↔
      (∀ character ∈ text, character.isDigit = true) ∧
        Nat.ofDigitChars 10 text value = result ∧ result ≤ limit := by
  induction text generalizing value with
  | nil =>
      rw [readDigits, Nat.ofDigitChars_nil, Except.ok.injEq]
      constructor
      · intro hSame
        exact ⟨by simp, hSame, hSame ▸ hValue⟩
      · intro hRead
        exact hRead.2.1
  | cons character text ih =>
      rw [readDigits, digitIn?_ten, Nat.ofDigitChars_cons, List.forall_mem_cons,
        Nat.mul_comm 10 value]
      by_cases hDigit : character.isDigit = true
      · simp only [hDigit, if_true, true_and]
        split
        · rename_i hSmall
          exact ih hSmall
        · rename_i hLarge
          constructor
          · intro hRead
            cases hRead
          · intro hRead
            -- More digits only make the number larger.
            have hGrown := le_ofDigitChars text (value * 10 + (character.toNat - '0'.toNat))
            rw [hRead.2.1] at hGrown
            exact absurd (Nat.le_trans hGrown hRead.2.2) hLarge
      · rw [if_neg hDigit]
        constructor
        · intro hRead
          cases hRead
        · intro hRead
          exact absurd hRead.1.1 hDigit

/-- Digits have no sign in front of them. -/
theorem AreDigits.splitSign_eq {text : List Char} (hDigits : AreDigits text) :
    splitSign text = (false, text) := by
  fun_cases splitSign text with
  | case1 rest => exact absurd (hDigits.digits '-' (by simp)) (by decide)
  | case2 rest => exact absurd (hDigits.digits '+' (by simp)) (by decide)
  | case3 => rfl

/-- An integer is spelled by digits, the magnitude of it, behind a sign that may stand there. -/
theorem isDecimal_iff {text : List Char} {value : Int} :
    IsDecimal text value ↔
      AreDigits (splitSign text).2 ∧
        value = if (splitSign text).1 then -(Nat.ofDigitChars 10 (splitSign text).2 0 : Int)
          else Nat.ofDigitChars 10 (splitSign text).2 0 := by
  constructor
  · intro hForm
    cases hForm with
    | bare hDigits =>
        rw [hDigits.splitSign_eq]
        exact ⟨hDigits, rfl⟩
    | plus hDigits => exact ⟨hDigits, rfl⟩
    | minus hDigits => exact ⟨hDigits, rfl⟩
  · intro hForm
    rw [hForm.2]
    have hDigits := hForm.1
    clear hForm
    revert hDigits
    fun_cases splitSign text with
    | case1 rest => exact fun hDigits => .minus hDigits
    | case2 rest => exact fun hDigits => .plus hDigits
    | case3 => exact fun hDigits => .bare hDigits

/-- Of the texts, exactly the decimal forms of the integers of so many bits are read, as these. -/
theorem readInt_ok {bits : Nat} {text : String} {value : Int} :
    readInt bits text = .ok value ↔
      IsDecimal text.toList value ∧ -(2 ^ (bits - 1)) ≤ value ∧ value < 2 ^ (bits - 1) := by
  have hHalf : (2 ^ (bits - 1) : Int) = ((2 ^ (bits - 1) : Nat) : Int) := by norm_cast
  have hPositive : 0 < 2 ^ (bits - 1) := Nat.two_pow_pos _
  rw [isDecimal_iff, readInt, hHalf, Nat.one_shiftLeft]
  generalize 2 ^ (bits - 1) = half at hPositive
  cases splitSign text.toList with
  | mk negative digits =>
      have hDigits (magnitude : Nat) :
          readDigits (2 * half - 1) 0 digits = .ok magnitude ↔ _ := readDigits_ok (Nat.zero_le _)
      constructor
      · intro hRead
        simp only at hRead
        split at hRead
        · cases hRead
        · rename_i hSome
          cases hMagnitude : readDigits (2 * half - 1) 0 digits with
          | error cause =>
              rw [hMagnitude] at hRead
              cases hRead
          | ok magnitude =>
              rw [hMagnitude] at hRead
              have hSpelled := (hDigits magnitude).1 hMagnitude
              have hForm : AreDigits digits := ⟨by simpa using hSome, hSpelled.1⟩
              rw [hSpelled.2.1]
              -- the sign decides which of the bounds has been checked
              cases negative with
              | true => exact ⟨⟨hForm, by grind⟩, by grind⟩
              | false => exact ⟨⟨hForm, by grind⟩, by grind⟩
      · intro hForm
        have hSome : digits.isEmpty = false := by simpa using hForm.1.1.some
        have hLimit : Nat.ofDigitChars 10 digits 0 ≤ 2 * half - 1 := by grind
        have hMagnitude := (hDigits (Nat.ofDigitChars 10 digits 0)).2
          ⟨hForm.1.1.digits, rfl, hLimit⟩
        simp only [hSome, hMagnitude]
        grind

theorem areDigits_toDigits (value : Nat) : AreDigits (Nat.toDigits 10 value) where
  some := Nat.toDigits_ne_nil
  digits := fun _ hDigit => Nat.isDigit_of_mem_toDigits (by decide) (by decide) hDigit

/-- Integers are printed in decimal form. -/
theorem isDecimal_toString (value : Int) : IsDecimal (toString value).toList value := by
  rw [Int.toString_eq_repr, Int.repr_eq_if]
  split
  · rename_i hPositive
    have hForm := IsDecimal.bare (areDigits_toDigits value.toNat)
    rw [Nat.ofDigitChars_ten_toDigits, Int.toNat_of_nonneg hPositive] at hForm
    rw [Nat.toList_repr]
    exact hForm
  · rename_i hNegative
    have hForm := IsDecimal.minus (areDigits_toDigits (-value).toNat)
    rw [Nat.ofDigitChars_ten_toDigits, Int.toNat_of_nonneg (by omega), Int.neg_neg] at hForm
    rw [String.toList_append, Nat.toList_repr]
    exact hForm

end RecordWasm.Decimal
