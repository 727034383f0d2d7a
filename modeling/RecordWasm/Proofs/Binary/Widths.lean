import RecordWasm.Proofs.Binary.Numbers

/-!
# Numbers that do not fit their width

A reader of so many bits is meant to take the numbers of at most `⌈bits / 7⌉` groups whose value has
no more bits, to give that value, and to refuse every other number.  All four readers look at one
group too many, and only that of 32 unsigned bits looks at the value.  `Width.Loses` names the
numbers that this concerns: all of them end in the last group that the width allows, or one group
later.
-/

namespace RecordWasm.Binary

/-- The widths of the readers of LEB128 numbers. -/
inductive Width where
  | u32 | u64 | s32 | s64
  deriving DecidableEq, Repr

namespace Width

def bits : Width → Nat
  | .u32 | .s32 => 32
  | .u64 | .s64 => 64

/-- The groups of seven bits that every number of the width has room in. -/
def groups (width : Width) : Nat := (width.bits + 6) / 7

/-- The reader of the width, with its words taken for the integers that they stand for. -/
def read : Width → Read Int
  | .u32 => do return (← Read.u32).toNat
  | .u64 => do return (← Read.u64).toNat
  | .s32 => do return (← Read.s32).toInt
  | .s64 => do return (← Read.s64).toInt

/-- What the bytes of a number stand for. -/
def value : Width → List UInt8 → Int
  | .u32, number | .u64, number => unsignedValue number
  | .s32, number | .s64, number => signedValue number

/-- The integers of the width. -/
def Holds : Width → Int → Prop
  | .u32, value => 0 ≤ value ∧ value < 2 ^ 32
  | .u64, value => 0 ≤ value ∧ value < 2 ^ 64
  | .s32, value => -(2 ^ 31) ≤ value ∧ value < 2 ^ 31
  | .s64, value => -(2 ^ 63) ≤ value ∧ value < 2 ^ 63

/-- The integer of the width that agrees in all its bits. -/
def wrap : Width → Int → Int
  | .u32, value => value % 2 ^ 32
  | .u64, value => value % 2 ^ 64
  | .s32, value => value.bmod (2 ^ 32)
  | .s64, value => value.bmod (2 ^ 64)

/-- The numbers that a reader of the width is to take. -/
def Fits (width : Width) (number : List UInt8) : Prop :=
  number.length ≤ width.groups ∧ width.Holds (width.value number)

/-- The reader loses no bits in front of given bytes: what it gives is what the bytes that it takes
stand for, these fit the width, and a number that does not fit overflows. -/
structure Faithful (width : Width) (cursor : Cursor) : Prop where
  taken : ∀ found next, width.read cursor = .ok found next → ∃ number, Number number ∧
    cursor.rest = number ++ next.rest ∧ next.position = cursor.position + number.length ∧
      width.Fits number ∧ width.value number = found
  refused : ∀ number rest, Number number → cursor.rest = number ++ rest → ¬width.Fits number →
    ∃ position next, width.read cursor = .error (.overflow position) next

/-- Only one reader looks at the value of a number before it takes it. -/
def Accepts (width : Width) (number : List UInt8) : Prop :=
  width = .u32 → unsignedValue number < 2 ^ 32

/-- The numbers that a reader takes although they do not fit its width: they have one group too
many, or their value has too many bits in the last group. -/
def Loses (width : Width) (number : List UInt8) : Prop :=
  width.Accepts number ∧ (number.length = width.groups + 1 ∨
    number.length = width.groups ∧ ¬width.Holds (width.value number))

theorem accepts_of_ne {width : Width} (hOther : width ≠ .u32) (number : List UInt8) :
    width.Accepts number :=
  fun hSame => absurd hSame hOther

theorem wrap_of_holds {width : Width} {value : Int} (hHolds : width.Holds value) :
    width.wrap value = value := by
  cases width with
  | u32 | u64 => exact Int.emod_eq_of_lt hHolds.1 hHolds.2
  | s32 | s64 => exact Int.bmod_eq_of_le (by simpa using hHolds.1) (by simpa using hHolds.2)

theorem unsignedValue_lt_of_length_lt {number : List UInt8} {groups : Nat} (hNumber : Number number)
    (hShort : number.length < groups + 1) : unsignedValue number < 128 ^ groups :=
  Nat.lt_of_lt_of_le hNumber.unsignedValue_lt
    (Nat.pow_le_pow_right (by decide) (Nat.le_of_lt_succ hShort))

theorem signedValue_bounds_of_length_lt {number : List UInt8} {groups : Nat}
    (hNumber : Number number) (hShort : number.length < groups + 2) :
    -(64 * 128 ^ groups) ≤ signedValue number ∧ signedValue number < 64 * 128 ^ groups := by
  have hBounds := hNumber.signedValue_bounds
  have hPower : (128 : Int) ^ (number.length - 1) ≤ 128 ^ groups :=
    mod_cast Nat.pow_le_pow_right (by decide : 0 < 128) (by omega)
  omega

/-- Numbers with a group less than the width needs fit it. -/
theorem holds_of_length_lt {width : Width} {number : List UInt8} (hNumber : Number number)
    (hShort : number.length < width.groups) : width.Holds (width.value number) := by
  cases width with
  | u32 =>
      have hValue := @unsignedValue_lt_of_length_lt _ 4 hNumber hShort
      constructor <;> rw [value] <;> omega
  | u64 =>
      have hValue := @unsignedValue_lt_of_length_lt _ 9 hNumber hShort
      constructor <;> rw [value] <;> omega
  | s32 =>
      have hValue := @signedValue_bounds_of_length_lt _ 3 hNumber hShort
      constructor <;> rw [value] <;> omega
  | s64 =>
      have hValue := @signedValue_bounds_of_length_lt _ 8 hNumber hShort
      constructor <;> rw [value] <;> omega

/-- What a reader answers to any bytes.  The value of a number is cut to the width without a
word. -/
theorem answers (width : Width) (cursor : Cursor) :
    Answers (width.groups + 1) width.Accepts (fun number => width.wrap (width.value number)) cursor
      (width.read cursor) := by
  cases width with
  | u32 =>
      rw [read, Read.u32, bind_assoc]
      refine (answers_unsigned _ cursor).check (fun number _ hAccepts => ?_)
        fun number _ hRefuses => ?_
      · have hValue : unsignedValue number < 1 <<< 32 := hAccepts rfl
        rw [if_pos hValue]
        simp [value, wrap]
      · have hValue : ¬unsignedValue number < 1 <<< 32 := fun hSmall => hRefuses fun _ => hSmall
        rw [if_neg hValue]
        rfl
  | u64 =>
      rw [read, Read.u64, bind_assoc]
      simp only [pure_bind]
      have hAll := accepts_of_ne (nofun : Width.u64 ≠ .u32)
      exact ((answers_unsigned _ cursor).map hAll).congr fun number _ => by simp [value, wrap]
  | s32 =>
      rw [read, Read.s32, bind_assoc]
      simp only [pure_bind]
      have hAll := accepts_of_ne (nofun : Width.s32 ≠ .u32)
      exact ((answers_signed _ cursor).map hAll).congr fun number _ => by simp [value, wrap]
  | s64 =>
      rw [read, Read.s64, bind_assoc]
      simp only [pure_bind]
      have hAll := accepts_of_ne (nofun : Width.s64 ≠ .u32)
      exact ((answers_signed _ cursor).map hAll).congr fun number _ => by simp [value, wrap]

/-- A number is lost exactly if it does not fit and is taken all the same. -/
theorem loses_iff {width : Width} {number : List UInt8} (hNumber : Number number) :
    width.Loses number ↔
      ¬width.Fits number ∧ number.length ≤ width.groups + 1 ∧ width.Accepts number := by
  constructor
  · rintro ⟨hAccepts, hLong | ⟨hLast, hValue⟩⟩
    · exact ⟨fun hFits => absurd hFits.1 (by omega), by omega, hAccepts⟩
    · exact ⟨fun hFits => hValue hFits.2, by omega, hAccepts⟩
  · rintro ⟨hUnfit, hShort, hAccepts⟩
    refine ⟨hAccepts, ?_⟩
    rcases Nat.lt_or_ge width.groups number.length with hLong | hFew
    · exact .inl (by omega)
    · have hValue : ¬width.Holds (width.value number) := fun hHolds => hUnfit ⟨hFew, hHolds⟩
      have hLast : ¬number.length < width.groups :=
        fun hLess => hValue (holds_of_length_lt hNumber hLess)
      exact .inr ⟨by omega, hValue⟩

/-- Any bytes are answered as `Answers` says, and a reader is faithful exactly where they do not
start with a number that it loses. -/
theorem faithful_iff (width : Width) (cursor : Cursor) :
    Answers (width.groups + 1) width.Accepts (fun number => width.wrap (width.value number)) cursor
        (width.read cursor) ∧
      (width.Faithful cursor ↔
        ∀ number rest, Number number → cursor.rest = number ++ rest → ¬width.Loses number) := by
  have hAnswers := width.answers cursor
  refine ⟨hAnswers, fun hFaithful number rest hNumber hBytes hLoses => ?_, fun hNone => ⟨?_, ?_⟩⟩
  · obtain ⟨hUnfit, hTaken⟩ := (loses_iff hNumber).1 hLoses
    have hOverflow := hFaithful.refused number rest hNumber hBytes hUnfit
    exact (hAnswers.overflow_iff hNumber hBytes).1 hOverflow hTaken
  · intro found next hRead
    rw [hRead] at hAnswers
    obtain ⟨number, hNumber, hBytes, hPlace, hShort, hAccepts, hFound⟩ := hAnswers.of_ok
    have hFits : width.Fits number := by
      by_contra hUnfit
      exact hNone number next.rest hNumber hBytes ((loses_iff hNumber).2 ⟨hUnfit, hShort, hAccepts⟩)
    rw [wrap_of_holds hFits.2] at hFound
    exact ⟨number, hNumber, hBytes, hPlace, hFits, hFound⟩
  · intro number rest hNumber hBytes hUnfit
    refine (hAnswers.overflow_iff hNumber hBytes).2 fun hTaken => ?_
    exact hNone number rest hNumber hBytes ((loses_iff hNumber).2 ⟨hUnfit, hTaken⟩)

/-- Ten groups whose last one has more than the highest bit of 64: the reader gives zero. -/
theorem u64_loses_bits :
    ¬Width.Faithful .u64 (.start [0x80, 0x80, 0x80, 0x80, 0x80, 0x80, 0x80, 0x80, 0x80, 0x02]) := by
  intro hFaithful
  obtain ⟨number, -, hBytes, -, -, hValue⟩ := hFaithful.taken 0 ⟨[], 10⟩ rfl
  rw [List.append_nil] at hBytes
  rw [← hBytes] at hValue
  exact absurd hValue (by decide)

end Width

end RecordWasm.Binary
