import RecordWasm.Proofs.Binary.Spending

/-!
# Integers, names and vectors read back

An integer is written as one number that stands for it, and no number of its value is shorter.
Every reader takes what its writer wrote, whatever follows.  The length in front of a name or a
vector is a word: of longer ones only the front is taken, so that these are not read back.
-/

namespace RecordWasm.Binary

/-- One number of a value, no longer than the others of that value and of at most so many groups. -/
structure Shortest {ν : Type} (value : List UInt8 → ν) (amount : ν) (groups : Nat)
    (bytes : List UInt8) : Prop where
  number : Number bytes
  stands : value bytes = amount
  least : ∀ other, Number other → value other = amount → bytes.length ≤ other.length
  few : bytes.length ≤ groups

theorem lastGroup_stands {value : Nat} (hSmall : value < 128) :
    Number [value.toUInt8] ∧ unsignedValue [value.toUInt8] = value := by
  constructor
  · exact .last (lastGroup_lt hSmall)
  · simp only [unsignedValue, toNat_lastGroup hSmall]
    omega

/-- The groups that are written for an unsigned number stand for it. -/
theorem unsignedGroups_stands {more value : Nat} (hFits : value < 128 ^ (more + 1)) :
    Number (Write.unsignedGroups more value) ∧
      unsignedValue (Write.unsignedGroups more value) = value := by
  induction more generalizing value with
  | zero =>
      have hSmall : value < 128 := by simpa using hFits
      rw [Write.unsignedGroups, Nat.mod_eq_of_lt hSmall]
      exact lastGroup_stands hSmall
  | succ more ih =>
      rw [Write.unsignedGroups]
      split
      · rename_i hSmall
        exact lastGroup_stands hSmall
      · have hLow : value % 128 < 128 := Nat.mod_lt value (by decide)
        have hHigh : value / 128 < 128 ^ (more + 1) := by
          rw [Nat.pow_succ] at hFits
          omega
        obtain ⟨hNumber, hValue⟩ := ih hHigh
        constructor
        · exact .more (not_moreGroup_lt hLow) hNumber
        · rw [unsignedValue, toNat_moreGroup hLow, hValue]
          omega

theorem signGroup_stands {value : Int} (hLow : -64 ≤ value) (hHigh : value < 64) :
    Number [(value % 128).toNat.toUInt8] ∧ signedValue [(value % 128).toNat.toUInt8] = value := by
  have hGroup : (value % 128).toNat < 128 := by omega
  constructor
  · exact .last (lastGroup_lt hGroup)
  · rw [signedValue, toNat_lastGroup hGroup]
    split <;> omega

/-- The groups that are written for a signed number stand for it. -/
theorem signedGroups_stands {more : Nat} {value : Int} (hLow : -(64 * 128 ^ more) ≤ value)
    (hHigh : value < 64 * 128 ^ more) :
    Number (Write.signedGroups more value) ∧
      signedValue (Write.signedGroups more value) = value := by
  induction more generalizing value with
  | zero =>
      rw [Write.signedGroups]
      exact signGroup_stands (by simpa using hLow) (by simpa using hHigh)
  | succ more ih =>
      rw [Write.signedGroups]
      split
      · rename_i hSmall
        exact signGroup_stands hSmall.1 hSmall.2
      · have hGroup : (value % 128).toNat < 128 := by omega
        rw [Int.pow_succ] at hLow hHigh
        have hBelow : -(64 * 128 ^ more) ≤ value / 128 := by omega
        have hAbove : value / 128 < 64 * 128 ^ more := by omega
        obtain ⟨hNumber, hValue⟩ := ih hBelow hAbove
        constructor
        · exact .more (not_moreGroup_lt hGroup) hNumber
        · rw [signedValue_more _ hNumber, toNat_moreGroup hGroup, hValue]
          omega

/-- An unsigned number that fits in some groups is written in as few as hold it. -/
theorem shortest_unsigned (groups : Nat) {value : Nat} (hGroups : groups ≤ 9)
    (hFits : value < 128 ^ (groups + 1)) :
    Shortest unsignedValue value (groups + 1) (Write.unsignedGroups 9 value) := by
  have hWide : value < 128 ^ (9 + 1) :=
    Nat.lt_of_lt_of_le hFits (Nat.pow_le_pow_right (by decide) (Nat.succ_le_succ hGroups))
  obtain ⟨hNumber, hValue⟩ := unsignedGroups_stands hWide
  refine ⟨hNumber, hValue, ?_, length_unsignedGroups_le hFits⟩
  intro other hOther hSame
  have hLength : other.length = other.length - 1 + 1 := (Nat.sub_add_cancel hOther.length_pos).symm
  have hBound := hOther.unsignedValue_lt
  rw [hSame, hLength] at hBound
  rw [hLength]
  exact length_unsignedGroups_le hBound

/-- A signed number that fits in some groups is written in as few as hold it. -/
theorem shortest_signed (groups : Nat) {value : Int} (hGroups : groups ≤ 9)
    (hLow : -(64 * 128 ^ groups) ≤ value) (hHigh : value < 64 * 128 ^ groups) :
    Shortest signedValue value (groups + 1) (Write.signedGroups 9 value) := by
  have hPower : (128 : Int) ^ groups ≤ 128 ^ 9 :=
    mod_cast Nat.pow_le_pow_right (by decide : 0 < 128) hGroups
  obtain ⟨hNumber, hValue⟩ := @signedGroups_stands 9 value (by omega) (by omega)
  refine ⟨hNumber, hValue, ?_, length_signedGroups_le hLow hHigh⟩
  intro other hOther hSame
  have hBounds := hOther.signedValue_bounds
  rw [hSame] at hBounds
  have hLength := @length_signedGroups_le 9 _ _ hBounds.1 hBounds.2
  rwa [Nat.sub_add_cancel hOther.length_pos] at hLength

theorem shortest_u32 (value : UInt32) :
    Shortest unsignedValue value.toNat 5 (Write.u32 value) := by
  have hFits := value.toNat_lt
  rw [Write.u32, Write.u64, UInt32.toNat_toUInt64]
  exact shortest_unsigned 4 (by decide) (by omega)

theorem shortest_u64 (value : UInt64) :
    Shortest unsignedValue value.toNat 10 (Write.u64 value) := by
  have hFits := value.toNat_lt
  rw [Write.u64]
  exact shortest_unsigned 9 (by decide) (by omega)

theorem shortest_s32 (value : Int32) : Shortest signedValue value.toInt 5 (Write.s32 value) := by
  have hLow := value.le_toInt
  have hHigh := value.toInt_lt
  rw [Write.s32, Write.s64, Int32.toInt_toInt64]
  exact shortest_signed 4 (by decide) (by omega) (by omega)

theorem shortest_s64 (value : Int64) : Shortest signedValue value.toInt 10 (Write.s64 value) := by
  have hLow := value.le_toInt
  have hHigh := value.toInt_lt
  rw [Write.s64]
  exact shortest_signed 9 (by decide) (by omega) (by omega)

/-- Of a vector, as many bytes are taken as the length in front says, which has 32 bits. -/
theorem vec_front (content : List UInt8) :
    ∃ count < 2 ^ 32, Read.vec ⟨Write.vec content, 0⟩ =
      .ok (content.take count) ⟨content.drop count,
        (Write.u32 content.length.toUInt32).length + count⟩ := by
  refine ⟨content.length.toUInt32.toNat, UInt32.toNat_lt _, ?_⟩
  have hCount := toNat_toUInt32_le content.length
  have hTake := Takes.take (content.take content.length.toUInt32.toNat)
  rw [List.length_take, Nat.min_eq_left hCount] at hTake
  have hTakes : Takes Read.vec
      (Write.u32 content.length.toUInt32 ++ content.take content.length.toUInt32.toNat)
      (content.take content.length.toUInt32.toNat) :=
    (Takes.u32 content.length.toUInt32).bind hTake
  have hRead := hTakes (content.drop content.length.toUInt32.toNat) 0
  rw [List.append_assoc, List.take_append_drop, List.length_append, List.length_take,
    Nat.min_eq_left hCount, Nat.zero_add] at hRead
  exact hRead

/-- A vector is read back exactly if its length has 32 bits. -/
theorem takes_vec_iff (content : List UInt8) :
    Takes Read.vec (Write.vec content) content ↔ content.length < 2 ^ 32 := by
  constructor
  · intro hTakes
    obtain ⟨count, hCount, hFront⟩ := vec_front content
    have hWhole := hTakes.whole
    rw [Cursor.start, hFront] at hWhole
    have hRest : content.drop count = [] := by
      simp only [EStateM.Result.ok.injEq, Cursor.mk.injEq] at hWhole
      exact hWhole.2.1
    exact Nat.lt_of_le_of_lt (List.drop_eq_nil_iff.1 hRest) hCount
  · exact Takes.vec

/-- What follows the bytes of a name is left unread. -/
theorem rest_of_name {cursor next after : Cursor} {content : List UInt8} {text : String}
    (hVec : Read.vec cursor = .ok content next) (hName : Read.name cursor = .ok text after) :
    after = next := by
  rw [Read.name] at hName
  simp only [bind, EStateM.bind, hVec, Read.text] at hName
  cases hText : String.fromUTF8? ⟨content.toArray⟩ with
  | none =>
      rw [hText] at hName
      cases hName
  | some found =>
      rw [hText] at hName
      cases hName
      rfl

/-- A name is read back exactly if its length has 32 bits. -/
theorem takes_name_iff (text : String) :
    Takes Read.name (Write.name text) text ↔ text.toUTF8.toList.length < 2 ^ 32 := by
  constructor
  · intro hTakes
    obtain ⟨count, hCount, hFront⟩ := vec_front text.toUTF8.toList
    have hSame := rest_of_name hFront hTakes.whole
    have hRest : text.toUTF8.toList.drop count = [] := by
      simp only [Cursor.mk.injEq] at hSame
      exact hSame.1.symm
    exact Nat.lt_of_le_of_lt (List.drop_eq_nil_iff.1 hRest) hCount
  · exact Takes.name

/-- Whatever follows it, what is written for an integer is read back, and so is a name or a vector
whose length has 32 bits.  Integers are written as the shortest numbers that stand for them, which
have at most five groups for 32 bits and ten for 64. -/
theorem written_read_back :
    (∀ value : UInt32, Takes Read.u32 (Write.u32 value) value ∧
      Shortest unsignedValue value.toNat 5 (Write.u32 value)) ∧
    (∀ value : UInt64, Takes Read.u64 (Write.u64 value) value ∧
      Shortest unsignedValue value.toNat 10 (Write.u64 value)) ∧
    (∀ value : Int32, Takes Read.s32 (Write.s32 value) value ∧
      Shortest signedValue value.toInt 5 (Write.s32 value)) ∧
    (∀ value : Int64, Takes Read.s64 (Write.s64 value) value ∧
      Shortest signedValue value.toInt 10 (Write.s64 value)) ∧
    (∀ text : String, Takes Read.name (Write.name text) text ↔
      text.toUTF8.toList.length < 2 ^ 32) ∧
    ∀ content : List UInt8, Takes Read.vec (Write.vec content) content ↔
      content.length < 2 ^ 32 := by
  refine ⟨?_, ?_, ?_, ?_, takes_name_iff, takes_vec_iff⟩
  · intro value
    exact ⟨Takes.u32 value, shortest_u32 value⟩
  · intro value
    exact ⟨Takes.u64 value, shortest_u64 value⟩
  · intro value
    exact ⟨Takes.s32 value, shortest_s32 value⟩
  · intro value
    exact ⟨Takes.s64 value, shortest_s64 value⟩

end RecordWasm.Binary
