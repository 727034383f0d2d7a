import RecordWasm.Binary.Reader
import Mathlib.Tactic.Common
import Mathlib.Tactic.Ring

/-!
# Numbers of any length

A LEB128 number may have any number of groups and any value.  `unsignedValue` and `signedValue` say
what its bytes stand for, without a width.  `Answers` says what a reader that looks at a limited
number of groups answers to any bytes at all, and both loops over groups answer by it.
-/

namespace RecordWasm.Binary

/-- The bytes of one number: all but the last have their high bit set. -/
inductive Number : List UInt8 → Prop
  | last {group : UInt8} (hLast : group < 0x80) : Number [group]
  | more {group : UInt8} {number : List UInt8} (hMore : ¬group < 0x80) (hNumber : Number number) :
      Number (group :: number)

/-- The number that groups of seven bits make up, lowest first. -/
def unsignedValue : List UInt8 → Nat
  | [] => 0
  | group :: rest => group.toNat % 128 + 128 * unsignedValue rest

/-- The same number with the second highest bit of the last group as the sign. -/
def signedValue : List UInt8 → Int
  | [] => 0
  | [group] => if group.toNat % 128 < 64 then (group.toNat % 128 : Nat)
      else (group.toNat % 128 : Nat) - 128
  | group :: next :: rest => (group.toNat % 128 : Nat) + 128 * signedValue (next :: rest)

theorem signedValue_more (group : UInt8) {number : List UInt8} (hNumber : Number number) :
    signedValue (group :: number) = (group.toNat % 128 : Nat) + 128 * signedValue number := by
  cases hNumber with
  | last | more => rfl

namespace Number

variable {number other front rest more : List UInt8}

theorem length_pos (hNumber : Number number) : 0 < number.length := by
  cases hNumber with
  | last | more => exact Nat.succ_pos _

/-- A number ends where its bytes say so, so that at most one stands in front of given bytes. -/
theorem unique (hNumber : Number number) (hOther : Number other)
    (hBytes : number ++ rest = other ++ more) : number = other ∧ rest = more := by
  induction hNumber generalizing other with
  | last hLast =>
      cases hOther with
      | last hOther => simpa using hBytes
      | more hMore hOther =>
          cases hBytes
          exact absurd hLast hMore
  | more hMore hNumber ih =>
      cases hOther with
      | last hLast =>
          cases hBytes
          exact absurd hLast hMore
      | more hGroup hOther =>
          obtain ⟨rfl, hTail⟩ := List.cons.inj hBytes
          obtain ⟨rfl, hRest⟩ := ih hOther hTail
          exact ⟨rfl, hRest⟩

/-- Bytes that all have their high bit set are passed before a number ends. -/
theorem length_front_lt (hNumber : Number number) (hFront : ∀ group ∈ front, ¬group < 0x80)
    (hBytes : number ++ rest = front ++ more) : front.length < number.length := by
  induction hNumber generalizing front with
  | last hLast =>
      cases front with
      | nil => exact Nat.zero_lt_one
      | cons group front =>
          cases hBytes
          exact absurd hLast (hFront _ List.mem_cons_self)
  | more hMore hNumber ih =>
      cases front with
      | nil => exact Nat.succ_pos _
      | cons group front =>
          exact Nat.succ_lt_succ (ih (fun one hOne => hFront one (List.mem_cons_of_mem _ hOne))
            (List.cons.inj hBytes).2)

/-- Groups hold seven bits each. -/
theorem unsignedValue_lt (hNumber : Number number) :
    unsignedValue number < 128 ^ number.length := by
  induction hNumber with
  | @last group hLast =>
      rw [unsignedValue, unsignedValue, List.length_singleton]
      omega
  | @more group number hMore hNumber ih =>
      rw [unsignedValue, List.length_cons, Nat.pow_succ]
      omega

/-- Signed groups hold one bit less in all. -/
theorem signedValue_bounds (hNumber : Number number) :
    -(64 * 128 ^ (number.length - 1)) ≤ signedValue number ∧
      signedValue number < 64 * 128 ^ (number.length - 1) := by
  induction hNumber with
  | @last group hLast =>
      rw [signedValue, List.length_singleton, Nat.sub_self, Int.pow_zero]
      split <;> omega
  | @more group number hMore hNumber ih =>
      have hPositive := hNumber.length_pos
      have hLength : (group :: number).length - 1 = number.length - 1 + 1 := by
        rw [List.length_cons]
        omega
      rw [signedValue_more group hNumber, hLength, Int.pow_succ]
      omega

end Number

/-! ## Readers of a limited number of groups -/

/-- What a reader of at most `groups` groups answers to the bytes that it meets.  It refuses the
numbers that it does not accept where they end, and more groups than it looks at where it gives
up. -/
inductive Answers {α : Type} (groups : Nat) (Accepts : List UInt8 → Prop) (value : List UInt8 → α) :
    Cursor → EStateM.Result ReadError Cursor α → Prop
  | taken {number rest : List UInt8} {position : Nat} (hNumber : Number number)
      (hShort : number.length ≤ groups) (hAccepts : Accepts number) :
      Answers groups Accepts value ⟨number ++ rest, position⟩
        (.ok (value number) ⟨rest, position + number.length⟩)
  | refused {number rest : List UInt8} {position : Nat} (hNumber : Number number)
      (hShort : number.length ≤ groups) (hRefuses : ¬Accepts number) :
      Answers groups Accepts value ⟨number ++ rest, position⟩
        (.error (.overflow (position + number.length)) ⟨rest, position + number.length⟩)
  | endless {front rest : List UInt8} {position : Nat} (hFront : ∀ group ∈ front, ¬group < 0x80)
      (hLong : front.length = groups) :
      Answers groups Accepts value ⟨front ++ rest, position⟩
        (.error (.overflow (position + front.length)) ⟨rest, position + front.length⟩)
  | ended {front : List UInt8} {position : Nat} (hFront : ∀ group ∈ front, ¬group < 0x80)
      (hShort : front.length < groups) :
      Answers groups Accepts value ⟨front, position⟩
        (.error .endOfInput ⟨[], position + front.length⟩)

namespace Answers

variable {α β : Type} {groups : Nat} {value : List UInt8 → α} {Accepts : List UInt8 → Prop}

/-- A group in front that is not the last one. -/
theorem cons {group : UInt8} {rest : List UInt8} {position : Nat}
    {result : EStateM.Result ReadError Cursor α} (hMore : ¬group < 0x80)
    (hAnswers : Answers groups (fun number => Accepts (group :: number))
      (fun number => value (group :: number)) ⟨rest, position + 1⟩ result) :
    Answers (groups + 1) Accepts value ⟨group :: rest, position⟩ result := by
  have hPlace : ∀ bytes : List UInt8,
      position + 1 + bytes.length = position + (group :: bytes).length := fun bytes => by
    rw [List.length_cons]
    omega
  generalize hCursor : (⟨rest, position + 1⟩ : Cursor) = cursor at hAnswers
  cases hAnswers with
  | taken hNumber hShort hAccepts =>
      cases hCursor
      rw [hPlace]
      exact .taken (.more hMore hNumber) (Nat.succ_le_succ hShort) hAccepts
  | refused hNumber hShort hRefuses =>
      cases hCursor
      rw [hPlace]
      exact .refused (.more hMore hNumber) (Nat.succ_le_succ hShort) hRefuses
  | endless hFront hLong =>
      cases hCursor
      rw [hPlace]
      exact .endless (List.forall_mem_cons.2 ⟨hMore, hFront⟩) (congrArg (· + 1) hLong)
  | ended hFront hShort =>
      cases hCursor
      rw [hPlace]
      exact .ended (List.forall_mem_cons.2 ⟨hMore, hFront⟩) (Nat.succ_lt_succ hShort)

/-- Only what becomes of numbers matters. -/
theorem congr {other : List UInt8 → α} {cursor : Cursor}
    {result : EStateM.Result ReadError Cursor α}
    (hAnswers : Answers groups Accepts value cursor result)
    (hSame : ∀ number, Number number → value number = other number) :
    Answers groups Accepts other cursor result := by
  cases hAnswers with
  | taken hNumber hShort hAccepts =>
      rw [hSame _ hNumber]
      exact .taken hNumber hShort hAccepts
  | refused hNumber hShort hRefuses => exact .refused hNumber hShort hRefuses
  | endless hFront hLong => exact .endless hFront hLong
  | ended hFront hShort => exact .ended hFront hShort

/-- One turn of a loop over groups, which ends at the last group and goes on at any other. -/
theorem turn {read : UInt8 → Read α} {last : UInt8 → α} {cursor : Cursor}
    (hLast : ∀ group, group < 0x80 → value [group] = last group)
    (hMore : ∀ group cursor, ¬group < 0x80 → Answers groups (fun _ => True)
      (fun number => value (group :: number)) cursor (read group cursor)) :
    Answers (groups + 1) (fun _ => True) value cursor
      ((do
        let group ← Read.byte
        if group < 0x80 then return last group
        read group : Read α) cursor) := by
  obtain ⟨bytes, position⟩ := cursor
  cases bytes with
  | nil => exact .ended (by simp) (Nat.succ_pos _)
  | cons group rest =>
      change Answers _ _ _ _
        ((if group < 0x80 then pure (last group) else read group : Read α) ⟨rest, position + 1⟩)
      by_cases hGroup : group < 0x80
      · rw [if_pos hGroup, ← hLast group hGroup]
        exact .taken (.last hGroup) (Nat.le_add_left 1 _) trivial
      · rw [if_neg hGroup]
        exact .cons hGroup (hMore group _ hGroup)

/-- A reader that looks at the value of a number once more before it takes it. -/
theorem check {read : Read α} {use : α → Read β} {other : List UInt8 → β} {cursor : Cursor}
    (hRead : Answers groups (fun _ => True) value cursor (read cursor))
    (hTakes : ∀ number, Number number → Accepts number → use (value number) = pure (other number))
    (hRefuses : ∀ number, Number number → ¬Accepts number →
      use (value number) = Read.failHere .overflow) :
    Answers groups Accepts other cursor ((read >>= use) cursor) := by
  change Answers _ _ _ _ (EStateM.bind read use cursor)
  rw [EStateM.bind]
  generalize read cursor = result at hRead
  cases hRead with
  | @taken number rest position hNumber hShort hAccepts =>
      by_cases hNarrow : Accepts number
      · simp only [hTakes number hNumber hNarrow]
        exact .taken hNumber hShort hNarrow
      · simp only [hRefuses number hNumber hNarrow]
        exact .refused hNumber hShort hNarrow
  | refused hNumber hShort hRefuses => exact absurd trivial hRefuses
  | endless hFront hLong => exact .endless hFront hLong
  | ended hFront hShort => exact .ended hFront hShort

/-- A reader that takes every number for something else. -/
theorem map {read : Read α} {use : α → β} {cursor : Cursor} (hAll : ∀ number, Accepts number)
    (hRead : Answers groups (fun _ => True) value cursor (read cursor)) :
    Answers groups Accepts (fun number => use (value number)) cursor
      ((read >>= fun found => pure (use found)) cursor) :=
  hRead.check (fun _ _ _ => rfl) fun number _ hRefuses => absurd (hAll number) hRefuses

/-- What is given is the value of a number that is accepted. -/
theorem of_ok {cursor next : Cursor} {found : α}
    (hAnswers : Answers groups Accepts value cursor (.ok found next)) :
    ∃ number, Number number ∧ cursor.rest = number ++ next.rest ∧
      next.position = cursor.position + number.length ∧ number.length ≤ groups ∧ Accepts number ∧
        value number = found := by
  cases hAnswers with
  | @taken number rest position hNumber hShort hAccepts =>
      exact ⟨number, hNumber, rfl, rfl, hShort, hAccepts, rfl⟩

/-- A number overflows unless it is short enough and accepted. -/
theorem overflow_iff {cursor : Cursor} {number rest : List UInt8}
    {result : EStateM.Result ReadError Cursor α}
    (hAnswers : Answers groups Accepts value cursor result) (hNumber : Number number)
    (hBytes : cursor.rest = number ++ rest) :
    (∃ position next, result = .error (.overflow position) next) ↔
      ¬(number.length ≤ groups ∧ Accepts number) := by
  cases hAnswers with
  | taken hOther hShort hAccepts =>
      obtain ⟨rfl, -⟩ := hNumber.unique hOther hBytes.symm
      simp [hShort, hAccepts]
  | refused hOther hShort hRefuses =>
      obtain ⟨rfl, -⟩ := hNumber.unique hOther hBytes.symm
      simp [hRefuses]
  | endless hFront hLong =>
      have hPassed := hNumber.length_front_lt hFront hBytes.symm
      rw [hLong] at hPassed
      simp [Nat.not_le.2 hPassed]
  | @ended front position hFront hShort =>
      have hBytes : front = number ++ rest := hBytes
      have hPassed :=
        hNumber.length_front_lt hFront (hBytes.symm.trans (List.append_nil front).symm)
      rw [hBytes, List.length_append] at hPassed
      omega

end Answers

theorem answers_unsignedGroups (groups shift done : Nat) (cursor : Cursor) :
    Answers groups (fun _ => True) (fun number => done + unsignedValue number * 2 ^ shift) cursor
      (Read.unsignedGroups groups shift done cursor) := by
  induction groups generalizing shift done cursor with
  | zero => exact @Answers.endless _ 0 _ _ [] cursor.rest cursor.position (by simp) rfl
  | succ groups ih =>
      refine Answers.turn (fun group hLast => ?_) fun group cursor hMore => (ih _ _ _).congr ?_
      · rw [unsignedValue, unsignedValue, Nat.shiftLeft_eq]
        ring
      · intro number hNumber
        rw [unsignedValue, Nat.shiftLeft_eq, Nat.pow_add]
        ring

theorem answers_signedGroups (groups shift done : Nat) (cursor : Cursor) :
    Answers groups (fun _ => True) (fun number => done + signedValue number * 2 ^ shift) cursor
      (Read.signedGroups groups shift done cursor) := by
  induction groups generalizing shift done cursor with
  | zero => exact @Answers.endless _ 0 _ _ [] cursor.rest cursor.position (by simp) rfl
  | succ groups ih =>
      refine Answers.turn (fun group hLast => ?_) fun group cursor hMore => (ih _ _ _).congr ?_
      · rw [signedValue, Nat.shiftLeft_eq, Nat.shiftLeft_eq, Nat.pow_add]
        split
        · push_cast
          ring
        · push_cast
          ring
      · intro number hNumber
        rw [signedValue_more group hNumber, Nat.shiftLeft_eq, Int.pow_add]
        push_cast
        ring

/-- A whole unsigned number is read as what it stands for. -/
theorem answers_unsigned (groups : Nat) (cursor : Cursor) :
    Answers groups (fun _ => True) unsignedValue cursor (Read.unsignedGroups groups 0 0 cursor) :=
  (answers_unsignedGroups groups 0 0 cursor).congr fun number _ => by simp

/-- A whole signed number is read as what it stands for. -/
theorem answers_signed (groups : Nat) (cursor : Cursor) :
    Answers groups (fun _ => True) signedValue cursor (Read.signedGroups groups 0 0 cursor) :=
  (answers_signedGroups groups 0 0 cursor).congr fun number _ => by simp

end RecordWasm.Binary
