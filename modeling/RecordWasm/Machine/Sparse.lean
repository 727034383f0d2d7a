/-!
# Sparse byte arrays

A binary trie over the bits of an address, lowest bit first.  Bytes that were never written are
zero and take no room.  The view of an array is `get`, and `get_set` says what a write does to it.
-/

namespace RecordWasm.Machine

inductive Sparse where
  | blank
  | byte (value : UInt8)
  | fork (even odd : Sparse)
  deriving Repr

namespace Sparse

/-- The two halves of an array, the even addresses first. -/
def halves : Sparse → Sparse × Sparse
  | fork even odd => (even, odd)
  | _ => (blank, blank)

/-- The byte at an address of the given number of bits. -/
def get : (bits : Nat) → Sparse → (address : Nat) → UInt8
  | 0, byte value, _ => value
  | 0, _, _ => 0
  | bits + 1, fork even odd, address =>
      if address % 2 = 0 then get bits even (address / 2) else get bits odd (address / 2)
  | _ + 1, _, _ => 0

/-- Writes the byte at an address of the given number of bits. -/
def set : (bits : Nat) → Sparse → (address : Nat) → UInt8 → Sparse
  | 0, _, _, value => byte value
  | bits + 1, array, address, value =>
      let (even, odd) := array.halves
      if address % 2 = 0 then fork (set bits even (address / 2) value) odd
      else fork even (set bits odd (address / 2) value)

@[simp] theorem get_blank (bits address : Nat) : get bits blank address = 0 := by
  cases bits <;> rfl

theorem get_halves (bits : Nat) (array : Sparse) (address : Nat) :
    get (bits + 1) array address =
      if address % 2 = 0 then get bits array.halves.1 (address / 2)
      else get bits array.halves.2 (address / 2) := by
  cases array <;> simp [get, halves]

/-- A write changes the byte at its address and no other. -/
theorem get_set (bits : Nat) (array : Sparse) (target address : Nat) (value : UInt8)
    (hTarget : target < 1 <<< bits) (hAddress : address < 1 <<< bits) :
    get bits (set bits array target value) address =
      if address = target then value else get bits array address := by
  induction bits generalizing array target address with
  | zero =>
      have hEqual : address = target := by simp at hTarget hAddress; omega
      simp [set, get, hEqual]
  | succ bits ih =>
      have hDouble : 1 <<< (bits + 1) = 2 * 1 <<< bits := Nat.shiftLeft_succ 1 bits
      have hTarget' : target / 2 < 1 <<< bits := by omega
      have hAddress' : address / 2 < 1 <<< bits := by omega
      have hEqual : address = target ↔ address % 2 = target % 2 ∧ address / 2 = target / 2 := by
        omega
      rw [get_halves bits array]
      by_cases hEven : target % 2 = 0 <;> by_cases hSame : address % 2 = 0 <;>
        grind [set, get]

end Sparse

end RecordWasm.Machine
