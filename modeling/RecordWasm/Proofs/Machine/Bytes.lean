import RecordWasm.Machine.Memory
import Mathlib.Algebra.Group.Nat.Defs
import Mathlib.Tactic.Common

/-!
# Values in memory

A value that was written is read back, and a write leaves alone what lies outside its range.
-/

namespace RecordWasm.Machine

open Wasm

theorem length_littleEndian (count value : Nat) :
    (Binary.Write.littleEndian count value).length = count := by
  induction count generalizing value with
  | zero => rfl
  | succ count ih => rw [Binary.Write.littleEndian, List.length_cons, ih]

@[simp] theorem Value.length_bytes (value : Value) :
    value.bytes.length = storageSize value.type := by
  cases value <;> simp [Value.bytes, length_littleEndian, storageSize, Value.type]

namespace Memory

variable {memory after : Memory}

theorem getD_slice {address length offset : Nat} (hOffset : offset < length) :
    (memory.slice address length).getD offset 0 = memory.byte (address + offset) := by
  induction length generalizing address offset with
  | zero => omega
  | succ length ih =>
      cases offset with
      | zero => rfl
      | succ offset =>
          rw [slice, List.getD_cons_succ, ih (by omega), Nat.add_right_comm, Nat.add_assoc]

/-- The bytes of a range are what they are one by one. -/
theorem slice_eq {address length : Nat} {bytes : List UInt8} (hLength : bytes.length = length)
    (hBytes : ∀ offset, offset < length → memory.byte (address + offset) = bytes.getD offset 0) :
    memory.slice address length = bytes := by
  induction length generalizing address bytes with
  | zero => rw [List.length_eq_zero_iff.1 hLength, slice]
  | succ length ih =>
      obtain ⟨first, rest, rfl⟩ := List.exists_cons_of_length_eq_add_one hLength
      rw [slice, ih (Nat.succ.inj hLength) fun offset hOffset => ?_]
      · rw [← Nat.add_zero address, hBytes 0 (by omega)]
        rfl
      · rw [Nat.add_right_comm, Nat.add_assoc, hBytes (offset + 1) (by omega)]
        rfl

/-- A memory that is not larger than the addresses reach. -/
def Small (memory : Memory) : Prop := memory.size ≤ 2 ^ 32

/-- What a write does, byte by byte. -/
theorem write?_eq_some {address : Nat} {bytes : List UInt8} (hSmall : memory.Small)
    (hFits : address + bytes.length ≤ memory.size) :
    ∃ after, memory.write? address bytes = some after ∧ after.pages = memory.pages ∧
      after.limit = memory.limit ∧
      ∀ target, target < memory.size → after.byte target =
        if address ≤ target ∧ target < address + bytes.length then bytes.getD (target - address) 0
        else memory.byte target := by
  refine ⟨_, if_pos (by simpa [covers] using hFits), rfl, rfl, fun target hTarget => ?_⟩
  have hSize : 1 <<< addressBits = 2 ^ 32 := by decide
  rw [Small] at hSmall
  exact get_fill _ _ _ _ (by omega) (by omega)

/-- A value stands at an address. -/
def Contains (memory : Memory) (address : Nat) (value : Value) : Prop :=
  memory.read? address (storageSize value.type) = some value.bytes

theorem contains_iff {address : Nat} {value : Value} :
    memory.Contains address value ↔ address + storageSize value.type ≤ memory.size ∧
      ∀ offset, offset < storageSize value.type →
        memory.byte (address + offset) = value.bytes.getD offset 0 := by
  rw [Contains, read?]
  by_cases hInside : address + storageSize value.type ≤ memory.size
  · simp only [covers, hInside, decide_true, if_true, Option.some.injEq, true_and]
    constructor
    · intro hSlice offset hOffset
      rw [← hSlice, getD_slice hOffset]
    · exact slice_eq value.length_bytes
  · simp [covers, hInside]

/-- A value stays where it is if the bytes of its range do and the memory does not shrink. -/
theorem Contains.of_same {address : Nat} {value : Value} (hContains : memory.Contains address value)
    (hSize : memory.size ≤ after.size)
    (hSame : ∀ target, address ≤ target → target < address + storageSize value.type →
      after.byte target = memory.byte target) : after.Contains address value := by
  rw [contains_iff] at hContains ⊢
  obtain ⟨hInside, hBytes⟩ := hContains
  refine ⟨by omega, fun offset hOffset => ?_⟩
  rw [hSame _ (by omega) (by omega), hBytes offset hOffset]

end Memory

end RecordWasm.Machine
