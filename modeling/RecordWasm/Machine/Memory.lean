import RecordWasm.Machine.Sparse
import RecordWasm.Machine.Value
import RecordWasm.Wasm.Module

/-!
# Linear memory

A memory is a number of pages and their bytes.  It can be asked to grow; the request fails beyond
the limit, and may be refused before that: `verdicts` holds the answers to the coming requests, and
when they are used up, every request within the limit is granted.
-/

namespace RecordWasm.Machine

open Wasm

structure Memory where
  pages : Nat
  limit : Nat
  content : Sparse := .blank
  verdicts : List Bool := []
  deriving Repr

namespace Memory

/-- The number of bits of an address. -/
def addressBits : Nat := 32

/-- The size in bytes. -/
def size (memory : Memory) : Nat := memory.pages * pageSize

/-- The byte at an address. -/
def byte (memory : Memory) (address : Nat) : UInt8 := memory.content.get addressBits address

/-- Whether a range of addresses lies inside the memory. -/
def covers (memory : Memory) (address length : Nat) : Bool := address + length ≤ memory.size

/-- The bytes of a range of addresses. -/
def slice (memory : Memory) (address : Nat) : (length : Nat) → List UInt8
  | 0 => []
  | length + 1 => memory.byte address :: slice memory (address + 1) length

/-- The bytes of a range of addresses, if it lies inside the memory. -/
def read? (memory : Memory) (address length : Nat) : Option (List UInt8) :=
  if memory.covers address length then some (memory.slice address length) else none

/-- Puts bytes into the content, one address after the other. -/
def fill (content : Sparse) (address : Nat) : List UInt8 → Sparse
  | [] => content
  | first :: rest => fill (content.set addressBits address first) (address + 1) rest

/-- Filling changes the bytes of its range and no others. -/
theorem get_fill (content : Sparse) (address : Nat) (bytes : List UInt8) (target : Nat)
    (hFits : address + bytes.length ≤ 1 <<< addressBits) (hTarget : target < 1 <<< addressBits) :
    (fill content address bytes).get addressBits target =
      if address ≤ target ∧ target < address + bytes.length then bytes.getD (target - address) 0
      else content.get addressBits target := by
  induction bytes generalizing content address with
  | nil =>
      have hNone : ¬(address ≤ target ∧ target < address + ([] : List UInt8).length) := by
        rw [List.length_nil]
        omega
      rw [if_neg hNone, fill]
  | cons first rest ih =>
      rw [List.length_cons] at hFits ⊢
      rw [fill, ih _ _ (by omega),
        Sparse.get_set addressBits content address target first (by omega) hTarget]
      by_cases hHere : target = address
      · subst hHere
        rw [if_neg (by omega), if_pos rfl, if_pos (by omega), Nat.sub_self, List.getD_cons_zero]
      · by_cases hRange : address + 1 ≤ target ∧ target < address + 1 + rest.length
        · have hNext : target - address = target - (address + 1) + 1 := by omega
          rw [if_pos hRange, if_pos (by omega), hNext, List.getD_cons_succ]
        · rw [if_neg hRange, if_neg hHere, if_neg (by omega)]

/-- Writes bytes from an address on, if they fit into the memory. -/
def write? (memory : Memory) (address : Nat) (bytes : List UInt8) : Option Memory :=
  if memory.covers address bytes.length then
    some { memory with content := fill memory.content address bytes }
  else none

/-- Asks for more pages: the number of pages before, if the request is granted. -/
def grow (memory : Memory) (delta : Nat) : Option Nat × Memory :=
  let granted := memory.verdicts.headD true && memory.pages + delta ≤ memory.limit
  let after := { memory with verdicts := memory.verdicts.tail }
  if granted then (some memory.pages, { after with pages := memory.pages + delta })
  else (none, after)

end Memory

end RecordWasm.Machine
