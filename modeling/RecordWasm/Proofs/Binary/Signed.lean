import RecordWasm.Heap
import RecordWasm.Machine.Engine
import Mathlib.Tactic.Common
import Mathlib.Tactic.LinearCombination
import Mathlib.Tactic.Ring

/-!
# Signed numbers read back

The groups that a signed number is written in are read back as the number, whatever follows them.
`initialValue_wordGlobal` draws the conclusion for globals: one that is set up with a word starts
out with it.
-/

namespace RecordWasm.Binary

/-- The lowest group of a number as a byte. -/
theorem toNat_group (value : Int) (high : Nat) (hHigh : high ≤ 128) :
    ((value % 128).toNat + high).toUInt8.toNat = (value % 128).toNat + high := by
  rw [Nat.toUInt8_eq, UInt8.toNat_ofNat']
  omega

/-- A last group carries the sign of the number. -/
theorem signed_last {value : Int} (hLow : -64 ≤ value) (hHigh : value < 64) (shift done : Nat) :
    (if (value % 128).toNat % 128 < 64 then
        ((done + ((value % 128).toNat % 128) <<< shift : Nat) : Int)
      else ((done + ((value % 128).toNat % 128) <<< shift : Nat) : Int) - (1 <<<
        (shift + 7) : Nat)) =
      done + value * 2 ^ shift := by
  have hPower : ((1 <<< (shift + 7) : Nat) : Int) = 128 * 2 ^ shift := by
    rw [Nat.shiftLeft_eq, Nat.pow_add]
    push_cast
    ring
  rw [hPower, Nat.shiftLeft_eq]
  rcases lt_or_ge value 0 with hNegative | hPositive
  · have hDigit : (value % 128).toNat = (value + 128).toNat := by omega
    have hMod : (value + 128).toNat % 128 = (value + 128).toNat := by omega
    rw [hDigit, hMod, if_neg (by omega)]
    push_cast
    rw [Int.toNat_of_nonneg (by omega)]
    ring
  · have hDigit : (value % 128).toNat = value.toNat := by omega
    have hMod : value.toNat % 128 = value.toNat := by omega
    rw [hDigit, hMod, if_pos (by omega)]
    push_cast
    rw [Int.toNat_of_nonneg hPositive]

theorem signedGroups_small (rest : List UInt8) {value : Int} (hLow : -64 ≤ value)
    (hHigh : value < 64) (budget shift done position : Nat) :
    Read.signedGroups (budget + 1) shift done ⟨(value % 128).toNat.toUInt8 :: rest, position⟩ =
      .ok (done + value * 2 ^ shift) ⟨rest, position + 1⟩ := by
  have hByte := toNat_group value 0 (by omega)
  rw [Nat.add_zero] at hByte
  have hLast : (value % 128).toNat.toUInt8 < 0x80 := by
    rw [UInt8.lt_iff_toNat_lt, hByte]
    have hTop : (0x80 : UInt8).toNat = 128 := rfl
    omega
  have hSign := signed_last hLow hHigh shift done
  rw [← hByte] at hSign
  rw [Read.signedGroups]
  simp only [Read.byte, bind, EStateM.bind, if_pos hLast, pure, EStateM.pure, hSign]

/-- Signed groups read back if the number fits in the groups that are looked at. -/
theorem signedGroups_write (rest : List UInt8) (budget more groups : Nat) (value : Int)
    (hBudget : groups < budget) (hMore : groups ≤ more) (hLow : -(64 * 128 ^ groups) ≤ value)
    (hHigh : value < 64 * 128 ^ groups) (shift done position : Nat) :
    Read.signedGroups budget shift done ⟨Write.signedGroups more value ++ rest, position⟩ =
      .ok (done + value * 2 ^ shift)
        ⟨rest, position + (Write.signedGroups more value).length⟩ := by
  induction groups generalizing budget more value shift done position with
  | zero =>
      obtain ⟨budget, rfl⟩ := Nat.exists_eq_add_of_lt hBudget
      have hWrite : Write.signedGroups more value = [(value % 128).toNat.toUInt8] := by
        cases more with
        | zero => rfl
        | succ more => exact if_pos ⟨by omega, by omega⟩
      rw [hWrite]
      exact signedGroups_small rest (by omega) (by omega) _ shift done position
  | succ groups ih =>
      obtain ⟨more, rfl⟩ := Nat.exists_eq_add_of_lt hMore
      obtain ⟨budget, rfl⟩ := Nat.exists_eq_add_of_lt hBudget
      rw [Write.signedGroups]
      split
      · rename_i hSmall
        exact signedGroups_small rest hSmall.1 hSmall.2 _ shift done position
      · have hByte := toNat_group value 128 (by omega)
        have hMiddle : ¬((value % 128).toNat + 128).toUInt8 < 0x80 := by
          rw [UInt8.lt_iff_toNat_lt, hByte]
          have hTop : (0x80 : UInt8).toNat = 128 := rfl
          omega
        have hDigit : ((value % 128).toNat + 128) % 128 = (value % 128).toNat := by omega
        rw [Int.pow_succ] at hLow hHigh
        have hRest :=
          ih (groups + 1 + budget) (groups + more) (value / 128)
            (by omega) (by omega) (by omega) (by omega) (shift + 7)
            (done + (value % 128).toNat <<< shift) (position + 1)
        have hSum : ((done + (value % 128).toNat <<< shift : Nat) : Int) +
            value / 128 * 2 ^ (shift + 7) = done + value * 2 ^ shift := by
          have hSplit := Int.emod_add_mul_ediv value 128
          have hNat : ((value % 128).toNat : Int) = value % 128 := Int.toNat_of_nonneg (by omega)
          rw [Nat.shiftLeft_eq, Int.pow_add]
          push_cast
          rw [hNat]
          linear_combination (2 ^ shift : Int) * hSplit
        rw [hSum] at hRest
        rw [List.cons_append, Read.signedGroups]
        simp only [Read.byte, bind, EStateM.bind, if_neg hMiddle, hByte, hDigit, hRest,
          List.length_cons]
        rw [Nat.add_assoc, Nat.add_comm 1]

/-- Signed 32-bit numbers read back. -/
theorem s32_write (number : Int32) (rest : List UInt8) (position : Nat) :
    Read.s32 ⟨Write.s32 number ++ rest, position⟩ =
      .ok number ⟨rest, position + (Write.s32 number).length⟩ := by
  have hLow := number.le_toInt
  have hHigh := number.toInt_lt
  have hRead := signedGroups_write rest (Read.maxGroups 32) 9 4 number.toInt64.toInt (by decide)
    (by decide) (by simp; omega) (by simp; omega)
    0 0 position
  rw [Read.s32]
  simp only [bind, EStateM.bind, Write.s32, Write.s64, hRead, pure, EStateM.pure]
  simp

end RecordWasm.Binary

namespace RecordWasm.Machine

open Binary Wasm

/-- A constant in front of other code is decoded first. -/
theorem decodeUpTo_i32Const (count : Nat) (number : Int32) (rest : List UInt8) (position : Nat) :
    Instr.decodeUpTo (count + 1) ⟨(Instr.i32Const number).encode ++ rest, position⟩ =
      (Instr.decodeUpTo count ⟨rest, position + 1 + (Write.s32 number).length⟩).map
        (Instr.i32Const number :: ·) := by
  rw [Instr.decodeUpTo]
  simp only [Instr.encode, List.cons_append, Instr.i32Const, Opcode.with, Opcode.ofByte?_byte,
    Immediate.encode, Opcode.operand, bind, EStateM.bind, s32_write, pure, EStateM.pure,
    Except.bind, Except.pure, Except.map]

theorem decodeUpTo_close (count position : Nat) :
    Instr.decodeUpTo (count + 1) ⟨Instr.close.encode, position⟩ = .ok [Instr.close] := by
  have hNothing : Instr.decodeUpTo count ⟨[], position + 1⟩ = .ok [] := by cases count <;> rfl
  rw [Instr.decodeUpTo]
  simp only [Instr.encode, Instr.close, Opcode.instr, Opcode.ofByte?_byte, Immediate.encode,
    Opcode.operand, pure, EStateM.pure, Except.pure, bind, Except.bind, hNothing]

/-- A global that is set up with a word starts out with it. -/
theorem initialValue_wordGlobal (value : UInt32) :
    initialValue (Heap.wordGlobal value) = .i32 value := by
  have hCode : Instr.i32ConstExpr value.toInt32 =
      (Instr.i32Const value.toInt32).encode ++ Instr.close.encode := by
    simp [Instr.i32ConstExpr, Instr.encodeAll]
  have hLength : (Instr.i32ConstExpr value.toInt32).length =
      (Write.s32 value.toInt32).length + 1 + 1 := by
    rw [hCode, List.length_append]
    rfl
  rw [initialValue, Heap.wordGlobal, Instr.decodeAll, hLength, hCode, Cursor.start,
    decodeUpTo_i32Const, decodeUpTo_close]
  simp [Except.map, Instr.i32Const, Opcode.with]

end RecordWasm.Machine
