import RecordWasm.Proofs.Lowering.Results
import RecordWasm.Proofs.Machine.Perform

/-!
# Code that pushes a constant

A constant is pushed by code that looks at neither locals nor memory and changes nothing but the
stack.  Numbers, with any number of minus signs in front, are lowered to such code, wherever they
stand.
-/

namespace RecordWasm.Lowering

open Syntax Layout Wasm Machine

/-- Code that pushes one value, the same in every state, and does nothing else. -/
def Pushes (code : Code) (value : Value) : Prop :=
  ∀ types functions state, Through types functions code state (state.push value)

namespace Pushes

variable {first second : Code} {left right result : Value}

/-- An instruction that pushes a value. -/
theorem of_plain {opcode : Opcode} {immediate : Immediate} (hPlain : isPlain opcode = true)
    (hPerform : ∀ state : State, state.perform opcode immediate = .ok (state.push result)) :
    Pushes [opcode.with immediate] result := by
  intro types functions state
  obtain ⟨fuel, hRun⟩ := (Leads.plain (hPerform state) : Leads functions 0 _ _ _)
  exact ⟨_, fuel, Reads.plain hPlain, hRun⟩

/-- An operator behind its operand. -/
theorem unary {opcode : Opcode} (hPlain : isPlain opcode = true) (hFirst : Pushes first left)
    (hPerform : ∀ store locals below, State.perform ⟨store, locals, left :: below⟩ opcode .none =
      .ok ⟨store, locals, result :: below⟩) :
    Pushes (first ++ [opcode.instr]) result := by
  intro types functions state
  obtain ⟨fuel, hRun⟩ := (Leads.plain (hPerform state.store state.locals state.stack) :
    Leads functions 0 _ _ _)
  exact (hFirst types functions state).append ⟨_, fuel, reads_operation hPlain, hRun⟩

/-- An operator behind its operands. -/
theorem binary {opcode : Opcode} (hPlain : isPlain opcode = true) (hFirst : Pushes first left)
    (hSecond : Pushes second right)
    (hPerform : ∀ store locals below,
      State.perform ⟨store, locals, right :: left :: below⟩ opcode .none =
        .ok ⟨store, locals, result :: below⟩) :
    Pushes (first ++ second ++ [opcode.instr]) result := by
  intro types functions state
  obtain ⟨fuel, hRun⟩ := (Leads.plain (hPerform state.store state.locals state.stack) :
    Leads functions 0 _ _ _)
  exact ((hFirst types functions state).append (hSecond types functions _)).append
    ⟨_, fuel, reads_operation hPlain, hRun⟩

theorem i32Const (number : Int32) : Pushes [.i32Const number] (.i32 number.toUInt32) :=
  of_plain rfl fun _ => rfl

/-- An integer as a constant of a type. -/
theorem constInt (type : Ty) (number : Int64) (hSome : type.isVoid = false) :
    ∃ value, numType? type = some value.type ∧ Pushes [Lowering.constInt type number] value := by
  cases type with
  | void => cases hSome
  | i64 => exact ⟨.i64 number.toUInt64, rfl, of_plain rfl fun _ => rfl⟩
  | f32 => exact ⟨.f32 _, rfl, of_plain rfl fun _ => rfl⟩
  | f64 => exact ⟨.f64 _, rfl, of_plain rfl fun _ => rfl⟩
  | _ => exact ⟨.i32 _, rfl, i32Const _⟩

/-- A floating-point number as a constant of a type. -/
theorem constFloat (type : Ty) (bits : UInt64) :
    ∃ value, Pushes [Lowering.constFloat type bits] value := by
  cases type with
  | f32 => exact ⟨.f32 _, of_plain rfl fun _ => rfl⟩
  | _ => exact ⟨.f64 bits, of_plain rfl fun _ => rfl⟩

/-- Code that gets stuck in one state pushes nothing. -/
theorem not_stuck {steps : List Step} {state : State} (hPushes : Pushes first result)
    (hReads : Reads [] first steps) : ¬Leads #[] 0 steps state .stuck := by
  intro hStuck
  obtain ⟨others, fuel, hOthers, hRun⟩ := hPushes [] #[] state
  rw [hOthers.unique hReads] at hRun
  cases hStuck.unique (by simp) hRun (by simp)

/-- Code that starts with a local is not that of a constant. -/
theorem not_localGet {index : UInt32} {loads : Code} (hLoads : Nests [] loads) :
    ¬Pushes (.localGet index :: loads) result := by
  intro hPushes
  obtain ⟨steps, hSteps⟩ := hLoads
  have hStuck : Leads #[] 0 [.plain .localGet (.local index)] ⟨{}, [], []⟩ .stuck :=
    .of_halt (by simp) fun _ => rfl
  exact hPushes.not_stuck ((reads_localGet index).append hSteps) (hStuck.exit_append (by simp))

end Pushes

end RecordWasm.Lowering
