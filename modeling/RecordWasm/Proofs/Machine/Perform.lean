import RecordWasm.Proofs.Machine.Runs

/-!
# Instructions without control flow

What each instruction does to a state, one equation for each.  `Leads.then` puts an instruction in
front of a run, so that straight code is followed by naming the equations one after the other.
-/

namespace RecordWasm.Machine

open Wasm

variable {store : Store} {locals below : List Value}

theorem Leads.then {functions : Array Function} {fuel : Nat} {opcode : Opcode}
    {immediate : Immediate} {rest : List Step} {state middle : State} {outcome : Outcome}
    (hPerform : state.perform opcode immediate = .ok middle)
    (hRest : Leads functions fuel rest middle outcome) :
    Leads functions fuel (.plain opcode immediate :: rest) state outcome :=
  (Leads.plain hPerform).next_append hRest

theorem perform_const32 (number : Int32) :
    State.perform ⟨store, locals, below⟩ (.const .i32) (.i32 number) =
      .ok ⟨store, locals, .i32 number.toUInt32 :: below⟩ :=
  rfl

theorem perform_drop (value : Value) :
    State.perform ⟨store, locals, value :: below⟩ .drop .none = .ok ⟨store, locals, below⟩ :=
  rfl

theorem perform_localGet {index : UInt32} {value : Value}
    (hLocal : locals[index.toNat]? = some value) :
    State.perform ⟨store, locals, below⟩ .localGet (.local index) =
      .ok ⟨store, locals, value :: below⟩ := by
  unfold State.perform
  simp only [hLocal, State.push]

/-- A value may take the place of one of the same type. -/
theorem replace?_eq {values : List Value} {index : UInt32} {old value : Value}
    (hOld : values[index.toNat]? = some old) (hType : old.type = value.type) :
    State.replace? values index value = some (values.set index.toNat value) := by
  simp [State.replace?, hOld, hType]

theorem map_type_set {index : Nat} {old value : Value} (hOld : locals[index]? = some old)
    (hType : old.type = value.type) :
    (locals.set index value).map Value.type = locals.map Value.type := by
  rw [List.map_set, ← hType]
  refine List.ext_getElem? fun place => ?_
  by_cases hPlace : index = place
  · subst hPlace
    have hBound := (List.getElem?_eq_some_iff.1 hOld).1
    rw [List.getElem?_set_self (by simpa using hBound), List.getElem?_map, hOld]
    rfl
  · rw [List.getElem?_set_ne hPlace]

theorem perform_localSet {index : UInt32} {old value : Value}
    (hOld : locals[index.toNat]? = some old) (hType : old.type = value.type) :
    State.perform ⟨store, locals, value :: below⟩ .localSet (.local index) =
      .ok ⟨store, locals.set index.toNat value, below⟩ := by
  unfold State.perform
  simp only [replace?_eq hOld hType]

theorem perform_localTee {index : UInt32} {old value : Value}
    (hOld : locals[index.toNat]? = some old) (hType : old.type = value.type) :
    State.perform ⟨store, locals, value :: below⟩ .localTee (.local index) =
      .ok ⟨store, locals.set index.toNat value, value :: below⟩ := by
  unfold State.perform
  simp only [replace?_eq hOld hType]

/-- The words of a local are not looked at when it is written. -/
theorem perform_localTee32 {index old word : UInt32}
    (hOld : locals[index.toNat]? = some (.i32 old)) :
    State.perform ⟨store, locals, .i32 word :: below⟩ .localTee (.local index) =
      .ok ⟨store, locals.set index.toNat (.i32 word), .i32 word :: below⟩ :=
  perform_localTee hOld rfl

theorem perform_globalGet {index : UInt32} {value : Value}
    (hGlobal : store.globals[index.toNat]? = some value) :
    State.perform ⟨store, locals, below⟩ .globalGet (.global index) =
      .ok ⟨store, locals, value :: below⟩ := by
  unfold State.perform
  simp only [hGlobal, State.push]

theorem perform_globalSet {index : UInt32} {old value : Value}
    (hOld : store.globals[index.toNat]? = some old) (hType : old.type = value.type) :
    State.perform ⟨store, locals, value :: below⟩ .globalSet (.global index) =
      .ok ⟨{ store with globals := store.globals.set index.toNat value }, locals, below⟩ := by
  unfold State.perform
  simp only [replace?_eq hOld hType]

theorem perform_int32 {operator : IntOperator} {left right : UInt32} (result : UInt32)
    (hApply : intApply operator left.toBitVec right.toBitVec = .ok result.toBitVec) :
    State.perform ⟨store, locals, .i32 right :: .i32 left :: below⟩ (.int .w32 operator) .none =
      .ok ⟨store, locals, .i32 result :: below⟩ := by
  unfold State.perform State.operate applyUnary applyBinary
  simp only [hApply, Except.map]

theorem perform_compare32 (relation : IntRelation) (left right : UInt32) :
    State.perform ⟨store, locals, .i32 right :: .i32 left :: below⟩ (.compareInt .w32 relation)
        .none =
      .ok ⟨store, locals, .ofBool (intHolds relation left.toBitVec right.toBitVec) :: below⟩ := by
  rfl

theorem perform_eqz32 (word : UInt32) :
    State.perform ⟨store, locals, .i32 word :: below⟩ (.eqz .w32) .none =
      .ok ⟨store, locals, .ofBool (word == 0) :: below⟩ := by
  rfl

theorem perform_memoryGrow {memory : Memory} (hMemory : store.memory = some memory)
    (delta : UInt32) :
    State.perform ⟨store, locals, .i32 delta :: below⟩ .memoryGrow (.memory 0) =
      .ok ⟨{ store with memory := some (memory.grow delta.toNat).2 }, locals,
        .i32 (((memory.grow delta.toNat).1.map Nat.toUInt32).getD 0xFFFFFFFF) :: below⟩ := by
  unfold State.perform State.growMemory
  simp only [hMemory]

theorem perform_load {memory : Memory} (hMemory : store.memory = some memory) {type : NumType}
    {arg : MemArg} {base : UInt32} {bytes : List UInt8}
    (hRead : memory.read? (State.effective base arg) (storageSize type) = some bytes) :
    State.perform ⟨store, locals, .i32 base :: below⟩ (.load type) (.mem arg) =
      .ok ⟨store, locals, .ofBytes type bytes :: below⟩ := by
  unfold State.perform State.load
  simp only [hMemory, hRead]

theorem perform_store {memory after : Memory} (hMemory : store.memory = some memory)
    {arg : MemArg} {base : UInt32} {value : Value}
    (hWrite : memory.write? (State.effective base arg) value.bytes = some after) :
    State.perform ⟨store, locals, value :: .i32 base :: below⟩ (.store value.type) (.mem arg) =
      .ok ⟨{ store with memory := some after }, locals, below⟩ := by
  unfold State.perform State.save
  simp only [hMemory, hWrite, if_true]

/-- Bytes that do not fit into the memory are not stored. -/
theorem perform_store_trap {memory : Memory} (hMemory : store.memory = some memory) {arg : MemArg}
    {base : UInt32} {value : Value}
    (hWrite : memory.write? (State.effective base arg) value.bytes = none) :
    State.perform ⟨store, locals, value :: .i32 base :: below⟩ (.store value.type) (.mem arg) =
      .error (.trap .outOfBounds) := by
  unfold State.perform State.save
  simp only [hMemory, hWrite, if_true]

end RecordWasm.Machine
