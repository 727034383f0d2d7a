import RecordWasm.Lowering.Function
import RecordWasm.Proofs.Heap.Pool
import RecordWasm.Proofs.Layout.Inheritance

/-!
# Making a record

A record is allocated, and then its fields are written one after the other.  `Handle.make` says how
this ends; code that stores locals in the fields of a record that it has allocated ends in the same
way.
-/

namespace RecordWasm.Heap

open Wasm Machine Layout Lowering

/-- The memory operand of an access to a field. -/
def fieldArg (field : Field) : MemArg := ⟨field.type.alignLog2, field.offset.toUInt64, 0⟩

/-- Outside a range one memory has the bytes of another. -/
structure Keeps (memory after : Memory) (low high : Nat) : Prop where
  pages : after.pages = memory.pages
  limit : after.limit = memory.limit
  same : ∀ target, target < memory.size → target < low ∨ high ≤ target →
    after.byte target = memory.byte target

theorem Keeps.size {memory after : Memory} {low high : Nat} (hKeeps : Keeps memory after low high) :
    after.size = memory.size := by
  rw [Memory.size, hKeeps.pages, Memory.size]

theorem Keeps.contains {memory after : Memory} {low high address : Nat} {value : Value}
    (hKeeps : Keeps memory after low high) (hContains : memory.Contains address value)
    (hOutside : address + storageSize value.type ≤ low ∨ high ≤ address) :
    after.Contains address value := by
  have hInside := (Memory.contains_iff.1 hContains).1
  refine hContains.of_same hKeeps.size.ge fun target hLow hHigh => ?_
  exact hKeeps.same target (by omega) (by omega)

/-- Values of the types of fields, one for each. -/
def Suits (fields : List Field) (values : List Value) : Prop :=
  List.Forall₂ (fun field value => value.type = field.type.numType) fields values

/-- Values stand in the fields of a record at an address. -/
def Filled (memory : Memory) (address : Nat) (fields : List Field) (values : List Value) : Prop :=
  List.Forall₂ (fun field value => memory.Contains (address + field.offset.toNat) value)
    fields values

theorem storageSize_numType (type : FieldType) : storageSize type.numType = type.size.toNat := by
  cases type <;> rfl

/-- Writes values into the fields of a record one after the other, as far as the memory reaches, and
tells whether all of them were written. -/
def fillFields (memory : Memory) (address : UInt32) : List Field → List Value → Memory × Bool
  | field :: fields, value :: values =>
      match memory.write? (State.effective address (fieldArg field)) value.bytes with
      | some after => fillFields after address fields values
      | none => (memory, false)
  | _, _ => (memory, true)

/-- Filling fields that are in the memory puts every value in its field and touches nothing outside
the fields. -/
theorem fillFields_ok {memory : Memory} {address : UInt32} {free : Nat} {fields : List Field}
    {values : List Value} (hSmall : memory.Small) (hSuits : Suits fields values)
    (hPlaced : Placed free fields)
    (hFits : address.toNat + extent free (fields.map Field.type) ≤ memory.size) :
    (fillFields memory address fields values).2 = true ∧
      Keeps memory (fillFields memory address fields values).1 (address.toNat + free)
        (address.toNat + extent free (fields.map Field.type)) ∧
      Filled (fillFields memory address fields values).1 address.toNat fields values := by
  induction hSuits generalizing memory free with
  | nil => exact ⟨rfl, ⟨rfl, rfl, fun _ _ _ => rfl⟩, .nil⟩
  | @cons field value rest others hType _ ih =>
      obtain ⟨hOffset, hOthers⟩ := hPlaced
      simp only [List.map_cons, extent] at hFits ⊢
      have hSize := storageSize_numType field.type
      rw [← hType] at hSize
      have hRound := le_roundUp free (size_pos field.type)
      have hEnd := le_extent (roundUp free field.type.size.toNat + field.type.size.toNat)
        (rest.map Field.type)
      obtain ⟨middle, hWrite, hPages, hLimit, hBytes⟩ := @Memory.write?_eq_some memory
        (address.toNat + field.offset.toNat) value.bytes hSmall
        (by rw [Value.length_bytes]; omega)
      rw [Value.length_bytes, hSize, hOffset] at hBytes
      have hSame : middle.size = memory.size := by rw [Memory.size, hPages, Memory.size]
      have hHere : middle.Contains (address.toNat + field.offset.toNat) value := by
        rw [Memory.contains_iff, hSize, hOffset]
        refine ⟨by omega, fun offset hInside => ?_⟩
        rw [hBytes _ (by omega), if_pos (by omega), Nat.add_sub_cancel_left]
      have hStore : memory.write? (State.effective address (fieldArg field)) value.bytes =
          some middle := by
        simpa [State.effective, fieldArg] using hWrite
      obtain ⟨hAll, hKeeps, hFilled⟩ :=
        @ih middle _ (by rw [Memory.Small, hSame]; exact hSmall) hOthers (by omega)
      simp only [fillFields, hStore]
      refine ⟨hAll, ⟨hKeeps.pages.trans hPages, hKeeps.limit.trans hLimit, ?_⟩,
        .cons (hKeeps.contains hHere (by omega)) hFilled⟩
      intro target hTarget hOutside
      rw [hKeeps.same target (by omega) (by omega), hBytes target hTarget, if_neg (by omega)]

/-- How the making of a record ends: with its address or in a trap, and with a store. -/
structure Made where
  answer : Except Trap UInt32
  store : Store

/-- Allocates a record and fills its fields. -/
def Handle.make (handle : Handle) (store : Store) (pool : Pool) (record : Record)
    (values : List Value) : Made :=
  let granted := pool.alloc record.size record.align
  if granted.1 = 0 then ⟨.error .unreachable, handle.put store granted.2⟩
  else
    let filled := fillFields granted.2.memory granted.1 record.fields values
    ⟨if filled.2 then .ok granted.1 else .error .outOfBounds,
      handle.put store { granted.2 with memory := filled.1 }⟩

/-- The end of a run that makes a record and leaves its address on the stack. -/
def Made.outcome (made : Made) (locals : UInt32 → List Value) (below : List Value) : Outcome :=
  match made.answer with
  | .ok address => .next ⟨made.store, locals address, .i32 address :: below⟩
  | .error cause => .trap cause made.store

/-- Allocates a record and traps if there is no room for it. -/
def roomSteps (handle : Handle) (record : Record) (address : UInt32) : List Step :=
  [.plain (.const .i32) (.i32 record.size.toInt32),
    .plain (.const .i32) (.i32 record.align.toInt32), .call handle.allocFunc.toNat,
    .plain .localTee (.local address), .plain (.eqz .w32) .none, .choose ⟨0, 0⟩ [.unreachable] []]

/-- Stores locals in fields. -/
def storeFrom (address : UInt32) : List UInt32 → List Field → List Step
  | index :: indices, field :: fields =>
      [.plain .localGet (.local address), .plain .localGet (.local index),
        .plain (.store field.type.numType) (.mem (fieldArg field))] ++
          storeFrom address indices fields
  | _, _ => []

/-- Allocates a record, stores locals in its fields and leaves its address. -/
def makeSteps (handle : Handle) (record : Record) (address : UInt32) (indices : List UInt32) :
    List Step :=
  roomSteps handle record address ++ storeFrom address indices record.fields ++
    [.plain .localGet (.local address)]

section Making

variable {functions : Array Machine.Function} {handle : Handle} {store : Store} {pool : Pool}
variable {record : Record} {locals below values : List Value} {slot : UInt32}
variable {indices : List UInt32}

/-- The allocation of a record traps if it is refused. -/
theorem leads_roomSteps (fuel : Nat) (hLinked : handle.Linked functions)
    (hHolds : handle.Holds store pool) (hPages : pool.memory.pages < 4294967295) {old : UInt32}
    (hSlot : locals[slot.toNat]? = some (.i32 old)) :
    Leads functions fuel (roomSteps handle record slot) ⟨store, locals, below⟩
      (if (pool.alloc record.size record.align).1 = 0 then
        .trap .unreachable (handle.put store (pool.alloc record.size record.align).2)
      else
        .next ⟨handle.put store (pool.alloc record.size record.align).2,
          locals.set slot.toNat (.i32 (pool.alloc record.size record.align).1), below⟩) := by
  refine .then (perform_const32 _) (.then (perform_const32 _) ?_)
  refine (call_alloc hLinked hHolds hPages record.size record.align locals below).next_append ?_
  refine .then (perform_localTee32 hSlot) (.then (perform_eqz32 _) ?_)
  by_cases hRefused : (pool.alloc record.size record.align).1 = 0
  · rw [if_pos hRefused, hRefused]
    exact .choose_taken ⟨0, 0⟩ [] rfl (by decide) .unreachable
  · rw [if_neg hRefused, beq_eq_false_iff_ne.2 hRefused]
    exact .choose_passed ⟨0, 0⟩ [.unreachable] rfl .nil

/-- Locals hold values. -/
def Supplies (locals : List Value) (indices : List UInt32) (values : List Value) : Prop :=
  List.Forall₂ (fun index value => locals[index.toNat]? = some value) indices values

theorem Supplies.set {value : Value} (hSupplies : Supplies locals indices values)
    (hOther : ∀ index ∈ indices, index ≠ slot) :
    Supplies (locals.set slot.toNat value) indices values := by
  induction hSupplies with
  | nil => exact .nil
  | cons hHere _ ih =>
      rw [List.forall_mem_cons] at hOther
      refine .cons ?_ (ih hOther.2)
      rw [List.getElem?_set_ne fun hSame => hOther.1 (UInt32.toNat_inj.1 hSame.symm)]
      exact hHere

/-- Storing locals fills the fields, or traps at the first field that is not in the memory. -/
theorem leads_storeFrom (fuel : Nat) {memory : Memory} {address : UInt32} {fields : List Field}
    (hMemory : store.memory = some memory) (hAddress : locals[slot.toNat]? = some (.i32 address))
    (hSupplies : Supplies locals indices values) (hSuits : Suits fields values) :
    Leads functions fuel (storeFrom slot indices fields) ⟨store, locals, below⟩
      (if (fillFields memory address fields values).2 then
        .next ⟨{ store with memory := some (fillFields memory address fields values).1 },
          locals, below⟩
      else
        .trap .outOfBounds
          { store with memory := some (fillFields memory address fields values).1 }) := by
  induction hSuits generalizing store memory indices with
  | nil =>
      cases hSupplies
      simp only [fillFields, storeFrom, if_true, ← hMemory]
      exact .nil
  | @cons field value rest others hType _ ih =>
      cases hSupplies with
      | cons hHere hRest =>
          refine .then (perform_localGet hAddress) (.then (perform_localGet hHere) ?_)
          rw [← hType, fillFields]
          cases hWrite : memory.write? (State.effective address (fieldArg field)) value.bytes with
          | none =>
              have hTrap := @perform_store_trap store locals below _ hMemory _ _ _ hWrite
              simp only [Bool.false_eq_true, if_false, ← hMemory]
              exact .exit_append (by simp) (.plain_trap hTrap)
          | some after => exact .then (perform_store hMemory hWrite) (ih rfl hRest)

/-- Code that makes a record from locals ends as the making of the record does. -/
theorem leads_makeSteps (fuel : Nat) (hLinked : handle.Linked functions)
    (hHolds : handle.Holds store pool) (hPages : pool.memory.pages < 4294967295) {old : UInt32}
    (hSlot : locals[slot.toNat]? = some (.i32 old)) (hSupplies : Supplies locals indices values)
    (hOther : ∀ index ∈ indices, index ≠ slot) (hSuits : Suits record.fields values) :
    Leads functions fuel (makeSteps handle record slot indices) ⟨store, locals, below⟩
      ((handle.make store pool record values).outcome
        (fun address => locals.set slot.toNat (.i32 address)) below) := by
  have hRoom := @leads_roomSteps _ _ _ _ record _ below _ fuel hLinked hHolds hPages _ hSlot
  have hStored := hHolds.put (pool.alloc record.size record.align).2
  rw [Handle.make]
  generalize pool.alloc record.size record.align = granted at *
  obtain ⟨address, after⟩ := granted
  simp only at hRoom hStored ⊢
  by_cases hRefused : address = 0
  · rw [if_pos hRefused] at hRoom ⊢
    exact .exit_append (by simp [Made.outcome]) (.exit_append (by simp [Made.outcome]) hRoom)
  · rw [if_neg hRefused] at hRoom ⊢
    have hBound := (List.getElem?_eq_some_iff.1 hSlot).1
    have hAddress : (locals.set slot.toNat (.i32 address))[slot.toNat]? = some (.i32 address) :=
      List.getElem?_set_self hBound
    have hStores := @leads_storeFrom functions _ _ below _ _ _ fuel _ _ _ hStored.memory hAddress
      (hSupplies.set hOther) hSuits
    rw [← hStored.put_memory, Handle.put_put] at hStores
    have hBoth := hRoom.next_append hStores
    cases hFilled : (fillFields after.memory address record.fields values).2 with
    | true =>
        rw [hFilled, if_pos rfl] at hBoth
        exact hBoth.next_append (.then (perform_localGet hAddress) .nil)
    | false =>
        rw [hFilled, if_neg (by simp)] at hBoth
        exact hBoth.exit_append (by simp [Made.outcome])

end Making

end RecordWasm.Heap
