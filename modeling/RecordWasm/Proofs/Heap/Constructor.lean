import RecordWasm.Proofs.Heap.Making
import RecordWasm.Proofs.Lowering.Bodies

/-!
# What a constructor does

A constructor allocates a record and stores its arguments one field after the other.  Either the
allocation is refused and the constructor traps, or every argument stands in its field afterwards
and no byte outside the record has changed.
-/

namespace RecordWasm.Heap

open Wasm Machine Layout Lowering

/-- Stores the locals from an index on in fields. -/
def storeSteps (address : UInt32) : (index : Nat) → List Field → List Step
  | _, [] => []
  | index, field :: rest =>
      [.plain .localGet (.local address), .plain .localGet (.local index.toUInt32),
        .plain (.store field.type.numType) (.mem (fieldArg field))] ++
        storeSteps address (index + 1) rest

/-- The body of a constructor as a tree. -/
def constructorSteps (handle : Handle) (record : Record) : List Step :=
  roomSteps handle record record.fields.length.toUInt32 ++
    storeSteps record.fields.length.toUInt32 0 record.fields ++
    [.plain .localGet (.local record.fields.length.toUInt32)]

theorem reads_storeParams (types : List FuncType) (address : UInt32) (index : Nat)
    (fields : List Field) :
    Reads types (storeParams address index fields) (storeSteps address index fields) := by
  induction fields generalizing index with
  | nil => exact .nil
  | cons field rest ih =>
      refine .append ?_ (ih (index + 1))
      exact .append (.plain rfl) (.append (.plain rfl) (.plain rfl))

/-- The code of a constructor is read as its tree. -/
theorem lowerConstructor_ok {env : Env} {name : String} {body : FunctionBody}
    (hLower : lowerConstructor env name = .ok body) :
    ∃ record, env.registry.get? name = some record ∧
      body.type = (env.constructorRef record 0).type ∧ body.locals = [.i32] ∧
      ∀ types, Step.ofInstrs? types body.instrs = some (constructorSteps env.heap record) := by
  obtain ⟨record, alloc, hRecord, hAlloc, rfl⟩ := lowerConstructor_eq_ok.1 hLower
  refine ⟨record, hRecord, rfl, rfl, fun types => ?_⟩
  rw [allocCode] at hAlloc
  split at hAlloc
  · cases hAlloc
  · cases hAlloc
    have hRoom : Reads types [.i32Const record.size.toInt32, .i32Const record.align.toInt32,
        .call env.heap.allocFunc, .localTee record.fields.length.toUInt32,
        (Opcode.eqz .w32).instr, .ifThen voidBlock, Opcode.unreachable.instr, .close]
        (roomSteps env.heap record record.fields.length.toUInt32) := by
      refine .append (.plain rfl) (.append (.plain rfl) (.append (.call _) ?_))
      refine .append (.plain rfl) (.append (.plain rfl) ?_)
      exact .ifThen Arity.ofBlockType?_void .unreachable
    have hStores := reads_storeParams types record.fields.length.toUInt32 0 record.fields
    have hAddress : Reads types [.localGet record.fields.length.toUInt32]
        [.plain .localGet (.local record.fields.length.toUInt32)] := .plain rfl
    simpa [constructorSteps] using ((hRoom.append hStores).append hAddress).ofInstrs?

variable {functions : Array Machine.Function} {handle : Handle} {store : Store} {pool : Pool}
variable {record : Record} {locals below values : List Value}

/-- A constructor starts with its arguments and one more local. -/
theorem call_entry {type : FuncType} (hParams : type.params.length = values.length) :
    State.call ⟨store, locals, values.reverse ++ below⟩ type [.i32] =
      ⟨store, values ++ [.i32 0], []⟩ := by
  rw [State.call, hParams, ← List.length_reverse, List.take_left, List.reverse_reverse]
  rfl

/-- The indices of parameters, from one of them on. -/
def paramIndices (first count : Nat) : List UInt32 := (List.range' first count).map Nat.toUInt32

theorem storeSteps_eq (address : UInt32) (index : Nat) (fields : List Field) :
    storeSteps address index fields =
      storeFrom address (paramIndices index fields.length) fields := by
  induction fields generalizing index with
  | nil => rfl
  | cons field rest ih => rw [storeSteps, ih (index + 1)]; rfl

theorem supplies_params {index : Nat} (hCount : index + values.length ≤ 2 ^ 32)
    (hLocals : ∀ place value, values[place]? = some value → locals[index + place]? = some value) :
    Supplies locals (paramIndices index values.length) values := by
  induction values generalizing index with
  | nil => exact .nil
  | cons value rest ih =>
      rw [List.length_cons] at hCount
      refine .cons ?_ (ih (by omega) fun place other hOther => ?_)
      · rw [toNat_toUInt32 (by omega)]
        exact hLocals 0 value rfl
      · rw [Nat.add_assoc, Nat.add_comm 1]
        exact hLocals (place + 1) other hOther

/-- A constructor that is called makes a record of its arguments. -/
theorem call_makes (fuel : Nat) {function : Nat} {type : FuncType}
    (hLinked : handle.Linked functions)
    (hFunction : functions[function]? = some (.coded type [.i32] (constructorSteps handle record)))
    (hParams : type.params.length = record.fields.length) (hResults : type.results.length = 1)
    (hHolds : handle.Holds store pool) (hPages : pool.memory.pages < 4294967295)
    (hCount : record.fields.length < 2 ^ 32) (hSuits : Suits record.fields values) :
    Leads functions fuel [.call function] ⟨store, locals, values.reverse ++ below⟩
      ((handle.make store pool record values).outcome (fun _ => locals) below) := by
  have hLength : values.length = record.fields.length := hSuits.length_eq.symm
  have hIndex : record.fields.length.toUInt32.toNat = values.length := by
    rw [toNat_toUInt32 hCount, hLength]
  have hSlot : (values ++ [.i32 0])[record.fields.length.toUInt32.toNat]? = some (.i32 0) := by
    simp [hIndex]
  have hSupplies : Supplies (values ++ [.i32 0]) (paramIndices 0 values.length) values := by
    refine supplies_params (by omega) fun place value hValue => ?_
    rw [Nat.zero_add, List.getElem?_append_left (List.getElem?_eq_some_iff.1 hValue).1, hValue]
  have hOther : ∀ index ∈ paramIndices 0 values.length, index ≠ record.fields.length.toUInt32 := by
    intro index hMem hSame
    obtain ⟨place, hPlace, rfl⟩ := List.mem_map.1 hMem
    rw [List.mem_range'_1] at hPlace
    have hNat := congrArg UInt32.toNat hSame
    rw [hIndex, toNat_toUInt32 (by omega)] at hNat
    omega
  have hBody :=
    @leads_makeSteps functions handle store pool record _ [] _ _ _ fuel hLinked hHolds hPages
      _ hSlot hSupplies hOther hSuits
  rw [makeSteps, hLength, ← storeSteps_eq] at hBody
  rw [← @call_entry store locals below _ _ (hParams.trans hLength.symm)] at hBody
  have hCall := Leads.call _ hFunction hBody
  rw [Made.outcome] at hCall ⊢
  cases hAnswer : (handle.make store pool record values).answer with
  | error cause =>
      rw [hAnswer] at hCall
      exact hCall.any (by simp [State.behindCall])
  | ok address =>
      rw [hAnswer, State.behindCall, hResults, hParams, ← hLength] at hCall
      exact Leads.any (by simpa using hCall) (by simp)

/-- A constructor that is called traps if its allocation is refused, and otherwise returns the
address of a record that holds its arguments. -/
theorem call_constructor (fuel : Nat) {base function : Nat} {type : FuncType}
    (hLinked : handle.Linked functions) (hFunction : functions[function]? =
      some (.coded type [.i32] (constructorSteps handle record)))
    (hParams : type.params.length = record.fields.length) (hResults : type.results.length = 1)
    (hHolds : handle.Holds store pool) (hSound : pool.Sound base)
    (hRecord : Layout.Sound record)
    (hExtent : extent 0 (record.fields.map Field.type) < extentLimit)
    (hSuits : Suits record.fields values)
    (hFits : pool.cursor.toNat + (record.align.toNat - 1) + record.size.toNat < 2 ^ 32)
    (locals below : List Value) :
    ((pool.alloc record.size record.align).1 = 0 ∧
      Leads functions fuel [.call function] ⟨store, locals, values.reverse ++ below⟩
        (.trap .unreachable (handle.put store (pool.alloc record.size record.align).2))) ∨
    ((pool.alloc record.size record.align).1 ≠ 0 ∧ ∃ memory,
      Keeps (pool.alloc record.size record.align).2.memory memory
        (pool.alloc record.size record.align).1.toNat
        ((pool.alloc record.size record.align).1.toNat + record.size.toNat) ∧
      Filled memory (pool.alloc record.size record.align).1.toNat record.fields values ∧
      Leads functions fuel [.call function] ⟨store, locals, values.reverse ++ below⟩
        (.next ⟨handle.put store { (pool.alloc record.size record.align).2 with memory }, locals,
          .i32 (pool.alloc record.size record.align).1 :: below⟩)) := by
  obtain ⟨hPlaced, hSize⟩ := hRecord.placed hExtent
  obtain ⟨exponent, hPower⟩ := hRecord.align.power
  have hAbove := le_roundUp (extent 0 (record.fields.map Field.type))
    (hPower ▸ Nat.two_pow_pos exponent)
  have hCount : record.fields.length < 2 ^ 32 := by
    have hLeast := length_le_extent 0 (record.fields.map Field.type)
    have hLimit : extentLimit = 2 ^ 32 - 8 := rfl
    rw [List.length_map] at hLeast
    omega
  have hPages := hSound.pages_le
  have hCall :=
    @call_makes _ _ _ _ _ locals below _ fuel _ _ hLinked hFunction hParams hResults hHolds
      (by omega) hCount hSuits
  obtain ⟨hAfter, -, hCases⟩ := Pool.alloc_cases hSound hPower hFits
  rw [Handle.make] at hCall
  generalize pool.alloc record.size record.align = granted at *
  obtain ⟨address, after⟩ := granted
  simp only at hCall hAfter hCases ⊢
  by_cases hRefused : address = 0
  · rw [if_pos hRefused] at hCall
    exact .inl ⟨hRefused, hCall⟩
  · rcases hCases with ⟨hZero, -⟩ | ⟨hAddress, hCursor⟩
    · exact absurd hZero hRefused
    have hInside : address.toNat + record.size.toNat ≤ after.memory.size := by
      have hCursorLe := hAfter.cursor_le
      have hLimitLe := hAfter.limit_le
      omega
    obtain ⟨hAll, hKeeps, hFilled⟩ := @fillFields_ok after.memory address 0 _ _ hAfter.small hSuits
      hPlaced (by omega)
    rw [if_neg hRefused, hAll] at hCall
    refine .inr ⟨hRefused, _, ⟨hKeeps.pages, hKeeps.limit, fun target hTarget hOutside => ?_⟩,
      hFilled, hCall⟩
    exact hKeeps.same target hTarget (by omega)

end RecordWasm.Heap
