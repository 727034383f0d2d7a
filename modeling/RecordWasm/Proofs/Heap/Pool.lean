import RecordWasm.Heap
import RecordWasm.Proofs.Machine.Bytes
import RecordWasm.Proofs.Machine.Perform
import RecordWasm.Proofs.Machine.Reading
import RecordWasm.Proofs.Rounding

/-!
# What an allocation does

The state of a heap is a `Pool`: the cursor, the limit and the memory.  `Pool.alloc` says what an
allocation makes of it in the arithmetic of the machine, `call_alloc` that the emitted function
computes just that, and `Pool.alloc_cases` what the words mean as numbers as long as nothing wraps.
-/

namespace RecordWasm.Heap

open Wasm Machine

/-- The state of a heap: how far it is handed out, where it ends, and the memory it lies in. -/
structure Pool where
  cursor : UInt32
  limit : UInt32
  memory : Memory

namespace Pool

/-- The cursor rounded up to an alignment. -/
def start (pool : Pool) (align : UInt32) : UInt32 := (pool.cursor + align - 1) &&& (0 - align)

/-- The number of pages that are missing up to an address. -/
def deficit (pool : Pool) (stop : UInt32) : UInt32 := (stop - pool.limit + (pageBytes - 1)) >>> 16

/-- The pool after a request for pages was granted. -/
def grown (pool : Pool) (pages : UInt32) : Pool :=
  { pool with limit := pool.limit + (pages <<< 16), memory := (pool.memory.grow pages.toNat).2 }

/-- The pool after a request for pages was refused. -/
def denied (pool : Pool) (pages : UInt32) : Pool :=
  { pool with memory := (pool.memory.grow pages.toNat).2 }

/-- Hands out memory.  The address is zero if the memory would have to grow and cannot. -/
def alloc (pool : Pool) (size align : UInt32) : UInt32 × Pool :=
  let stop := pool.start align + size
  let pages := pool.deficit stop
  if pool.limit < stop then
    if (pool.memory.grow pages.toNat).1.isSome then
      (pool.start align, { pool.grown pages with cursor := stop })
    else (0, pool.denied pages)
  else (pool.start align, { pool with cursor := stop })

/-- Takes everything back that has been handed out. -/
def reset (pool : Pool) (base : UInt32) : Pool := { pool with cursor := base }

end Pool

/-! ## The emitted code -/

namespace Handle

/-- A store holds the state of a heap in its two globals and its memory. -/
structure Holds (handle : Handle) (store : Store) (pool : Pool) : Prop where
  cursor : store.globals[handle.cursorGlobal.toNat]? = some (.i32 pool.cursor)
  limit : store.globals[handle.limitGlobal.toNat]? = some (.i32 pool.limit)
  apart : handle.cursorGlobal.toNat ≠ handle.limitGlobal.toNat
  memory : store.memory = some pool.memory

/-- The store with the state of the heap changed, and nothing else. -/
def put (handle : Handle) (store : Store) (pool : Pool) : Store :=
  { store with
    globals := (store.globals.set handle.limitGlobal.toNat (.i32 pool.limit)).set
      handle.cursorGlobal.toNat (.i32 pool.cursor)
    memory := some pool.memory }

variable {handle : Handle} {store : Store} {pool : Pool}

theorem Holds.put (hHolds : handle.Holds store pool) (after : Pool) :
    handle.Holds (handle.put store after) after := by
  have hCursor := (List.getElem?_eq_some_iff.1 hHolds.cursor).1
  have hLimit := (List.getElem?_eq_some_iff.1 hHolds.limit).1
  constructor
  · simp [Handle.put, hCursor]
  · rw [Handle.put, List.getElem?_set_ne hHolds.apart, List.getElem?_set_self hLimit]
  · exact hHolds.apart
  · rfl

/-- Writing back what is there changes nothing. -/
theorem Holds.put_self (hHolds : handle.Holds store pool) : handle.put store pool = store := by
  obtain ⟨hCursor, hLimit, hApart, hMemory⟩ := hHolds
  obtain ⟨hCursorBound, hCursor⟩ := List.getElem?_eq_some_iff.1 hCursor
  obtain ⟨hLimitBound, hLimit⟩ := List.getElem?_eq_some_iff.1 hLimit
  cases store with
  | mk globals memory calls =>
      simp only at hCursor hLimit hMemory
      simp only [Handle.put, ← hCursor, ← hLimit, List.set_getElem_self, hMemory]

@[simp] theorem put_put (before after : Pool) :
    handle.put (handle.put store before) after = handle.put store after := by
  by_cases hApart : handle.cursorGlobal.toNat = handle.limitGlobal.toNat
  · simp [Handle.put, hApart]
  · simp [Handle.put, List.set_comm _ _ hApart]

/-- Only the cursor is written if only the cursor changes. -/
theorem Holds.put_cursor (hHolds : handle.Holds store pool) (cursor : UInt32) :
    handle.put store { pool with cursor } =
      { store with globals := store.globals.set handle.cursorGlobal.toNat (.i32 cursor) } := by
  rw [← hHolds.put_self]
  simp [Handle.put, List.set_comm _ _ hHolds.apart]

theorem Holds.put_limit (hHolds : handle.Holds store pool) (limit : UInt32) :
    handle.put store { pool with limit } =
      { store with globals := store.globals.set handle.limitGlobal.toNat (.i32 limit) } := by
  rw [← hHolds.put_self]
  simp [Handle.put, List.set_comm _ _ hHolds.apart]

theorem Holds.put_memory (hHolds : handle.Holds store pool) (memory : Memory) :
    handle.put store { pool with memory } = { store with memory := some memory } := by
  rw [← hHolds.put_self]
  simp [Handle.put, List.set_comm _ _ hHolds.apart]

/-- Rounds the cursor up, adds the size and compares with the limit. -/
def startSteps (handle : Handle) : List Step :=
  [.plain .globalGet (.global handle.cursorGlobal), .plain .localGet (.local 1),
    .plain (.int .w32 .add) .none, .plain (.const .i32) (.i32 1), .plain (.int .w32 .sub) .none,
    .plain (.const .i32) (.i32 0), .plain .localGet (.local 1), .plain (.int .w32 .sub) .none,
    .plain (.int .w32 .and) .none, .plain .localTee (.local 2), .plain .localGet (.local 0),
    .plain (.int .w32 .add) .none, .plain .localTee (.local 3),
    .plain .globalGet (.global handle.limitGlobal), .plain (.compareInt .w32 .gtU) .none]

/-- The first of these steps: what rounds the cursor up and keeps the address. -/
def alignSteps (handle : Handle) : List Step := handle.startSteps.take 10

/-- Asks for the pages that are missing and compares the answer with -1. -/
def growSteps (handle : Handle) : List Step :=
  [.plain .localGet (.local 3), .plain .globalGet (.global handle.limitGlobal),
    .plain (.int .w32 .sub) .none, .plain (.const .i32) (.i32 (pageBytes - 1).toInt32),
    .plain (.int .w32 .add) .none, .plain (.const .i32) (.i32 16), .plain (.int .w32 .shrU) .none,
    .plain .localTee (.local 4), .plain .memoryGrow (.memory 0), .plain (.const .i32) (.i32 (-1)),
    .plain (.compareInt .w32 .eq) .none]

/-- Moves the limit by the pages that were granted. -/
def limitSteps (handle : Handle) : List Step :=
  [.plain .globalGet (.global handle.limitGlobal), .plain .localGet (.local 4),
    .plain (.const .i32) (.i32 16), .plain (.int .w32 .shl) .none, .plain (.int .w32 .add) .none,
    .plain .globalSet (.global handle.limitGlobal)]

/-- Moves the cursor and yields the address. -/
def stopSteps (handle : Handle) : List Step :=
  [.plain .localGet (.local 3), .plain .globalSet (.global handle.cursorGlobal),
    .plain .localGet (.local 2)]

def refuseSteps : List Step := [.plain (.const .i32) (.i32 0), .ret]

/-- The body of `alloc` as a tree. -/
def allocSteps (handle : Handle) : List Step :=
  handle.startSteps ++
    [.choose ⟨0, 0⟩
      (handle.growSteps ++ [.choose ⟨0, 0⟩ refuseSteps []] ++ handle.limitSteps) []] ++
    handle.stopSteps

/-- The body of `reset` as a tree. -/
def resetSteps (handle : Handle) : List Step :=
  [.plain (.const .i32) (.i32 handle.base.toInt32), .plain .globalSet (.global handle.cursorGlobal)]

/-- The instructions of `alloc` read as its tree. -/
theorem ofInstrs?_allocInstrs (handle : Handle) (types : List FuncType) :
    Step.ofInstrs? types handle.allocInstrs = some handle.allocSteps := by
  simp [Step.ofInstrs?, allocInstrs, Step.ofInstrsFrom?, Instr.globalGet, Instr.localGet,
    Instr.localTee, Instr.globalSet, Instr.i32Const, Instr.ifThen, Instr.memoryGrow, Instr.close,
    add32, sub32, Opcode.with, Opcode.instr, Opcode.ofByte?_byte, Step.Frame.close, allocSteps,
    startSteps, growSteps, refuseSteps, limitSteps, stopSteps]

/-- The instructions of `reset` read as its tree. -/
theorem ofInstrs?_resetInstrs (handle : Handle) (types : List FuncType) :
    Step.ofInstrs? types handle.resetInstrs = some handle.resetSteps := by
  simp [Step.ofInstrs?, resetInstrs, Step.ofInstrsFrom?, Instr.globalSet, Instr.i32Const,
    Instr.close, Opcode.with, Opcode.instr, Opcode.ofByte?_byte, resetSteps]

/-- The functions of the heap stand at their indices. -/
structure Linked (handle : Handle) (functions : Array Machine.Function) : Prop where
  alloc : functions[handle.allocFunc.toNat]? =
    some (.coded allocType allocLocals handle.allocSteps)
  reset : functions[handle.resetFunc.toNat]? = some (.coded resetType [] handle.resetSteps)

end Handle

variable {handle : Handle} {store : Store} {pool : Pool}

/-- Before anything else the cursor is rounded up by masking, whatever else the store holds. -/
theorem leads_alignSteps (functions : Array Machine.Function) (fuel : Nat) {cursor : UInt32}
    (hCursor : store.globals[handle.cursorGlobal.toNat]? = some (.i32 cursor))
    (size align : UInt32) :
    Leads functions fuel handle.alignSteps
      ⟨store, [.i32 size, .i32 align, .i32 0, .i32 0, .i32 0], []⟩
      (.next ⟨store, [.i32 size, .i32 align, .i32 ((cursor + align - 1) &&& (0 - align)),
        .i32 0, .i32 0], [.i32 ((cursor + align - 1) &&& (0 - align))]⟩) := by
  refine .then (perform_globalGet hCursor) ?_
  refine .then (perform_localGet rfl) ?_
  refine .then (perform_int32 (cursor + align) rfl) ?_
  refine .then (perform_const32 1) ?_
  refine .then (perform_int32 (cursor + align - 1) rfl) ?_
  refine .then (perform_const32 0) ?_
  refine .then (perform_localGet rfl) ?_
  refine .then (perform_int32 (0 - align) rfl) ?_
  refine .then (perform_int32 ((cursor + align - 1) &&& (0 - align)) rfl) ?_
  refine .then (perform_localTee32 rfl) ?_
  exact .nil

/-- The words that the machine compares are those of a pool. -/
theorem leads_startSteps (functions : Array Machine.Function) (fuel : Nat)
    (hHolds : handle.Holds store pool) (size align : UInt32) :
    Leads functions fuel handle.startSteps
      ⟨store, [.i32 size, .i32 align, .i32 0, .i32 0, .i32 0], []⟩
      (.next ⟨store, [.i32 size, .i32 align, .i32 (pool.start align),
        .i32 (pool.start align + size), .i32 0],
        [.ofBool (pool.limit < pool.start align + size)]⟩) := by
  refine (leads_alignSteps functions fuel hHolds.cursor size align).next_append ?_
  refine .then (perform_localGet rfl) ?_
  refine .then (perform_int32 (pool.start align + size) rfl) ?_
  refine .then (perform_localTee32 rfl) ?_
  refine .then (perform_globalGet hHolds.limit) ?_
  refine .then (perform_compare32 _ _ _) ?_
  exact .nil

/-- The answer to a request for pages is -1 only if it was refused. -/
theorem grow_answer {memory : Memory} (hPages : memory.pages < 4294967295) (delta : Nat) :
    ((memory.grow delta).1.map Nat.toUInt32).getD 0xFFFFFFFF = 0xFFFFFFFF ↔
      (memory.grow delta).1 = none := by
  rw [Memory.grow]
  split
  · simp only [Option.map_some, Option.getD_some, reduceCtorEq, iff_false]
    intro hSame
    have hWord := congrArg UInt32.toNat hSame
    rw [Nat.toUInt32_eq, UInt32.toNat_ofNat', Nat.mod_eq_of_lt (by omega)] at hWord
    have hTop : (0xFFFFFFFF : UInt32).toNat = 4294967295 := rfl
    omega
  · simp

theorem leads_growSteps (functions : Array Machine.Function) (fuel : Nat)
    (hHolds : handle.Holds store pool)
    (hPages : pool.memory.pages < 4294967295) (size align start stop : UInt32) :
    Leads functions fuel handle.growSteps
      ⟨store, [.i32 size, .i32 align, .i32 start, .i32 stop, .i32 0], []⟩
      (.next ⟨handle.put store
          { pool with memory := (pool.memory.grow (pool.deficit stop).toNat).2 },
        [.i32 size, .i32 align, .i32 start, .i32 stop, .i32 (pool.deficit stop)],
        [.ofBool (pool.memory.grow (pool.deficit stop).toNat).1.isNone]⟩) := by
  refine .then (perform_localGet rfl) ?_
  refine .then (perform_globalGet hHolds.limit) ?_
  refine .then (perform_int32 (stop - pool.limit) rfl) ?_
  refine .then (perform_const32 _) ?_
  refine .then (perform_int32 (stop - pool.limit + (pageBytes - 1)) rfl) ?_
  refine .then (perform_const32 16) ?_
  refine .then (perform_int32 (pool.deficit stop) rfl) ?_
  refine .then (perform_localTee32 rfl) ?_
  refine .then (perform_memoryGrow hHolds.memory _) ?_
  refine .then (perform_const32 (-1)) ?_
  refine .then (perform_compare32 _ _ _) ?_
  have hFlag : intHolds .eq
      (((pool.memory.grow (pool.deficit stop).toNat).1.map Nat.toUInt32).getD 0xFFFFFFFF).toBitVec
        (Int32.toUInt32 (-1)).toBitVec =
      (pool.memory.grow (pool.deficit stop).toNat).1.isNone := by
    have hTop : Int32.toUInt32 (-1) = 0xFFFFFFFF := by decide
    rw [Bool.eq_iff_iff, Option.isNone_iff_eq_none, ← grow_answer hPages, hTop, intHolds,
      beq_iff_eq, UInt32.toBitVec_inj]
  rw [hFlag, hHolds.put_memory]
  exact .nil

theorem leads_limitSteps (functions : Array Machine.Function) (fuel : Nat)
    (hHolds : handle.Holds store pool) (size align start stop pages : UInt32) :
    Leads functions fuel handle.limitSteps
      ⟨store, [.i32 size, .i32 align, .i32 start, .i32 stop, .i32 pages], []⟩
      (.next ⟨handle.put store { pool with limit := pool.limit + (pages <<< 16) },
        [.i32 size, .i32 align, .i32 start, .i32 stop, .i32 pages], []⟩) := by
  refine .then (perform_globalGet hHolds.limit) ?_
  refine .then (perform_localGet rfl) ?_
  refine .then (perform_const32 16) ?_
  refine .then (perform_int32 (pages <<< 16) rfl) ?_
  refine .then (perform_int32 (pool.limit + (pages <<< 16)) rfl) ?_
  refine .then (perform_globalSet hHolds.limit (by simp only [Value.type])) ?_
  rw [hHolds.put_limit]
  exact .nil

theorem leads_stopSteps (functions : Array Machine.Function) (fuel : Nat)
    (hHolds : handle.Holds store pool) (size align start stop pages : UInt32) :
    Leads functions fuel handle.stopSteps
      ⟨store, [.i32 size, .i32 align, .i32 start, .i32 stop, .i32 pages], []⟩
      (.next ⟨handle.put store { pool with cursor := stop },
        [.i32 size, .i32 align, .i32 start, .i32 stop, .i32 pages], [.i32 start]⟩) := by
  refine .then (perform_localGet rfl) ?_
  refine .then (perform_globalSet hHolds.cursor rfl) ?_
  refine .then (perform_localGet rfl) ?_
  rw [hHolds.put_cursor]
  exact .nil

/-- Behind the request for pages the limit has moved, or the function has returned zero. -/
theorem leads_growArm (functions : Array Machine.Function) (fuel : Nat)
    (hHolds : handle.Holds store pool)
    (hPages : pool.memory.pages < 4294967295) (size align start stop : UInt32) :
    Leads functions fuel
      (handle.growSteps ++ [.choose ⟨0, 0⟩ Handle.refuseSteps []] ++ handle.limitSteps)
      ⟨store, [.i32 size, .i32 align, .i32 start, .i32 stop, .i32 0], []⟩
      (if (pool.memory.grow (pool.deficit stop).toNat).1.isSome then
        .next ⟨handle.put store (pool.grown (pool.deficit stop)),
          [.i32 size, .i32 align, .i32 start, .i32 stop, .i32 (pool.deficit stop)], []⟩
      else
        .ret ⟨handle.put store (pool.denied (pool.deficit stop)),
          [.i32 size, .i32 align, .i32 start, .i32 stop, .i32 (pool.deficit stop)], [.i32 0]⟩) := by
  have hGrow := leads_growSteps functions fuel hHolds hPages size align
    start stop
  cases hAnswer : (pool.memory.grow (pool.deficit stop).toNat).1 with
  | none =>
      rw [hAnswer] at hGrow
      refine .exit_append (by simp) (hGrow.next_append ?_)
      exact .choose_taken _ _ rfl (by decide) (.then (perform_const32 0) .ret)
  | some before =>
      rw [hAnswer] at hGrow
      have hLimit := leads_limitSteps functions fuel
        (hHolds.put (pool.denied (pool.deficit stop))) size align start stop (pool.deficit stop)
      rw [Handle.put_put] at hLimit
      refine .next_append (hGrow.next_append ?_) hLimit
      exact .choose_passed _ _ rfl .nil

/-- The state in which `alloc` starts. -/
def allocState (store : Store) (size align : UInt32) : State :=
  ⟨store, [.i32 size, .i32 align, .i32 0, .i32 0, .i32 0], []⟩

/-- The emitted body computes `Pool.alloc`, whether it returns early or not. -/
theorem leads_allocSteps (functions : Array Machine.Function) (fuel : Nat)
    (hHolds : handle.Holds store pool)
    (hPages : pool.memory.pages < 4294967295) (size align : UInt32) :
    ∃ outcome, Leads functions fuel handle.allocSteps (allocState store size align) outcome ∧
      ∀ caller : State, caller.behindCall allocType outcome =
        .next ⟨handle.put store (pool.alloc size align).2, caller.locals,
          .i32 (pool.alloc size align).1 :: caller.stack.drop 2⟩ := by
  have hStart := leads_startSteps functions fuel hHolds size align
  by_cases hRoom : pool.limit < pool.start align + size
  · rw [decide_eq_true hRoom] at hStart
    have hArm := leads_growArm functions fuel hHolds hPages size align
      (pool.start align) (pool.start align + size)
    by_cases hGranted : (pool.memory.grow (pool.deficit (pool.start align + size)).toNat).1.isSome
    · rw [if_pos hGranted] at hArm
      have hStop := leads_stopSteps functions fuel
        (hHolds.put (pool.grown (pool.deficit (pool.start align + size)))) size align
        (pool.start align) (pool.start align + size) (pool.deficit (pool.start align + size))
      have hGrown := hStart.next_append
        (.choose_taken ⟨0, 0⟩ [] rfl (by decide) hArm)
      refine ⟨_, hGrown.next_append hStop, fun caller => ?_⟩
      simp only [Pool.alloc, if_pos hRoom, if_pos hGranted, Handle.put_put]
      rfl
    · rw [if_neg hGranted] at hArm
      have hDenied := hStart.next_append
        (.choose_taken ⟨0, 0⟩ [] rfl (by decide) hArm)
      refine ⟨_, .exit_append (by simp [State.behindBlock]) hDenied, fun caller => ?_⟩
      simp only [Pool.alloc, if_pos hRoom, if_neg hGranted]
      rfl
  · rw [decide_eq_false hRoom] at hStart
    have hStop := leads_stopSteps functions fuel hHolds size align
      (pool.start align) (pool.start align + size) 0
    have hFits := hStart.next_append (.choose_passed ⟨0, 0⟩
      (handle.growSteps ++ [.choose ⟨0, 0⟩ Handle.refuseSteps []] ++ handle.limitSteps)
      rfl .nil)
    refine ⟨_, hFits.next_append hStop, fun caller => ?_⟩
    simp only [Pool.alloc, if_neg hRoom]
    rfl

/-- A call of `alloc` ends, and what it does is `Pool.alloc`. -/
theorem call_alloc {functions : Array Machine.Function} {fuel : Nat}
    (hLinked : handle.Linked functions) (hHolds : handle.Holds store pool)
    (hPages : pool.memory.pages < 4294967295) (size align : UInt32) (locals below : List Value) :
    Leads functions fuel [.call handle.allocFunc.toNat]
      ⟨store, locals, .i32 align :: .i32 size :: below⟩
      (.next ⟨handle.put store (pool.alloc size align).2, locals,
        .i32 (pool.alloc size align).1 :: below⟩) := by
  obtain ⟨outcome, hBody, hBehind⟩ := leads_allocSteps functions fuel
    hHolds hPages size align
  have hCall := Leads.call ⟨store, locals, .i32 align :: .i32 size :: below⟩ hLinked.alloc hBody
  rw [hBehind] at hCall
  exact hCall.any (by simp)

/-- A call of `reset` ends, and what it does is `Pool.reset`. -/
theorem call_reset {functions : Array Machine.Function} {fuel : Nat}
    (hLinked : handle.Linked functions) (hHolds : handle.Holds store pool)
    (locals below : List Value) :
    Leads functions fuel [.call handle.resetFunc.toNat] ⟨store, locals, below⟩
      (.next ⟨handle.put store (pool.reset handle.base), locals, below⟩) := by
  have hBody : Leads functions fuel handle.resetSteps
      ((⟨store, locals, below⟩ : State).call resetType [])
      (.next ⟨handle.put store (pool.reset handle.base), [], []⟩) := by
    refine .then (perform_const32 _) ?_
    refine .then (perform_globalSet hHolds.cursor rfl) ?_
    rw [Pool.reset, hHolds.put_cursor]
    exact .nil
  exact (Leads.call _ hLinked.reset hBody).any (by simp [State.behindCall])

/-! ## What the words mean -/

/-- A granted request adds its pages and changes no byte. -/
theorem grow_granted {memory : Memory} {delta : Nat} (hGranted : (memory.grow delta).1.isSome) :
    memory.pages + delta ≤ memory.limit ∧ (memory.grow delta).2 =
      { memory with pages := memory.pages + delta, verdicts := memory.verdicts.tail } := by
  simp only [Memory.grow] at hGranted ⊢
  split
  · rename_i hYes
    simp only [Bool.and_eq_true, decide_eq_true_eq] at hYes
    exact ⟨hYes.2, rfl⟩
  · rename_i hNo
    rw [if_neg hNo] at hGranted
    cases hGranted

/-- A refused request changes nothing but the answers to come. -/
theorem grow_refused {memory : Memory} {delta : Nat} (hRefused : ¬(memory.grow delta).1.isSome) :
    (memory.grow delta).2 = { memory with verdicts := memory.verdicts.tail } := by
  simp only [Memory.grow] at hRefused ⊢
  split
  · rename_i hYes
    rw [if_pos hYes] at hRefused
    exact absurd rfl hRefused
  · rfl

namespace Pool

/-- The cursor is between the base and the limit, and the limit inside the memory.  However much the
memory may still grow, the limit stays an address. -/
structure Sound (base : Nat) (pool : Pool) : Prop where
  base_le : base ≤ pool.cursor.toNat
  cursor_le : pool.cursor.toNat ≤ pool.limit.toNat
  limit_le : pool.limit.toNat ≤ pool.memory.size
  page_le : pageSize ≤ pool.limit.toNat
  pages_le : pool.memory.pages ≤ 65536
  room : ∀ delta, pool.memory.pages + delta ≤ pool.memory.limit →
    pool.limit.toNat + delta * pageSize < 2 ^ 32
  top : pool.memory.limit ≤ 65536

variable {pool : Pool} {base : Nat} {size align : UInt32}

theorem Sound.small (hSound : pool.Sound base) : pool.memory.Small := by
  have hPages := hSound.pages_le
  simp only [Memory.Small, Memory.size, pageSize]
  omega

/-- Without an overflow the cursor is rounded up to the next multiple of the alignment. -/
theorem toNat_start (pool : Pool) {exponent : Nat} (hAlign : align.toNat = 2 ^ exponent)
    (hFits : pool.cursor.toNat + (align.toNat - 1) < 2 ^ 32) :
    (pool.start align).toNat = roundUp pool.cursor.toNat align.toNat :=
  toNat_rounded_of_lt pool.cursor hAlign hFits

/-- The pages asked for reach up to the end of the request, and no page less would. -/
theorem toNat_deficit {stop : UInt32} (hPage : pageSize ≤ pool.limit.toNat)
    (hLimit : pool.limit < stop) :
    (pool.deficit stop).toNat = (stop.toNat - pool.limit.toNat + 65535) / 65536 := by
  have hLess := UInt32.lt_iff_toNat_lt.1 hLimit
  have hStop := stop.toNat_lt
  have hGap : (stop - pool.limit + (pageBytes - 1)).toNat =
      stop.toNat - pool.limit.toNat + 65535 := by
    rw [UInt32.toNat_add, UInt32.toNat_sub_of_le _ _ (UInt32.le_of_lt hLimit)]
    have hOne : (pageBytes - 1).toNat = 65535 := rfl
    rw [hOne, Nat.mod_eq_of_lt]
    simp only [pageSize] at hPage
    omega
  rw [deficit, UInt32.toNat_shiftRight, hGap, Nat.shiftRight_eq_div_pow]
  rfl

/-- Granted pages keep a pool sound and make room for the request. -/
theorem Sound.grown (hSound : pool.Sound base) {stop : UInt32} (hLimit : pool.limit < stop)
    (hGranted : (pool.memory.grow (pool.deficit stop).toNat).1.isSome) :
    (pool.grown (pool.deficit stop)).Sound base ∧
      pool.limit.toNat ≤ (pool.grown (pool.deficit stop)).limit.toNat ∧
      stop.toNat ≤ (pool.grown (pool.deficit stop)).limit.toNat := by
  obtain ⟨hBase, hCursor, hSize, hPage, hPages, hRoom, hTop⟩ := hSound
  obtain ⟨hMax, hMemory⟩ := grow_granted hGranted
  have hLess := UInt32.lt_iff_toNat_lt.1 hLimit
  have hDeficit := toNat_deficit hPage hLimit
  generalize pool.deficit stop = pages at hMax hMemory hDeficit ⊢
  simp only [Memory.size, pageSize] at hSize hPage hRoom
  have hReach := hRoom pages.toNat hMax
  have hShift : (pages <<< 16).toNat = pages.toNat * 65536 := by
    have hStop := stop.toNat_lt
    rw [UInt32.toNat_shiftLeft, Nat.shiftLeft_eq]
    have hAmount : (16 : UInt32).toNat % 32 = 16 := rfl
    rw [hAmount, Nat.mod_eq_of_lt (by omega)]
  have hMoved : (pool.limit + (pages <<< 16)).toNat =
      pool.limit.toNat + pages.toNat * 65536 := by
    rw [UInt32.toNat_add, hShift, Nat.mod_eq_of_lt hReach]
  refine ⟨⟨?_, ?_, ?_, ?_, ?_, ?_, ?_⟩, ?_, ?_⟩ <;>
    simp only [Pool.grown, hMemory, hMoved, Memory.size, pageSize]
  case refine_6 =>
    intro delta hDelta
    have hBoth := hRoom (pages.toNat + delta) (by omega)
    omega
  all_goals omega

/-- A refused request keeps a pool sound. -/
theorem Sound.denied (hSound : pool.Sound base) {pages : UInt32}
    (hRefused : ¬(pool.memory.grow pages.toNat).1.isSome) : (pool.denied pages).Sound base := by
  have hMemory := grow_refused hRefused
  obtain ⟨hBase, hCursor, hSize, hPage, hPages, hRoom, hTop⟩ := hSound
  constructor <;> simp only [Pool.denied, hMemory, Memory.size] <;> assumption

/-- An allocation that does not overflow is refused and changes nothing but the answers to come, or
it hands out the first aligned bytes above the cursor. -/
theorem alloc_cases (hSound : pool.Sound base) {exponent : Nat}
    (hAlign : align.toNat = 2 ^ exponent)
    (hFits : pool.cursor.toNat + (align.toNat - 1) + size.toNat < 2 ^ 32) :
    (pool.alloc size align).2.Sound base ∧
    pool.limit.toNat ≤ (pool.alloc size align).2.limit.toNat ∧
    (((pool.alloc size align).1 = 0 ∧ (pool.alloc size align).2.cursor = pool.cursor ∧
        (pool.alloc size align).2.limit = pool.limit ∧
        (pool.alloc size align).2.memory.pages = pool.memory.pages) ∨
      ((pool.alloc size align).1.toNat = roundUp pool.cursor.toNat align.toNat ∧
        (pool.alloc size align).2.cursor.toNat =
          roundUp pool.cursor.toNat align.toNat + size.toNat)) := by
  have hStart := toNat_start pool hAlign (by omega)
  have hBelow := roundUp_le pool.cursor.toNat align.toNat
  have hAbove := le_roundUp pool.cursor.toNat (hAlign ▸ Nat.two_pow_pos exponent)
  have hStop : (pool.start align + size).toNat =
      roundUp pool.cursor.toNat align.toNat + size.toNat := by
    rw [UInt32.toNat_add, hStart, Nat.mod_eq_of_lt (by omega)]
  have hBase := hSound.base_le
  rw [alloc]
  by_cases hRoom : pool.limit < pool.start align + size
  · simp only [if_pos hRoom]
    by_cases hGranted : (pool.memory.grow (pool.deficit (pool.start align + size)).toNat).1.isSome
    · simp only [if_pos hGranted]
      obtain ⟨hGrown, hLimit, hReach⟩ := hSound.grown hRoom hGranted
      refine ⟨⟨?_, ?_, hGrown.limit_le, hGrown.page_le, hGrown.pages_le, hGrown.room, hGrown.top⟩,
        hLimit, .inr ⟨hStart, hStop⟩⟩
      · rw [hStop]
        omega
      · exact hReach
    · simp only [if_neg hGranted]
      refine ⟨hSound.denied hGranted, le_rfl, .inl ⟨trivial, rfl, rfl, ?_⟩⟩
      rw [denied, grow_refused hGranted]
  · simp only [if_neg hRoom]
    have hWithin := UInt32.le_iff_toNat_le.1 (UInt32.not_lt.1 hRoom)
    refine ⟨⟨?_, hWithin, hSound.limit_le, hSound.page_le, hSound.pages_le, hSound.room,
      hSound.top⟩, le_rfl, .inr ⟨hStart, hStop⟩⟩
    rw [hStop]
    omega

/-- An allocation writes no byte. -/
theorem alloc_content (pool : Pool) (size align : UInt32) :
    (pool.alloc size align).2.memory.content = pool.memory.content := by
  have hGrow (delta : Nat) : (pool.memory.grow delta).2.content = pool.memory.content := by
    rw [Memory.grow]
    split <;> rfl
  rw [alloc]
  split
  · split
    · exact hGrow _
    · exact hGrow _
  · rfl

theorem Sound.reset (hSound : pool.Sound base) {cursor : UInt32} (hCursor : cursor.toNat = base) :
    (pool.reset cursor).Sound base := by
  obtain ⟨hBase, hBelow, hSize, hPage, hPages, hRoom, hTop⟩ := hSound
  constructor <;> simp only [Pool.reset, hCursor] <;> first | assumption | omega

end Pool

end RecordWasm.Heap
