import RecordWasm.Proofs.Heap.Run

/-!
# Requests of any size

A host may ask for any number of bytes.  The emitted arithmetic wraps around at the end of the
address space, so an answer can be relied on only as long as the request, counted from the rounded
cursor, ends at an address.  `alloc_safe_iff` says for which requests the answer is safe: for those,
for those that the memory turns down, and in one case by coincidence.
-/

namespace RecordWasm.Heap

open Wasm Assembly Machine

variable {pool : Pool} {base : Nat} {size align : UInt32} {exponent : Nat}

/-- An answer that the owner of the heap can rely on: the request was turned down and the heap is as
it was, or the bytes handed out lie behind all earlier ones and inside the memory.  The cursor does
not go back. -/
def Safe (before after : Pool) (size address : UInt32) : Prop :=
  (address = 0 ∧ after.cursor = before.cursor ∧ after.limit = before.limit ∨
      before.cursor.toNat ≤ address.toNat ∧
        address.toNat + size.toNat ≤ after.memory.size) ∧
    before.cursor.toNat ≤ after.cursor.toNat

namespace Pool

/-- The request ends at an address. -/
def Fits (pool : Pool) (size align : UInt32) : Prop :=
  roundUp pool.cursor.toNat align.toNat + size.toNat < 2 ^ 32

/-- The memory would have to grow for the request and does not. -/
def Refuses (pool : Pool) (size align : UInt32) : Prop :=
  pool.limit < pool.start align + size ∧
    ¬(pool.memory.grow (pool.deficit (pool.start align + size)).toNat).1.isSome

/-- No aligned address is left, and the number of bytes is the address that the cursor is at. -/
def Coincides (pool : Pool) (size align : UInt32) : Prop :=
  roundUp pool.cursor.toNat align.toNat = 2 ^ 32 ∧ size = pool.cursor

/-- The machine rounds up modulo the size of the address space. -/
theorem toNat_start_mod (pool : Pool) (hAlign : align.toNat = 2 ^ exponent) :
    (pool.start align).toNat = roundUp pool.cursor.toNat align.toNat % 2 ^ 32 :=
  toNat_rounded pool.cursor hAlign

/-- The end of a request is computed modulo the size of the address space. -/
theorem toNat_stop_mod (pool : Pool) (size : UInt32) (hAlign : align.toNat = 2 ^ exponent) :
    (pool.start align + size).toNat =
      (roundUp pool.cursor.toNat align.toNat + size.toNat) % 2 ^ 32 := by
  rw [UInt32.toNat_add, toNat_start_mod pool hAlign, Nat.mod_add_mod]

/-- The cursor is between the base and the end of the memory.  The limit lies between them as well,
unless the memory is as large as the address space: then its end is no address and reads zero. -/
structure Settled (base : Nat) (pool : Pool) : Prop where
  base_le : base ≤ pool.cursor.toNat
  cursor_le : pool.cursor.toNat ≤ pool.memory.size
  pages_le : pool.memory.pages ≤ 65536
  top : pool.memory.limit ≤ 65536
  limit : pool.cursor.toNat ≤ pool.limit.toNat ∧ pool.limit.toNat ≤ pool.memory.size ∧
      pageSize ≤ pool.limit.toNat ∨
    pool.limit = 0 ∧ pool.memory.pages = 65536

/-- A request that is turned down leaves the heap as it was. -/
theorem alloc_refused (hRefuses : pool.Refuses size align) :
    pool.alloc size align = (0, pool.denied (pool.deficit (pool.start align + size))) := by
  simp only [alloc, if_pos hRefuses.1, if_neg hRefuses.2]

theorem Settled.denied (hSettled : pool.Settled base) {pages : UInt32}
    (hRefused : ¬(pool.memory.grow pages.toNat).1.isSome) : (pool.denied pages).Settled base := by
  have hMemory := grow_refused hRefused
  obtain ⟨hBase, hCursor, hPages, hTop, hLimit⟩ := hSettled
  constructor <;> simp only [Pool.denied, hMemory, Memory.size] <;> assumption

/-- A memory of all addresses grants no more than nothing. -/
theorem deficit_of_full {stop : UInt32} (hTop : pool.memory.limit ≤ 65536)
    (hFull : pool.memory.pages = 65536)
    (hGranted : (pool.memory.grow (pool.deficit stop).toNat).1.isSome) : pool.deficit stop = 0 := by
  have hMax := (grow_granted hGranted).1
  apply UInt32.toNat_inj.1
  rw [UInt32.toNat_zero]
  omega

/-- Granted pages reach up to the end of the request. -/
theorem Settled.grown (hSettled : pool.Settled base) {stop : UInt32} (hStop : base ≤ stop.toNat)
    (hLimit : pool.limit < stop)
    (hGranted : (pool.memory.grow (pool.deficit stop).toNat).1.isSome) :
    Settled base { pool.grown (pool.deficit stop) with cursor := stop } := by
  obtain ⟨-, -, hPages, hTop, hEither⟩ := hSettled
  obtain ⟨hMax, hMemory⟩ := grow_granted hGranted
  have hLess := UInt32.lt_iff_toNat_lt.1 hLimit
  have hWord := stop.toNat_lt
  rcases hEither with ⟨hCursor, hSize, hPage⟩ | ⟨hZero, hFull⟩
  · have hDeficit := toNat_deficit hPage hLimit
    generalize pool.deficit stop = pages at hMax hMemory hDeficit ⊢
    simp only [Memory.size, pageSize] at hSize hPage
    have hShift : (pages <<< 16).toNat = pages.toNat * 65536 := by
      rw [UInt32.toNat_shiftLeft, Nat.shiftLeft_eq]
      have hAmount : (16 : UInt32).toNat % 32 = 16 := rfl
      rw [hAmount, Nat.mod_eq_of_lt (by omega)]
    have hMoved : (pool.limit + (pages <<< 16)).toNat =
        (pool.limit.toNat + pages.toNat * 65536) % 2 ^ 32 := by
      rw [UInt32.toNat_add, hShift]
    refine ⟨hStop, ?_, ?_, ?_, ?_⟩ <;> simp only [Pool.grown, hMemory, Memory.size, pageSize]
    · omega
    · omega
    · exact hTop
    · by_cases hEnd : pool.limit.toNat + pages.toNat * 65536 < 2 ^ 32
      · left
        rw [hMoved, Nat.mod_eq_of_lt hEnd]
        omega
      · right
        refine ⟨UInt32.toNat_inj.1 ?_, by omega⟩
        have hExact : pool.limit.toNat + pages.toNat * 65536 = 2 ^ 32 := by omega
        rw [hMoved, hExact]
        rfl
  · have hNone := deficit_of_full hTop hFull hGranted
    rw [hNone, UInt32.toNat_zero] at hMemory
    refine ⟨hStop, ?_, ?_, ?_, .inr ?_⟩ <;>
      simp only [Pool.grown, hNone, UInt32.toNat_zero, hMemory, hZero, Memory.size, hFull, pageSize]
    · omega
    · omega
    · exact hTop
    · exact ⟨rfl, trivial⟩

/-- The address and the cursor after a request that is not turned down, whether its end wrapped
around or not. -/
theorem alloc_served (hServed : ¬pool.Refuses size align) :
    (pool.alloc size align).1 = pool.start align ∧
      (pool.alloc size align).2.cursor = pool.start align + size := by
  by_cases hRoom : pool.limit < pool.start align + size
  · have hGranted :
        (pool.memory.grow (pool.deficit (pool.start align + size)).toNat).1.isSome :=
      not_not.1 fun hNot => hServed ⟨hRoom, hNot⟩
    simp only [alloc, if_pos hRoom, if_pos hGranted, and_self]
  · simp only [alloc, if_neg hRoom, and_self]

theorem Settled.served (hSettled : pool.Settled base) (hServed : ¬pool.Refuses size align)
    (hStop : base ≤ (pool.start align + size).toNat) : (pool.alloc size align).2.Settled base := by
  by_cases hRoom : pool.limit < pool.start align + size
  · have hGranted :
        (pool.memory.grow (pool.deficit (pool.start align + size)).toNat).1.isSome :=
      not_not.1 fun hNot => hServed ⟨hRoom, hNot⟩
    simp only [alloc, if_pos hRoom, if_pos hGranted]
    exact hSettled.grown hStop hRoom hGranted
  · simp only [alloc, if_neg hRoom]
    have hWithin := UInt32.le_iff_toNat_le.1 (UInt32.not_lt.1 hRoom)
    refine ⟨hStop, ?_, hSettled.pages_le, hSettled.top, ?_⟩
    · rcases hSettled.limit with ⟨-, hSize, -⟩ | ⟨hZero, -⟩
      · exact hWithin.trans hSize
      · rw [hZero, UInt32.toNat_zero] at hWithin
        exact hWithin.trans (Nat.zero_le _)
    · exact hSettled.limit.imp (fun hEnd => ⟨hWithin, hEnd.2⟩) id

/-- A request whose end is computed to be where the cursor is leaves the limit alone. -/
theorem Settled.limit_of_coincides (hSettled : pool.Settled base)
    (hServed : ¬pool.Refuses size align) (hSame : pool.start align + size = pool.cursor) :
    (pool.alloc size align).2.limit = pool.limit := by
  by_cases hRoom : pool.limit < pool.start align + size
  · have hGranted :
        (pool.memory.grow (pool.deficit (pool.start align + size)).toNat).1.isSome :=
      not_not.1 fun hNot => hServed ⟨hRoom, hNot⟩
    have hLess := UInt32.lt_iff_toNat_lt.1 hRoom
    rw [hSame] at hLess
    rcases hSettled.limit with ⟨hCursor, -⟩ | ⟨hZero, hFull⟩
    · omega
    · have hNone := deficit_of_full hSettled.top hFull hGranted
      simp only [alloc, if_pos hRoom, if_pos hGranted]
      rw [hNone, Pool.grown, hZero]
      rfl
  · simp only [alloc, if_neg hRoom]

theorem safe_of_refuses (hRefuses : pool.Refuses size align) :
    Safe pool (pool.alloc size align).2 size (pool.alloc size align).1 := by
  rw [alloc_refused hRefuses]
  exact ⟨.inl ⟨rfl, rfl, rfl⟩, le_rfl⟩

theorem Settled.safe_of_fits (hSettled : pool.Settled base) (hAlign : align.toNat = 2 ^ exponent)
    (hServed : ¬pool.Refuses size align) (hFits : pool.Fits size align) :
    Safe pool (pool.alloc size align).2 size (pool.alloc size align).1 ∧
      base ≤ (pool.start align + size).toNat := by
  rw [Fits] at hFits
  have hBase := hSettled.base_le
  have hAbove := le_roundUp pool.cursor.toNat (hAlign ▸ Nat.two_pow_pos exponent)
  have hStart := toNat_start_mod pool hAlign
  have hStop := toNat_stop_mod pool size hAlign
  rw [Nat.mod_eq_of_lt (by omega)] at hStart
  rw [Nat.mod_eq_of_lt hFits] at hStop
  have hLow : base ≤ (pool.start align + size).toNat := by omega
  obtain ⟨hAddress, hCursor⟩ := alloc_served hServed
  have hInside := (hSettled.served hServed hLow).cursor_le
  rw [hCursor, hStop] at hInside
  refine ⟨⟨.inr ⟨?_, ?_⟩, ?_⟩, hLow⟩
  · rw [hAddress, hStart]
    exact hAbove
  · rwa [hAddress, hStart]
  · rw [hCursor, hStop]
    omega

theorem Settled.safe_of_coincides (hSettled : pool.Settled base)
    (hAlign : align.toNat = 2 ^ exponent) (hServed : ¬pool.Refuses size align)
    (hCoincides : pool.Coincides size align) :
    Safe pool (pool.alloc size align).2 size (pool.alloc size align).1 ∧
      base ≤ (pool.start align + size).toNat := by
  obtain ⟨hEnd, rfl⟩ := hCoincides
  have hStart : pool.start align = 0 := by
    apply UInt32.toNat_inj.1
    rw [toNat_start_mod pool hAlign, hEnd]
    rfl
  have hSame : pool.start align + pool.cursor = pool.cursor := by rw [hStart, UInt32.zero_add]
  obtain ⟨hAddress, hCursor⟩ := alloc_served hServed
  rw [hSame] at hCursor ⊢
  refine ⟨⟨.inl ⟨hAddress.trans hStart, hCursor, ?_⟩, ?_⟩, hSettled.base_le⟩
  · exact hSettled.limit_of_coincides hServed hSame
  · rw [hCursor]

/-- A request that passes the end of the address space and is not turned down gets an answer that is
not safe, whatever the state of the heap. -/
theorem Settled.fits_of_safe (hSettled : pool.Settled base) (hBase : 0 < base)
    (hAlign : align.toNat = 2 ^ exponent) (hServed : ¬pool.Refuses size align)
    (hSafe : Safe pool (pool.alloc size align).2 size (pool.alloc size align).1) :
    pool.Fits size align ∨ pool.Coincides size align := by
  obtain ⟨hAddress, hCursor⟩ := alloc_served hServed
  obtain ⟨hAnswer, hForward⟩ := hSafe
  rw [hAddress, hCursor] at hAnswer
  rw [hCursor] at hForward
  have hLow := hSettled.base_le
  have hMost := roundUp_le_size pool.cursor hAlign
  have hStart := toNat_start_mod pool hAlign
  have hStop := toNat_stop_mod pool size hAlign
  have hAbove := le_roundUp pool.cursor.toNat (hAlign ▸ Nat.two_pow_pos exponent)
  have hPages : (pool.alloc size align).2.memory.size ≤ 2 ^ 32 := by
    have hAtMost := (hSettled.served hServed (by omega)).pages_le
    simp only [Memory.size, pageSize]
    omega
  rw [Fits, Coincides]
  rcases hAnswer with ⟨hNone, hSame, -⟩ | ⟨hBehind, hInside⟩
  · -- An address that is zero means that no aligned address was left.
    right
    rw [hNone, UInt32.toNat_zero] at hStart
    refine ⟨by omega, ?_⟩
    rw [hNone, UInt32.zero_add] at hSame
    exact hSame
  · left
    by_contra hPasses
    by_cases hWhole : roundUp pool.cursor.toNat align.toNat = 2 ^ 32
    · rw [hWhole, Nat.mod_self] at hStart
      omega
    · rw [Nat.mod_eq_of_lt (by omega)] at hStart
      omega

/-- An answer is safe if and only if the request ends at an address, is turned down or coincides
with the cursor, and safe answers keep the heap settled. -/
theorem Settled.alloc (hSettled : pool.Settled base) (hBase : 0 < base)
    (hAlign : align.toNat = 2 ^ exponent) :
    (Safe pool (pool.alloc size align).2 size (pool.alloc size align).1 ↔
      pool.Fits size align ∨ pool.Refuses size align ∨ pool.Coincides size align) ∧
    (Safe pool (pool.alloc size align).2 size (pool.alloc size align).1 →
      (pool.alloc size align).2.Settled base) := by
  by_cases hRefuses : pool.Refuses size align
  · refine ⟨iff_of_true (safe_of_refuses hRefuses) (.inr (.inl hRefuses)), fun _ => ?_⟩
    rw [alloc_refused hRefuses]
    exact hSettled.denied hRefuses.2
  · have hBack := fun hFits => hSettled.safe_of_fits hAlign hRefuses (hFits : pool.Fits size align)
    have hChance := fun hCoincides =>
      hSettled.safe_of_coincides hAlign hRefuses (hCoincides : pool.Coincides size align)
    refine ⟨⟨fun hSafe => ?_, ?_⟩, fun hSafe => hSettled.served hRefuses ?_⟩
    · exact (hSettled.fits_of_safe hBase hAlign hRefuses hSafe).imp_right .inr
    · rintro (hFits | hRefused | hCoincides)
      · exact (hBack hFits).1
      · exact absurd hRefused hRefuses
      · exact (hChance hCoincides).1
    · exact (hSettled.fits_of_safe hBase hAlign hRefuses hSafe).elim (fun hFits => (hBack hFits).2)
        fun hCoincides => (hChance hCoincides).2

theorem Settled.reset (hSettled : pool.Settled base) {cursor : UInt32}
    (hCursor : cursor.toNat = base) : (pool.reset cursor).Settled base := by
  obtain ⟨hBase, hInside, hPages, hTop, hLimit⟩ := hSettled
  refine ⟨hCursor.ge, ?_, hPages, hTop, ?_⟩
  · simp only [Pool.reset, hCursor]
    exact hBase.trans hInside
  · simp only [Pool.reset, hCursor]
    exact hLimit.imp_left fun hEnd => ⟨hBase.trans hEnd.1, hEnd.2⟩

end Pool

/-! ## Runs with safe answers -/

variable {functions : Array Machine.Function} {handle : Handle} {start store : Store}

/-- A store holds the state of one heap only. -/
theorem Handle.Holds.unique {other : Pool} (hHolds : handle.Holds store pool)
    (hOther : handle.Holds store other) : other = pool := by
  obtain ⟨cursor, limit, memory⟩ := pool
  obtain ⟨cursor', limit', memory'⟩ := other
  have hCursor := hHolds.cursor.symm.trans hOther.cursor
  have hLimit := hHolds.limit.symm.trans hOther.limit
  have hMemory := hHolds.memory.symm.trans hOther.memory
  simp only [Option.some.injEq, Value.i32.injEq] at hCursor hLimit hMemory
  rw [hCursor, hLimit, hMemory]

/-- The stores that calls lead to as long as every answer was safe.  Any size may be asked for. -/
inductive Trusted (functions : Array Machine.Function) (handle : Handle) (start : Store) :
    Store → Prop where
  | start : Trusted functions handle start start
  | alloc {before after : Store} {pool next : Pool} {size align address : UInt32} {exponent : Nat} :
      Trusted functions handle start before → align.toNat = 2 ^ exponent →
      (Event.alloc size align address).Takes functions handle before after →
      handle.Holds before pool → handle.Holds after next → Safe pool next size address →
      Trusted functions handle start after
  | reset {before after : Store} :
      Trusted functions handle start before → Event.reset.Takes functions handle before after →
      Trusted functions handle start after

/-- Every store that is reached with safe answers holds a settled heap. -/
theorem Trusted.settled (hLinked : handle.Linked functions) (hBase : 0 < handle.base.toNat)
    (hHolds : handle.Holds start pool) (hStart : pool.Settled handle.base.toNat)
    (hTrusted : Trusted functions handle start store) :
    ∃ now, handle.Holds store now ∧ now.Settled handle.base.toNat := by
  induction hTrusted with
  | start => exact ⟨pool, hHolds, hStart⟩
  | alloc _ hAlign hTakes hBefore hAfter hSafe ih =>
      obtain ⟨now, hNow, hSettled⟩ := ih
      obtain rfl := hNow.unique hBefore
      have hPages := hSettled.pages_le
      obtain ⟨rfl, rfl⟩ := (takes_alloc_iff hLinked hNow (by omega)).1 hTakes
      obtain rfl := (hNow.put _).unique hAfter
      exact ⟨_, hAfter, (hSettled.alloc hBase hAlign).2 hSafe⟩
  | reset _ hTakes ih =>
      obtain ⟨now, hNow, hSettled⟩ := ih
      obtain rfl := (takes_reset_iff hLinked hNow).1 hTakes
      exact ⟨_, hNow.put _, hSettled.reset rfl⟩

variable {builder installed : Builder} {heapBase pages : UInt32}

theorem settled_freshPool (hInstall : install builder heapBase pages = .ok (handle, installed))
    (hFunctions : builder.numFunctions + 2 ≤ 2 ^ 32) {maximum : Nat} (hMaximum : maximum ≤ 65536)
    (verdicts : List Bool) : (freshPool handle maximum verdicts).Settled handle.base.toNat := by
  -- The order of a fresh heap does not depend on how far its memory may grow.
  have hSound := (invariant_freshPool hInstall hFunctions (Nat.zero_le _)
    (fun _ => Nat.zero_lt_succ _) verdicts).sound
  exact ⟨hSound.base_le, hSound.cursor_le.trans hSound.limit_le, hSound.pages_le, hMaximum,
    .inl ⟨hSound.cursor_le, hSound.limit_le, hSound.page_le⟩⟩

/-- As long as the answers were safe, every further call ends, and its answer is safe if and only if
the request ends at an address, is turned down by the memory, or asks for as many bytes as the
cursor counts when no aligned address is left. -/
theorem alloc_safe_iff (hInstall : install builder heapBase pages = .ok (handle, installed))
    (hFunctions : builder.numFunctions + 2 ≤ 2 ^ 32)
    (hGlobals : builder.globals.length + 2 ≤ 2 ^ 32) (hBase : 0 < heapBase.toNat)
    (hLinked : installed.Linked functions) {maximum : Nat} (hMaximum : maximum ≤ 65536)
    (verdicts : List Bool)
    (hTrusted : Trusted functions handle (freshStore installed handle maximum verdicts) store) :
    ∃ pool, handle.Holds store pool ∧ heapBase.toNat ≤ pool.cursor.toNat ∧
      pool.cursor.toNat ≤ pool.memory.size ∧
      (∀ (size align : UInt32) (exponent : Nat), align.toNat = 2 ^ exponent →
        ∃ address after next, (Event.alloc size align address).Takes functions handle store after ∧
          handle.Holds after next ∧
          (Safe pool next size address ↔
            pool.Fits size align ∨ pool.Refuses size align ∨ pool.Coincides size align)) ∧
      ∃ after next, Event.reset.Takes functions handle store after ∧ handle.Holds after next ∧
        next = { pool with cursor := heapBase } := by
  have hCode := linked_of_install hInstall hFunctions hLinked
  have hHandle : handle.base = heapBase := by rw [(install_eq hInstall hFunctions).2.1, handleAt]
  obtain ⟨pool, hHolds, hSettled⟩ := hTrusted.settled hCode (hHandle ▸ hBase)
    (holds_freshStore hInstall hFunctions hGlobals maximum verdicts)
    (settled_freshPool hInstall hFunctions hMaximum verdicts)
  rw [hHandle] at hSettled
  have hPages := hSettled.pages_le
  refine ⟨pool, hHolds, hSettled.base_le, hSettled.cursor_le, ?_, ?_⟩
  · intro size align exponent hAlign
    exact ⟨_, _, _, (takes_alloc_iff hCode hHolds (by omega)).2 ⟨rfl, rfl⟩, hHolds.put _,
      (hSettled.alloc hBase hAlign).1⟩
  · exact ⟨_, _, (takes_reset_iff hCode hHolds).2 rfl, hHolds.put _, by rw [Pool.reset, hHandle]⟩

/-- In a fresh heap of one page a hundred bytes fit, so that the answer is safe. -/
theorem alloc_safe_iff_fresh :
    ∃ handle installed functions pool address after next,
      install (.new {}) 1024 1 = .ok (handle, installed) ∧ installed.Linked functions ∧
      handle.Holds (freshStore installed handle 65536 []) pool ∧
      (Event.alloc 100 8 address).Takes functions handle
        (freshStore installed handle 65536 []) after ∧
      handle.Holds after next ∧ Safe pool next 100 address := by
  obtain ⟨handle, installed, hInstall⟩ :
      ∃ handle installed, install (.new {}) 1024 1 = .ok (handle, installed) := ⟨_, _, rfl⟩
  have hFunctions : (Builder.new {}).numFunctions + 2 ≤ 2 ^ 32 := by decide
  have hGlobals : (Builder.new {}).globals.length + 2 ≤ 2 ^ 32 := by decide
  have hLinked := linked_alone hInstall
  obtain ⟨pool, hHolds, -, -, hAlloc, -⟩ := alloc_safe_iff hInstall hFunctions hGlobals (by decide)
    hLinked le_rfl [] .start
  obtain ⟨address, after, next, hTakes, hAfter, hSafe⟩ := hAlloc 100 8 3 rfl
  have hFits : pool.Fits 100 8 := by
    rw [(holds_freshStore hInstall hFunctions hGlobals 65536 []).unique hHolds]
    rw [(install_eq hInstall hFunctions).2.1, Pool.Fits]
    decide
  exact ⟨handle, installed, _, pool, address, after, next, hInstall, hLinked, hHolds,
    hTakes, hAfter, hSafe.2 (.inl hFits)⟩

/-- A fresh heap hands out more bytes than there are addresses behind its base, and puts the cursor
below the base, because the end of the request wraps around. -/
theorem alloc_wraps :
    ∃ handle installed functions after next,
      install (.new {}) 1024 1 = .ok (handle, installed) ∧ installed.Linked functions ∧
      handle.Holds (freshStore installed handle 65536 []) (freshPool handle 65536 []) ∧
      (Event.alloc 4294966784 8 1024).Takes functions handle
        (freshStore installed handle 65536 []) after ∧
      handle.Holds after next ∧ next.cursor = 512 ∧ next.memory.size = 131072 ∧
      ¬Safe (freshPool handle 65536 []) next 4294966784 1024 := by
  obtain ⟨handle, installed, hInstall⟩ :
      ∃ handle installed, install (.new {}) 1024 1 = .ok (handle, installed) := ⟨_, _, rfl⟩
  have hFunctions : (Builder.new {}).numFunctions + 2 ≤ 2 ^ 32 := by decide
  have hGlobals : (Builder.new {}).globals.length + 2 ≤ 2 ^ 32 := by decide
  have hLinked := linked_alone hInstall
  have hHolds := holds_freshStore hInstall hFunctions hGlobals 65536 []
  have hHandle := (install_eq hInstall hFunctions).2.1
  refine ⟨handle, installed, _, _, _, hInstall, hLinked, hHolds,
    (takes_alloc_iff (linked_of_install hInstall hFunctions hLinked) hHolds
      (by rw [hHandle]; decide)).2 ⟨?_, rfl⟩, hHolds.put _, ?_, ?_, ?_⟩
  · rw [hHandle]
    decide
  · rw [hHandle]
    decide
  · rw [hHandle]
    decide
  · rw [hHandle, Safe]
    decide

end RecordWasm.Heap
