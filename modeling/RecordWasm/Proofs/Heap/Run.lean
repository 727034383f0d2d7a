import RecordWasm.Proofs.Binary.Signed
import RecordWasm.Proofs.Heap.Install
import RecordWasm.Proofs.Heap.Pool
import Mathlib.Order.Bounds.Defs

/-!
# Runs of a heap

A run starts with a fresh instance and calls `alloc` and `reset` in any order.  `Invariant` says how
the pool and the memory handed out so far hang together; every call keeps it, and `heap_run` reads
the guarantees of the heap off it.
-/

namespace RecordWasm.Heap

open Wasm Assembly Machine

/-- A call that was made, with the address that `alloc` answered. -/
inductive Event where
  | alloc (size align address : UInt32)
  | reset

/-- A call ends and takes one store to another. -/
def Event.Takes (functions : Array Machine.Function) (handle : Handle) (before after : Store) :
    Event → Prop
  | alloc size align address =>
      ∃ fuel, exec functions fuel [.call handle.allocFunc.toNat]
        ⟨before, [], [.i32 align, .i32 size]⟩ = .next ⟨after, [], [.i32 address]⟩
  | reset =>
      ∃ fuel, exec functions fuel [.call handle.resetFunc.toNat] ⟨before, [], []⟩ =
        .next ⟨after, [], []⟩

/-- An allocation that may be asked for: the alignment is a power of two, and the end of the request
is an address. -/
def Admissible (handle : Handle) (store : Store) (size align : UInt32) : Prop :=
  (∃ exponent, align.toNat = 2 ^ exponent) ∧
    ∀ cursor, store.globals[handle.cursorGlobal.toNat]? = some (.i32 cursor) →
      cursor.toNat + (align.toNat - 1) + size.toNat < 2 ^ 32

/-- The stores that calls lead to, with the calls made so far, latest first. -/
inductive Reaches (functions : Array Machine.Function) (handle : Handle) (start : Store) :
    List Event → Store → Prop where
  | start : Reaches functions handle start [] start
  | alloc {events : List Event} {before after : Store} {size align address : UInt32} :
      Reaches functions handle start events before → Admissible handle before size align →
      (Event.alloc size align address).Takes functions handle before after →
      Reaches functions handle start (.alloc size align address :: events) after
  | reset {events : List Event} {before after : Store} :
      Reaches functions handle start events before →
      Event.reset.Takes functions handle before after →
      Reaches functions handle start (.reset :: events) after

/-- Bytes that have been handed out. -/
structure Region where
  start : Nat
  size : Nat

def Region.Apart (left right : Region) : Prop :=
  left.start + left.size ≤ right.start ∨ right.start + right.size ≤ left.start

/-- The bytes handed out since everything was taken back. -/
def regions : List Event → List Region
  | [] => []
  | .reset :: _ => []
  | .alloc size _ address :: earlier =>
      if address = 0 then regions earlier else ⟨address.toNat, size.toNat⟩ :: regions earlier

/-- What was handed out lies one behind the other between the base and the cursor, and the cursor is
at the base as long as nothing was. -/
structure Invariant (base : Nat) (pool : Pool) (given : List Region) : Prop where
  sound : pool.Sound base
  above : ∀ region ∈ given, base ≤ region.start
  below : ∀ region ∈ given, region.start + region.size ≤ pool.cursor.toNat
  apart : given.Pairwise Region.Apart
  fresh : given = [] → pool.cursor.toNat = base

variable {base : Nat} {pool : Pool} {given : List Region}

/-- What an allocation answers, told by the pools before and after it. -/
def Answers (base : Nat) (before after : Pool) (given : List Region) (size align address : UInt32) :
    Prop :=
  (address = 0 ∧ after.cursor = before.cursor ∧ after.limit = before.limit ∧
      after.memory.size = before.memory.size) ∨
    (address ≠ 0 ∧ align.toNat ∣ address.toNat ∧ before.cursor.toNat ≤ address.toNat ∧
      address.toNat + size.toNat = after.cursor.toNat ∧
      (given = [] →
        IsLeast { first | base ≤ first ∧ align.toNat ∣ first } address.toNat))

/-- An allocation answers as it should and keeps the invariant. -/
theorem Invariant.alloc (hInvariant : Invariant base pool given) (hBase : 0 < base)
    {size align : UInt32} {exponent : Nat} (hAlign : align.toNat = 2 ^ exponent)
    (hFits : pool.cursor.toNat + (align.toNat - 1) + size.toNat < 2 ^ 32) :
    Answers base pool (pool.alloc size align).2 given size align (pool.alloc size align).1 ∧
      pool.limit.toNat ≤ (pool.alloc size align).2.limit.toNat ∧
      Invariant base (pool.alloc size align).2
        (if (pool.alloc size align).1 = 0 then given
          else ⟨(pool.alloc size align).1.toNat, size.toNat⟩ :: given) := by
  obtain ⟨hSound, hLimit, hCases⟩ := Pool.alloc_cases hInvariant.sound hAlign hFits
  have hPower : 0 < align.toNat := hAlign ▸ Nat.two_pow_pos exponent
  generalize (pool.alloc size align).1 = address at hCases ⊢
  generalize (pool.alloc size align).2 = after at hSound hLimit hCases ⊢
  rcases hCases with ⟨rfl, hCursor, hSame, hPages⟩ | ⟨hAddress, hCursor⟩
  · refine ⟨.inl ⟨rfl, hCursor, hSame, by rw [Memory.size, hPages, Memory.size]⟩, hLimit, ?_⟩
    rw [if_pos rfl]
    exact ⟨hSound, hInvariant.above, hCursor ▸ hInvariant.below, hInvariant.apart,
      hCursor ▸ hInvariant.fresh⟩
  · have hAbove := le_roundUp pool.cursor.toNat hPower
    have hLow := hInvariant.sound.base_le
    have hSome : address ≠ 0 := by
      rintro rfl
      rw [UInt32.toNat_zero] at hAddress
      omega
    refine ⟨.inr ⟨hSome, ?_, ?_, ?_, ?_⟩, hLimit, ?_⟩
    · rw [hAddress]
      exact dvd_roundUp _ _
    · omega
    · omega
    · intro hNone
      have hFresh := hInvariant.fresh hNone
      rw [hAddress, hFresh]
      exact ⟨⟨le_roundUp base hPower, dvd_roundUp _ _⟩,
        fun other hOther => roundUp_least hOther.2 hOther.1⟩
    · rw [if_neg hSome]
      refine ⟨hSound, ?_, ?_, ?_, by simp⟩
      · simp only [List.mem_cons, forall_eq_or_imp]
        exact ⟨by omega, hInvariant.above⟩
      · simp only [List.mem_cons, forall_eq_or_imp]
        refine ⟨by omega, fun region hRegion => ?_⟩
        have hOld := hInvariant.below region hRegion
        omega
      · refine List.pairwise_cons.2 ⟨fun region hRegion => .inr ?_, hInvariant.apart⟩
        have hOld := hInvariant.below region hRegion
        simp only
        omega

theorem Invariant.reset (hInvariant : Invariant base pool given) {cursor : UInt32}
    (hCursor : cursor.toNat = base) : Invariant base (pool.reset cursor) [] where
  sound := hInvariant.sound.reset hCursor
  above := by simp
  below := by simp
  apart := .nil
  fresh := fun _ => hCursor

variable {functions : Array Machine.Function} {handle : Handle} {before after : Store}
variable {size align address : UInt32}

/-- A call of `alloc` ends in one way only, the one the pool tells. -/
theorem takes_alloc_iff (hLinked : handle.Linked functions) (hHolds : handle.Holds before pool)
    (hPages : pool.memory.pages < 4294967295) :
    (Event.alloc size align address).Takes functions handle before after ↔
      address = (pool.alloc size align).1 ∧
        after = handle.put before (pool.alloc size align).2 := by
  obtain ⟨enough, hCall⟩ : Leads functions 0 _ _ _ :=
    call_alloc hLinked hHolds hPages size align [] []
  constructor
  · rintro ⟨fuel, hRun⟩
    have hSame := exec_next_unique hRun hCall
    simp only [State.mk.injEq, List.cons.injEq, Value.i32.injEq, and_true,
      true_and] at hSame
    exact ⟨hSame.2, hSame.1⟩
  · rintro ⟨rfl, rfl⟩
    exact ⟨enough, hCall⟩

/-- A call of `reset` ends in one way only, the one the pool tells. -/
theorem takes_reset_iff (hLinked : handle.Linked functions) (hHolds : handle.Holds before pool) :
    Event.reset.Takes functions handle before after ↔
      after = handle.put before (pool.reset handle.base) := by
  obtain ⟨enough, hCall⟩ : Leads functions 0 _ _ _ := call_reset hLinked hHolds [] []
  constructor
  · rintro ⟨fuel, hRun⟩
    have hSame := exec_next_unique hRun hCall
    simpa using hSame
  · rintro rfl
    exact ⟨enough, hCall⟩

/-- Every store that is reached holds a pool for which the invariant holds. -/
theorem Reaches.invariant (hLinked : handle.Linked functions) (hBase : 0 < handle.base.toNat)
    {start store : Store} {events : List Event} (hHolds : handle.Holds start pool)
    (hStart : Invariant handle.base.toNat pool [])
    (hReaches : Reaches functions handle start events store) :
    ∃ now, handle.Holds store now ∧ Invariant handle.base.toNat now (regions events) := by
  induction hReaches with
  | start => exact ⟨pool, hHolds, hStart⟩
  | @alloc events before after size align address _ hAdmissible hTakes ih =>
      obtain ⟨now, hNow, hInvariant⟩ := ih
      have hPages := hInvariant.sound.pages_le
      obtain ⟨rfl, rfl⟩ := (takes_alloc_iff hLinked hNow (by omega)).1 hTakes
      obtain ⟨⟨exponent, hAlign⟩, hFits⟩ := hAdmissible
      exact ⟨_, hNow.put _,
        (hInvariant.alloc hBase hAlign (hFits now.cursor hNow.cursor)).2.2⟩
  | reset _ hTakes ih =>
      obtain ⟨now, hNow, hInvariant⟩ := ih
      obtain rfl := (takes_reset_iff hLinked hNow).1 hTakes
      exact ⟨_, hNow.put _, hInvariant.reset rfl⟩

variable {builder installed : Builder} {heapBase pages : UInt32}

/-- The store of a fresh instance whose memory has the pages of the heap. -/
def freshStore (installed : Builder) (handle : Handle) (maximum : Nat) (verdicts : List Bool) :
    Store where
  globals := installed.globals.map initialValue
  memory := some { pages := handle.memoryPages.toNat, limit := maximum, verdicts }

/-- The pool of a fresh instance. -/
def freshPool (handle : Handle) (maximum : Nat) (verdicts : List Bool) : Pool where
  cursor := handle.base
  limit := handle.limit
  memory := { pages := handle.memoryPages.toNat, limit := maximum, verdicts }

/-- The functions of a heap are linked if those of a builder are, among which they stand. -/
theorem linked_of_builder (hLinked : builder.Linked functions) (first : Nat)
    (hPlace : ∀ offset, offset < 2 → builder.funcs[first + offset]? = handle.functions[offset]?)
    (hAlloc : handle.allocFunc.toNat = builder.imports.length + (first + 0))
    (hReset : handle.resetFunc.toNat = builder.imports.length + (first + 1)) :
    handle.Linked functions := by
  constructor
  · obtain ⟨types, steps, hRead, hFunction⟩ := hLinked _ _ _ (hPlace 0 (by omega)) rfl
    rw [Handle.ofInstrs?_allocInstrs] at hRead
    cases hRead
    rw [hAlloc, hFunction]
  · obtain ⟨types, steps, hRead, hFunction⟩ := hLinked _ _ _ (hPlace 1 (by omega)) rfl
    rw [Handle.ofInstrs?_resetInstrs] at hRead
    cases hRead
    rw [hReset, hFunction]

/-- The functions of an installed heap are linked if those of the builder are. -/
theorem linked_of_install (hInstall : install builder heapBase pages = .ok (handle, installed))
    (hFunctions : builder.numFunctions + 2 ≤ 2 ^ 32) (hLinked : installed.Linked functions) :
    handle.Linked functions := by
  obtain ⟨-, hHandle, hInstalled⟩ := install_eq hInstall hFunctions
  have hIndex (offset : Nat) (hOffset : offset < 2) :
      (builder.numFunctions + offset).toUInt32.toNat =
        installed.imports.length + (builder.funcs.length + offset) := by
    rw [hInstalled, Nat.toUInt32_eq, UInt32.toNat_ofNat', Nat.mod_eq_of_lt (by omega),
      Builder.numFunctions, Nat.add_assoc]
  refine linked_of_builder hLinked builder.funcs.length (fun offset _ => ?_) ?_ ?_
  · rw [hInstalled, List.getElem?_append_right (by omega), Nat.add_sub_cancel_left]
  · rw [← hIndex 0 (by omega), hHandle]
    rfl
  · rw [← hIndex 1 (by omega), hHandle]
    rfl

/-- A heap that is alone in its module is linked with the two functions it needs. -/
theorem linked_alone (hInstall : install (.new {}) heapBase pages = .ok (handle, installed)) :
    installed.Linked #[.coded allocType allocLocals handle.allocSteps,
      .coded resetType [] handle.resetSteps] := by
  obtain ⟨-, -, hInstalled⟩ := install_eq hInstall (by decide)
  intro place function body hFunction hBody
  rw [hInstalled] at hFunction ⊢
  match place with
  | 0 =>
      cases hFunction
      cases hBody
      exact ⟨[], _, handle.ofInstrs?_allocInstrs [], rfl⟩
  | 1 =>
      cases hFunction
      cases hBody
      exact ⟨[], _, handle.ofInstrs?_resetInstrs [], rfl⟩
  | _ + 2 => cases hFunction

theorem holds_freshStore (hInstall : install builder heapBase pages = .ok (handle, installed))
    (hFunctions : builder.numFunctions + 2 ≤ 2 ^ 32)
    (hGlobals : builder.globals.length + 2 ≤ 2 ^ 32) (maximum : Nat) (verdicts : List Bool) :
    handle.Holds (freshStore installed handle maximum verdicts)
      (freshPool handle maximum verdicts) := by
  obtain ⟨-, hHandle, hInstalled⟩ := install_eq hInstall hFunctions
  have hIndex (offset : Nat) (hOffset : offset < 2) :
      (builder.globals.length + offset).toUInt32.toNat = builder.globals.length + offset := by
    rw [Nat.toUInt32_eq, UInt32.toNat_ofNat', Nat.mod_eq_of_lt (by omega)]
  have hCursor : handle.cursorGlobal.toNat = builder.globals.length := by
    rw [hHandle]
    exact hIndex 0 (by omega)
  have hLimit : handle.limitGlobal.toNat = builder.globals.length + 1 := by
    rw [hHandle]
    exact hIndex 1 (by omega)
  constructor
  · rw [hCursor, freshStore, hInstalled]
    simp [initialValue_wordGlobal, freshPool, hHandle, handleAt]
  · rw [hLimit, freshStore, hInstalled]
    simp [initialValue_wordGlobal, freshPool, hHandle, handleAt]
  · omega
  · rfl

theorem invariant_freshPool (hInstall : install builder heapBase pages = .ok (handle, installed))
    (hFunctions : builder.numFunctions + 2 ≤ 2 ^ 32) {maximum : Nat} (hMaximum : maximum ≤ 65536)
    (hRoom : 65536 ∣ heapBase.toNat → maximum < 65536) (verdicts : List Bool) :
    Invariant handle.base.toNat (freshPool handle maximum verdicts) [] := by
  obtain ⟨hCheck, hHandle, -⟩ := install_eq hInstall hFunctions
  obtain ⟨hSome, hFits⟩ := checkConfig_ok hCheck
  have hLimit : handle.limit.toNat = heapBase.toNat + pages.toNat * 65536 := by
    rw [hHandle]
    exact toNat_limit hCheck
  have hPages := handle.toNat_memoryPages (by omega)
  have hBase : handle.base = heapBase := by rw [hHandle, handleAt]
  refine ⟨⟨le_rfl, ?_, ?_, ?_, ?_, ?_, hMaximum⟩, by simp, by simp, .nil, fun _ => rfl⟩
  · simp only [freshPool, hBase, hLimit]
    omega
  · simp only [freshPool, Memory.size, hPages, pageSize]
    omega
  · simp only [freshPool, hLimit, pageSize]
    omega
  · simp only [freshPool, hPages]
    omega
  · intro delta hDelta
    simp only [freshPool, pageSize] at hDelta ⊢
    by_cases hWhole : 65536 ∣ heapBase.toNat
    · have hBelow := hRoom hWhole
      omega
    · omega

/-! ## The guarantees of a heap -/

/-- What is certain of a store that a run of a heap has led to.  Besides the order of the base, the
cursor, the limit and the end of the memory these are facts about the bytes handed out since
everything was taken back, and about what a further call does. -/
structure Guaranteed (functions : Array Machine.Function) (handle : Handle) (base : UInt32)
    (events : List Event) (store : Store) (pool : Pool) : Prop where
  holds : handle.Holds store pool
  base_le : base.toNat ≤ pool.cursor.toNat
  cursor_le : pool.cursor.toNat ≤ pool.limit.toNat
  limit_le : pool.limit.toNat ≤ pool.memory.size
  apart : (regions events).Pairwise Region.Apart
  inside : ∀ region ∈ regions events,
    region.start ≠ 0 ∧ region.start + region.size ≤ pool.memory.size
  alloc : ∀ size align, Admissible handle store size align →
    ∃ address after next, (Event.alloc size align address).Takes functions handle store after ∧
      handle.Holds after next ∧ pool.limit.toNat ≤ next.limit.toNat ∧
      Answers base.toNat pool next (regions events) size align address
  reset : ∃ after next, Event.reset.Takes functions handle store after ∧
    handle.Holds after next ∧ next.cursor = base ∧ next.limit = pool.limit ∧
    next.memory.size = pool.memory.size

/-- Every run of calls whose requests end at addresses keeps the guarantees, whatever the memory
answers when it is asked to grow. -/
theorem heap_run (hInstall : install builder heapBase pages = .ok (handle, installed))
    (hFunctions : builder.numFunctions + 2 ≤ 2 ^ 32)
    (hGlobals : builder.globals.length + 2 ≤ 2 ^ 32) (hBase : 0 < heapBase.toNat)
    (hLinked : installed.Linked functions) {maximum : Nat} (hMaximum : maximum ≤ 65536)
    (hRoom : 65536 ∣ heapBase.toNat → maximum < 65536) (verdicts : List Bool)
    {events : List Event} {store : Store}
    (hReaches : Reaches functions handle (freshStore installed handle maximum verdicts) events
      store) :
    ∃ pool, Guaranteed functions handle heapBase events store pool := by
  have hCode := linked_of_install hInstall hFunctions hLinked
  have hHandle : handle.base = heapBase := by rw [(install_eq hInstall hFunctions).2.1, handleAt]
  obtain ⟨pool, hHolds, hInvariant⟩ := hReaches.invariant hCode (hHandle ▸ hBase)
    (holds_freshStore hInstall hFunctions hGlobals maximum verdicts)
    (invariant_freshPool hInstall hFunctions hMaximum hRoom verdicts)
  rw [hHandle] at hInvariant
  have hSound := hInvariant.sound
  have hPages : pool.memory.pages < 4294967295 := by
    have hAtMost := hSound.pages_le
    omega
  refine ⟨pool, hHolds, hSound.base_le, hSound.cursor_le, hSound.limit_le, hInvariant.apart, ?_, ?_,
    ?_⟩
  · intro region hRegion
    have hAbove := hInvariant.above region hRegion
    have hBelow := hInvariant.below region hRegion
    have hCursor := hSound.cursor_le
    have hLimit := hSound.limit_le
    exact ⟨by omega, by omega⟩
  · rintro size align ⟨⟨exponent, hAlign⟩, hFits⟩
    obtain ⟨hAnswers, hLimit, -⟩ := hInvariant.alloc hBase hAlign (hFits pool.cursor hHolds.cursor)
    exact ⟨_, _, _, (takes_alloc_iff hCode hHolds hPages).2 ⟨rfl, rfl⟩, hHolds.put _, hLimit,
      hAnswers⟩
  · exact ⟨_, _, (takes_reset_iff hCode hHolds).2 rfl, hHolds.put _, hHandle, rfl, rfl⟩

/-- A store admits a request that ends at an address. -/
theorem admissible_of_holds {store : Store} (hHolds : handle.Holds store pool)
    (size align : UInt32) (exponent : Nat)
    (hAlign : align.toNat = 2 ^ exponent)
    (hFits : pool.cursor.toNat + (align.toNat - 1) + size.toNat < 2 ^ 32) :
    Admissible handle store size align := by
  refine ⟨⟨exponent, hAlign⟩, fun cursor hCursor => ?_⟩
  rw [hHolds.cursor] at hCursor
  cases hCursor
  exact hFits

/-- A run with two allocations, the second of which makes the memory grow. -/
theorem heap_run_grows :
    ∃ handle installed functions store pool,
      install (.new {}) 1024 1 = .ok (handle, installed) ∧ installed.Linked functions ∧
      Reaches functions handle (freshStore installed handle 16 [])
        [.alloc 70000 16 1136, .alloc 100 8 1024] store ∧
      Guaranteed functions handle 1024 [.alloc 70000 16 1136, .alloc 100 8 1024] store pool := by
  obtain ⟨handle, installed, hInstall⟩ :
      ∃ handle installed, install (.new {}) 1024 1 = .ok (handle, installed) := ⟨_, _, rfl⟩
  have hFunctions : (Builder.new {}).numFunctions + 2 ≤ 2 ^ 32 := by decide
  have hGlobals : (Builder.new {}).globals.length + 2 ≤ 2 ^ 32 := by decide
  obtain ⟨-, hHandle, -⟩ := install_eq hInstall hFunctions
  have hLinked := linked_alone hInstall
  have hCode := linked_of_install hInstall hFunctions hLinked
  have hFirst := holds_freshStore hInstall hFunctions hGlobals 16 []
  have hSecond := hFirst.put ((freshPool handle 16 []).alloc 100 8).2
  have hStep : Reaches _ handle _ [.alloc 100 8 1024] _ := .alloc .start
    (admissible_of_holds hFirst 100 8 3 rfl
      (by rw [hHandle]; decide))
    ((takes_alloc_iff hCode hFirst (by rw [hHandle]; decide)).2
      ⟨by rw [hHandle]; rfl, rfl⟩)
  have hReaches : Reaches _ handle _ [.alloc 70000 16 1136, .alloc 100 8 1024] _ := hStep.alloc
    (admissible_of_holds hSecond 70000 16 4 rfl
      (by rw [hHandle]; decide))
    ((takes_alloc_iff hCode hSecond (by rw [hHandle]; decide)).2
      ⟨by rw [hHandle]; rfl, rfl⟩)
  obtain ⟨pool, hGuaranteed⟩ :=
    heap_run hInstall hFunctions hGlobals (by decide) hLinked (by decide) (by decide) [] hReaches
  exact ⟨handle, installed, _, _, pool, hInstall, hLinked, hReaches, hGuaranteed⟩

end RecordWasm.Heap
