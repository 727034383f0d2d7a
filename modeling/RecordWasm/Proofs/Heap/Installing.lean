import RecordWasm.Proofs.Heap.Install
import RecordWasm.Proofs.Binary.Instructions
import Mathlib.Order.Bounds.Defs

/-!
# Installing is all or nothing

Installing a heap changes a builder step by step, and what the steps before a failure have done
would stay in the builder.  `installing` keeps the builder of a failure for this reason.  No step
can fail behind the check of the configuration, so that a builder is either given a whole heap or
left as it is.
-/

namespace RecordWasm.Heap

open Wasm Assembly

/-- Work on a builder that stays as it is at a failure. -/
abbrev Building := EStateM Failure Builder

namespace Building

/-- A step that cannot fail and answers an index. -/
def add (step : Builder → UInt32 × Builder) : Building UInt32 := fun builder =>
  .ok (step builder).1 (step builder).2

/-- A step that does nothing if it fails. -/
def attempt (step : Builder → Except Failure Builder) : Building Unit := fun builder =>
  match step builder with
  | .ok next => .ok () next
  | .error failure => .error failure builder

/-- A check that has nothing to do with the builder. -/
def check (result : Except Failure Unit) : Building Unit := fun builder =>
  match result with
  | .ok () => .ok () builder
  | .error failure => .error failure builder

/-- What the work on a builder answers, with the builder that is left only if it succeeds. -/
def answer {α : Type} (building : Building α) (builder : Builder) : Except Failure (α × Builder) :=
  match building builder with
  | .ok value left => .ok (value, left)
  | .error failure _ => .error failure

variable {α β : Type} {builder : Builder}

theorem answer_pure (value : α) : answer (pure value) builder = .ok (value, builder) := rfl

theorem answer_add {step : Builder → UInt32 × Builder} {next : UInt32 → Building β} :
    answer (add step >>= next) builder = answer (next (step builder).1) (step builder).2 := rfl

theorem answer_attempt {step : Builder → Except Failure Builder} {next : Unit → Building β} :
    answer (attempt step >>= next) builder = step builder >>= fun left =>
      answer (next ()) left := by
  simp only [answer, attempt, bind, EStateM.bind, Except.bind]
  cases step builder <;> rfl

theorem answer_check {result : Except Failure Unit} {next : Unit → Building β} :
    answer (check result >>= next) builder = result >>= fun _ => answer (next ()) builder := by
  cases result <;> rfl

end Building

/-- Puts a heap into a builder, one step after the other. -/
def installing (base pages : UInt32) : Building Handle := do
  Building.check ((checkConfig base pages).mapError ConfigError.failure)
  let limit := base + pages * pageBytes
  let cursorGlobal ← Building.add (·.addGlobal (wordGlobal base))
  let limitGlobal ← Building.add (·.addGlobal (wordGlobal limit))
  let allocFunc ← Building.add (·.declareFunction allocName allocType)
  let resetFunc ← Building.add (·.declareFunction resetName resetType)
  let handle : Handle := { base, limit, cursorGlobal, limitGlobal, allocFunc, resetFunc }
  let refused (detail : String) : Failure → Failure :=
    Report.because { phase := .alloc, kind := .invalidConfig, detail }
  Building.attempt fun builder =>
    (setBody builder allocFunc ⟨allocLocals, handle.allocInstrs⟩).mapError
      (refused "set alloc body")
  Building.attempt fun builder =>
    (setBody builder resetFunc ⟨[], handle.resetInstrs⟩).mapError (refused "set reset body")
  return handle

variable {builder : Builder} {base pages : UInt32}

/-- Installing step by step gives the same heap and the same failures. -/
theorem answer_installing :
    (installing base pages).answer builder = install builder base pages := by
  simp only [installing, Building.answer_check, Building.answer_attempt, Building.answer_add,
    Building.answer_pure, install, installWith]
  rfl

/-- What keeps a heap from being set up. -/
def Unfit (base pages : UInt32) : Prop :=
  ¬8 ∣ base.toNat ∨ pages.toNat = 0 ∨ 256 < pages.toNat ∨
    256 * 65536 < base.toNat + pages.toNat * 65536

instance : Decidable (Unfit base pages) := inferInstanceAs (Decidable (_ ∨ _ ∨ _ ∨ _))

theorem checkConfig_eq_ok : checkConfig base pages = .ok () ↔ ¬Unfit base pages := by
  have hAligned : base % 8 = 0 ↔ 8 ∣ base.toNat := by
    rw [← UInt32.toNat_inj, UInt32.toNat_mod, Nat.dvd_iff_mod_eq_zero]
    rfl
  have hSome : pages ≠ 0 ↔ pages.toNat ≠ 0 := not_congr UInt32.toNat_inj.symm
  have hFew : pages ≤ maxPages ↔ pages.toNat ≤ 256 := UInt32.le_iff_toNat_le
  have hRoom : base.toNat + pages.toNat * pageSize ≤ maxPages.toNat * pageSize ↔
      base.toNat + pages.toNat * 65536 ≤ 256 * 65536 := Iff.rfl
  simp only [checkConfig, bind_ok, require_ok, exists_and_left, exists_const, hAligned, hSome, hFew,
    hRoom, Unfit, not_or, not_not, Nat.not_lt, and_assoc]

/-- A refused configuration leaves the builder as it is. -/
theorem installing_unfit (hUnfit : Unfit base pages) :
    ∃ failure, installing base pages builder = .error failure builder := by
  cases hCheck : checkConfig base pages with
  | ok _ => exact absurd hUnfit (checkConfig_eq_ok.1 hCheck)
  | error cause =>
      refine ⟨cause.failure, ?_⟩
      simp only [installing, Building.check, hCheck, Except.mapError, bind, EStateM.bind]

/-- Behind the check no step fails. -/
theorem installing_fit (hFit : ¬Unfit base pages) (hFunctions : builder.numFunctions + 2 ≤ 2 ^ 32) :
    installing base pages builder =
      .ok (handleAt builder base pages) (withHeap builder base pages) := by
  have hInstall := install_gives (checkConfig_eq_ok.2 hFit) hFunctions
  rw [← answer_installing, Building.answer] at hInstall
  split at hInstall
  · rename_i handle left hRun
    cases hInstall
    exact hRun
  · cases hInstall

/-- A mutable word whose initializer reads back as the given one. -/
structure StartsAs (item : Global) (value : UInt32) : Prop where
  type : item.type = ⟨.i32, true⟩
  init : ∃ start : Int32, Instr.decodeAll item.init = .ok [.i32Const start, .close] ∧
    start.toUInt32 = value

theorem startsAs_wordGlobal (value : UInt32) : StartsAs (wordGlobal value) value where
  type := rfl
  init := by
    refine ⟨value.toInt32, decodeAll_encodeAll ?_, by simp⟩
    simp [Instr.i32Const, Instr.close, Opcode.admits]

/-- A heap that has been put behind what a builder held, with a handle that refers to its parts. -/
structure Installed (builder : Builder) (base pages : UInt32) (handle : Handle) (left : Builder) :
    Prop where
  config : left.config = builder.config
  imports : left.imports = builder.imports
  exports : left.exports = builder.exports
  globals : ∃ cursor limit, left.globals = builder.globals ++ [cursor, limit] ∧
    StartsAs cursor handle.base ∧ StartsAs limit handle.limit
  functions : ∃ alloc reset, left.funcs = builder.funcs ++ [alloc, reset] ∧
    alloc.body = some ⟨allocLocals, handle.allocInstrs⟩ ∧
      reset.body = some ⟨[], handle.resetInstrs⟩ ∧
    alloc.type = allocType ∧ reset.type = resetType
  cursorGlobal : handle.cursorGlobal.toNat = builder.globals.length
  limitGlobal : handle.limitGlobal.toNat = builder.globals.length + 1
  allocFunc : handle.allocFunc.toNat = builder.numFunctions
  resetFunc : handle.resetFunc.toNat = builder.numFunctions + 1
  start : handle.base = base
  limit : handle.limit.toNat = base.toNat + pages.toNat * 65536
  memoryPages : IsLeast {count | handle.limit.toNat ≤ count * 65536} handle.memoryPages.toNat
  few : handle.memoryPages.toNat ≤ 256

theorem installed_withHeap (hFit : ¬Unfit base pages)
    (hFunctions : builder.numFunctions + 2 ≤ 2 ^ 32)
    (hGlobals : builder.globals.length + 2 ≤ 2 ^ 32) :
    Installed builder base pages (handleAt builder base pages) (withHeap builder base pages) := by
  have hCheck := checkConfig_eq_ok.2 hFit
  obtain ⟨-, hRoom⟩ := checkConfig_ok hCheck
  let handle := handleAt builder base pages
  have hLimit : handle.limit.toNat = base.toNat + pages.toNat * 65536 := toNat_limit hCheck
  have hPages := handle.toNat_memoryPages (by omega)
  exact {
    config := rfl
    imports := rfl
    exports := rfl
    globals := ⟨_, _, rfl, startsAs_wordGlobal _, startsAs_wordGlobal _⟩
    functions := ⟨_, _, rfl, rfl, rfl, rfl, rfl⟩
    cursorGlobal := toNat_toUInt32 (by omega)
    limitGlobal := toNat_toUInt32 (by omega)
    allocFunc := toNat_toUInt32 (by omega)
    resetFunc := toNat_toUInt32 (by omega)
    start := rfl
    limit := hLimit
    memoryPages := by
      rw [hPages]
      refine ⟨?_, fun count hCovers => ?_⟩
      · change handle.limit.toNat ≤ _
        omega
      · change handle.limit.toNat ≤ _ at hCovers
        omega
    few := by
      change handle.memoryPages.toNat ≤ 256
      omega }

/-- A heap is refused exactly if its base is not aligned or its pages are none or too many for a
memory of 256 pages; the builder is then left as it is.  Otherwise the builder is given two globals
and two functions, and the handle says where they are and how large the heap is.  Functions and
globals have 32-bit indices. -/
theorem installing_all_or_nothing (builder : Builder) (base pages : UInt32)
    (hFunctions : builder.numFunctions + 2 ≤ 2 ^ 32)
    (hGlobals : builder.globals.length + 2 ≤ 2 ^ 32) :
    (installing base pages).answer builder = install builder base pages ∧
    (Unfit base pages ↔ ∃ failure left, installing base pages builder = .error failure left) ∧
    (∀ failure left, installing base pages builder = .error failure left → left = builder) ∧
    ∀ handle left, installing base pages builder = .ok handle left →
      Installed builder base pages handle left := by
  by_cases hUnfit : Unfit base pages
  · obtain ⟨failure, hRun⟩ := @installing_unfit builder base pages hUnfit
    simp only [answer_installing, hUnfit, hRun, true_iff, true_and]
    refine ⟨⟨failure, builder, rfl⟩, ?_, ?_⟩
    · rintro _ _ ⟨⟩
      rfl
    · rintro _ _ ⟨⟩
  · have hRun := installing_fit hUnfit hFunctions
    simp only [answer_installing, hUnfit, hRun, false_iff, true_and]
    refine ⟨?_, ?_, ?_⟩
    · rintro ⟨_, _, ⟨⟩⟩
    · rintro _ _ ⟨⟩
    · rintro _ _ ⟨⟩
      exact installed_withHeap hUnfit hFunctions hGlobals

/-- Behind an import, a function and a global the largest heap on this base is installed, and one
page more changes nothing. -/
theorem installing_all_or_nothing_behind :
    let builder : Builder :=
      { config := {}, imports := [⟨"env", "log", resetType⟩], funcs := [⟨"main", resetType, none⟩],
        globals := [wordGlobal 7] }
    (builder.numFunctions + 2 ≤ 2 ^ 32 ∧ builder.globals.length + 2 ≤ 2 ^ 32) ∧
    (∃ handle left, installing 1024 255 builder = .ok handle left ∧
      Installed builder 1024 255 handle left ∧ handle.memoryPages.toNat = 256) ∧
    ∃ failure, installing 1024 256 builder = .error failure builder := by
  intro builder
  have hFunctions : builder.numFunctions + 2 ≤ 2 ^ 32 := by decide
  have hGlobals : builder.globals.length + 2 ≤ 2 ^ 32 := by decide
  obtain ⟨-, hFails, -, hGives⟩ := installing_all_or_nothing builder 1024 255 hFunctions hGlobals
  obtain ⟨-, hRefused, hKept, -⟩ := installing_all_or_nothing builder 1024 256 hFunctions hGlobals
  refine ⟨⟨hFunctions, hGlobals⟩, ?_, ?_⟩
  · cases hRun : installing 1024 255 builder with
    | error failure left => exact absurd (hFails.2 ⟨failure, left, hRun⟩) (by decide)
    | ok handle left =>
        have hInstalled := hGives handle left hRun
        refine ⟨handle, left, rfl, hInstalled, ?_⟩
        have hCovered : handle.limit.toNat ≤ handle.memoryPages.toNat * 65536 :=
          hInstalled.memoryPages.1
        have hLimit : handle.limit.toNat = 1024 + 255 * 65536 := hInstalled.limit
        have hFew := hInstalled.few
        omega
  · obtain ⟨failure, left, hRun⟩ := hRefused.1 (by decide)
    rw [hKept failure left hRun] at hRun
    exact ⟨failure, hRun⟩

end RecordWasm.Heap
