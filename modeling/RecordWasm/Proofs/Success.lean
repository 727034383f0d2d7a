import RecordWasm.Wasm.Module.Validate
import Mathlib.Algebra.Group.Nat.Defs
import Mathlib.Tactic.Common

/-!
# Computations that succeed

A chain of computations succeeds if every link does.  Indices are numbers that were made words; they
are the same numbers as long as they fit.
-/

namespace RecordWasm

variable {ε δ α β : Type}

theorem toNat_toUInt32 {number : Nat} (hFits : number < 2 ^ 32) :
    number.toUInt32.toNat = number :=
  UInt32.toNat_ofNat_of_lt' hFits

theorem toNat_toUInt32_le (number : Nat) : number.toUInt32.toNat ≤ number := by
  rw [Nat.toUInt32_eq, UInt32.toNat_ofNat']
  exact Nat.mod_le _ _

theorem bind_ok {first : Except ε α} {next : α → Except ε β} {result : β} :
    (first >>= next) = .ok result ↔ ∃ value, first = .ok value ∧ next value = .ok result := by
  cases first with
  | error cause => simp [bind, Except.bind]
  | ok value => simp [bind, Except.bind]

theorem bind_error {first : Except ε α} {next : α → Except ε β} {cause : ε} :
    (first >>= next) = .error cause ↔
      first = .error cause ∨ ∃ value, first = .ok value ∧ next value = .error cause := by
  cases first with
  | error other => simp [bind, Except.bind]
  | ok value => simp [bind, Except.bind]

theorem pure_ok {value result : α} : (pure value : Except ε α) = .ok result ↔ value = result := by
  simp [pure, Except.pure]

theorem mapError_ok {first : Except ε α} {describe : ε → δ} {result : α} :
    first.mapError describe = .ok result ↔ first = .ok result := by
  cases first <;> simp [Except.mapError]

theorem map_ok {first : Except ε α} {next : α → β} {result : β} :
    first.map next = .ok result ↔ ∃ value, first = .ok value ∧ next value = result := by
  cases first <;> simp [Except.map]

theorem require_ok {condition : Prop} [Decidable condition] {cause : ε} {result : Unit} :
    Wasm.require condition cause = .ok result ↔ condition := by
  by_cases hCondition : condition <;> simp [Wasm.require, hCondition]

/-- A result that passes a test is there. -/
theorem ok_of_any {result : Except ε α} {check : α → Bool}
    (hAny : result.toOption.any check = true) :
    ∃ value, result = .ok value ∧ check value = true := by
  cases result with
  | error cause => cases hAny
  | ok value => exact ⟨value, rfl, hAny⟩

/-- What holds at the start of a fold and is kept by every step holds at its end.  The items done so
far and those that are left may be spoken of. -/
theorem foldlM_split {step : β → α → Except ε β} (motive : List α → β → Prop) {items : List α}
    {init result : β} (hInit : motive [] init)
    (hStep : ∀ done item rest before after, items = done ++ item :: rest → motive done before →
      step before item = .ok after → motive (done ++ [item]) after)
    (hFold : items.foldlM step init = .ok result) : motive items result := by
  suffices hRest : ∀ done rest before, items = done ++ rest → motive done before →
      rest.foldlM step before = .ok result → motive items result from
    hRest [] items init rfl hInit hFold
  intro done rest before hItems hBefore hFold
  induction rest generalizing done before with
  | nil =>
      rw [List.foldlM_nil, pure_ok] at hFold
      rw [List.append_nil] at hItems
      rw [hItems, ← hFold]
      exact hBefore
  | cons item rest ih =>
      rw [List.foldlM_cons, bind_ok] at hFold
      obtain ⟨after, hItem, hFold⟩ := hFold
      exact ih (done ++ [item]) after (by simp [hItems])
        (hStep done item rest before after hItems hBefore hItem) hFold

/-- The same if the steps need not know what is left. -/
theorem foldlM_ok {step : β → α → Except ε β} (motive : List α → β → Prop) {items : List α}
    {init result : β} (hInit : motive [] init)
    (hStep : ∀ done item before after, item ∈ items → motive done before →
      step before item = .ok after → motive (done ++ [item]) after)
    (hFold : items.foldlM step init = .ok result) : motive items result :=
  foldlM_split motive hInit (fun done item rest before after hItems =>
    hStep done item before after (by simp [hItems])) hFold

/-- A fold fails exactly if some step fails behind steps that succeed. -/
theorem foldlM_error {step : β → α → Except ε β} {items : List α} {init : β} {cause : ε} :
    items.foldlM step init = .error cause ↔ ∃ done item rest before, items = done ++ item :: rest ∧
      done.foldlM step init = .ok before ∧ step before item = .error cause := by
  constructor
  · intro hFold
    induction items generalizing init with
    | nil => cases hFold
    | cons first rest ih =>
        rw [List.foldlM_cons, bind_error] at hFold
        rcases hFold with hFirst | ⟨next, hFirst, hRest⟩
        · exact ⟨[], first, rest, init, rfl, rfl, hFirst⟩
        · obtain ⟨done, item, more, before, rfl, hDone, hItem⟩ := ih hRest
          refine ⟨first :: done, item, more, before, rfl, ?_, hItem⟩
          rw [List.foldlM_cons, hFirst]
          exact hDone
  · rintro ⟨done, item, rest, before, rfl, hDone, hItem⟩
    rw [List.foldlM_append, hDone]
    change (item :: rest).foldlM step before = _
    rw [List.foldlM_cons, hItem]
    rfl

end RecordWasm
