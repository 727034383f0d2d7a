import RecordWasm.Wasm.Module
import Mathlib.Algebra.Group.Nat.Defs
import Mathlib.Data.List.Chain

/-!
# Runs of locals

A function body lists its locals as runs of one type.  As long as there are words for their number,
the runs stand for just these locals, none of them is empty, and neighbours differ in type.
-/

namespace RecordWasm.Wasm.LocalRun

@[simp] theorem expand_cons (run : LocalRun) (runs : List LocalRun) :
    expand (run :: runs) = List.replicate run.count.toNat run.type ++ expand runs := rfl

/-- Runs stand for as many locals as their total says. -/
theorem total_eq_length (runs : List LocalRun) : total runs = (expand runs).length := by
  induction runs with
  | nil => rfl
  | cons run runs ih => rw [total, ih, expand_cons, List.length_append, List.length_replicate]

/-- A local in front of others makes the first run longer, or it is a run of its own. -/
theorem compact_cons (type : ValType) (rest : List ValType) :
    (∃ run runs, compact rest = run :: runs ∧ run.type = type ∧
      compact (type :: rest) = ⟨run.count + 1, type⟩ :: runs) ∨
    ((∀ run ∈ (compact rest).head?, run.type ≠ type) ∧
      compact (type :: rest) = ⟨1, type⟩ :: compact rest) := by
  rw [compact]
  cases hRest : compact rest with
  | nil => exact .inr ⟨nofun, rfl⟩
  | cons run runs =>
      by_cases hType : run.type = type
      · exact .inl ⟨run, runs, rfl, hType, if_pos hType⟩
      · refine .inr ⟨fun first hFirst => ?_, if_neg hType⟩
        cases hFirst
        exact hType

/-- The runs stand for the locals they were made of, and none is empty. -/
theorem expand_compact {types : List ValType} (hFew : types.length < 2 ^ 32) :
    expand (compact types) = types ∧ ∀ run ∈ compact types, 1 ≤ run.count := by
  induction types with
  | nil => exact ⟨rfl, nofun⟩
  | cons type rest ih =>
      rw [List.length_cons] at hFew
      obtain ⟨hRest, hCounts⟩ := ih (by omega)
      rcases compact_cons type rest with ⟨run, runs, hRuns, rfl, hCompact⟩ | ⟨-, hCompact⟩
      · rw [hRuns] at hRest hCounts
        rw [expand_cons] at hRest
        have hLength := congrArg List.length hRest
        rw [List.length_append, List.length_replicate] at hLength
        have hCount : (run.count + 1).toNat = run.count.toNat + 1 := by
          rw [UInt32.toNat_add]
          exact Nat.mod_eq_of_lt (by simp; omega)
        rw [hCompact]
        refine ⟨?_, List.forall_mem_cons.2 ⟨?_, fun other hOther => ?_⟩⟩
        · rw [expand_cons, hCount, List.replicate_succ, List.cons_append, hRest]
        · rw [UInt32.le_iff_toNat_le, hCount]
          exact Nat.le_add_left _ _
        · exact hCounts other (List.mem_cons_of_mem _ hOther)
      · rw [hCompact]
        refine ⟨?_, List.forall_mem_cons.2 ⟨UInt32.le_refl 1, hCounts⟩⟩
        rw [expand_cons, hRest]
        rfl

/-- Runs stand for as many locals as were put together. -/
theorem total_compact {types : List ValType} (hFew : types.length < 2 ^ 32) :
    total (compact types) = types.length := by
  rw [total_eq_length, (expand_compact hFew).1]

/-- Runs next to each other are of different types, however many locals there are. -/
theorem compact_apart (types : List ValType) :
    (compact types).IsChain fun left right => left.type ≠ right.type := by
  induction types with
  | nil => exact .nil
  | cons type rest ih =>
      rcases compact_cons type rest with ⟨run, runs, hRuns, rfl, hCompact⟩ | ⟨hFirst, hCompact⟩
      · rw [hRuns] at ih
        rw [hCompact]
        exact ih.tail.cons fun next hNext => ih.rel_head? hNext
      · rw [hCompact]
        exact ih.cons fun next hNext => (hFirst next hNext).symm

/-- Puts one more local behind runs: the last run gets longer, or a new one starts. -/
def extend : List LocalRun → ValType → List LocalRun
  | [], type => [⟨1, type⟩]
  | [last], type => if last.type = type then [⟨last.count + 1, type⟩] else [last, ⟨1, type⟩]
  | run :: next :: runs, type => run :: extend (next :: runs) type

theorem compact_concat (types : List ValType) (type : ValType) :
    compact (types ++ [type]) = extend (compact types) type := by
  induction types with
  | nil => rfl
  | cons first rest ih =>
      rw [List.cons_append, compact, ih, compact]
      cases hRest : compact rest with
      | nil =>
          by_cases hType : type = first
          · simp [extend, hType]
          · simp [extend, hType, Ne.symm hType]
      | cons run runs =>
          cases runs with
          | nil =>
              by_cases hLast : run.type = type
              · by_cases hFirst : type = first <;> simp [extend, hLast, hFirst]
              · by_cases hFirst : run.type = first
                · simp [extend, hFirst, hFirst ▸ hLast]
                · simp [extend, hLast, hFirst]
          | cons next runs => by_cases hFirst : run.type = first <;> simp [extend, hFirst]

/-- The runs come about from the front to the back as well, one local after the other. -/
theorem compact_eq_foldl (types : List ValType) : compact types = types.foldl extend [] := by
  induction types using List.reverseRecOn with
  | nil => rfl
  | append_singleton types type ih => rw [compact_concat, ih, List.foldl_concat]

end RecordWasm.Wasm.LocalRun
