import RecordWasm.Proofs.Layout.Faults
import Mathlib.Data.List.Chain

/-!
# Chains of parents

Two loops climb from a record to its parent and on until there is none: one lists what it passes,
the other looks for an ancestor.  Neither has a bound of its own.  `Climbs` and `Seeks` are the
loops without one; they end because a registry lists every record behind its parent, so that each
turn gets closer to the front.
-/

namespace RecordWasm.Layout

open Syntax

variable {registry : Registry} {name ancestor : String} {record : Record} {chain : List String}

namespace Registry

/-- Climbing from a name to the parent of its record, and on from there, ends after these names. -/
inductive Climbs (registry : Registry) : String → List String → Prop
  | top : Climbs registry "" []
  | unknown {name : String} : name ≠ "" → registry.get? name = none → Climbs registry name []
  | next {name : String} {record : Record} {chain : List String} : name ≠ "" →
      registry.get? name = some record → Climbs registry record.parent chain →
      Climbs registry name (name :: chain)

/-- Looking for an ancestor from a name upwards ends with an answer. -/
inductive Seeks (registry : Registry) (ancestor : String) : String → Bool → Prop
  | top : Seeks registry ancestor "" false
  | found : ancestor ≠ "" → Seeks registry ancestor ancestor true
  | unknown {name : String} : name ≠ "" → name ≠ ancestor → registry.get? name = none →
      Seeks registry ancestor name false
  | next {name : String} {record : Record} {answer : Bool} : name ≠ "" → name ≠ ancestor →
      registry.get? name = some record → Seeks registry ancestor record.parent answer →
      Seeks registry ancestor name answer

/-- Climbing is deterministic. -/
theorem Climbs.unique {other : List String} (hLeft : registry.Climbs name chain)
    (hRight : registry.Climbs name other) : chain = other := by
  induction hLeft generalizing other with
  | top =>
      cases hRight with
      | top => rfl
      | unknown hName => exact absurd rfl hName
      | next hName => exact absurd rfl hName
  | unknown hName hNone =>
      cases hRight with
      | top => exact absurd rfl hName
      | unknown => rfl
      | next _ hGet => cases hNone.symm.trans hGet
  | next hName hGet _ ih =>
      cases hRight with
      | top => exact absurd rfl hName
      | unknown _ hNone => cases hNone.symm.trans hGet
      | next _ hOther hAbove =>
          cases hGet.symm.trans hOther
          rw [ih hAbove]

/-- Above a name on the way the climb goes on as it would from that name. -/
theorem Climbs.behind {front back : List String} (hClimbs : registry.Climbs name chain)
    (hChain : chain = front ++ ancestor :: back) : registry.Climbs ancestor (ancestor :: back) := by
  induction hClimbs generalizing front with
  | top | unknown => simp at hChain
  | next hName hGet hAbove ih =>
      cases front with
      | nil =>
          cases hChain
          exact .next hName hGet hAbove
      | cons first rest => exact ih (List.cons.inj hChain).2

/-- One name stands in front of another. -/
def Before (registry : Registry) (earlier later : String) : Prop :=
  ∃ front back, registry.names = front ++ later :: back ∧ earlier ∈ front

/-- The number of names in front of a name. -/
def place (registry : Registry) (name : String) : Nat := registry.names.idxOf name

/-- All records have names of their own, and each one stands behind its parent. -/
structure Sorted (registry : Registry) : Prop where
  distinct : registry.names.Nodup
  named : "" ∉ registry.names
  parent : ∀ record ∈ registry.layouts,
    record.parent = "" ∨ registry.Before record.parent record.name

theorem get?_iff (hDistinct : registry.names.Nodup) :
    registry.get? name = some record ↔ record ∈ registry.layouts ∧ record.name = name :=
  find?_key_iff hDistinct

theorem Before.mem {earlier later : String} (hBefore : registry.Before earlier later) :
    earlier ∈ registry.names := by
  obtain ⟨front, back, hNames, hEarlier⟩ := hBefore
  rw [hNames]
  exact List.mem_append_left _ hEarlier

theorem Before.place_lt {earlier later : String} (hDistinct : registry.names.Nodup)
    (hBefore : registry.Before earlier later) : registry.place earlier < registry.place later := by
  obtain ⟨front, back, hNames, hEarlier⟩ := hBefore
  rw [hNames, List.nodup_append] at hDistinct
  have hLater : later ∉ front := fun hLater =>
    hDistinct.2.2 later hLater later List.mem_cons_self rfl
  rw [place, place, hNames, List.idxOf_append_of_mem hEarlier, List.idxOf_append_of_notMem hLater,
    List.idxOf_cons_self]
  exact List.idxOf_lt_length_iff.2 hEarlier

theorem place_lt (hName : name ∈ registry.names) :
    registry.place name < registry.layouts.length + 1 := by
  have hPlace := List.idxOf_lt_length_iff.2 hName
  rw [names, List.length_map] at hPlace
  rw [place, names]
  omega

/-- Only from a registered name is there anything to climb. -/
theorem mem_of_mem_ancestors {other : String} (hOther : other ∈ registry.ancestors name) :
    name ∈ registry.names := by
  rw [ancestors, chain] at hOther
  split at hOther
  · cases hOther
  · split at hOther
    · cases hOther
    · rename_i record hGet
      exact mem_names_iff.2 ⟨record, hGet⟩

/-- The order in which records are laid out is such that the loops end. -/
theorem sorted_of_compute {decls : List RecordDecl} (hCompute : compute decls = .ok registry)
    (hNames : ∀ decl ∈ decls, decl.name ≠ "") : registry.Sorted := by
  obtain ⟨hDistinct, -, -, ⟨hPerm, hFirst⟩, -⟩ := compute_ok hCompute
  refine ⟨hPerm.nodup_iff.2 (not_not.1 hDistinct), fun hNone => ?_, fun record hRecord => ?_⟩
  · obtain ⟨decl, hDecl, hName⟩ := List.mem_map.1 (hPerm.mem_iff.1 hNone)
    exact hNames decl hDecl hName
  · obtain ⟨decl, hDecl, hDerived⟩ := (compute_lays hCompute).derived hRecord
    refine or_iff_not_imp_left.2 fun hParent => ?_
    obtain ⟨front, back, hSplit⟩ :=
      List.append_of_mem (List.mem_map.2 ⟨record, hRecord, rfl⟩ : record.name ∈ _)
    refine ⟨front, back, hSplit, hFirst front _ back hSplit _ ⟨decl, (mem_declOf? hDecl).1, ?_⟩⟩
    exact ⟨hDerived.name.symm, hDerived.parent.symm, hParent⟩

namespace Sorted

variable (hSorted : registry.Sorted)
include hSorted

theorem get?_of_mem (hRecord : record ∈ registry.layouts) :
    registry.get? record.name = some record := (get?_iff hSorted.distinct).2 ⟨hRecord, rfl⟩

theorem name_ne (hName : name ∈ registry.names) : name ≠ "" :=
  fun hNone => hSorted.named (hNone ▸ hName)

/-- From a registered name there is one step upwards, which ends the climb or gets closer to the
front. -/
theorem step (hName : name ∈ registry.names) : ∃ record, registry.get? name = some record ∧
    (record.parent = "" ∨ record.parent ∈ registry.names ∧ registry.Before record.parent name ∧
      registry.place record.parent < registry.place name) := by
  obtain ⟨record, hRecord, rfl⟩ := List.mem_map.1 hName
  refine ⟨record, hSorted.get?_of_mem hRecord, (hSorted.parent record hRecord).imp_right ?_⟩
  exact fun hBefore => ⟨hBefore.mem, hBefore, hBefore.place_lt hSorted.distinct⟩

/-- With fewer names in front than there are turns, fewer are left after one turn. -/
theorem step_count {count : Nat} (hName : name ∈ registry.names)
    (hPlace : registry.place name < count + 1) : ∃ record, registry.get? name = some record ∧
    (record.parent = "" ∨ record.parent ∈ registry.names ∧
      registry.place record.parent < count) := by
  obtain ⟨record, hGet, hAbove⟩ := hSorted.step hName
  refine ⟨record, hGet, hAbove.imp_right fun hParent => ⟨hParent.1, ?_⟩⟩
  exact hParent.2.2.trans_le (Nat.le_of_lt_succ hPlace)

/-- So many turns as there are names in front suffice to get to the top. -/
theorem climbs_chain {count : Nat}
    (hName : name = "" ∨ name ∈ registry.names ∧ registry.place name < count) :
    registry.Climbs name (registry.chain count name) := by
  induction count generalizing name with
  | zero =>
      obtain rfl := hName.resolve_right fun hNever => Nat.not_lt_zero _ hNever.2
      exact .top
  | succ count ih =>
      rw [chain]
      rcases hName with rfl | ⟨hName, hPlace⟩
      · exact .top
      · obtain ⟨record, hGet, hAbove⟩ := hSorted.step_count hName hPlace
        rw [if_neg (hSorted.name_ne hName), hGet]
        exact .next (hSorted.name_ne hName) hGet (ih hAbove)

theorem seeks_reaches {count : Nat}
    (hName : name = "" ∨ name ∈ registry.names ∧ registry.place name < count) :
    registry.Seeks ancestor name (registry.reaches ancestor count name) := by
  induction count generalizing name with
  | zero =>
      obtain rfl := hName.resolve_right fun hNever => Nat.not_lt_zero _ hNever.2
      exact .top
  | succ count ih =>
      rw [reaches]
      rcases hName with rfl | ⟨hName, hPlace⟩
      · exact .top
      · have hSome := hSorted.name_ne hName
        obtain ⟨record, hGet, hAbove⟩ := hSorted.step_count hName hPlace
        rw [if_neg hSome, hGet]
        split
        · rename_i hSame
          exact hSame ▸ .found hSome
        · rename_i hOther
          exact .next hSome hOther hGet (ih hAbove)

theorem climbs_ancestors (hName : name = "" ∨ name ∈ registry.names) :
    registry.Climbs name (registry.ancestors name) :=
  hSorted.climbs_chain (hName.imp_right fun hName => ⟨hName, place_lt hName⟩)

/-- The parent of a record is registered, if there is one. -/
theorem parent_mem (hRecord : record ∈ registry.layouts) :
    record.parent = "" ∨ record.parent ∈ registry.names :=
  (hSorted.parent record hRecord).imp_right Before.mem

theorem seeks_descends (hRecord : record ∈ registry.layouts) :
    registry.Seeks ancestor record.parent (registry.descends record ancestor) :=
  hSorted.seeks_reaches <| (hSorted.parent_mem hRecord).imp_right fun hName =>
    ⟨hName, place_lt hName⟩

/-- The chain of a record is its name in front of the chain of its parent. -/
theorem ancestors_eq (hRecord : record ∈ registry.layouts) :
    registry.ancestors record.name = record.name :: registry.ancestors record.parent := by
  have hName : record.name ∈ registry.names := List.mem_map_of_mem hRecord
  exact (hSorted.climbs_ancestors (.inr hName)).unique <| .next (hSorted.name_ne hName)
    (hSorted.get?_of_mem hRecord) (hSorted.climbs_ancestors (hSorted.parent_mem hRecord))

end Sorted

/-! ## What the loops find -/

/-- A chain leads from a record by way of parents to one that has none, closer to the front of the
registry with each step. -/
structure Chain (registry : Registry) (name : String) (chain : List String) : Prop where
  distinct : chain.Nodup
  starts : chain.head? = some name
  linked : chain.IsChain fun child parent =>
    ∃ record, registry.get? child = some record ∧ record.parent = parent
  ends : ∃ top record, chain.getLast? = some top ∧ registry.get? top = some record ∧
    record.parent = ""
  ordered : chain.IsChain fun child parent => registry.Before parent child

namespace Climbs

variable (hSorted : registry.Sorted)
include hSorted

/-- All names on the way are registered, and none stands behind the first. -/
theorem place_le (hClimbs : registry.Climbs name chain) :
    ∀ other ∈ chain, other ∈ registry.names ∧ registry.place other ≤ registry.place name := by
  induction hClimbs with
  | top | unknown => simp
  | @next name record chain hName hGet hAbove ih =>
      obtain ⟨hRecord, rfl⟩ := (get?_iff hSorted.distinct).1 hGet
      refine List.forall_mem_cons.2 ⟨⟨List.mem_map_of_mem hRecord, Nat.le_refl _⟩,
        fun other hOther => ?_⟩
      obtain ⟨hMember, hPlace⟩ := ih other hOther
      rcases hSorted.parent record hRecord with hNone | hBefore
      · rw [hNone] at hAbove
        cases hAbove with
        | top => cases hOther
        | unknown hSome => exact absurd rfl hSome
        | next hSome => exact absurd rfl hSome
      · exact ⟨hMember, hPlace.trans (hBefore.place_lt hSorted.distinct).le⟩

/-- What is climbed from a registered name is a chain. -/
theorem isChain (hClimbs : registry.Climbs name chain) (hName : name ∈ registry.names) :
    registry.Chain name chain := by
  induction hClimbs with
  | top => exact absurd hName hSorted.named
  | unknown _ hNone =>
      obtain ⟨record, hGet, -⟩ := hSorted.step hName
      cases hNone.symm.trans hGet
  | @next name record chain hSome hGet hAbove ih =>
      obtain ⟨found, hFound, hParent⟩ := hSorted.step hName
      obtain rfl := Option.some.inj (hGet.symm.trans hFound)
      rcases hParent with hNone | ⟨hMember, hBefore, hCloser⟩
      · obtain rfl : chain = [] := (hNone ▸ hAbove).unique .top
        exact ⟨List.nodup_singleton name, rfl, .singleton name, ⟨name, record, rfl, hGet, hNone⟩,
          .singleton name⟩
      · obtain ⟨hDistinct, hStarts, hLinked, hEnds, hOrdered⟩ := ih hMember
        obtain ⟨rest, rfl⟩ := List.head?_eq_some_iff.1 hStarts
        refine ⟨List.nodup_cons.2 ⟨fun hTwice => ?_, hDistinct⟩, rfl,
          .cons_cons ⟨record, hGet, rfl⟩ hLinked, hEnds, .cons_cons hBefore hOrdered⟩
        have hFurther := (hAbove.place_le hSorted name hTwice).2
        omega

/-- An ancestor is found if and only if it is on the way. -/
theorem mem_iff_seeks {answer : Bool} (hClimbs : registry.Climbs name chain)
    (hName : name = "" ∨ name ∈ registry.names) (hSeeks : registry.Seeks ancestor name answer) :
    answer = true ↔ ancestor ∈ chain := by
  induction hClimbs with
  | top =>
      cases hSeeks with
      | top => simp
      | found hSome => exact absurd rfl hSome
      | unknown hSome => exact absurd rfl hSome
      | next hSome => exact absurd rfl hSome
  | unknown hSome hNone =>
      obtain ⟨record, hGet, -⟩ := hSorted.step (hName.resolve_left hSome)
      cases hNone.symm.trans hGet
  | @next name record chain hSome hGet hAbove ih =>
      cases hSeeks with
      | top => exact absurd rfl hSome
      | found => simp
      | unknown _ _ hNone => cases hNone.symm.trans hGet
      | next _ hOther hFound hRest =>
          cases hGet.symm.trans hFound
          obtain ⟨hRecord, -⟩ := (get?_iff hSorted.distinct).1 hGet
          rw [List.mem_cons, or_iff_right (Ne.symm hOther)]
          exact ih (hSorted.parent_mem hRecord) hRest

end Climbs

namespace Sorted

variable (hSorted : registry.Sorted)
include hSorted

theorem chain_ancestors (hName : name ∈ registry.names) :
    registry.Chain name (registry.ancestors name) :=
  (hSorted.climbs_ancestors (.inr hName)).isChain hSorted hName

/-- A record descends from those that come after it on its chain. -/
theorem descends_iff (hRecord : record ∈ registry.layouts) :
    registry.descends record ancestor = true ↔
      ancestor ∈ (registry.ancestors record.name).tail := by
  have hParent := hSorted.parent_mem hRecord
  rw [hSorted.ancestors_eq hRecord, List.tail_cons]
  exact (hSorted.climbs_ancestors hParent).mem_iff_seeks hSorted hParent
    (hSorted.seeks_descends hRecord)

theorem not_descends (hRecord : record ∈ registry.layouts) :
    registry.descends record record.name = false := by
  have hChain := hSorted.chain_ancestors (List.mem_map.2 ⟨_, hRecord, rfl⟩)
  rw [hSorted.ancestors_eq hRecord] at hChain
  rw [← Bool.not_eq_true, hSorted.descends_iff hRecord, hSorted.ancestors_eq hRecord]
  exact (List.nodup_cons.1 hChain.distinct).1

theorem descends_trans {middle : Record} (hRecord : record ∈ registry.layouts)
    (hMiddle : middle ∈ registry.layouts) (hLow : registry.descends record middle.name = true)
    (hHigh : registry.descends middle ancestor = true) :
    registry.descends record ancestor = true := by
  rw [hSorted.descends_iff hRecord, hSorted.ancestors_eq hRecord, List.tail_cons] at hLow ⊢
  rw [hSorted.descends_iff hMiddle] at hHigh
  obtain ⟨front, back, hSplit⟩ := List.append_of_mem hLow
  have hAbove := (hSorted.climbs_ancestors (hSorted.parent_mem hRecord)).behind hSplit
  have hName : middle.name ∈ registry.names := List.mem_map_of_mem hMiddle
  rw [(hSorted.climbs_ancestors (.inr hName)).unique hAbove] at hHigh
  rw [hSplit]
  exact List.mem_append_right _ (List.mem_cons_of_mem _ hHigh)

end Sorted

end Registry

end RecordWasm.Layout
