import RecordWasm.Graph
import Mathlib.Data.List.Nodup
import Mathlib.Data.List.Perm.Subperm

/-!
# The search behind an order

`Searches` says what visiting nodes in turn comes to, by rules alone and without any bound on the
depth of the visits.  The rules leave no choice, and in a graph whose dependencies are all nodes
they always lead to an end: the nodes under visit are distinct, so no visit is deeper than there are
nodes.  That end is what `visit` finds with as much fuel as there are nodes.
-/

namespace RecordWasm

/-! ## Items with distinct keys -/

section Keys

variable {α : Type} {key : α → String} {items others : List α} {item : α}

/-- Every item is found by its key. -/
theorem find?_of_mem (hDistinct : (items.map key).Nodup) (hItem : item ∈ items) :
    (items.find? fun other => key other == key item) = some item := by
  cases hFound : items.find? fun other => key other == key item with
  | none => exact absurd (List.find?_eq_none.1 hFound item hItem) (by simp)
  | some other =>
      have hKey : key other = key item := by simpa using List.find?_some hFound
      rw [List.inj_on_of_nodup_map hDistinct (List.mem_of_find?_eq_some hFound) hItem hKey]

theorem find?_key_iff (hDistinct : (items.map key).Nodup) {name : String} :
    (items.find? fun other => key other == name) = some item ↔ item ∈ items ∧ key item = name := by
  constructor
  · intro hFound
    exact ⟨List.mem_of_find?_eq_some hFound, by simpa using List.find?_some hFound⟩
  · rintro ⟨hItem, rfl⟩
    exact find?_of_mem hDistinct hItem

/-- What is found does not depend on the order of the items. -/
theorem find?_perm (hDistinct : (items.map key).Nodup) (hPerm : items.Perm others) (name : String) :
    (items.find? fun other => key other == name) = others.find? fun other => key other == name := by
  have hOthers : (others.map key).Nodup := (hPerm.map key).nodup_iff.1 hDistinct
  ext found
  rw [find?_key_iff hDistinct, find?_key_iff hOthers, hPerm.mem_iff]

end Keys

end RecordWasm

namespace RecordWasm.Graph

/-! ## Searches -/

variable {graph : Graph}

/-- A node depends directly on another. -/
def DependsOn (graph : Graph) (node dep : String) : Prop := dep ∈ graph.deps node

/-- All dependencies are nodes. -/
def Closed (graph : Graph) : Prop := ∀ node dep, graph.DependsOn node dep → dep ∈ graph.nodes

/-- What visiting some nodes in turn comes to.  The nodes in `stack` are under visit, latest first,
and those in `order` are done. -/
inductive Searches (graph : Graph) :
    (stack order nodes : List String) → Except SortError (List String) → Prop
  | finished {stack order} : Searches graph stack order [] (.ok order)
  | known {stack order node rest outcome} : node ∈ order → Searches graph stack order rest outcome →
      Searches graph stack order (node :: rest) outcome
  | closed {stack order node rest} : node ∉ order → node ∈ stack →
      Searches graph stack order (node :: rest) (.error (.cycle (cycleAt node stack)))
  | visited {stack order node rest middle outcome} : node ∉ order → node ∉ stack →
      Searches graph (node :: stack) order (graph.deps node) (.ok middle) →
      Searches graph stack (middle ++ [node]) rest outcome →
      Searches graph stack order (node :: rest) outcome
  | failed {stack order node rest cause} : node ∉ order → node ∉ stack →
      Searches graph (node :: stack) order (graph.deps node) (.error cause) →
      Searches graph stack order (node :: rest) (.error cause)

/-- What ordering the nodes comes to: the first dependency on something else is reported, and if
there is none, all nodes are visited. -/
inductive Sorts (graph : Graph) : Except SortError (List String) → Prop
  | missing {node dep} : graph.missing? = some (node, dep) →
      Sorts graph (.error (.missing node dep))
  | searched {outcome} : graph.missing? = none → graph.Searches [] [] graph.nodes outcome →
      Sorts graph outcome

/-- The rules leave no choice. -/
theorem Searches.unique {stack order nodes : List String}
    {left right : Except SortError (List String)} (hLeft : graph.Searches stack order nodes left)
    (hRight : graph.Searches stack order nodes right) :
    left = right := by
  induction hLeft generalizing right with
  | finished =>
      cases hRight
      rfl
  | known hThere _ ih =>
      cases hRight with
      | known _ hRest => exact ih hRest
      | closed hNew => exact absurd hThere hNew
      | visited hNew => exact absurd hThere hNew
      | failed hNew => exact absurd hThere hNew
  | closed hNew hOpen =>
      cases hRight with
      | known hThere => exact absurd hThere hNew
      | closed => rfl
      | visited _ hFresh => exact absurd hOpen hFresh
      | failed _ hFresh => exact absurd hOpen hFresh
  | visited hNew hFresh _ _ ihDeps ihRest =>
      cases hRight with
      | known hThere => exact absurd hThere hNew
      | closed _ hOpen => exact absurd hOpen hFresh
      | visited _ _ hDeps hRest =>
          cases ihDeps hDeps
          exact ihRest hRest
      | failed _ _ hDeps => cases ihDeps hDeps
  | failed hNew hFresh _ ihDeps =>
      cases hRight with
      | known hThere => exact absurd hThere hNew
      | closed _ hOpen => exact absurd hOpen hFresh
      | visited _ _ hDeps => cases ihDeps hDeps
      | failed _ _ hDeps =>
          cases ihDeps hDeps
          rfl

/-- Distinct nodes under visit are no more than there are nodes. -/
theorem length_stack_le {stack : List String} (hDistinct : stack.Nodup)
    (hNodes : stack ⊆ graph.nodes) :
    stack.length ≤ graph.size := by
  rw [size, ← List.length_map Entry.node]
  exact (List.subperm_of_subset hDistinct hNodes).length_le

/-- With fuel for all nodes that are not under visit, visiting nodes in turn ends as the rules
say. -/
theorem searches_visit (hClosed : graph.Closed) {fuel : Nat} {stack order nodes : List String}
    (hDistinct : stack.Nodup) (hStack : stack ⊆ graph.nodes) (hNodes : nodes ⊆ graph.nodes)
    (hFuel : graph.size < fuel + stack.length) :
    graph.Searches stack order nodes (nodes.foldlM (graph.visit fuel stack) order) := by
  induction fuel generalizing stack order nodes with
  | zero =>
      have hFew := length_stack_le hDistinct hStack
      omega
  | succ fuel ih =>
      induction nodes generalizing order with
      | nil => exact .finished
      | cons node rest ihRest =>
          obtain ⟨hNode, hRest⟩ := List.cons_subset.1 hNodes
          rw [List.foldlM_cons, visit]
          split
          · rename_i hThere
            exact .known hThere (ihRest hRest)
          · rename_i hNew
            split
            · rename_i hOpen
              exact .closed hNew hOpen
            · rename_i hFresh
              -- The node goes under visit, and with it one unit of fuel.
              have hDeps := @ih (node :: stack) order (graph.deps node)
                (List.nodup_cons.2 ⟨hFresh, hDistinct⟩) (List.cons_subset.2 ⟨hNode, hStack⟩)
                (hClosed node) (by rw [List.length_cons]; omega)
              cases hOutcome : (graph.deps node).foldlM
                (graph.visit fuel (node :: stack)) order with
              | error cause => exact .failed hNew hFresh (hOutcome ▸ hDeps)
              | ok middle => exact .visited hNew hFresh (hOutcome ▸ hDeps) (ihRest hRest)

/-- The entry of a node holds its dependencies. -/
theorem deps_of_mem (hDistinct : graph.nodes.Nodup) {entry : Entry}
    (hEntry : entry ∈ graph.entries) :
    graph.deps entry.node = entry.deps := by
  rw [deps, find?_of_mem hDistinct hEntry]

/-- Only nodes have dependencies. -/
theorem DependsOn.mem_entries {node dep : String} (hDep : graph.DependsOn node dep) :
    ∃ entry ∈ graph.entries, entry.node = node ∧ dep ∈ entry.deps := by
  rw [DependsOn, deps] at hDep
  split at hDep
  · rename_i entry hFound
    exact ⟨entry, List.mem_of_find?_eq_some hFound, by simpa using List.find?_some hFound, hDep⟩
  · cases hDep

theorem DependsOn.mem_nodes {node dep : String} (hDep : graph.DependsOn node dep) :
    node ∈ graph.nodes := by
  obtain ⟨entry, hEntry, rfl, -⟩ := hDep.mem_entries
  exact List.mem_map_of_mem hEntry

theorem missing?_eq_none (hMissing : graph.missing? = none) : graph.Closed := by
  intro node dep hDep
  obtain ⟨entry, hEntry, -, hThere⟩ := hDep.mem_entries
  have hNone := List.findSome?_eq_none_iff.1 hMissing entry hEntry
  rw [Option.map_eq_none_iff, List.find?_eq_none] at hNone
  simpa [contains] using hNone dep hThere

theorem missing?_eq_some (hDistinct : graph.nodes.Nodup) {node dep : String}
    (hMissing : graph.missing? = some (node, dep)) :
    graph.DependsOn node dep ∧ dep ∉ graph.nodes := by
  obtain ⟨_, entry, _, hEntries, hFind, -⟩ := List.findSome?_eq_some_iff.1 hMissing
  obtain ⟨found, hFound, hSame⟩ := Option.map_eq_some_iff.1 hFind
  cases hSame
  have hEntry : entry ∈ graph.entries := by simp [hEntries]
  refine ⟨?_, by simpa [contains] using List.find?_some hFound⟩
  rw [DependsOn, deps_of_mem hDistinct hEntry]
  exact List.mem_of_find?_eq_some hFound

/-- Ordering the nodes ends, with what the rules say. -/
theorem sorts_iff (graph : Graph) (outcome : Except SortError (List String)) :
    graph.Sorts outcome ↔ graph.sort = outcome := by
  rw [sort]
  split
  · rename_i node dep hMissing
    constructor
    · rintro (⟨hOther⟩ | ⟨hNone, -⟩)
      · cases hMissing.symm.trans hOther
        rfl
      · cases hMissing.symm.trans hNone
    · rintro rfl
      exact .missing hMissing
  · rename_i hMissing
    have hSearches : graph.Searches [] [] graph.nodes
        (graph.nodes.foldlM (graph.visit (graph.size + 1) []) []) :=
      searches_visit (missing?_eq_none hMissing) List.nodup_nil (List.nil_subset _)
        (List.Subset.refl graph.nodes) (Nat.lt_succ_self _)
    constructor
    · rintro (⟨hOther⟩ | ⟨-, hOther⟩)
      · cases hMissing.symm.trans hOther
      · exact hSearches.unique hOther
    · rintro rfl
      exact .searched hMissing hSearches

end RecordWasm.Graph
