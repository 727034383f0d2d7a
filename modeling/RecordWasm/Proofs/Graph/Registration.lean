import RecordWasm.Proofs.Graph.Building

/-!
# Orders that are kept

Nodes stand in the order in which they are first named.  If every node stands behind its
dependencies there, the search meets nothing that is not done or next: sorting gives the order as it
is.
-/

namespace RecordWasm.Graph

variable {graph : Graph}

section Names

variable {front back : List String}

theorem eraseDups_concat (names : List String) (name : String) :
    (names ++ [name]).eraseDups =
      if name ∈ names then names.eraseDups else names.eraseDups ++ [name] := by
  rw [List.eraseDups_append, List.removeAll]
  by_cases hThere : name ∈ names
  · rw [if_pos hThere, List.filter_cons_of_neg (by simpa using hThere), List.filter_nil,
      List.eraseDups_nil, List.append_nil]
  · rw [if_neg hThere, List.filter_cons_of_pos (by simpa using hThere), List.filter_nil]
    rfl

theorem eraseDups_of_nodup (hDistinct : front.Nodup) : front.eraseDups = front := by
  induction front using List.reverseRecOn with
  | nil => rfl
  | append_singleton names name ih =>
      obtain ⟨hNames, -, hApart⟩ := List.nodup_append.1 hDistinct
      have hNew : name ∉ names := fun hThere => hApart name hThere name List.mem_cons_self rfl
      rw [eraseDups_concat, if_neg hNew, ih hNames]

/-- Names that occur again change nothing. -/
theorem eraseDups_front (hDistinct : front.Nodup) (hBack : back ⊆ front) :
    (front ++ back).eraseDups = front := by
  induction back using List.reverseRecOn with
  | nil => rw [List.append_nil, eraseDups_of_nodup hDistinct]
  | append_singleton names name ih =>
      obtain ⟨hNames, hName⟩ := List.append_subset.1 hBack
      have hThere : name ∈ front ++ names := List.mem_append_left _ (hName List.mem_cons_self)
      rw [← List.append_assoc, eraseDups_concat, if_pos hThere, ih hNames]

end Names

theorem nodes_addNode (graph : Graph) (node : String) :
    (graph.addNode node).nodes =
      if node ∈ graph.nodes then graph.nodes else graph.nodes ++ [node] := by
  rw [addNode, contains]
  by_cases hThere : node ∈ graph.nodes
  · rw [if_pos (decide_eq_true hThere), if_pos hThere]
  · rw [if_neg (by simpa using hThere), if_neg hThere, nodes, List.map_append]
    rfl

theorem nodes_apply (graph : Graph) (op : Op) :
    (op.apply graph).nodes = (graph.addNode op.subject).nodes := by
  cases op with
  | node name => rfl
  | dep node dep => exact nodes_addDep graph node dep

/-- Nodes stand in the order in which they are first named. -/
theorem nodes_ofOps (ops : List Op) : (ofOps ops).nodes = (ops.map Op.subject).eraseDups := by
  induction ops using List.reverseRecOn with
  | nil => rfl
  | append_singleton ops op ih =>
      rw [ofOps_append, nodes_apply, nodes_addNode, List.map_append, List.map_singleton,
        eraseDups_concat, ih]
      simp only [List.mem_eraseDups]

theorem missing?_of_closed (hDistinct : graph.nodes.Nodup) (hClosed : graph.Closed) :
    graph.missing? = none := by
  cases hMissing : graph.missing? with
  | none => rfl
  | some found =>
      obtain ⟨hDep, hUnknown⟩ := missing?_eq_some hDistinct hMissing
      exact absurd (hClosed _ _ hDep) hUnknown

/-- Nodes that are all done are visited without a change. -/
theorem searches_done {stack order nodes : List String} (hDone : nodes ⊆ order) :
    graph.Searches stack order nodes (.ok order) := by
  induction nodes with
  | nil => exact .finished
  | cons node rest ih =>
      obtain ⟨hNode, hRest⟩ := List.cons_subset.1 hDone
      exact .known hNode (ih hRest)

/-- Nodes that stand behind their dependencies are done in turn. -/
theorem DepsFirst.searches {done rest : List String} (hFirst : graph.DepsFirst (done ++ rest))
    (hDistinct : (done ++ rest).Nodup) : graph.Searches [] done rest (.ok (done ++ rest)) := by
  induction rest generalizing done with
  | nil =>
      rw [List.append_nil]
      exact .finished
  | cons node rest ih =>
      have hNew : node ∉ done := by
        intro hDone
        exact (List.nodup_append.1 hDistinct).2.2 node hDone node List.mem_cons_self rfl
      have hDeps : graph.deps node ⊆ done := hFirst done node rest rfl
      rw [List.append_cons] at hFirst hDistinct ⊢
      exact .visited hNew List.not_mem_nil (searches_done hDeps) (ih hFirst hDistinct)

/-- A graph is sorted to the order of its registration exactly if every node stands behind its
dependencies in it. -/
theorem sort_eq_nodes_iff (hDistinct : graph.nodes.Nodup) :
    graph.sort = .ok graph.nodes ↔ graph.DepsFirst graph.nodes := by
  constructor
  · intro hSort
    have hAnswers := sort_answers hDistinct
    rw [hSort] at hAnswers
    cases hAnswers with
    | order _ _ _ hFirst => exact hFirst
  · intro hFirst
    have hClosed : graph.Closed := by
      intro node dep hDep
      obtain ⟨front, back, hSplit⟩ := List.append_of_mem hDep.mem_nodes
      have hFront := hFirst front node back hSplit dep hDep
      rw [hSplit]
      exact List.mem_append_left _ hFront
    have hSearches := @DepsFirst.searches graph [] _ hFirst hDistinct
    exact (graph.sorts_iff _).1 (.searched (missing?_of_closed hDistinct hClosed) hSearches)

end RecordWasm.Graph
