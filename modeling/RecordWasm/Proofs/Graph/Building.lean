import RecordWasm.Proofs.Graph.Sorting
import Mathlib.Data.List.Induction

/-!
# Graphs that are built step by step

A graph is built by registering nodes and dependencies in any order.  However that is done, its
nodes are the ones that were named, once each, and the dependencies of a node are the ones that were
recorded for it.  What sorting answers is told for every graph that is built so.
-/

namespace RecordWasm.Graph

variable {graph : Graph} {node other dep : String}

/-- A step in which a graph is built. -/
inductive Op where
  | node (name : String)
  | dep (node dep : String)
  deriving DecidableEq, Repr

namespace Op

def apply (graph : Graph) : Op → Graph
  | .node name => graph.addNode name
  | .dep node dep => graph.addDep node dep

/-- The node that is registered if it is not yet. -/
def subject : Op → String
  | .node name => name
  | .dep node _ => node

/-- The dependency that is recorded for a node. -/
def depOf? (name : String) : Op → Option String
  | .node _ => none
  | .dep node dep => if node = name then some dep else none

end Op

/-- The graph that some steps build. -/
def ofOps (ops : List Op) : Graph := ops.foldl Op.apply {}

theorem mem_nodes_addNode : other ∈ (graph.addNode node).nodes ↔
    other ∈ graph.nodes ∨ other = node := by
  rw [addNode]
  split
  · rename_i hThere
    have hNode : node ∈ graph.nodes := by simpa [contains] using hThere
    exact ⟨.inl, fun hOther => hOther.elim id fun hSame => hSame ▸ hNode⟩
  · simp [nodes]

theorem nodup_addNode (hDistinct : graph.nodes.Nodup) (node : String) :
    (graph.addNode node).nodes.Nodup := by
  rw [addNode]
  split
  · exact hDistinct
  · rename_i hNew
    have hFresh : node ∉ graph.nodes := by simpa [contains] using hNew
    rw [nodes, List.map_append]
    exact hDistinct.append (by simp) (by simpa using hFresh)

theorem deps_addNode : (graph.addNode node).deps other = graph.deps other := by
  rw [addNode]
  split
  · rfl
  · rw [deps, deps, List.find?_append]
    cases graph.entries.find? fun entry => entry.node == other with
    | some entry => rfl
    | none =>
        by_cases hSame : node = other <;> simp [hSame]

/-- A dependency registers the node that has it, and nothing else. -/
theorem nodes_addDep (graph : Graph) (node dep : String) :
    (graph.addDep node dep).nodes = (graph.addNode node).nodes := by
  rw [nodes, addDep, nodes, List.map_map]
  refine List.map_congr_left fun entry _ => ?_
  simp only [Function.comp]
  split
  · rename_i hSame
    exact hSame.symm
  · rfl

theorem find?_addDep : ((graph.addDep node dep).entries.find? fun entry => entry.node == other) =
    ((graph.addNode node).entries.find? fun entry => entry.node == other).map fun entry =>
      if entry.node = node then ⟨node, entry.deps ++ [dep]⟩ else entry := by
  rw [addDep, List.find?_map]
  congr 2
  funext entry
  by_cases hSame : entry.node = node <;> simp [hSame]

theorem deps_addDep : (graph.addDep node dep).deps other =
    if other = node then graph.deps node ++ [dep] else graph.deps other := by
  have hBefore : (graph.addNode node).deps other = graph.deps other := deps_addNode
  rw [deps] at hBefore
  rw [deps, find?_addDep]
  cases hFound : (graph.addNode node).entries.find? fun entry => entry.node == other with
  | none =>
      have hAbsent : other ≠ node := by
        rintro rfl
        obtain ⟨entry, hEntry, hName⟩ := List.mem_map.1 (mem_nodes_addNode.2 (.inr rfl))
        exact absurd hName (by simpa using List.find?_eq_none.1 hFound entry hEntry)
      rw [hFound] at hBefore
      rw [if_neg hAbsent]
      exact hBefore
  | some entry =>
      obtain rfl : entry.node = other := by simpa using List.find?_some hFound
      rw [hFound] at hBefore
      simp only [Option.map_some]
      split
      · rename_i hSame
        rw [← hSame, ← hBefore]
      · exact hBefore

theorem ofOps_append (ops : List Op) (op : Op) : ofOps (ops ++ [op]) = op.apply (ofOps ops) := by
  rw [ofOps, List.foldl_append]
  rfl

/-- No node is registered twice. -/
theorem nodup_ofOps (ops : List Op) : (ofOps ops).nodes.Nodup := by
  induction ops using List.reverseRecOn with
  | nil => exact .nil
  | append_singleton ops op ih =>
      rw [ofOps_append]
      cases op with
      | node name => exact nodup_addNode ih name
      | dep node dep =>
          rw [Op.apply, nodes_addDep]
          exact nodup_addNode ih node

/-- The nodes are those that some step names. -/
theorem mem_nodes_ofOps (ops : List Op) : node ∈ (ofOps ops).nodes ↔
    ∃ op ∈ ops, op.subject = node := by
  induction ops using List.reverseRecOn with
  | nil => simp [ofOps, nodes]
  | append_singleton ops op ih =>
      have hStep : node ∈ (op.apply (ofOps ops)).nodes ↔
          node ∈ (ofOps ops).nodes ∨ node = op.subject := by
        cases op with
        | node name => exact mem_nodes_addNode
        | dep other dep =>
            rw [Op.apply, nodes_addDep]
            exact mem_nodes_addNode
      rw [ofOps_append, hStep, ih]
      simp [or_and_right, exists_or, eq_comm]

/-- The dependencies of a node are those recorded for it, in their order. -/
theorem deps_ofOps (ops : List Op) (node : String) :
    (ofOps ops).deps node = ops.filterMap (Op.depOf? node) := by
  induction ops using List.reverseRecOn with
  | nil => rfl
  | append_singleton ops op ih =>
      rw [ofOps_append, List.filterMap_append]
      cases op with
      | node name =>
          rw [Op.apply, deps_addNode, ih]
          exact (List.append_nil _).symm
      | dep other dep =>
          rw [Op.apply, deps_addDep]
          rcases eq_or_ne node other with rfl | hOther
          · simp [Op.depOf?, ih]
          · simp [Op.depOf?, ih, hOther, hOther.symm]

theorem dependsOn_ofOps (ops : List Op) : (ofOps ops).DependsOn node dep ↔ .dep node dep ∈ ops := by
  rw [DependsOn, deps_ofOps, List.mem_filterMap]
  constructor
  · rintro ⟨op, hOp, hDep⟩
    cases op with
    | node name => cases hDep
    | dep other found =>
        rw [Op.depOf?] at hDep
        split at hDep
        · rename_i hSame
          cases hDep
          exact hSame ▸ hOp
        · cases hDep
  · intro hOp
    exact ⟨_, hOp, if_pos rfl⟩

/-- Sorting always ends.  It names a dependency that is no node if and only if there is one;
otherwise it gives all nodes, each behind its dependencies, if and only if there is no cycle, and
names a cycle if there is one. -/
theorem sort_orders (ops : List Op) :
    let graph := ofOps ops
    (graph.nodes.Nodup ∧ (∀ node, node ∈ graph.nodes ↔ ∃ op ∈ ops, op.subject = node) ∧
      ∀ node dep, graph.DependsOn node dep ↔ .dep node dep ∈ ops) ∧
    (∀ outcome, graph.Sorts outcome ↔ graph.sort = outcome) ∧
    ((∃ node dep, graph.sort = .error (.missing node dep)) ↔
      ∃ node dep, graph.DependsOn node dep ∧ dep ∉ graph.nodes) ∧
    (∀ node dep, graph.sort = .error (.missing node dep) →
      graph.DependsOn node dep ∧ dep ∉ graph.nodes) ∧
    ((∀ node dep, graph.DependsOn node dep → dep ∈ graph.nodes) →
      ((∃ order, graph.sort = .ok order) ↔ graph.Acyclic) ∧
      ((∃ cycle, graph.sort = .error (.cycle cycle)) ↔ ¬graph.Acyclic)) ∧
    (∀ order, graph.sort = .ok order → order.Perm graph.nodes ∧ graph.DepsFirst order) ∧
    ∀ cycle, graph.sort = .error (.cycle cycle) → graph.IsCycle cycle := by
  intro graph
  refine ⟨⟨nodup_ofOps ops, fun _ => mem_nodes_ofOps ops, fun _ _ => dependsOn_ofOps ops⟩,
    graph.sorts_iff, ?_⟩
  have hAnswers : graph.Answers graph.sort := sort_answers (nodup_ofOps ops)
  generalize graph.sort = outcome at hAnswers
  cases hAnswers with
  | missing hDep hUnknown =>
      refine ⟨iff_of_true ⟨_, _, rfl⟩ ⟨_, _, hDep, hUnknown⟩, ?_, ?_, by simp, by simp⟩
      · rintro _ _ ⟨⟩
        exact ⟨hDep, hUnknown⟩
      · exact fun hClosed => absurd (hClosed _ _ hDep) hUnknown
  | order hClosed hAcyclic hPerm hFirst =>
      refine ⟨iff_of_false (by simp) ?_, by simp, fun _ => ?_, ?_, by simp⟩
      · rintro ⟨node, dep, hDep, hUnknown⟩
        exact hUnknown (hClosed node dep hDep)
      · exact ⟨iff_of_true ⟨_, rfl⟩ hAcyclic, iff_of_false (by simp) (not_not.2 hAcyclic)⟩
      · rintro _ ⟨⟩
        exact ⟨hPerm, hFirst⟩
  | cycle hClosed hCyclic hCycle =>
      refine ⟨iff_of_false (by simp) ?_, by simp, fun _ => ?_, by simp, ?_⟩
      · rintro ⟨node, dep, hDep, hUnknown⟩
        exact hUnknown (hClosed node dep hDep)
      · exact ⟨iff_of_false (by simp) hCyclic, iff_of_true ⟨_, rfl⟩ hCyclic⟩
      · rintro _ ⟨⟩
        exact hCycle

/-- Nodes that are named later, two paths to one node and an edge recorded twice are all the same to
sorting. -/
example :
    (ofOps [.dep "a" "b", .dep "a" "c", .dep "b" "d", .dep "b" "d", .dep "c" "d", .node "d"]).sort =
    .ok ["d", "b", "c", "a"] := by decide

end RecordWasm.Graph
