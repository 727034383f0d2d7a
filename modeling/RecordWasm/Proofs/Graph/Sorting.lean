import RecordWasm.Proofs.Graph.Search
import Mathlib.Data.List.Chain
import Mathlib.Logic.Relation

/-!
# What sorting a graph answers

While nodes are visited, those under visit form a path along dependencies, no node that is done is
among them, and the nodes that are done stand behind their dependencies.  Every rule of the search
keeps this.  Met again, a node under visit closes a cycle; if that never happens, the nodes that are
done at the end are all nodes, in an order that a graph with a cycle does not have.
-/

namespace RecordWasm.Graph

variable {graph : Graph} {stack order : List String} {node : String}

/-- No node depends on itself, directly or through others. -/
def Acyclic (graph : Graph) : Prop := ∀ node, ¬Relation.TransGen graph.DependsOn node node

/-- Every node stands behind all its dependencies. -/
def DepsFirst (graph : Graph) (order : List String) : Prop :=
  ∀ front node back, order = front ++ node :: back → ∀ dep, graph.DependsOn node dep → dep ∈ front

/-- Nodes in the order of a walk along dependencies that comes back to where it starts, and to no
other node twice. -/
structure IsCycle (graph : Graph) (cycle : List String) : Prop where
  two_le : 2 ≤ cycle.length
  returns : cycle.head? = cycle.getLast?
  distinct : cycle.dropLast.Nodup
  walk : cycle.IsChain graph.DependsOn

/-- What sorting is to answer: a dependency that is no node if there is one, and otherwise an order
of the nodes if there is no cycle.  It is to fail for no other reason. -/
inductive Answers (graph : Graph) : Except SortError (List String) → Prop
  | missing {node dep : String} : graph.DependsOn node dep → dep ∉ graph.nodes →
      Answers graph (.error (.missing node dep))
  | order {order : List String} : graph.Closed → graph.Acyclic → order.Perm graph.nodes →
      graph.DepsFirst order → Answers graph (.ok order)
  | cycle {cycle : List String} : graph.Closed → ¬graph.Acyclic → graph.IsCycle cycle →
      Answers graph (.error (.cycle cycle))

theorem DepsFirst.append (hFirst : graph.DepsFirst order) (hDeps : graph.deps node ⊆ order) :
    graph.DepsFirst (order ++ [node]) := by
  intro front other back hSplit dep hDep
  rcases List.eq_nil_or_concat back with rfl | ⟨rest, last, rfl⟩
  · obtain ⟨rfl, hLast⟩ := List.append_inj' hSplit rfl
    cases hLast
    exact hDeps hDep
  · rw [List.concat_eq_append, ← List.cons_append, ← List.append_assoc] at hSplit
    exact hFirst front other rest (List.append_inj' hSplit rfl).1 dep hDep

/-- A dependency stands before the node. -/
theorem DepsFirst.idxOf_lt {dep : String} (hFirst : graph.DepsFirst order) (hNode : node ∈ order)
    (hDep : graph.DependsOn node dep) : dep ∈ order ∧ order.idxOf dep < order.idxOf node := by
  obtain ⟨front, back, rfl, hNew⟩ := List.eq_append_cons_of_mem hNode
  have hFront := hFirst front node back rfl dep hDep
  refine ⟨List.mem_append_left _ hFront, ?_⟩
  rw [List.idxOf_append_of_mem hFront, List.idxOf_append_of_notMem hNew, List.idxOf_cons_self]
  exact Nat.lt_of_lt_of_le (List.idxOf_lt_length_of_mem hFront) (Nat.le_add_right _ _)

/-- A graph whose nodes can be ordered has no cycle. -/
theorem DepsFirst.acyclic (hFirst : graph.DepsFirst order) (hAll : graph.nodes ⊆ order) :
    graph.Acyclic := by
  have hBefore {node dep : String} (hPath : Relation.TransGen graph.DependsOn node dep) :
      order.idxOf dep < order.idxOf node := by
    induction hPath with
    | single hDep => exact (hFirst.idxOf_lt (hAll hDep.mem_nodes) hDep).2
    | tail _ hDep ih => exact Nat.lt_trans (hFirst.idxOf_lt (hAll hDep.mem_nodes) hDep).2 ih
  exact fun node hCycle => Nat.lt_irrefl _ (hBefore hCycle)

/-- The first node of a cycle depends on the second. -/
theorem IsCycle.first {cycle : List String} (hCycle : graph.IsCycle cycle) :
    ∃ node next rest, cycle = node :: next :: rest ∧ graph.DependsOn node next := by
  match cycle with
  | [] => exact absurd hCycle.two_le (by simp)
  | [_] => exact absurd hCycle.two_le (by simp)
  | node :: next :: rest => exact ⟨node, next, rest, rfl, (List.isChain_cons_cons.1 hCycle.walk).1⟩

theorem IsCycle.not_acyclic {cycle : List String}
    (hCycle : graph.IsCycle cycle) : ¬graph.Acyclic := by
  obtain ⟨node, next, rest, rfl, -⟩ := hCycle.first
  have hPaths : (node :: next :: rest).Pairwise (Relation.TransGen graph.DependsOn) :=
    List.isChain_iff_pairwise.1 (hCycle.walk.imp fun _ _ hDep => .single hDep)
  have hLast : node ∈ next :: rest := by
    have hReturns := hCycle.returns
    rw [List.head?_cons, List.getLast?_cons_cons] at hReturns
    exact List.mem_of_getLast? hReturns.symm
  exact fun hAcyclic => hAcyclic node (List.rel_of_pairwise_cons hPaths hLast)

theorem cycleAt_append {above below : List String} (hAbove : node ∉ above) :
    cycleAt node (above ++ node :: below) = node :: above.reverse ++ [node] := by
  have hDifferent : ∀ other ∈ above, decide (other ≠ node) = true := fun other hOther =>
    decide_eq_true fun hSame => hAbove (hSame ▸ hOther)
  rw [cycleAt, List.takeWhile_append_of_pos hDifferent, List.takeWhile_cons_of_neg (by simp),
    List.append_nil]

/-- What is known while the nodes in `stack` are under visit and those in `order` are done. -/
structure Searching (graph : Graph) (stack order : List String) : Prop where
  distinct : stack.Nodup
  path : stack.IsChain fun later earlier => graph.DependsOn earlier later
  apart : ∀ node ∈ stack, node ∉ order
  done : order.Nodup
  nodes : order ⊆ graph.nodes
  depsFirst : graph.DepsFirst order

/-- The latest node under visit, if there is one, depends on a node. -/
def Awaits (graph : Graph) (stack : List String) (node : String) : Prop :=
  ∀ top ∈ stack.head?, graph.DependsOn top node

/-- A node that goes under visit depends on those that are visited then. -/
theorem awaits_deps {dep : String} (hDep : dep ∈ graph.deps node) :
    graph.Awaits (node :: stack) dep := by
  intro top hTop
  obtain rfl : node = top := by simpa using hTop
  exact hDep

namespace Searching

theorem start (graph : Graph) : graph.Searching [] [] :=
  ⟨.nil, .nil, by simp, .nil, by simp, by simp [DepsFirst]⟩

/-- A node goes under visit. -/
theorem enter (hSearching : graph.Searching stack order) (hNew : node ∉ order)
    (hFresh : node ∉ stack) (hAwaits : graph.Awaits stack node) :
    graph.Searching (node :: stack) order where
  distinct := List.nodup_cons.2 ⟨hFresh, hSearching.distinct⟩
  path := List.isChain_cons.2 ⟨hAwaits, hSearching.path⟩
  apart := List.forall_mem_cons.2 ⟨hNew, hSearching.apart⟩
  done := hSearching.done
  nodes := hSearching.nodes
  depsFirst := hSearching.depsFirst

/-- A node is done when its dependencies are. -/
theorem leave (hSearching : graph.Searching (node :: stack) order) (hNode : node ∈ graph.nodes)
    (hDeps : graph.deps node ⊆ order) : graph.Searching stack (order ++ [node]) := by
  obtain ⟨hFresh, hDistinct⟩ := List.nodup_cons.1 hSearching.distinct
  obtain ⟨hNew, hApart⟩ := List.forall_mem_cons.1 hSearching.apart
  refine ⟨hDistinct, hSearching.path.tail, fun other hOther => ?_, ?_, ?_,
    hSearching.depsFirst.append hDeps⟩
  · rw [List.mem_append, List.mem_singleton, not_or]
    exact ⟨hApart other hOther, fun hSame => hFresh (hSame ▸ hOther)⟩
  · rw [← List.concat_eq_append]
    exact hSearching.done.concat hNew
  · exact List.append_subset.2 ⟨hSearching.nodes, by simpa using hNode⟩

/-- A node under visit that is met again closes a cycle. -/
theorem cycle (hSearching : graph.Searching stack order) (hOpen : node ∈ stack)
    (hAwaits : graph.Awaits stack node) : graph.IsCycle (cycleAt node stack) := by
  obtain ⟨above, below, rfl, hAbove⟩ := List.eq_append_cons_of_mem hOpen
  have hDistinct := (List.nodup_append.1 hSearching.distinct).1
  have hPath : (above ++ [node]).IsChain fun later earlier => graph.DependsOn earlier later := by
    have hWhole := hSearching.path
    rw [List.append_cons] at hWhole
    exact (List.isChain_append.1 hWhole).1
  -- Read from `node` upwards, the path is a walk along dependencies.
  have hReverse : node :: above.reverse = (above ++ [node]).reverse := by simp
  have hWalk : (node :: above.reverse).IsChain graph.DependsOn := by
    rw [hReverse, List.isChain_reverse]
    exact hPath
  rw [cycleAt_append hAbove]
  refine ⟨by simp, by rw [List.getLast?_concat]; rfl, ?_,
    List.isChain_append.2 ⟨hWalk, .singleton _, ?_⟩⟩
  · rw [List.dropLast_concat]
    exact List.nodup_cons.2 ⟨by simpa using hAbove, List.nodup_reverse.2 hDistinct⟩
  · intro top hTop last hLast
    obtain rfl : node = last := by simpa using hLast
    refine hAwaits top ?_
    rw [hReverse, List.getLast?_reverse] at hTop
    cases above <;> simpa using hTop

end Searching

/-- Where the search gets to from nodes that are known to be searched. -/
def Settles (graph : Graph) (stack order nodes : List String) :
    Except SortError (List String) → Prop
  | .ok after => graph.Searching stack after ∧ order ⊆ after ∧ nodes ⊆ after
  | .error cause => ∃ cycle, cause = .cycle cycle ∧ graph.IsCycle cycle

/-- Nodes that were done before change nothing about where the search gets to. -/
theorem Settles.cons {before after nodes : List String} {outcome : Except SortError (List String)}
    (hSettles : graph.Settles stack after nodes outcome) (hBefore : before ⊆ after)
    (hNode : node ∈ after) : graph.Settles stack before (node :: nodes) outcome := by
  cases outcome with
  | error cause => exact hSettles
  | ok last =>
      obtain ⟨hSearching, hAfter, hNodes⟩ := hSettles
      exact ⟨hSearching, List.Subset.trans hBefore hAfter,
        List.cons_subset.2 ⟨hAfter hNode, hNodes⟩⟩

/-- Every search keeps what is known, or comes upon a cycle. -/
theorem Searches.settles (hClosed : graph.Closed) {nodes : List String}
    {outcome : Except SortError (List String)}
    (hSearches : graph.Searches stack order nodes outcome)
    (hSearching : graph.Searching stack order) (hNodes : nodes ⊆ graph.nodes)
    (hAwaits : ∀ node ∈ nodes, graph.Awaits stack node) :
    graph.Settles stack order nodes outcome := by
  induction hSearches with
  | finished => exact ⟨hSearching, List.Subset.refl _, List.nil_subset _⟩
  | known hThere _ ih =>
      have hRest := ih hSearching (List.cons_subset.1 hNodes).2 (List.forall_mem_cons.1 hAwaits).2
      exact hRest.cons (List.Subset.refl _) hThere
  | closed _ hOpen =>
      exact ⟨_, rfl, hSearching.cycle hOpen (hAwaits _ List.mem_cons_self)⟩
  | @visited _ _ node _ _ _ hNew hFresh _ _ ihDeps ihRest =>
      obtain ⟨hNode, hRestNodes⟩ := List.cons_subset.1 hNodes
      obtain ⟨hTop, hRestAwaits⟩ := List.forall_mem_cons.1 hAwaits
      obtain ⟨hInside, hMiddle, hDeps⟩ := ihDeps (hSearching.enter hNew hFresh hTop) (hClosed node)
        fun _ => awaits_deps
      refine (ihRest (hInside.leave hNode hDeps) hRestNodes hRestAwaits).cons ?_ ?_
      · exact List.subset_append_of_subset_left _ hMiddle
      · exact List.mem_append_right _ List.mem_cons_self
  | @failed _ _ node _ _ hNew hFresh _ ihDeps =>
      exact ihDeps (hSearching.enter hNew hFresh (hAwaits node List.mem_cons_self)) (hClosed node)
        fun _ => awaits_deps

/-- Sorting a graph answers as it is to, if no node is registered twice. -/
theorem sort_answers (hDistinct : graph.nodes.Nodup) : graph.Answers graph.sort := by
  have hSorts := (graph.sorts_iff graph.sort).2 rfl
  generalize graph.sort = outcome at hSorts
  cases hSorts with
  | missing hMissing =>
      obtain ⟨hDep, hUnknown⟩ := missing?_eq_some hDistinct hMissing
      exact .missing hDep hUnknown
  | searched hMissing hSearches =>
      have hClosed := missing?_eq_none hMissing
      have hSettles :=
        hSearches.settles hClosed (.start graph) (List.Subset.refl _) (by simp [Awaits])
      cases outcome with
      | error cause =>
          obtain ⟨cycle, rfl, hCycle⟩ := hSettles
          exact .cycle hClosed hCycle.not_acyclic hCycle
      | ok order =>
          obtain ⟨hSearching, -, hAll⟩ := hSettles
          refine .order hClosed (hSearching.depsFirst.acyclic hAll) ?_ hSearching.depsFirst
          exact (List.perm_ext_iff_of_nodup hSearching.done hDistinct).2 fun node =>
            ⟨fun hNode => hSearching.nodes hNode, fun hNode => hAll hNode⟩

end RecordWasm.Graph
