/-!
# Dependency graphs

Nodes are registered in order and may depend on other nodes, which may be registered later.
`Graph.sort` visits the nodes in the order of registration and lists each behind its dependencies.
A dependency is listed as soon as a node needs it, so it may overtake nodes that were registered
before it and have nothing to do with it.
-/

namespace RecordWasm

/-- A node and the nodes it depends on. -/
structure Graph.Entry where
  node : String
  deps : List String
  deriving DecidableEq, Repr

/-- The nodes in the order of their registration; no two entries are of one node. -/
structure Graph where
  entries : List Graph.Entry := []
  deriving DecidableEq, Repr

namespace Graph

/-- Why the nodes of a graph cannot be ordered. -/
inductive SortError where
  | missing (node dep : String)
  /-- The nodes along a cycle; the first one is repeated at the end. -/
  | cycle (nodes : List String)
  /-- Anything else; callers allow for it. -/
  | other (cause : String)
  deriving DecidableEq, Repr

def SortError.message : SortError → String
  | .missing node dep => s!"{node} depends on unknown {dep}"
  | .cycle nodes => "dependency cycle: " ++ " -> ".intercalate nodes
  | .other cause => cause

def nodes (graph : Graph) : List String := graph.entries.map Entry.node

def contains (graph : Graph) (node : String) : Bool := node ∈ graph.nodes

def size (graph : Graph) : Nat := graph.entries.length

/-- The direct dependencies of a node, none if it is not registered. -/
def deps (graph : Graph) (node : String) : List String :=
  match graph.entries.find? fun entry => entry.node == node with
  | some entry => entry.deps
  | none => []

/-- Registers a node behind the others, unless it is registered already. -/
def addNode (graph : Graph) (node : String) : Graph :=
  if graph.contains node then graph else ⟨graph.entries ++ [⟨node, []⟩]⟩

/-- Makes a node depend on another, registering the first if need be. -/
def addDep (graph : Graph) (node dep : String) : Graph :=
  ⟨(graph.addNode node).entries.map fun entry =>
    if entry.node = node then ⟨node, entry.deps ++ [dep]⟩ else entry⟩

/-- The first dependency on something that is not a node. -/
def missing? (graph : Graph) : Option (String × String) :=
  graph.entries.findSome? fun entry =>
    (entry.deps.find? fun dep => !graph.contains dep).map fun dep => (entry.node, dep)

/-- The cycle that closes when `node` is met again below the nodes under visit, latest first. -/
def cycleAt (node : String) (stack : List String) : List String :=
  node :: (stack.takeWhile (· ≠ node)).reverse ++ [node]

/-- Visits a node: its dependencies join the order first, then the node itself.  No path is longer
than the number of nodes, which bounds `fuel`. -/
def visit (graph : Graph) :
    (fuel : Nat) → (stack order : List String) → (node : String) →
      Except SortError (List String)
  | 0, _, order, _ => .ok order
  | fuel + 1, stack, order, node =>
      if node ∈ order then .ok order
      else if node ∈ stack then .error (.cycle (cycleAt node stack))
      else do
        let order ← (graph.deps node).foldlM (visit graph fuel (node :: stack)) order
        return order ++ [node]

/-- All nodes, each after its dependencies. -/
def sort (graph : Graph) : Except SortError (List String) :=
  match graph.missing? with
  | some (node, dep) => .error (.missing node dep)
  | none => graph.nodes.foldlM (graph.visit (graph.size + 1) []) []

end Graph

end RecordWasm
