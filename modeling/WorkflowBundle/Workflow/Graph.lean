import WorkflowBundle.Closure
import WorkflowBundle.Defect
import WorkflowBundle.Digraph.Cycle

/-! The graph that the bindings of a workflow imply. Its vertices are the start, the steps at
top level and the finish; what an arm of a branch needs, the branch needs. A vertex that
nothing enters hangs off the start, and one that nothing leaves leads to the finish. -/
namespace WorkflowBundle

/-- One thing that a node needs before it runs. -/
structure Dependency where
  /-- The node that declares it: the node itself or one of its arms. -/
  owner : String
  /-- Id of the node that provides it. Workflow inputs come from the start. -/
  producer : String
  /-- Output that is passed; none when only the order matters. -/
  output : Option String := none
  input : Option String := none
  deriving Repr

namespace Dependency

/-- What a binding needs; a literal needs nothing. -/
def ofBinding? (owner input : String) : Origin → Option Dependency
  | .workflowInput name => some ⟨owner, Workflow.startId, some name, some input⟩
  | .nodeOutput node output => some ⟨owner, node, some output, some input⟩
  | .literal _ => none

end Dependency

namespace Node

/-- What the node itself needs, its inputs under the names that `label` gives them. -/
def ownDependencies (label : String → String) (node : Node) : List Dependency :=
  node.inputs.filterMap (fun b => Dependency.ofBinding? node.id (label b.parameter) b.origin) ++
    node.runsAfter.map fun id => ⟨node.id, id, none, none⟩

/-- An input of an arm as it is named outside. -/
def armLabel (arm input : String) : String := arm ++ "." ++ input

/-- What the node and its arms need. -/
def dependencies (label : String → String) : Node → List Dependency
  | branch head condition a b =>
    ownDependencies label (branch head condition a b) ++ dependencies (armLabel a.id) a ++
      dependencies (armLabel b.id) b
  | node => ownDependencies label node

end Node

/-- The vertices of a workflow graph. They are numbered: first the start, then the steps, last
the finish. -/
structure Vertices where
  /-- Ids of the steps, each once. -/
  steps : List String
  deriving Repr

namespace Vertices

def start : Nat := 0

def finish (v : Vertices) : Nat := v.steps.length + 1

def ofStep (v : Vertices) (id : String) : Nat := v.steps.idxOf id + 1

def names (v : Vertices) : List String := Workflow.startId :: v.steps ++ [Workflow.finishId]

def name (v : Vertices) (number : Nat) : String := v.names.getD number Workflow.finishId

end Vertices

/-- A dependency as an edge between vertices. -/
structure Link where
  source : Nat
  target : Nat
  output : Option String := none
  input : Option String := none
  deriving Repr

namespace Vertices

/-- Ties a step to the start when no link enters it, to the finish when none leaves it. -/
def stepAnchors (v : Vertices) (links : List Link) (step : Nat) : List Link :=
  (if links.any (·.target == step) then [] else [⟨start, step, none, none⟩]) ++
    (if links.any (·.source == step) then [] else [⟨step, v.finish, none, none⟩])

/-- Links to be added so that every step lies between the start and the finish. -/
def anchors (v : Vertices) (links : List Link) : List Link :=
  let steps := (List.range v.steps.length).flatMap fun i => v.stepAnchors links (i + 1)
  if (links ++ steps).any (·.target == v.finish) then steps
  else steps ++ [⟨start, v.finish, none, none⟩]

end Vertices

namespace Workflow

/-- The vertices, with the steps at top level in the order of their first appearance. -/
def vertices (w : Workflow) : Vertices :=
  ⟨((w.nodes.filter Node.isStep).map Node.id).eraseDups⟩

/-- What the id of a producer means. -/
inductive Provider where
  | vertex (number : Nat)
  | finish
  | unknown

def provider (w : Workflow) (v : Vertices) (id : String) : Provider :=
  if w.namesStart id then .vertex Vertices.start
  else if w.namesFinish id then .finish
  else if v.steps.contains id then .vertex (v.ofStep id)
  else .unknown

/-- A consumer at top level with all that it needs. -/
structure Consumer where
  id : String
  vertex : Nat
  dependencies : List Dependency

/-- The consumer that a node is. A start node is none. -/
def consumer? (v : Vertices) (node : Node) : Option Consumer :=
  if node.isStart then none
  else some ⟨node.id, if node.isFinish then v.finish else v.ofStep node.id,
    node.dependencies fun input => input⟩

/-- Bindings of the workflow outputs, as needs of the finish. -/
def outputConsumer (w : Workflow) (v : Vertices) : Consumer :=
  ⟨finishId, v.finish,
    w.outputs.filterMap fun b => Dependency.ofBinding? finishId b.parameter b.origin⟩

def consumers (w : Workflow) (v : Vertices) : List Consumer :=
  w.nodes.filterMap (consumer? v) ++ [w.outputConsumer v]

/-- A dependency that gives no edge. Faults with one key are reported once. -/
structure LinkFault where
  key : String × String
  node : String
  fault : NodeFault

def link (w : Workflow) (v : Vertices) (c : Consumer) (d : Dependency) : Except LinkFault Link :=
  if (d.producer == d.owner || d.producer == c.id) && c.vertex != v.finish then
    .error ⟨(d.owner, d.producer), d.owner, .selfReference⟩
  else match w.provider v d.producer with
    | .vertex source => .ok ⟨source, c.vertex, d.output, d.input⟩
    | .finish => .error ⟨(c.id, d.producer), c.id, .misplaced "cannot depend on the end node"⟩
    | .unknown => .error ⟨(c.id, d.producer), c.id, .unknownNode d.producer⟩

/-- All dependencies in order, each with its edge or fault. -/
def linkResults (w : Workflow) : List (Except LinkFault Link) :=
  let v := w.vertices
  (w.consumers v).flatMap fun c => c.dependencies.map (w.link v c)

def links (w : Workflow) : List Link :=
  w.linkResults.filterMap fun
    | .ok link => some link
    | .error _ => none

/-- The first fault of each key. -/
def firstFaults : List LinkFault → (seen : List (String × String)) → List (String × NodeFault)
  | [], _ => []
  | f :: rest, seen =>
    if seen.contains f.key then firstFaults rest seen
    else (f.node, f.fault) :: firstFaults rest (f.key :: seen)

def linkFaults (w : Workflow) : List (String × NodeFault) :=
  firstFaults (w.linkResults.filterMap fun | .error f => some f | .ok _ => none) []

/-- The dependencies as links, and those that tie the steps to the start and the finish. -/
def allLinks (w : Workflow) : List Link :=
  let links := w.links
  links ++ w.vertices.anchors links

def graph (w : Workflow) : Digraph String :=
  .ofEdges w.vertices.names (w.allLinks.map fun l => (l.source, l.target))

def edges (w : Workflow) : List Edge :=
  let v := w.vertices
  (SortedMap.ofList (w.allLinks.map fun l =>
    ((⟨v.name l.source, v.name l.target, l.output, l.input⟩ : Edge), ()))).keys

/-- The steps in an order in which they can run, or a cycle for each knot of steps. -/
def nodeOrder (w : Workflow) : Except (List (List String)) (List String) :=
  let g := w.graph
  match g.order? with
  | some order =>
    let finish := w.vertices.finish
    .ok (g.labelAll (order.filter fun n => n != Vertices.start && n != finish))
  | none => .error g.cycles

end Workflow

end WorkflowBundle
