import WorkflowBundle.Digraph

/-! Cycles of a directed graph: for every strongly connected component that has one, a
shortest cycle through its smallest vertex. -/
namespace WorkflowBundle.Digraph

variable {α : Type u}

/-- Vertices reached in at most that many rounds more. Only those met in the latest round can
lead to new ones. -/
def spread (g : Digraph α) : (rounds : Nat) → (met : List Nat) → (latest : List Nat) → List Nat
  | 0, met, _ => met
  | rounds + 1, met, latest =>
    match ((latest.flatMap g.successors).filter fun v => !met.contains v).eraseDups with
    | [] => met
    | next => g.spread rounds (met ++ next) next

/-- Vertices at the end of a walk of one edge or more. -/
def reached (g : Digraph α) (v : Nat) : List Nat :=
  let first := (g.successors v).eraseDups
  g.spread g.labels.length first first

def reachability (g : Digraph α) : Array (List Nat) := (g.vertices.map g.reached).toArray

/-- Vertices that lie on a closed walk with the given one; none when it lies on no cycle. -/
def cyclicComponent (g : Digraph α) (reach : Array (List Nat)) (v : Nat) : List Nat :=
  (g.vertices.filter (reach.getD v []).contains).filter fun w => (reach.getD w []).contains v

/-- Continues a breadth-first search for a way back to `start`. Each path in the queue is
listed from its end. -/
def wayBack (g : Digraph α) (start : Nat) (component : List Nat) :
    (fuel : Nat) → (queue : List (List Nat)) → (met : List Nat) → Option (List Nat)
  | 0, _, _ => none
  | _, [], _ => none
  | fuel + 1, path :: queue, met =>
    let next := component.filter ((g.successors (path.headD start)).contains ·)
    if next.contains start then some (start :: path).reverse
    else
      let fresh := next.filter (!met.contains ·)
      g.wayBack start component fuel (queue ++ fresh.map (· :: path)) (met ++ fresh)

/-- A shortest cycle through a vertex inside its component. -/
def cycleThrough? (g : Digraph α) (start : Nat) (component : List Nat) : Option (List Nat) :=
  g.wayBack start component (component.length + 1) [[start]] []

/-- The vertex has the smallest label of the component, and of those the smallest number. -/
def isSmallest [Ord α] (g : Digraph α) (v : Nat) (component : List Nat) : Bool :=
  component.all fun w =>
    match compare g.labels[v]? g.labels[w]? with
    | .lt => true
    | .eq => v ≤ w
    | .gt => false

/-- One cycle of each component that has any, by labels, in order of the labels. -/
def cycles [Ord α] (g : Digraph α) : List (List α) :=
  let reach := g.reachability
  let found := g.vertices.filterMap fun v =>
    let component := g.cyclicComponent reach v
    if component.contains v && g.isSmallest v component then g.cycleThrough? v component
    else none
  (found.map g.labelAll).mergeSort fun a b => (compare a b).isLE

end WorkflowBundle.Digraph
