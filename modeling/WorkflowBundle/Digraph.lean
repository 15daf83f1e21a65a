/-! Finite directed graphs. Vertices are numbered in the order in which they were added, and
the successors of a vertex are listed in the order of their edges. -/
namespace WorkflowBundle

structure Digraph (α : Type u) where
  /-- Labels of the vertices by number. -/
  labels : List α := []
  /-- Each edge once, oldest first. -/
  edges : List (Nat × Nat) := []
  deriving Repr, Inhabited

namespace Digraph

variable {α : Type u}

/-- A graph of the given edges; a repeated edge counts once. -/
def ofEdges (labels : List α) (edges : List (Nat × Nat)) : Digraph α :=
  ⟨labels, edges.eraseDups⟩

def vertices (g : Digraph α) : List Nat := List.range g.labels.length

/-- Targets of the edges from a vertex, oldest edge first. -/
def successors (g : Digraph α) (v : Nat) : List Nat :=
  g.edges.filterMap fun e => if e.1 = v then some e.2 else none

def labelAll (g : Digraph α) (path : List Nat) : List α := path.filterMap (g.labels[·]?)

/-- Progress of a depth-first search. -/
structure Search where
  met : List Nat := []
  /-- Vertices whose successors are all done, the latest first. -/
  done : List Nat := []

/-- Searches from a vertex, unless it has been met. -/
def visit (g : Digraph α) : (fuel : Nat) → Nat → Search → Search
  | 0, _, search => search
  | fuel + 1, v, search =>
    if search.met.contains v then search
    else
      let search := (g.successors v).foldl (fun search w => g.visit fuel w search)
        { search with met := v :: search.met }
      { search with done := v :: search.done }

/-- All vertices, those that a depth-first search leaves last coming first. -/
def latestFirst (g : Digraph α) : List Nat :=
  (g.vertices.foldl (fun search v => g.visit g.labels.length v search) {}).done

def isForward (g : Digraph α) (order : List Nat) : Bool :=
  g.edges.all fun e => order.idxOf e.1 < order.idxOf e.2

/-- All vertices with every edge leading forward, if the graph has no cycle. -/
def order? (g : Digraph α) : Option (List Nat) :=
  let order := g.latestFirst
  if g.isForward order then some order else none

end Digraph

end WorkflowBundle
