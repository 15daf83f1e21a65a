import Mathlib.Data.List.Permutation
import WorkflowBundle.Proofs.Digraph.Components
import WorkflowBundle.Proofs.RegistrationOrder
import WorkflowBundle.Proofs.Workflow.Links

/-! What is reported where the steps of a workflow, or the entities of a bundle, cannot be put in
an order: the cycles of their graph, one for each knot. -/
namespace WorkflowBundle

/-- The order has every vertex once and leads forward along every edge. -/
structure Digraph.Sorts (g : Digraph α) (order : List Nat) : Prop where
  perm : order.Perm g.vertices
  forward : ∀ e ∈ g.edges, order.idxOf e.1 < order.idxOf e.2

/-- The steps among numbered vertices, by their ids. -/
def Workflow.stepsOf (w : Workflow) (order : List Nat) : List String :=
  w.graph.labelAll (order.filter fun n => n != Vertices.start && n != w.vertices.finish)

theorem Workflow.decides_nodeOrder (w : Workflow) : w.graph.Decides w.stepsOf w.nodeOrder :=
  Digraph.decides_match w.graph_inRange w.stepsOf

theorem Index.decides_registrationOrder (index : Index) :
    index.dependencyGraph.Decides index.dependencyGraph.labelAll index.registrationOrder :=
  Digraph.decides_match index.dependencyGraph_inRange index.dependencyGraph.labelAll

/-- The cycles of a graph are reported one for each component that has any, and none are reported
just where the graph can be sorted. So an order of steps or of entities is given for graphs without
closed walks only, and where none is given there is a cycle to report. -/
theorem Digraph.cycles_spec [Ord α] [Std.TransOrd α] (g : Digraph α) (closed : g.InRange)
    (w : Workflow) (index : Index) :
    (∃ found, g.Reports g.cycles found) ∧
      (g.cycles = [] ↔ ∃ order, g.order? = some order) ∧
      (∀ order, g.order? = some order → g.Sorts order) ∧
      w.graph.Decides w.stepsOf w.nodeOrder ∧
      index.dependencyGraph.Decides index.dependencyGraph.labelAll index.registrationOrder := by
  refine ⟨⟨_, reports_cycles closed⟩, cycles_eq_nil_iff closed, fun order ordered => ?_,
    w.decides_nodeOrder, index.decides_registrationOrder⟩
  exact ⟨order?_perm closed ordered, order?_forward ordered⟩

namespace Sample

/-- A vertex with a loop, two that lead to each other and to it, and one that lies on no cycle. -/
def knots : Digraph String :=
  ⟨["d", "b", "c", "a"], [(1, 2), (2, 1), (2, 3), (3, 3), (0, 1)]⟩

/-- Two steps that wait for each other. -/
def circular : Workflow where
  id := ⟨.workflow, "p", "d", "w", "1"⟩
  interface := {}
  nodes := [.call ⟨"n", [], ["m"]⟩ .workflow ⟨.workflow, "p", "d", "k", "1"⟩,
    .call ⟨"m", [⟨"x", .nodeOutput "n" "v"⟩], []⟩ .workflow ⟨.workflow, "p", "d", "k", "1"⟩]

end Sample

open Sample in
theorem Digraph.cycles_spec_knots : knots.InRange ∧
    knots.cycles = [["a", "a"], ["b", "c", "b"]] ∧
    circular.nodeOrder = .error [["m", "n", "m"]] ∧
    (∃ found, knots.Reports knots.cycles found) ∧
      (knots.cycles = [] ↔ ∃ order, knots.order? = some order) ∧
      (∀ order, knots.order? = some order → knots.Sorts order) ∧
      circular.graph.Decides circular.stepsOf circular.nodeOrder ∧
      ({} : Index).dependencyGraph.Decides ({} : Index).dependencyGraph.labelAll
        ({} : Index).registrationOrder := by
  have closed : ∀ e ∈ knots.edges, e.1 < knots.labels.length ∧ e.2 < knots.labels.length := by
    decide
  exact ⟨closed, by cbv, by cbv, knots.cycles_spec closed circular {}⟩

end WorkflowBundle
