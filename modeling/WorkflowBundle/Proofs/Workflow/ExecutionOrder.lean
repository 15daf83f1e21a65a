import WorkflowBundle.Proofs.CycleReport
import WorkflowBundle.Proofs.Workflow.WellFormed
import WorkflowBundle.Proofs.Workflow.Wiring

/-! The order of the steps of an accepted workflow. Every step at top level runs once, and after
all steps at top level that it or a node in its arms takes outputs of or waits for. -/
namespace WorkflowBundle

namespace Workflow

variable {w : Workflow} {node other : Node} {order : List Nat}

/-- Numbers of the vertices in between are those of the steps. -/
theorem stepsOf_vertices (w : Workflow) : w.stepsOf w.graph.vertices = w.vertices.steps := by
  have size : w.graph.labels.length = w.vertices.steps.length + 1 + 1 := by
    simp [graph, Digraph.ofEdges, Vertices.names]
  have between : w.graph.vertices.filter (fun n => n != Vertices.start && n != w.vertices.finish) =
      (List.range w.vertices.steps.length).map (· + 1) := by
    rw [Digraph.vertices, size, List.range_succ_eq_map, List.range_succ, List.filter_cons_of_neg,
      List.map_append, List.filter_append, List.filter_eq_self.mpr]
    · simp [Vertices.finish]
    · intro n listed
      obtain ⟨i, range, rfl⟩ := List.mem_map.mp listed
      have lt := List.mem_range.mp range
      simp only [Vertices.start, Vertices.finish, Bool.and_eq_true, bne_iff_ne]
      omega
    · simp [Vertices.start]
  rw [stepsOf, between, Digraph.labelAll, List.filterMap_map]
  exact filterMap_getElem?_range w.vertices.steps [finishId]

theorem stepsOf_perm (ordered : w.graph.order? = some order) :
    (w.stepsOf order).Perm w.vertices.steps := by
  rw [← w.stepsOf_vertices]
  exact ((Digraph.order?_perm w.graph_inRange ordered).filter _).filterMap _

theorem Sound.vertices_steps (sound : w.Sound) :
    w.vertices.steps = (w.nodes.filter Node.isStep).map Node.id := by
  have distinct : ((w.nodes.filter Node.isStep).map Node.id).Nodup :=
    (List.filter_sublist.map Node.id).nodup sound.nodup
  exact eraseDups_of_nodup distinct

namespace Wired

variable (wired : w.Wired)
include wired

/-- A step that another one needs has an edge to it. -/
theorem linked_of_before (before : w.Before node other) (step : node.isStep) (step' : other.isStep) :
    w.Linked (w.vertices.ofStep node.id) (w.vertices.ofStep other.id) := by
  obtain ⟨member, member', inner, inside, needed⟩ := before
  obtain ⟨d, dependency, -, same⟩ :=
    Node.exists_dependency_of_needed inside needed fun input => input
  simp only [Node.isStep, Bool.and_eq_true, Bool.not_eq_true'] at step'
  have consumer := mem_consumers member' step'.1
  rw [step'.2, if_neg Bool.false_ne_true] at consumer
  obtain ⟨source, provided, ok⟩ := wired.link_eq consumer dependency
  rw [same, wired.sound.provider_of_isStep member step] at provided
  obtain rfl := Provider.vertex.inj provided
  exact ⟨_, mem_links.mpr ⟨_, consumer, d, dependency, ok⟩, rfl, rfl⟩

theorem precedes_of_before (ordered : w.graph.order? = some order) (before : w.Before node other)
    (step : node.isStep) (step' : other.isStep) : Precedes (w.stepsOf order) node.id other.id := by
  have edge := (wired.linked_of_before before step step').mem_edges
  have listed : w.vertices.ofStep other.id ∈ order := by
    rw [(Digraph.order?_perm w.graph_inRange ordered).mem_iff, Digraph.mem_vertices]
    exact (w.graph_inRange _ edge).2
  have first := Precedes.of_idxOf_lt listed (Digraph.order?_forward ordered _ edge)
  -- the two are steps, so neither is left out and both have their ids for labels
  have kept : ∀ n ∈ w.nodes, n.isStep → (w.vertices.ofStep n.id != Vertices.start &&
      w.vertices.ofStep n.id != w.vertices.finish) = true := by
    intro n member step
    have pos : Vertices.start < w.vertices.ofStep n.id := Nat.succ_pos _
    simp [Nat.ne_of_gt pos, Nat.ne_of_lt (ofStep_lt_finish member step)]
  have label : ∀ n ∈ w.nodes, n.isStep → w.graph.labels[w.vertices.ofStep n.id]? = some n.id :=
    fun n member step =>
      Vertices.getElem?_names_ofStep (mem_vertices_steps.mpr ⟨n, member, step, rfl⟩)
  apply Precedes.filterMap
  · exact first.filter (kept node before.1 step) (kept other before.2.1 step')
  · exact label node before.1 step
  · exact label other before.2.1 step'

end Wired

end Workflow

/-- The order of an accepted workflow has the id of every step at top level once and nothing else,
and each step comes after those that it needs, or that a node in its arms needs. -/
theorem Scope.nodeOrder_of_check {s : Scope} {checked : CheckedWorkflow}
    (accepted : s.check = .ok checked) :
    checked.nodeOrder.Perm ((s.workflow.nodes.filter Node.isStep).map Node.id) ∧
      checked.nodeOrder.Nodup ∧
      ∀ node other, s.workflow.Before node other → node.isStep → other.isStep →
        Precedes checked.nodeOrder node.id other.id := by
  have wired := wired_of_check accepted
  obtain ⟨-, order, ordered, same⟩ :=
    s.workflow.decides_nodeOrder.ok _ (nodeOrder_eq_of_check accepted).1
  rw [same]
  have perm := Workflow.stepsOf_perm ordered
  refine ⟨wired.sound.vertices_steps ▸ perm, ?_, ?_⟩
  · exact perm.nodup_iff.mpr (nodup_eraseDups _)
  · intro node other before step step'
    exact wired.precedes_of_before ordered before step step'

open Sample in
/-- An arm in an arm of the step `g` waits for the step `n`, which stands after `g`. -/
theorem Scope.nodeOrder_of_check_routed : ∃ checked, routed.check = .ok checked ∧
    checked.nodeOrder.Perm ["g", "n"] ∧ checked.nodeOrder.Nodup ∧
      routed.workflow.Before waiting choice ∧ Precedes checked.nodeOrder "n" "g" := by
  have faultless := routed_wellFormed.defects_eq_nil routed_resolved routed_unfixed
  have before : routed.workflow.Before waiting choice := ⟨waiting_mem, choice_mem, by decide⟩
  have accepted := check_eq_ok_iff.mpr ⟨faultless, rfl⟩
  obtain ⟨perm, nodup, precedes⟩ := nodeOrder_of_check accepted
  exact ⟨_, accepted, perm, nodup, before, precedes waiting choice before rfl rfl⟩

end WorkflowBundle
