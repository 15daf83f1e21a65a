import WorkflowBundle.Proofs.Workflow.ExecutionOrder

/-! What an accepted workflow is like. Its nodes are well laid out: what is needed can be had, and
no steps need each other in a circle. So a workflow is accepted when it is well laid out and each of
its nodes, its arms and its outputs are without faults. -/
namespace WorkflowBundle

namespace Workflow

variable {w : Workflow} {node other inner : Node} {id : String}

theorem canGive_of_provides (provided : w.Provides id) : w.CanGive id :=
  provided.imp_right fun step => step.2.2

/-- A link that does not lead to the finish passes nothing on to its own owner. -/
theorem apart_of_link {c : Consumer} {d : Dependency} {l : Link}
    (ok : w.link w.vertices c d = .ok l) (inner : c.vertex ≠ w.vertices.finish) :
    d.producer ≠ d.owner ∧ d.producer ≠ c.id := by
  unfold link at ok
  split at ok
  · contradiction
  next allowed => simpa [inner, not_or] using allowed

/-- The finish gives nothing. -/
theorem Sound.isFinish_of_canGive (sound : w.Sound) (member : node ∈ w.nodes)
    (given : w.CanGive node.id) : node.isFinish = false := by
  rcases given with start | ⟨step, member', isStep, same⟩
  · have isStart := sound.isStart_of_namesStart member start
    cases node with
    | start head => rfl
    | call | branch | finish => contradiction
  · obtain rfl := sound.eq_of_id member' member same
    simp only [Node.isStep, Bool.and_eq_true, Bool.not_eq_true'] at isStep
    exact isStep.2

namespace Wired

variable (wired : w.Wired)
include wired

/-- The start needs nothing. -/
theorem isStart_of_needed (member : node ∈ w.nodes) (inside : inner ∈ node.flatten)
    (needed : id ∈ inner.needed) : node.isStart = false := by
  cases node with
  | start head =>
    obtain ⟨inputs, runsAfter⟩ := wired.bare _ member rfl
    rw [List.mem_singleton.mp inside, Node.needed, inputs, runsAfter] at needed
    contradiction
  | call | branch | finish => rfl

/-- What a node or an arm in it needs can be had, and is neither of the two. -/
theorem source_of_needed (member : node ∈ w.nodes) (inside : inner ∈ node.flatten)
    (needed : id ∈ inner.needed) : w.CanGive id ∧ id ≠ inner.id ∧ id ≠ node.id := by
  have notStart := wired.isStart_of_needed member inside needed
  obtain ⟨d, dependency, owner, rfl⟩ :=
    Node.exists_dependency_of_needed inside needed fun input => input
  have consumer := mem_consumers member notStart
  obtain ⟨source, provided, ok⟩ := wired.link_eq consumer dependency
  have given := canGive_of_provides (provides_of_provider provided)
  by_cases finish : node.isFinish
  · have own : inner = node := by
      cases node with
      | finish head => exact List.mem_singleton.mp inside
      | call | branch | start => contradiction
    have other : d.producer ≠ node.id := by
      intro same
      rw [wired.sound.isFinish_of_canGive member (same ▸ given)] at finish
      contradiction
    exact ⟨given, own ▸ other, other⟩
  · have lt := ofStep_lt_finish member (by simp [Node.isStep, notStart, finish])
    rw [if_neg finish] at ok
    rw [← owner]
    exact ⟨given, apart_of_link ok (Nat.ne_of_lt lt)⟩

theorem isFinish_of_before (before : w.Before node other) : node.isFinish = false := by
  obtain ⟨member, member', inner, inside, needed⟩ := before
  exact wired.sound.isFinish_of_canGive member (wired.source_of_needed member' inside needed).1

theorem isStart_of_before (before : w.Before node other) : other.isStart = false := by
  obtain ⟨-, member', inner, inside, needed⟩ := before
  exact wired.isStart_of_needed member' inside needed

/-- Steps that need each other, directly or through others, are linked. -/
theorem linked_of_walk (walk : Relation.TransGen w.Before node other) (first : node.isStart = false)
    (last : other.isFinish = false) : Relation.TransGen w.Linked (w.vertices.ofStep node.id)
      (w.vertices.ofStep other.id) := by
  induction walk with
  | single before =>
    refine .single (wired.linked_of_before before ?_ ?_)
    · simp [Node.isStep, first, wired.isFinish_of_before before]
    · simp [Node.isStep, last, wired.isStart_of_before before]
  | @tail middle other walk before ih =>
    have notFinish := wired.isFinish_of_before before
    obtain ⟨_, -, before'⟩ := Relation.TransGen.tail'_iff.mp walk
    refine (ih notFinish).tail (wired.linked_of_before before ?_ ?_)
    · simp [Node.isStep, notFinish, wired.isStart_of_before before']
    · simp [Node.isStep, last, wired.isStart_of_before before]

theorem not_before_self (ordered : ∃ order, w.nodeOrder = .ok order) (node : Node) :
    ¬Relation.TransGen w.Before node node := by
  intro walk
  obtain ⟨_, first, -⟩ := Relation.TransGen.head'_iff.mp walk
  obtain ⟨_, -, last⟩ := Relation.TransGen.tail'_iff.mp walk
  exact exists_nodeOrder_iff.mp ordered _
    (wired.linked_of_walk walk (wired.isStart_of_before last) (wired.isFinish_of_before first))

end Wired

end Workflow

namespace Scope

variable {s : Scope}

theorem Clean.arms_isStep (clean : s.Clean) {head : NodeHead} {condition : Condition} {a b : Node}
    (member : .branch head condition a b ∈ s.workflow.nodes) :
    ∀ inner ∈ a.flatten ++ b.flatten, inner.isStep := by
  intro inner inside
  exact steps_of_nodeFaults rfl (clean.nodes _ member) inner (List.mem_cons_of_mem _ inside)

theorem wellLaid_of_defects (empty : s.defects = []) : s.workflow.WellLaid := by
  have clean := clean_of_defects empty
  have ordered := exists_nodeOrder_of_defects empty
  simp only [defects, List.append_eq_nil_iff, List.map_eq_nil_iff, Workflow.structureFaults,
    List.drop_eq_nil_iff] at empty
  exact {
    ids := clean.sound.ids
    reserved := clean.sound.reserved
    starts := empty.1.1.1.1.2
    finishes := clean.sound.finishes
    arms := fun _ _ _ _ => clean.arms_isStep
    bare := clean.wired.bare
    sources := fun _ member _ inside _ => clean.wired.source_of_needed member inside
    outputs := by
      intro id needed
      obtain ⟨b, bound, taken⟩ := List.mem_filterMap.mp needed
      obtain ⟨output, origin⟩ := Origin.exists_output taken
      exact Workflow.canGive_of_provides
        (Workflow.provides_of_output clean.linked (List.mem_append_left _ bound) origin)
    acyclic := clean.wired.not_before_self ordered }

/-- A workflow is without defects when it is well laid out and clean. -/
theorem defects_eq_nil_iff : s.defects = [] ↔ s.workflow.WellLaid ∧ s.Clean := by
  constructor
  · intro empty
    exact ⟨wellLaid_of_defects empty, clean_of_defects empty⟩
  · rintro ⟨laid, clean⟩
    exact clean.defects_eq_nil laid.structureFaults_eq_nil laid.exists_nodeOrder

end Scope

end WorkflowBundle
