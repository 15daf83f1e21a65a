import WorkflowBundle.Proofs.Entity

/-! Which entries are taken for records. An entry is taken exactly if its text says what some
record is and the identifiers in that record are well formed and name what they are used for. The
identifiers are checked by going through the nodes of a workflow and are collected by going
through what they refer to; both reach the nodes at every depth of branch arms. -/
namespace WorkflowBundle

namespace Node

/-- The inner node is the outer one, or stands in an arm of it at whatever depth. -/
inductive Holds : Node → Node → Prop where
  | self {node : Node} : Holds node node
  | whenTrue {head : NodeHead} {condition : Condition} {a b inner : Node} :
      Holds a inner → Holds (branch head condition a b) inner
  | whenFalse {head : NodeHead} {condition : Condition} {a b inner : Node} :
      Holds b inner → Holds (branch head condition a b) inner

theorem mem_flatten_iff_holds {node inner : Node} : inner ∈ node.flatten ↔ node.Holds inner := by
  constructor
  · intro inside
    induction node with
    | branch head condition a b iha ihb =>
      simp only [flatten, List.mem_cons, List.mem_append] at inside
      obtain rfl | first | second := inside
      · exact .self
      · exact .whenTrue (iha first)
      · exact .whenFalse (ihb second)
    | call | start | finish =>
      obtain rfl := List.mem_singleton.mp inside
      exact .self
  · intro holds
    induction holds with
    | self => exact self_mem_flatten _
    | whenTrue _ ih => exact flatten_whenTrue_subset ih
    | whenFalse _ ih => exact flatten_whenFalse_subset ih

theorem reference?_eq_some_iff {node : Node} {id : EntityId} :
    node.reference? = some id ↔ ∃ head kind, node = .call head kind id := by
  cases node <;> simp [reference?, eq_comm]

theorem referenceFault?_eq_none_iff {node : Node} : node.referenceFault? = none ↔
    ∀ head kind reference, node = .call head kind reference →
      reference.fault = none ∧ reference.resourceType = kind := by
  cases node <;> simp [referenceFault?, EntityId.referenceFault?_eq_none_iff]

end Node

namespace Workflow

/-- The node stands in the workflow, on top or in an arm. -/
def Holds (w : Workflow) (inner : Node) : Prop := ∃ node ∈ w.nodes, node.Holds inner

theorem mem_allNodes_iff_holds {w : Workflow} {inner : Node} : inner ∈ w.allNodes ↔ w.Holds inner := by
  simp [allNodes, Holds, Node.mem_flatten_iff_holds]

end Workflow

namespace Entity

/-- The identifiers in a record are well formed, and of the resource types that go with their
use: its own is that of the record, that of a call is what the node calls, and that of a launch
plan's target is a workflow. A workflow refers to what its calls refer to and to nothing else. -/
structure WellIdentified (e : Entity) : Prop where
  own : e.id.fault = none
  kind : e.id.resourceType = e.resourceType
  references : ∀ id ∈ e.references, id.fault = none
  calls : ∀ w, e = .workflow w → ∀ head kind reference, w.Holds (.call head kind reference) →
    reference.resourceType = kind
  called : ∀ w, e = .workflow w → ∀ id ∈ e.references, ∃ head kind, w.Holds (.call head kind id)
  target : ∀ p, e = .launchPlan p → p.workflow.resourceType = .workflow

theorem mem_references_workflow_iff {w : Workflow} {id : EntityId} :
    id ∈ (workflow w).references ↔ ∃ head kind, w.Holds (.call head kind id) := by
  rw [mem_references_iff]
  constructor
  · rintro (⟨member, refers⟩ | _)
    obtain ⟨head, kind, rfl⟩ := Node.reference?_eq_some_iff.mp refers
    exact ⟨head, kind, Workflow.mem_allNodes_iff_holds.mp member⟩
  · rintro ⟨head, kind, holds⟩
    exact .node (Workflow.mem_allNodes_iff_holds.mpr holds) rfl

theorem mem_references_launchPlan_iff {p : LaunchPlan} {id : EntityId} :
    id ∈ (launchPlan p).references ↔ id = p.workflow := by
  rw [mem_references_iff]
  constructor
  · rintro (_ | _)
    rfl
  · rintro rfl
    exact .target

theorem referenceFault?_workflow_eq_none_iff {w : Workflow} :
    (workflow w).referenceFault? = none ↔
      ∀ head kind reference, w.Holds (.call head kind reference) →
        reference.fault = none ∧ reference.resourceType = kind := by
  simp only [referenceFault?, List.findSome?_eq_none_iff, Node.referenceFault?_eq_none_iff,
    Workflow.mem_allNodes_iff_holds]
  constructor
  · exact fun fine head kind reference holds => fine _ holds head kind reference rfl
  · rintro fine node holds head kind reference rfl
    exact fine head kind reference holds

/-- What the check asks for, one kind of record after the other. -/
theorem wellIdentified_iff {e : Entity} : e.WellIdentified ↔
    e.id.fault = none ∧ e.id.resourceType = e.resourceType ∧ e.referenceFault? = none := by
  constructor
  · intro fine
    refine ⟨fine.own, fine.kind, ?_⟩
    cases e with
    | task t => rfl
    | workflow w =>
      refine referenceFault?_workflow_eq_none_iff.mpr fun head kind reference holds => ?_
      exact ⟨fine.references _ (mem_references_workflow_iff.mpr ⟨head, kind, holds⟩),
        fine.calls w rfl head kind reference holds⟩
    | launchPlan p =>
      exact EntityId.referenceFault?_eq_none_iff.mpr
        ⟨fine.references _ (mem_references_launchPlan_iff.mpr rfl), fine.target p rfl⟩
  · rintro ⟨own, kind, fine⟩
    cases e with
    | task t =>
      exact ⟨own, kind, fun id member => (nomatch mem_references_iff.mp member), nofun, nofun, nofun⟩
    | workflow w =>
      rw [referenceFault?_workflow_eq_none_iff] at fine
      refine ⟨own, kind, fun id member => ?_, ?_, ?_, nofun⟩
      · obtain ⟨head, kind, holds⟩ := mem_references_workflow_iff.mp member
        exact (fine head kind id holds).1
      · rintro _ ⟨⟩ head kind reference holds
        exact (fine head kind reference holds).2
      · rintro _ ⟨⟩ id member
        exact mem_references_workflow_iff.mp member
    | launchPlan p =>
      obtain ⟨formed, workflow⟩ := EntityId.referenceFault?_eq_none_iff.mp fine
      refine ⟨own, kind, fun id member => ?_, nofun, nofun, ?_⟩
      · rwa [mem_references_launchPlan_iff.mp member]
      · rintro _ ⟨⟩
        exact workflow

theorem identifierFault?_eq_none_iff {e : Entity} :
    e.identifierFault? = none ↔ e.WellIdentified := by
  rw [wellIdentified_iff]
  unfold identifierFault?
  split
  next fault found => simp [found]
  next formed => split <;> simp [*]

end Entity

namespace Entry

/-- An entry is taken exactly if its text says what a record is and that record is well
identified. It is taken for that record and no other; all other entries are reported by name. -/
theorem decode_spec (e : Entry) :
    (∀ r, e.decode = .ok r ↔
      r.entry = e.name ∧ Entity.Spells e.data r.entity ∧ r.entity.WellIdentified) ∧
    ((¬∃ entity, Entity.Spells e.data entity ∧ entity.WellIdentified) ↔
      ∃ reason, e.decode = .error (.undecodable e.name reason)) := by
  simp only [← Entity.identifierFault?_eq_none_iff, ← Entity.decode_eq_ok_iff]
  refine ⟨fun r => ?_, ?_⟩
  · rw [← record?_eq_some_iff, record?]
    cases e.decode <;> simp [Except.toOption]
  · unfold decode
    cases Entity.decode e.data <;> simp

end Entry

end WorkflowBundle
