import WorkflowBundle.Proofs.Entity
import WorkflowBundle.Proofs.Repetition
import WorkflowBundle.Workflow.Check

/-! The checks of a workflow look at nothing but the workflow and the entities that it refers
to, and whatever they find is about the workflow. -/
namespace WorkflowBundle.Scope

variable {s s' : Scope} {node : Node}

/-- Bindings have the same types in both scopes, and are checked by the same rule. -/
structure SameOrigins (s s' : Scope) : Prop where
  rule : s'.rule = s.rule
  types : ∀ origin, s'.originType origin = s.originType origin

namespace SameOrigins

variable (same : s.SameOrigins s')
include same

theorem originFault? (b : Binding) (expected : DataType) :
    s'.originFault? b expected = s.originFault? b expected := by
  simp only [Scope.originFault?, same.types, same.rule]

theorem bindingFault? (types : SortedMap String DataType)
    (fixed : Option (EntityId × SortedMap String Literal)) (b : Binding) :
    s'.bindingFault? types fixed b = s.bindingFault? types fixed b := by
  simp only [Scope.bindingFault?, bindingFault?.declared, same.originFault?]

theorem bindingFaults (types : SortedMap String DataType)
    (fixed : Option (EntityId × SortedMap String Literal)) (bindings : List Binding)
    (bound : List String) :
    s'.bindingFaults types fixed bindings bound = s.bindingFaults types fixed bindings bound := by
  induction bindings generalizing bound with
  | nil => rfl
  | cons b bindings ih => simp only [Scope.bindingFaults, same.bindingFault?, ih]

theorem bindVariables (bindings : List Binding) (known : List (String × Option DataType)) :
    s'.bindVariables bindings known = s.bindVariables bindings known := by
  induction bindings generalizing known with
  | nil => rfl
  | cons b bindings ih => simp only [Scope.bindVariables, same.types, ih]

theorem conditionFaults (known : List (String × Option DataType)) (condition : Condition) :
    s'.conditionFaults known condition = s.conditionFaults known condition := by
  induction condition with
  | comparison left op right => simp only [Scope.conditionFaults, comparisonFaults, same.rule]
  | and a b iha ihb | or a b iha ihb => simp only [Scope.conditionFaults, iha, ihb]

theorem branchFaults (head : NodeHead) (condition : Condition) :
    s'.branchFaults head condition = s.branchFaults head condition := by
  simp only [Scope.branchFaults, same.bindVariables, same.conditionFaults]

end SameOrigins

/-- The same workflow, checked by the same rule, where the same is known about the entities that
it refers to. -/
structure Agrees (s s' : Scope) : Prop where
  workflow : s'.workflow = s.workflow
  rule : s'.rule = s.rule
  interfaces : ∀ id ∈ s.workflow.references, s'.interfaces.get? id = s.interfaces.get? id
  plans : ∀ id ∈ s.workflow.references, s'.index.launchPlan? id = s.index.launchPlan? id

theorem references_subset (member : node ∈ s.workflow.nodes) :
    node.references ⊆ s.workflow.references :=
  fun _ refers => List.mem_flatMap.mpr ⟨node, member, refers⟩

namespace Agrees

variable (agrees : s.Agrees s')
include agrees

theorem armMismatch? (a : Node) (produced : Outputs) (b : Node) (other : Outputs) :
    s'.armMismatch? a produced b other = s.armMismatch? a produced b other := by
  simp only [Scope.armMismatch?, interchangeable, agrees.rule]
  rfl

theorem exposes (inside : node.references ⊆ s.workflow.references) :
    s'.exposes node = s.exposes node := by
  induction node with
  | call head kind reference =>
    simp only [Scope.exposes, agrees.interfaces reference (inside (by simp [Node.references]))]
  | branch head condition a b iha ihb =>
    rw [Node.references, List.append_subset] at inside
    simp only [Scope.exposes, iha inside.1, ihb inside.2, agrees.armMismatch?]
  | start head => simp only [Scope.exposes, agrees.workflow]
  | finish head => rfl

theorem armFaults (inside : node.references ⊆ s.workflow.references) :
    s'.armFaults node = s.armFaults node := by
  induction node with
  | branch head condition a b iha ihb =>
    rw [Node.references, List.append_subset] at inside
    simp only [Scope.armFaults, iha inside.1, ihb inside.2, agrees.exposes inside.1,
      agrees.exposes inside.2, agrees.armMismatch?]
  | call | start | finish => rfl

theorem originType (origin : Origin) : s'.originType origin = s.originType origin := by
  cases origin with
  | workflowInput name => simp only [Scope.originType, inputType, agrees.workflow]
  | literal value => rfl
  | nodeOutput id output =>
    have exposed : (s.workflow.node? id).bind s'.exposes = (s.workflow.node? id).bind s.exposes := by
      cases found : s.workflow.node? id with
      | none => rfl
      | some node =>
        exact agrees.exposes (references_subset (List.mem_of_find?_eq_some found))
    simp only [Scope.originType, inputType, agrees.workflow, exposed]

theorem sameOrigins : s.SameOrigins s' := ⟨agrees.rule, agrees.originType⟩

theorem nodeFaults (inArm : Bool) (inside : node.references ⊆ s.workflow.references) :
    s'.nodeFaults inArm node = s.nodeFaults inArm node := by
  induction node generalizing inArm with
  | call head kind reference =>
    have refers : reference ∈ s.workflow.references := inside (by simp [Node.references])
    simp only [Scope.nodeFaults, callFaults, fixedInputs, agrees.interfaces reference refers,
      agrees.plans reference refers, agrees.sameOrigins.bindingFaults]
  | branch head condition a b iha ihb =>
    rw [Node.references, List.append_subset] at inside
    simp only [Scope.nodeFaults, agrees.sameOrigins.branchFaults, iha true inside.1, ihb true inside.2]
  | start | finish => rfl

theorem faults : s'.faults = s.faults := by
  have arms : s.workflow.firstNodes.flatMap s'.armFaults =
      s.workflow.firstNodes.flatMap s.armFaults :=
    List.flatMap_congr fun node member =>
      agrees.armFaults (references_subset (eraseDupsBy_subset _ _ member))
  have nodes : s.workflow.nodes.flatMap (s'.nodeFaults false) =
      s.workflow.nodes.flatMap (s.nodeFaults false) :=
    List.flatMap_congr fun node member =>
      agrees.nodeFaults false (references_subset member)
  simp only [Scope.faults, outputFaults, agrees.workflow, agrees.sameOrigins.bindingFaults, arms, nodes]

theorem defects : s'.defects = s.defects := by
  simp only [Scope.defects, agrees.workflow, agrees.faults]

theorem check : s'.check = s.check := by
  simp only [Scope.check, agrees.workflow, agrees.defects]

end Agrees

theorem entity?_of_mem_defects {d : Defect} (h : d ∈ s.defects) :
    d.entity? = some s.workflow.id := by
  simp only [Scope.defects, List.mem_append, List.mem_map] at h
  rcases h with (⟨f, -, rfl⟩ | cycle) | ⟨f, -, rfl⟩
  · rfl
  · split at cycle
    · contradiction
    · obtain ⟨nodes, -, rfl⟩ := List.mem_map.mp cycle
      rfl
  · rfl

end WorkflowBundle.Scope
