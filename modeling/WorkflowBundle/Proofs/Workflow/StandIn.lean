import WorkflowBundle.Proofs.InterfaceTable
import WorkflowBundle.Proofs.Workflow.Locality
import WorkflowBundle.Proofs.Workflow.Sources

/-! Launch plans in the place of their workflows. A plan gives what its workflow gives and asks
for no more, so a call of the workflow can be turned into one of the plan wherever it stands, if
the bindings of what the plan fixes go. With them links go, and no others come. -/
namespace WorkflowBundle

/-- A place in a node: the node itself, or a place in one of its arms. -/
inductive ArmPlace where
  | here
  | whenTrue (head : NodeHead) (condition : Condition) (place : ArmPlace) (other : Node)
  | whenFalse (head : NodeHead) (condition : Condition) (other : Node) (place : ArmPlace)

def ArmPlace.fill : ArmPlace → Node → Node
  | here, node => node
  | whenTrue head condition place other, node => .branch head condition (place.fill node) other
  | whenFalse head condition other place, node => .branch head condition other (place.fill node)

/-- A place among nodes, at whatever depth. -/
structure Place where
  before : List Node
  arm : ArmPlace
  after : List Node

def Place.fill (place : Place) (node : Node) : List Node :=
  place.before ++ place.arm.fill node :: place.after

theorem ArmPlace.exists_fill {node inner : Node} (inside : inner ∈ node.flatten) :
    ∃ place : ArmPlace, node = place.fill inner := by
  induction node with
  | branch head condition a b iha ihb =>
    simp only [Node.flatten, List.mem_cons, List.mem_append] at inside
    rcases inside with rfl | first | second
    · exact ⟨.here, rfl⟩
    · obtain ⟨place, rfl⟩ := iha first
      exact ⟨.whenTrue head condition place b, rfl⟩
    · obtain ⟨place, rfl⟩ := ihb second
      exact ⟨.whenFalse head condition a place, rfl⟩
  | call | start | finish =>
    rw [List.mem_singleton.mp inside]
    exact ⟨.here, rfl⟩

/-- Every node of a workflow stands at some place among its nodes. -/
theorem Place.exists_fill {w : Workflow} {node : Node} (member : node ∈ w.allNodes) :
    ∃ place : Place, w.nodes = place.fill node := by
  obtain ⟨top, listed, inside⟩ := List.mem_flatMap.mp member
  obtain ⟨before, after, split⟩ := List.append_of_mem listed
  obtain ⟨arm, rfl⟩ := ArmPlace.exists_fill inside
  exact ⟨⟨before, arm, after⟩, split⟩

/-- The node without the bindings of what the plan fixes. -/
def NodeHead.unfixed (head : NodeHead) (plan : LaunchPlan) : NodeHead :=
  { head with inputs := head.inputs.filter fun b => !plan.fixedInputs.contains b.parameter }

namespace LaunchPlan

variable {plan : LaunchPlan} {i : Interface} {name : String}

/-- What a plan does not fix keeps its type. -/
theorem get?_inputTypes_exposed (free : plan.fixedInputs.contains name = false) :
    (plan.exposed i).inputTypes.get? name = i.inputTypes.get? name := by
  rw [Interface.inputTypes, Interface.inputTypes, SortedMap.get?_map, SortedMap.get?_map, exposed,
    SortedMap.get?_filterMap]
  cases i.inputs.get? name with
  | none => rfl
  | some p =>
    simp only [Option.bind_some, exposedInput, free, Bool.false_eq_true, if_false]
    cases plan.defaultInputs.get? name <;> rfl

/-- A plan asks for nothing that its workflow does not ask for. -/
theorem of_mem_requiredInputs_exposed (needed : name ∈ (plan.exposed i).requiredInputs) :
    plan.fixedInputs.contains name = false ∧ name ∈ i.requiredInputs := by
  obtain ⟨left, found, asked⟩ := Interface.mem_requiredInputs.mp needed
  rw [exposed, SortedMap.get?_filterMap, Option.bind_eq_some_iff] at found
  obtain ⟨p, declared, kept⟩ := found
  unfold exposedInput at kept
  split at kept
  · contradiction
  next free =>
    refine ⟨by simpa using free, Interface.mem_requiredInputs.mpr ⟨p, declared, ?_⟩⟩
    split at kept
    · obtain rfl := Option.some.inj kept
      simp [Parameter.mustBeBound, Parameter.withDefault] at asked
    · obtain rfl := Option.some.inj kept
      exact asked

end LaunchPlan

namespace Scope

/-- The same scope around other nodes. -/
def withNodes (s : Scope) (nodes : List Node) : Scope :=
  { s with workflow := { s.workflow with nodes } }

/-- The reference is to a plan over a workflow with the interface, and what is known of the plan
is what it leaves of that interface. -/
structure PlanOver (s : Scope) (reference : EntityId) (plan : LaunchPlan) (i : Interface) : Prop where
  planned : s.index.launchPlan? reference = some plan
  workflow : s.interfaces.get? plan.workflow = some i
  narrowed : ∃ left, plan.narrow i = .ok left ∧ s.interfaces.get? reference = some left

namespace PlanOver

variable {s : Scope} {reference : EntityId} {plan : LaunchPlan} {i : Interface}
variable (resolved : s.PlanOver reference plan i)
include resolved

theorem get?_interfaces : s.interfaces.get? reference = some (plan.exposed i) := by
  obtain ⟨left, narrowed, found⟩ := resolved.narrowed
  rw [found, LaunchPlan.eq_exposed_of_narrow narrowed]

theorem fixedInputs_eq :
    s.fixedInputs .launchPlan reference = some (reference, plan.fixedInputs) := by
  rw [fixedInputs, if_pos rfl, resolved.planned]
  rfl

/-- What binds the inputs of a workflow binds those of a plan over it, without what is fixed. -/
theorem callFaults_unfixed {head : NodeHead}
    (faultless : s.bindingFaults i.inputTypes none head.inputs [] = [])
    (complete : missing i.requiredInputs head.inputs = []) :
    s.callFaults (head.unfixed plan) (plan.exposed i) (s.fixedInputs .launchPlan reference) = [] := by
  obtain ⟨-, distinct, faultless⟩ := of_bindingFaults faultless
  rw [callFaults, List.append_eq_nil_iff, bindingFaults_eq_nil_iff]
  refine ⟨⟨fun _ _ => List.not_mem_nil, ?_, fun b kept => ?_⟩, ?_⟩
  · exact (List.filter_sublist.map Binding.parameter).nodup distinct
  · obtain ⟨bound, free⟩ := List.mem_filter.mp kept
    have free : plan.fixedInputs.contains b.parameter = false := by simpa using free
    obtain ⟨type, declared, valued⟩ := declared_of_bindingFault? (faultless b bound)
    refine bindingFault?_eq_none_iff.mpr ⟨fun other values fixed => ?_, type, ?_, valued⟩
    · rw [resolved.fixedInputs_eq] at fixed
      obtain ⟨-, rfl⟩ := Prod.mk.inj (Option.some.inj fixed)
      exact free
    · rw [LaunchPlan.get?_inputTypes_exposed free, declared]
  · simp only [missing, List.map_eq_nil_iff, List.filter_eq_nil_iff]
    intro name needed
    obtain ⟨free, asked⟩ := LaunchPlan.of_mem_requiredInputs_exposed needed
    obtain ⟨b, bound, rfl⟩ := exists_of_missing complete name asked
    have kept : b ∈ (head.unfixed plan).inputs :=
      List.mem_filter.mpr ⟨bound, by simp [free]⟩
    simpa using ⟨b, kept, rfl⟩

end PlanOver

/-- The second node is the first one with calls of workflows, at whatever depth, turned into calls
of plans. -/
inductive StandsIn (s : Scope) : Node → Node → Prop where
  | same (node : Node) : StandsIn s node node
  | plan {head : NodeHead} {reference : EntityId} {plan : LaunchPlan} {i : Interface} :
      s.PlanOver reference plan i → StandsIn s (.call head .workflow plan.workflow)
        (.call (head.unfixed plan) .launchPlan reference)
  | branch {head : NodeHead} {condition : Condition} {a a' b b' : Node} :
      StandsIn s a a' → StandsIn s b b' →
        StandsIn s (.branch head condition a b) (.branch head condition a' b')

variable {s : Scope} {node node' : Node} {nodes : List Node}

theorem exposes_withNodes (node : Node) : (s.withNodes nodes).exposes node = s.exposes node := by
  induction node with
  | branch head condition a b iha ihb =>
    simp only [exposes, iha, ihb]
    rfl
  | call | start | finish => rfl

theorem armFaults_withNodes (node : Node) :
    (s.withNodes nodes).armFaults node = s.armFaults node := by
  induction node with
  | branch head condition a b iha ihb =>
    simp only [armFaults, iha, ihb, exposes_withNodes]
    rfl
  | call | start | finish => rfl

theorem nodeFaults_withNodes (same : s.SameOrigins (s.withNodes nodes)) (inArm : Bool) (node : Node) :
    (s.withNodes nodes).nodeFaults inArm node = s.nodeFaults inArm node := by
  induction node generalizing inArm with
  | call head kind reference =>
    simp only [nodeFaults, callFaults, same.bindingFaults]
    rfl
  | branch head condition a b iha ihb =>
    simp only [nodeFaults, same.branchFaults, iha, ihb]
  | start | finish => rfl

end Scope

/-- What the checks of the structure look at. -/
def Node.face (node : Node) : String × Bool × Bool := (node.id, node.isStart, node.isFinish)

namespace Scope.StandsIn

variable {s : Scope} {node node' : Node} (stands : s.StandsIn node node')
include stands

theorem face_eq : node'.face = node.face := by
  cases stands <;> rfl

theorem map_face_flatten : node'.flatten.map Node.face = node.flatten.map Node.face := by
  induction stands with
  | same node => rfl
  | plan resolved => rfl
  | branch first second iha ihb =>
    simp only [Node.flatten, List.map_cons, List.map_append, iha, ihb]
    rfl

theorem id_eq : node'.id = node.id := congrArg Prod.fst stands.face_eq

theorem isStart_eq : node'.isStart = node.isStart := congrArg (·.2.1) stands.face_eq

theorem isFinish_eq : node'.isFinish = node.isFinish := congrArg (·.2.2) stands.face_eq

theorem isStep_eq : node'.isStep = node.isStep := by
  rw [Node.isStep, Node.isStep, stands.isStart_eq, stands.isFinish_eq]

/-- Only steps are replaced. -/
theorem eq_of_not_isStep (special : node.isStep = false) : node' = node := by
  cases stands with
  | same node => rfl
  | plan | branch => contradiction

theorem dependencies_subset (label : String → String) :
    node'.dependencies label ⊆ node.dependencies label := by
  induction stands generalizing label with
  | same node => exact List.Subset.refl _
  | plan resolved =>
    refine List.append_subset.mpr ⟨?_, List.subset_append_right _ _⟩
    refine List.Subset.trans ?_ (List.subset_append_left _ _)
    exact (List.filter_sublist.filterMap _).subset
  | branch first second iha ihb =>
    simp only [Node.dependencies, first.id_eq, second.id_eq]
    refine List.append_subset.mpr ⟨List.append_subset.mpr ⟨?_, ?_⟩, ?_⟩
    · exact fun d own => List.mem_append_left _ (List.mem_append_left _ own)
    · exact fun d arm => List.mem_append_left _ (List.mem_append_right _ (iha _ arm))
    · exact fun d arm => List.mem_append_right _ (ihb _ arm)

theorem exposes_eq : s.exposes node' = s.exposes node := by
  induction stands with
  | same node => rfl
  | plan resolved => simp only [exposes, resolved.get?_interfaces, resolved.workflow]; rfl
  | branch first second iha ihb =>
    simp only [exposes, iha, ihb, armMismatch?, first.id_eq, second.id_eq]

theorem armFaults_eq : s.armFaults node' = s.armFaults node := by
  induction stands with
  | same node => rfl
  | plan resolved => rfl
  | branch first second iha ihb =>
    simp only [armFaults, iha, ihb, first.exposes_eq, second.exposes_eq, armMismatch?,
      first.id_eq, second.id_eq]

end Scope.StandsIn

/-- Two lists of nodes, the second with plans in the place of workflows of the first. -/
abbrev Scope.StandIn (s : Scope) : List Node → List Node → Prop := List.Forall₂ s.StandsIn

namespace Scope.StandIn

variable {s : Scope} {nodes nodes' : List Node} (stand : s.StandIn nodes nodes')
include stand

/-- Nodes that are no steps stay as they are. -/
theorem filter_eq {special : Node → Bool} (others : ∀ node, node.isStep → special node = false) :
    nodes'.filter special = nodes.filter special := by
  induction stand with
  | nil => rfl
  | @cons node node' _ _ stands _ ih =>
    by_cases step : node.isStep
    · have step' : node'.isStep := stands.isStep_eq.trans step
      rw [List.filter_cons_of_neg (by simp [others node' step']),
        List.filter_cons_of_neg (by simp [others node step]), ih]
    · rw [stands.eq_of_not_isStep (by simpa using step), List.filter_cons, List.filter_cons, ih]

theorem filter_isStart : nodes'.filter Node.isStart = nodes.filter Node.isStart :=
  stand.filter_eq fun node step => by simp_all [Node.isStep]

theorem filter_isFinish : nodes'.filter Node.isFinish = nodes.filter Node.isFinish :=
  stand.filter_eq fun node step => by simp_all [Node.isStep]

theorem map_id_filter_isStep :
    (nodes'.filter Node.isStep).map Node.id = (nodes.filter Node.isStep).map Node.id := by
  induction stand with
  | nil => rfl
  | @cons node node' _ _ stands _ ih =>
    rw [List.filter_cons, List.filter_cons, stands.isStep_eq]
    split
    · rw [List.map_cons, List.map_cons, ih, stands.id_eq]
    · exact ih

theorem map_face_flatMap :
    (nodes'.flatMap Node.flatten).map Node.face = (nodes.flatMap Node.flatten).map Node.face := by
  induction stand with
  | nil => rfl
  | cons stands _ ih =>
    rw [List.flatMap_cons, List.flatMap_cons, List.map_append, List.map_append,
      stands.map_face_flatten, ih]

theorem exists_of_mem {node' : Node} (member : node' ∈ nodes') :
    ∃ node ∈ nodes, s.StandsIn node node' := by
  induction stand with
  | nil => contradiction
  | @cons node first _ _ stands _ ih =>
    rcases List.mem_cons.mp member with rfl | member
    · exact ⟨node, List.mem_cons_self, stands⟩
    · obtain ⟨other, listed, stands⟩ := ih member
      exact ⟨other, List.mem_cons_of_mem _ listed, stands⟩

theorem bind_find? (id : String) : (nodes'.find? (·.id == id)).bind s.exposes =
    (nodes.find? (·.id == id)).bind s.exposes := by
  induction stand with
  | nil => rfl
  | cons stands _ ih =>
    rw [List.find?_cons, List.find?_cons, stands.id_eq]
    split
    · exact stands.exposes_eq
    · exact ih

end Scope.StandIn

end WorkflowBundle
