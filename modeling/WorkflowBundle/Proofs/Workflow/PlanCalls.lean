import Mathlib
import WorkflowBundle.Proofs.Workflow.Links
import WorkflowBundle.Proofs.Workflow.StandIn

/-! Calls of plans in accepted workflows. When plans come into the place of workflows the bindings
of what they fix go, and with them dependencies; no others come, and the types of all other
bindings stay as they were. So nothing is found that was not found before. -/
namespace WorkflowBundle

namespace Workflow

theorem idFaults_congr {nodes nodes' : List Node} (same : nodes'.map Node.face = nodes.map Node.face)
    (seen reported : List String) : idFaults nodes' seen reported = idFaults nodes seen reported := by
  induction nodes generalizing nodes' seen reported with
  | nil => rw [List.map_eq_nil_iff.mp same]
  | cons node nodes ih =>
    obtain ⟨node', nodes', rfl, face, rest⟩ := List.map_eq_cons_iff.mp same
    simp only [Node.face, Prod.mk.injEq] at face
    obtain ⟨id, start, finish⟩ := face
    simp only [idFaults, id, start, finish, ih rest]

theorem link_congr {w : Workflow} {v : Vertices} {c c' : Consumer} {d : Dependency}
    (id : c'.id = c.id) (vertex : c'.vertex = c.vertex) : w.link v c' d = w.link v c d := by
  simp only [link, id, vertex]

end Workflow

namespace Scope

namespace StandIn

variable {s : Scope} {nodes : List Node} (stand : s.StandIn s.workflow.nodes nodes)
include stand

theorem startNode?_eq : (s.withNodes nodes).workflow.startNode? = s.workflow.startNode? := by
  rw [Workflow.startNode?, Workflow.startNode?, ← List.head?_filter, ← List.head?_filter]
  exact congrArg List.head? stand.filter_isStart

theorem finishNode?_eq : (s.withNodes nodes).workflow.finishNode? = s.workflow.finishNode? := by
  rw [Workflow.finishNode?, Workflow.finishNode?, ← List.head?_filter, ← List.head?_filter]
  exact congrArg List.head? stand.filter_isFinish

theorem vertices_eq : (s.withNodes nodes).workflow.vertices = s.workflow.vertices :=
  congrArg (fun ids => Vertices.mk ids.eraseDups) stand.map_id_filter_isStep

theorem structureFaults_eq :
    (s.withNodes nodes).workflow.structureFaults = s.workflow.structureFaults := by
  have ids : Workflow.idFaults (s.withNodes nodes).workflow.allNodes [] [] =
      Workflow.idFaults s.workflow.allNodes [] [] :=
    Workflow.idFaults_congr stand.map_face_flatMap [] []
  have starts : (s.withNodes nodes).workflow.nodes.filter Node.isStart =
      s.workflow.nodes.filter Node.isStart := stand.filter_isStart
  have finishes : (s.withNodes nodes).workflow.nodes.filter Node.isFinish =
      s.workflow.nodes.filter Node.isFinish := stand.filter_isFinish
  simp only [Workflow.structureFaults, ids, starts, finishes]

theorem provider_eq (v : Vertices) (id : String) :
    (s.withNodes nodes).workflow.provider v id = s.workflow.provider v id := by
  simp only [Workflow.provider, Workflow.namesStart, Workflow.namesFinish, stand.startNode?_eq,
    stand.finishNode?_eq]
  rfl

theorem link_eq (v : Vertices) (c : Workflow.Consumer) (d : Dependency) :
    (s.withNodes nodes).workflow.link v c d = s.workflow.link v c d := by
  simp only [Workflow.link, stand.provider_eq]

theorem linkResults_subset :
    (s.withNodes nodes).workflow.linkResults ⊆ s.workflow.linkResults := by
  intro result listed
  obtain ⟨c', consumer, linked⟩ := List.mem_flatMap.mp listed
  obtain ⟨d, needed, rfl⟩ := List.mem_map.mp linked
  rw [stand.link_eq, stand.vertices_eq]
  rw [stand.vertices_eq] at consumer
  suffices found : ∃ c ∈ s.workflow.consumers s.workflow.vertices,
      c'.id = c.id ∧ c'.vertex = c.vertex ∧ d ∈ c.dependencies by
    obtain ⟨c, consumer, id, vertex, needed⟩ := found
    rw [Workflow.link_congr id vertex]
    exact List.mem_flatMap.mpr ⟨c, consumer, List.mem_map_of_mem needed⟩
  rcases List.mem_append.mp consumer with ofNode | outputs
  · obtain ⟨node', member', made⟩ := List.mem_filterMap.mp ofNode
    obtain ⟨node, member, stands⟩ := stand.exists_of_mem member'
    simp only [Workflow.consumer?, stands.id_eq, stands.isStart_eq, stands.isFinish_eq] at made
    split at made
    · contradiction
    next notStart =>
      obtain rfl := Option.some.inj made
      have found : Workflow.consumer? s.workflow.vertices node = some ⟨node.id,
          if node.isFinish then s.workflow.vertices.finish else s.workflow.vertices.ofStep node.id,
          node.dependencies fun input => input⟩ := by
        rw [Workflow.consumer?, if_neg notStart]
      exact ⟨_, List.mem_append_left _ (List.mem_filterMap.mpr ⟨node, member, found⟩), rfl, rfl,
        stands.dependencies_subset _ needed⟩
  · exact ⟨c', List.mem_append_right _ outputs, rfl, rfl, needed⟩

theorem linked_of_linked {v u : Nat} (linked : (s.withNodes nodes).workflow.Linked v u) :
    s.workflow.Linked v u := by
  obtain ⟨l, listed, same⟩ := linked
  exact ⟨l, List.filterMap_subset _ stand.linkResults_subset listed, same⟩

theorem exists_nodeOrder (ordered : ∃ order, s.workflow.nodeOrder = .ok order) :
    ∃ order, (s.withNodes nodes).workflow.nodeOrder = .ok order := by
  rw [Workflow.exists_nodeOrder_iff] at ordered ⊢
  intro v walk
  exact ordered v (Relation.TransGen.mono (fun _ _ => stand.linked_of_linked) v v walk)

theorem sameOrigins : s.SameOrigins (s.withNodes nodes) := by
  refine ⟨rfl, fun origin => ?_⟩
  cases origin with
  | workflowInput name => rfl
  | literal value => rfl
  | nodeOutput id output =>
    have exposed : ((s.withNodes nodes).workflow.node? id).bind (s.withNodes nodes).exposes =
        (s.workflow.node? id).bind s.exposes := by
      rw [funext exposes_withNodes]
      exact stand.bind_find? id
    simp only [originType, Workflow.namesStart, Workflow.namesFinish, stand.startNode?_eq,
      stand.finishNode?_eq, exposed]
    rfl

theorem outputFaults_eq : (s.withNodes nodes).outputFaults = s.outputFaults := by
  simp only [outputFaults, Workflow.outputBindings, Workflow.finishLabel, stand.finishNode?_eq,
    stand.sameOrigins.bindingFaults]
  rfl

theorem nodeFaults_eq_nil {node node' : Node} (stands : s.StandsIn node node') {inArm : Bool}
    (empty : s.nodeFaults inArm node = []) : (s.withNodes nodes).nodeFaults inArm node' = [] := by
  rw [nodeFaults_withNodes stand.sameOrigins]
  induction stands generalizing inArm with
  | same node => exact empty
  | @plan head reference plan i resolved =>
    simp only [nodeFaults, resolved.workflow, callFaults, List.map_eq_nil_iff,
      List.append_eq_nil_iff] at empty
    obtain ⟨faultless, complete⟩ := empty
    simp only [nodeFaults, resolved.get?_interfaces, List.map_eq_nil_iff]
    exact resolved.callFaults_unfixed faultless complete
  | branch first second iha ihb =>
    simp only [nodeFaults, List.append_eq_nil_iff] at empty ⊢
    exact ⟨⟨empty.1.1, iha empty.1.2⟩, ihb empty.2⟩

theorem structureFaults_eq_nil (empty : s.defects = []) :
    (s.withNodes nodes).workflow.structureFaults = [] := by
  simp only [defects, List.append_eq_nil_iff, List.map_eq_nil_iff] at empty
  exact stand.structureFaults_eq.trans empty.1.1.1

theorem clean (empty : s.defects = []) : (s.withNodes nodes).Clean where
  sound := Workflow.sound_of_structureFaults (stand.structureFaults_eq_nil empty)
  linked := by
    have ok := Workflow.linkFaults_eq_nil_iff.mp (clean_of_defects empty).linked
    exact Workflow.linkFaults_eq_nil_iff.mpr fun r listed => ok r (stand.linkResults_subset listed)
  arms node' member' := by
    obtain ⟨node, member, stands⟩ := stand.exists_of_mem member'
    rw [armFaults_withNodes, stands.armFaults_eq]
    exact (clean_of_defects empty).arms node member
  nodes node' member' := by
    obtain ⟨node, member, stands⟩ := stand.exists_of_mem member'
    exact stand.nodeFaults_eq_nil stands ((clean_of_defects empty).nodes node member)
  outputs := stand.outputFaults_eq.trans (clean_of_defects empty).outputs

theorem defects_eq_nil (empty : s.defects = []) : (s.withNodes nodes).defects = [] :=
  (stand.clean empty).defects_eq_nil (stand.structureFaults_eq_nil empty)
    (stand.exists_nodeOrder (exists_nodeOrder_of_defects empty))

end StandIn

section Place

variable {s : Scope} {reference : EntityId} {plan : LaunchPlan} {i : Interface}

theorem standsIn_fill {node node' : Node} (stands : s.StandsIn node node') (place : ArmPlace) :
    s.StandsIn (place.fill node) (place.fill node') := by
  induction place with
  | here => exact stands
  | whenTrue head condition place other ih => exact .branch ih (.same other)
  | whenFalse head condition other place ih => exact .branch (.same other) ih

theorem standIn_fill {node node' : Node} (stands : s.StandsIn node node') (place : Place) :
    s.StandIn (place.fill node) (place.fill node') := by
  have kept : ∀ nodes, s.StandIn nodes nodes := fun nodes => List.forall₂_same.mpr fun n _ => .same n
  exact List.rel_append (kept place.before) (.cons (standsIn_fill stands place.arm) (kept place.after))

/-- What is fixed is not bound: the first binding of its name is at fault. -/
theorem mem_bindingFaults_of_fixed {types : SortedMap String DataType}
    {values : SortedMap String Literal} {bindings : List Binding} {b : Binding} (member : b ∈ bindings)
    (fixed : values.contains b.parameter) {bound : List String} (new : b.parameter ∉ bound) :
    .fixedInputRebound reference b.parameter ∈
      s.bindingFaults types (some (reference, values)) bindings bound := by
  induction bindings generalizing bound with
  | nil => contradiction
  | cons first bindings ih =>
    unfold bindingFaults
    by_cases same : b.parameter = first.parameter
    · rw [if_neg (by simpa [← same] using new)]
      refine List.mem_append_left _ ?_
      simp [bindingFault?, ← same, fixed]
    · have rest : b ∈ bindings := (List.mem_cons.mp member).resolve_left fun eq => same (eq ▸ rfl)
      split
      · exact List.mem_cons_of_mem _ (ih rest new)
      · exact List.mem_append_right _ (ih rest (by simp [same, new]))

theorem PlanOver.mem_nodeFaults_of_fixed (resolved : s.PlanOver reference plan i) {head : NodeHead}
    {b : Binding} (bound : b ∈ head.inputs) (fixed : plan.fixedInputs.contains b.parameter)
    (inArm : Bool) : (head.id, .fixedInputRebound reference b.parameter) ∈
      s.nodeFaults inArm (.call head .launchPlan reference) := by
  have rebound : .fixedInputRebound reference b.parameter ∈ s.bindingFaults
      (plan.exposed i).inputTypes (some (reference, plan.fixedInputs)) head.inputs [] :=
    mem_bindingFaults_of_fixed bound fixed List.not_mem_nil
  simp only [nodeFaults, resolved.get?_interfaces, callFaults, resolved.fixedInputs_eq]
  exact List.mem_map_of_mem (List.mem_append_left _ rebound)

theorem mem_nodeFaults_fill {node : Node} {fault : String × NodeFault}
    (found : ∀ inArm, fault ∈ s.nodeFaults inArm node) (place : ArmPlace) (inArm : Bool) :
    fault ∈ s.nodeFaults inArm (place.fill node) := by
  induction place generalizing inArm with
  | here => exact found inArm
  | whenTrue head condition place other ih =>
    exact List.mem_append_left _ (List.mem_append_right _ (ih true))
  | whenFalse head condition other place ih => exact List.mem_append_right _ (ih true)

theorem mem_defects_of_nodeFaults {node : Node} {fault : String × NodeFault}
    (member : node ∈ s.workflow.nodes) (found : fault ∈ s.nodeFaults false node) :
    .node s.workflow.id fault.1 fault.2 ∈ s.defects := by
  have listed : fault ∈ s.faults :=
    List.mem_append_left _ (List.mem_append_right _ (List.mem_flatMap.mpr ⟨node, member, found⟩))
  exact List.mem_append_right _ (List.mem_map_of_mem listed)

theorem check_eq_error_of_mem {d : Defect} (found : d ∈ s.defects) : s.check = .error s.defects := by
  unfold check
  split
  next none => simp [none] at found
  next => rfl

end Place

end Scope

namespace Sample

def pair : Interface :=
  ⟨.ofList [("k", { dataType := .simple .integer }), ("x", { dataType := .simple .integer })],
    .ofList [("v", .simple .integer)]⟩

/-- A plan that fixes one input of `pair` and gives the other one a default. -/
def pinning : LaunchPlan where
  id := (callee "p").retype .launchPlan
  workflow := callee "k"
  fixedInputs := .ofList [("k", .integer 1)]
  defaultInputs := .ofList [("x", .integer 2)]

/-- The first arm of a branch that comes after another step. -/
def firstArm : Place :=
  ⟨[.call ⟨"m", [⟨"k", .literal (.integer 3)⟩, ⟨"x", .workflowInput "x"⟩], []⟩ .workflow (callee "k")],
    .whenTrue ⟨"b", [], []⟩ always .here (.call ⟨"o", [], ["m"]⟩ .launchPlan pinning.id), []⟩

def inArm : NodeHead := ⟨"n", [⟨"k", .nodeOutput "m" "v"⟩, ⟨"x", .workflowInput "x"⟩], []⟩

/-- A call of `pair` in an arm, which takes from a step what the plan fixes. -/
def armed : Scope where
  workflow := {
    id := callee "w"
    interface := ⟨.ofList [("x", { dataType := .simple .integer })], .ofList [("y", .simple .integer)]⟩
    nodes := firstArm.fill (.call inArm .workflow pinning.workflow)
    outputs := [⟨"y", .nodeOutput "b" "v"⟩] }
  index := ⟨.ofList [(pinning.id, ⟨"p", .launchPlan pinning⟩)]⟩
  interfaces := .ofList [(pinning.workflow, pair), (pinning.id, pinning.exposed pair)]
  rule := .allMembers

theorem armed_planOver : armed.PlanOver pinning.id pinning pair where
  planned := by cbv
  workflow := by cbv
  narrowed := ⟨pinning.exposed pair, by cbv, by cbv⟩

end Sample

/-- In an accepted workflow a call of a workflow at any place can be turned into a call of a plan
over it, without the bindings of what the plan fixes. If one of those is kept it is reported. -/
theorem Scope.check_fill_plan {s : Scope} {place : Place} {head : NodeHead} {reference : EntityId}
    {plan : LaunchPlan} {i : Interface} {checked : CheckedWorkflow}
    (resolved : s.PlanOver reference plan i)
    (placed : s.workflow.nodes = place.fill (.call head .workflow plan.workflow))
    (accepted : s.check = .ok checked) :
    (∃ checked', (s.withNodes (place.fill
      (.call (head.unfixed plan) .launchPlan reference))).check = .ok checked') ∧
    ∀ inputs, ∀ b ∈ inputs, plan.fixedInputs.contains b.parameter → ∃ defects,
      (s.withNodes (place.fill (.call { head with inputs } .launchPlan reference))).check =
        .error defects ∧
      .node s.workflow.id head.id (.fixedInputRebound reference b.parameter) ∈ defects := by
  constructor
  · have stand : s.StandIn s.workflow.nodes
        (place.fill (.call (head.unfixed plan) .launchPlan reference)) := by
      rw [placed]
      exact standIn_fill (.plan resolved) place
    have empty := stand.defects_eq_nil (check_eq_ok_iff.mp accepted).1
    exact ⟨_, check_eq_ok_iff.mpr ⟨empty, rfl⟩⟩
  · intro inputs b bound fixed
    have resolved' : (s.withNodes (place.fill
        (.call { head with inputs } .launchPlan reference))).PlanOver reference plan i :=
      ⟨resolved.planned, resolved.workflow, resolved.narrowed⟩
    have rebound := mem_nodeFaults_fill
      (@PlanOver.mem_nodeFaults_of_fixed _ _ _ _ resolved' { head with inputs } b bound fixed)
    have listed := mem_defects_of_nodeFaults (List.mem_append_right _ List.mem_cons_self)
      (rebound place.arm false)
    exact ⟨_, check_eq_error_of_mem listed, listed⟩

theorem check_fill_plan_armed :
    (∃ checked, Sample.armed.check = .ok checked) ∧
    (∃ checked, (Sample.armed.withNodes (Sample.firstArm.fill
      (.call (Sample.inArm.unfixed Sample.pinning) .launchPlan Sample.pinning.id))).check =
        .ok checked) ∧
    ∃ defects, (Sample.armed.withNodes (Sample.firstArm.fill
      (.call Sample.inArm .launchPlan Sample.pinning.id))).check = .error defects ∧
      .node (Sample.callee "w") "n" (.fixedInputRebound Sample.pinning.id "k") ∈ defects := by
  have empty : Sample.armed.defects = [] := by rfl
  have accepted := Scope.check_eq_ok_iff.mpr ⟨empty, rfl⟩
  obtain ⟨accepted', rebound⟩ := Scope.check_fill_plan Sample.armed_planOver rfl accepted
  exact ⟨⟨_, accepted⟩, accepted', rebound Sample.inArm.inputs _ List.mem_cons_self (by cbv)⟩

end WorkflowBundle
