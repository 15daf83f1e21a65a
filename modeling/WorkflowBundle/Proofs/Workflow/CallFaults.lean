import Mathlib.Data.List.Count
import Mathlib.Data.List.Nodup
import Mathlib.Data.Prod.Basic
import WorkflowBundle.Proofs.Entity
import WorkflowBundle.Workflow.Check

/-! What a check finds at a call. Faults about the names that a call binds come from the call
alone, whatever else is wrong with the workflow: the checks of ids, of the graph and of the arms
make no such faults, and when ids are not shared no other node makes any under the id of the call. -/
namespace WorkflowBundle

namespace NodeFault

/-- The fault is about a name that a call binds, or fails to bind. -/
def isBinding : NodeFault → Bool
  | unknownInput _ | fixedInputRebound _ _ | duplicateBinding _ | missingInput _ => true
  | _ => false

end NodeFault

/-- What the defect says about the node of the id. -/
def Defect.faultAt? (id : String) : Defect → Option NodeFault
  | .node _ found fault => if found = id then some fault else none
  | _ => none

namespace Workflow

variable {w : Workflow}

theorem not_isBinding_of_idFaults {nodes : List Node} {seen reported : List String}
    {f : String × NodeFault} (found : f ∈ idFaults nodes seen reported) : f.2.isBinding = false := by
  induction nodes generalizing seen reported with
  | nil => contradiction
  | cons node nodes ih =>
    rcases List.mem_append.mp found with own | rest
    · rcases List.mem_append.mp own with again | reserved
      · split at again
        · rw [List.mem_singleton.mp again]
          rfl
        · contradiction
      · split at reserved
        · rw [List.mem_singleton.mp reserved]
          rfl
        · contradiction
    · exact ih rest

theorem not_isBinding_of_structureFaults {f : String × NodeFault} (found : f ∈ w.structureFaults) :
    f.2.isBinding = false := by
  simp only [structureFaults, List.mem_append, List.mem_map] at found
  rcases found with (ids | ⟨node, -, rfl⟩) | ⟨node, -, rfl⟩
  · exact not_isBinding_of_idFaults ids
  · rfl
  · rfl

theorem of_mem_firstFaults {faults : List LinkFault} {seen : List (String × String)}
    {f : String × NodeFault} (found : f ∈ firstFaults faults seen) :
    ∃ fault ∈ faults, f = (fault.node, fault.fault) := by
  induction faults generalizing seen with
  | nil => contradiction
  | cons first faults ih =>
    unfold firstFaults at found
    split at found
    · obtain ⟨fault, listed, same⟩ := ih found
      exact ⟨fault, List.mem_cons_of_mem _ listed, same⟩
    · rcases List.mem_cons.mp found with same | later
      · exact ⟨first, List.mem_cons_self, same⟩
      · obtain ⟨fault, listed, same⟩ := ih later
        exact ⟨fault, List.mem_cons_of_mem _ listed, same⟩

theorem not_isBinding_of_link {v : Vertices} {c : Consumer} {d : Dependency} {fault : LinkFault}
    (refused : w.link v c d = .error fault) : fault.fault.isBinding = false := by
  unfold link at refused
  split at refused
  · rw [← Except.error.inj refused]
    rfl
  · split at refused
    · contradiction
    · rw [← Except.error.inj refused]
      rfl
    · rw [← Except.error.inj refused]
      rfl

theorem not_isBinding_of_linkFaults {f : String × NodeFault} (found : f ∈ w.linkFaults) :
    f.2.isBinding = false := by
  obtain ⟨fault, listed, rfl⟩ := of_mem_firstFaults found
  obtain ⟨result, linked, error⟩ := List.mem_filterMap.mp listed
  obtain ⟨c, -, linked⟩ := List.mem_flatMap.mp linked
  obtain ⟨d, -, rfl⟩ := List.mem_map.mp linked
  cases refused : w.link w.vertices c d with
  | ok l => simp [refused] at error
  | error other =>
    simp only [refused, Option.some.injEq] at error
    exact error ▸ not_isBinding_of_link refused

/-- A node that is no finish does not go by the name of the workflow outputs. -/
theorem finishLabel_ne (distinct : (w.allNodes.map Node.id).Nodup) {node : Node}
    (listed : node ∈ w.allNodes) (notFinish : node.isFinish = false) (other : node.id ≠ finishId) :
    w.finishLabel ≠ node.id := by
  unfold finishLabel
  cases found : w.finishNode? with
  | none => exact other.symm
  | some finish =>
    intro same
    have member := List.mem_of_find?_eq_some found
    have eq : finish = node := List.inj_on_of_nodup_map distinct
      (mem_allNodes_of_mem member finish.self_mem_flatten) listed same
    have isFinish := List.find?_some found
    rw [eq, notFinish] at isFinish
    contradiction

end Workflow

namespace Scope

variable {s : Scope} {node : Node} {inArm : Bool} {fault : NodeFault} {id : String}

/-- What the check of the workflow finds wrong at the node of the id. -/
def faultsAt (s : Scope) (id : String) : List NodeFault :=
  match s.check with
  | .ok _ => []
  | .error defects => defects.filterMap (Defect.faultAt? id)

theorem faultsAt_eq : s.faultsAt id = s.defects.filterMap (Defect.faultAt? id) := by
  unfold faultsAt check
  split
  next accepted =>
    split at accepted
    next none => rw [none]; rfl
    next => contradiction
  next refused =>
    split at refused
    next => contradiction
    next => rw [Except.error.inj refused]

theorem count_faultAt? (workflow : EntityId) (faults : List (String × NodeFault)) :
    ((faults.map fun f => Defect.node workflow f.1 f.2).filterMap (Defect.faultAt? id)).count fault =
      faults.count (id, fault) := by
  induction faults with
  | nil => rfl
  | cons f faults ih =>
    rw [List.map_cons, List.filterMap_cons, List.count_cons]
    by_cases here : f.1 = id
    · simp [Defect.faultAt?, here, List.count_cons, Prod.ext_iff, ← ih]
    · simp [Defect.faultAt?, here, Prod.ext_iff, ← ih]

theorem not_isBinding_of_armFaults {f : String × NodeFault} (found : f ∈ s.armFaults node) :
    f.2.isBinding = false := by
  induction node with
  | branch head condition a b iha ihb =>
    rcases List.mem_append.mp found with inner | own
    · rcases List.mem_append.mp inner with first | second
      · exact iha first
      · exact ihb second
    · split at own
      · split at own
        · rw [List.mem_singleton.mp own]
          rfl
        · contradiction
      · contradiction
  | call | start | finish => contradiction

/-- Faults about bindings come from the nodes and from the workflow outputs only. -/
theorem count_faultsAt (binding : fault.isBinding) : (s.faultsAt id).count fault =
    (s.workflow.nodes.flatMap (s.nodeFaults false)).count (id, fault) +
      s.outputFaults.count (id, fault) := by
  have absent : ∀ faults : List (String × NodeFault), (∀ f ∈ faults, f.2.isBinding = false) →
      faults.count (id, fault) = 0 := by
    intro faults others
    refine List.count_eq_zero.mpr fun found => ?_
    rw [others _ found] at binding
    contradiction
  have structured := absent s.workflow.structureFaults fun _ =>
    Workflow.not_isBinding_of_structureFaults
  have linked := absent s.workflow.linkFaults fun _ => Workflow.not_isBinding_of_linkFaults
  have arms := absent (s.workflow.firstNodes.flatMap s.armFaults) fun f found => by
    obtain ⟨node, -, found⟩ := List.mem_flatMap.mp found
    exact not_isBinding_of_armFaults found
  have cycles : ∀ cycles : List (List String),
      (cycles.map (Defect.graphCycle s.workflow.id)).filterMap (Defect.faultAt? id) = [] := by
    intro cycles
    rw [List.filterMap_map, List.filterMap_eq_nil_iff]
    exact fun _ _ => rfl
  rw [faultsAt_eq]
  unfold defects faults
  simp only [List.filterMap_append, List.count_append, count_faultAt?, structured, linked, arms,
    Nat.zero_add]
  split <;> simp only [cycles, List.filterMap_nil, List.count_nil, Nat.zero_add]

/-- What is found in a node is found at the node or at one in its arms. -/
theorem id_mem_of_nodeFaults {f : String × NodeFault} (found : f ∈ s.nodeFaults inArm node) :
    f.1 ∈ node.flatten.map Node.id := by
  induction node generalizing inArm with
  | call head kind reference =>
    unfold nodeFaults at found
    split at found
    · contradiction
    · obtain ⟨fault, -, rfl⟩ := List.mem_map.mp found
      exact List.mem_cons_self
  | branch head condition a b iha ihb =>
    rw [Node.flatten, List.map_cons, List.map_append, List.mem_cons, List.mem_append]
    rcases List.mem_append.mp found with own | second
    · rcases List.mem_append.mp own with own | first
      · obtain ⟨fault, -, rfl⟩ := List.mem_map.mp own
        exact .inl rfl
      · exact .inr (.inl (iha first))
    · exact .inr (.inr (ihb second))
  | start head =>
    unfold nodeFaults at found
    split at found
    · rw [List.mem_singleton.mp found]
      exact List.mem_cons_self
    · split at found
      · contradiction
      · rw [List.mem_singleton.mp found]
        exact List.mem_cons_self
  | finish head =>
    unfold nodeFaults at found
    split at found
    · rw [List.mem_singleton.mp found]
      exact List.mem_cons_self
    · contradiction

theorem count_nodeFaults_eq_zero (apart : id ∉ node.flatten.map Node.id) :
    (s.nodeFaults inArm node).count (id, fault) = 0 :=
  List.count_eq_zero.mpr fun found => apart (id_mem_of_nodeFaults found)

theorem count_flatMap_nodeFaults_eq_zero {nodes : List Node}
    (apart : id ∉ (nodes.flatMap Node.flatten).map Node.id) :
    (nodes.flatMap (s.nodeFaults inArm)).count (id, fault) = 0 := by
  refine List.count_eq_zero.mpr fun found => apart ?_
  obtain ⟨node, member, found⟩ := List.mem_flatMap.mp found
  rw [List.map_flatMap]
  exact List.mem_flatMap.mpr ⟨node, member, id_mem_of_nodeFaults found⟩

section Call

variable {head : NodeHead} {kind : ResourceType} {reference : EntityId} {i : Interface}

/-- Where ids are not shared, what is found at a call is what its own bindings give. -/
theorem count_nodeFaults (known : s.interfaces.get? reference = some i)
    (distinct : (node.flatten.map Node.id).Nodup) (call : .call head kind reference ∈ node.flatten) :
    (s.nodeFaults inArm node).count (head.id, fault) =
      (s.callFaults head i (s.fixedInputs kind reference)).count fault := by
  induction node generalizing inArm with
  | call head' kind' reference' =>
    obtain ⟨rfl, rfl, rfl⟩ := Node.call.inj (List.mem_singleton.mp call)
    simp only [nodeFaults, known]
    exact List.count_map_of_injective _ _ (Prod.mk_right_injective head.id) fault
  | branch head' condition a b iha ihb =>
    have call := (List.mem_cons.mp call).resolve_left (by simp)
    rw [Node.flatten, List.map_cons, List.map_append] at distinct
    obtain ⟨own, arms⟩ := List.nodup_cons.mp distinct
    obtain ⟨first, second, apart⟩ := List.nodup_append.mp arms
    have inside : ∀ {arm : Node}, .call head kind reference ∈ arm.flatten →
        head.id ∈ arm.flatten.map Node.id := fun listed => List.mem_map_of_mem listed
    have outside : ((s.branchFaults head' condition).map (head'.id, ·)).count (head.id, fault) = 0 := by
      refine List.count_eq_zero.mpr fun found => own ?_
      obtain ⟨_, -, same⟩ := List.mem_map.mp found
      have same : head'.id = head.id := congrArg Prod.fst same
      change head'.id ∈ _
      rw [same]
      exact List.mem_append.mpr ((List.mem_append.mp call).imp inside inside)
    simp only [nodeFaults, List.count_append, outside, Nat.zero_add]
    rcases List.mem_append.mp call with call | call
    · have absent : head.id ∉ b.flatten.map Node.id := fun again => apart _ (inside call) _ again rfl
      rw [iha first call, count_nodeFaults_eq_zero absent, Nat.add_zero]
    · have absent : head.id ∉ a.flatten.map Node.id := fun again => apart _ again _ (inside call) rfl
      rw [ihb second call, count_nodeFaults_eq_zero absent, Nat.zero_add]
  | start | finish => simp [Node.flatten] at call

theorem count_flatMap_nodeFaults (known : s.interfaces.get? reference = some i) {nodes : List Node}
    (distinct : ((nodes.flatMap Node.flatten).map Node.id).Nodup)
    (call : .call head kind reference ∈ nodes.flatMap Node.flatten) :
    (nodes.flatMap (s.nodeFaults inArm)).count (head.id, fault) =
      (s.callFaults head i (s.fixedInputs kind reference)).count fault := by
  induction nodes with
  | nil => contradiction
  | cons node nodes ih =>
    rw [List.flatMap_cons, List.map_append] at distinct
    obtain ⟨first, rest, apart⟩ := List.nodup_append.mp distinct
    rw [List.flatMap_cons] at call
    rw [List.flatMap_cons, List.count_append]
    rcases List.mem_append.mp call with call | call
    · have here : head.id ∈ node.flatten.map Node.id := List.mem_map_of_mem call
      have absent : head.id ∉ (nodes.flatMap Node.flatten).map Node.id :=
        fun again => apart _ here _ again rfl
      rw [count_nodeFaults known first call, count_flatMap_nodeFaults_eq_zero absent, Nat.add_zero]
    · have there : head.id ∈ (nodes.flatMap Node.flatten).map Node.id := List.mem_map_of_mem call
      have absent : head.id ∉ node.flatten.map Node.id := fun again => apart _ again _ there rfl
      rw [ih rest call, count_nodeFaults_eq_zero absent, Nat.zero_add]

/-- Faults about bindings that a check finds at a call are those of its own bindings. -/
theorem count_faultsAt_call (distinct : (s.workflow.allNodes.map Node.id).Nodup)
    (call : .call head kind reference ∈ s.workflow.allNodes) (other : head.id ≠ Workflow.finishId)
    (known : s.interfaces.get? reference = some i) (binding : fault.isBinding) :
    (s.faultsAt head.id).count fault =
      (s.callFaults head i (s.fixedInputs kind reference)).count fault := by
  have outputs : s.outputFaults.count (head.id, fault) = 0 := by
    refine List.count_eq_zero.mpr fun found => ?_
    obtain ⟨_, -, same⟩ := List.mem_map.mp found
    exact Workflow.finishLabel_ne distinct call rfl other (congrArg Prod.fst same)
  rw [count_faultsAt binding, outputs, Nat.add_zero]
  exact count_flatMap_nodeFaults known distinct call

end Call

end Scope

end WorkflowBundle
