import WorkflowBundle.Proofs.Entity
import WorkflowBundle.Proofs.Repetition
import WorkflowBundle.Workflow.Check

/-! The nodes of a workflow without structural faults: every id stands once, at whatever depth,
there is at most one start and one finish, and whatever a node needs comes from the start or
from a step at top level. -/
namespace WorkflowBundle

namespace Node

variable {node inner : Node} {label : String → String} {d : Dependency} {id : String}

/-- The nodes of the arms of a branch, at whatever depth. -/
def arms : Node → List Node
  | branch _ _ a b => a.flatten ++ b.flatten
  | _ => []

theorem flatten_eq_cons_arms (node : Node) : node.flatten = node :: node.arms := by
  cases node <;> rfl

theorem mem_flatten_of_arms (inside : inner ∈ node.arms) : inner ∈ node.flatten := by
  rw [flatten_eq_cons_arms]
  exact List.mem_cons_of_mem _ inside

theorem mem_ownDependencies_iff : d ∈ node.ownDependencies label ↔
    (∃ b ∈ node.inputs, Dependency.ofBinding? node.id (label b.parameter) b.origin = some d) ∨
      ∃ id ∈ node.runsAfter, d = ⟨node.id, id, none, none⟩ := by
  simp only [ownDependencies, List.mem_append, List.mem_filterMap, List.mem_map, eq_comm (a := d)]

/-- A need is one of the node itself, or of a node in its arms, which labels its inputs with its
own id. -/
theorem mem_dependencies_iff : d ∈ node.dependencies label ↔
    d ∈ node.ownDependencies label ∨ ∃ arm ∈ node.arms, d ∈ arm.ownDependencies (armLabel arm.id) := by
  induction node generalizing label with
  | branch head condition a b iha ihb =>
    have nested : (branch head condition a b).arms = (a :: a.arms) ++ (b :: b.arms) := by
      rw [← flatten_eq_cons_arms, ← flatten_eq_cons_arms, arms]
    simp only [dependencies, nested, List.mem_append, List.mem_cons, iha, ihb, or_and_right,
      exists_or, exists_eq_left, or_assoc]
  | call | start | finish => simp [dependencies, arms]

/-- What a node needs is needed by every branch around it. -/
theorem exists_dependency {p : Dependency → Prop} (inside : inner ∈ node.flatten)
    (needed : ∀ label, ∃ d ∈ inner.ownDependencies label, p d) (label : String → String) :
    ∃ d ∈ node.dependencies label, p d := by
  rw [flatten_eq_cons_arms] at inside
  rcases List.mem_cons.mp inside with rfl | inside
  · obtain ⟨d, own, same⟩ := needed label
    exact ⟨d, mem_dependencies_iff.mpr (.inl own), same⟩
  · obtain ⟨d, own, same⟩ := needed (armLabel inner.id)
    exact ⟨d, mem_dependencies_iff.mpr (.inr ⟨inner, inside, own⟩), same⟩

theorem mem_ownDependencies {b : Binding} (bound : b ∈ node.inputs) {output : String}
    (taken : b.origin = .nodeOutput id output) (label : String → String) :
    ∃ d ∈ node.ownDependencies label, d.producer = id := by
  refine ⟨⟨node.id, id, some output, some (label b.parameter)⟩, ?_, rfl⟩
  exact mem_ownDependencies_iff.mpr (.inl ⟨b, bound, by rw [taken]; rfl⟩)

end Node

namespace Workflow

/-- Without a fault no id stands twice, and reserved ids are used as they should be. -/
theorem of_idFaults {nodes : List Node} {seen : List String} (none : idFaults nodes seen [] = []) :
    (nodes.map Node.id).Nodup ∧ (∀ n ∈ nodes, n.id ∉ seen) ∧
      ∀ n ∈ nodes, (n.id = startId → n.isStart) ∧ (n.id = finishId → n.isFinish) := by
  induction nodes generalizing seen with
  | nil => simp
  | cons node nodes ih =>
    simp only [idFaults, List.contains_nil, Bool.not_false, Bool.and_true,
      List.append_eq_nil_iff] at none
    obtain ⟨⟨new, reserved⟩, rest⟩ := none
    have fresh : node.id ∉ seen := fun again => by simp [again] at new
    rw [if_neg (by simpa using fresh)] at rest
    obtain ⟨nodup, apart, named⟩ := ih rest
    refine ⟨?_, ?_, ?_⟩
    · refine List.nodup_cons.mpr ⟨fun again => ?_, nodup⟩
      obtain ⟨n, hn, same⟩ := List.mem_map.mp again
      exact apart n hn (by simp [same])
    · intro n hn
      rcases List.mem_cons.mp hn with rfl | hn
      · exact fresh
      · exact fun h => apart n hn (List.mem_cons_of_mem _ h)
    · intro n hn
      rcases List.mem_cons.mp hn with rfl | hn
      · constructor <;> intro same <;> by_contra other <;> simp [same, other] at reserved
      · exact named n hn

theorem idFaults_eq_nil {nodes : List Node} {seen reported : List String}
    (distinct : (nodes.map Node.id).Nodup) (apart : ∀ n ∈ nodes, n.id ∉ seen)
    (named : ∀ n ∈ nodes, (n.id = startId → n.isStart) ∧ (n.id = finishId → n.isFinish)) :
    idFaults nodes seen reported = [] := by
  induction nodes generalizing seen reported with
  | nil => rfl
  | cons node nodes ih =>
    obtain ⟨new, distinct⟩ := List.nodup_cons.mp distinct
    obtain ⟨start, finish⟩ := named node List.mem_cons_self
    have fresh : seen.contains node.id = false := by simpa using apart node List.mem_cons_self
    have reserved : (node.id == startId && !node.isStart ||
        node.id == finishId && !node.isFinish) = false := by
      rw [← Bool.not_eq_true]
      simp only [Bool.or_eq_true, Bool.and_eq_true, beq_iff_eq, Bool.not_eq_true', not_or, not_and]
      exact ⟨fun same => by simp [start same], fun same => by simp [finish same]⟩
    simp only [idFaults, fresh, reserved, Bool.false_and, Bool.false_eq_true, if_false,
      List.nil_append]
    refine ih distinct (fun n hn again => ?_) fun n hn => named n (List.mem_cons_of_mem _ hn)
    rcases List.mem_cons.mp again with same | old
    · exact new (same ▸ List.mem_map_of_mem hn)
    · exact apart n (List.mem_cons_of_mem _ hn) old

variable {w : Workflow}

structure Sound (w : Workflow) : Prop where
  ids : (w.allNodes.map Node.id).Nodup
  reserved : ∀ n ∈ w.allNodes, (n.id = startId → n.isStart) ∧ (n.id = finishId → n.isFinish)
  finishes : (w.nodes.filter Node.isFinish).length ≤ 1

theorem sound_of_structureFaults (none : w.structureFaults = []) : w.Sound := by
  simp only [structureFaults, List.append_eq_nil_iff, List.map_eq_nil_iff, List.drop_eq_nil_iff]
    at none
  obtain ⟨nodup, -, reserved⟩ := of_idFaults none.1.1
  exact ⟨nodup, reserved, none.2⟩

/-- The ids at top level are among all ids, in their order. -/
theorem map_id_sublist (w : Workflow) :
    (w.nodes.map Node.id).Sublist (w.allNodes.map Node.id) := by
  unfold allNodes
  induction w.nodes with
  | nil => exact .slnil
  | cons node nodes ih =>
    have first : [node].Sublist node.flatten :=
      List.singleton_sublist.mpr node.self_mem_flatten
    rw [List.flatMap_cons, List.map_append, ← List.singleton_append, List.map_append]
    exact (first.map Node.id).append ih

theorem find?_id_eq {nodes : List Node} (distinct : (nodes.map Node.id).Nodup) {node : Node}
    (member : node ∈ nodes) : nodes.find? (·.id == node.id) = some node := by
  induction nodes with
  | nil => contradiction
  | cons first nodes ih =>
    obtain ⟨apart, distinct⟩ := List.nodup_cons.mp distinct
    rcases List.mem_cons.mp member with rfl | member
    · simp
    · have differ : first.id ≠ node.id := fun same =>
        apart (same ▸ List.mem_map_of_mem member)
      rw [List.find?_cons_of_neg (by simpa using differ)]
      exact ih distinct member

namespace Sound

variable (sound : w.Sound)
include sound

theorem nodup : (w.nodes.map Node.id).Nodup := w.map_id_sublist.nodup sound.ids

theorem firstNodes_eq : w.firstNodes = w.nodes := by
  refine eraseDupsBy_of_pairwise ?_
  have distinct := List.pairwise_map.mp (List.nodup_iff_pairwise_ne.mp sound.nodup)
  exact distinct.imp fun differ => beq_eq_false_iff_ne.mpr (Ne.symm differ)

theorem node?_eq {node : Node} (member : node ∈ w.nodes) : w.node? node.id = some node :=
  find?_id_eq sound.nodup member

theorem filter_isFinish : w.nodes.filter Node.isFinish = w.finishNode?.toList := by
  have few := sound.finishes
  rw [finishNode?, ← List.head?_filter]
  match w.nodes.filter Node.isFinish, few with
  | [], _ => rfl
  | [_], _ => rfl

theorem outputBindings_eq : w.outputBindings =
    w.outputs ++ (w.nodes.filter Node.isFinish).flatMap Node.inputs := by
  rw [outputBindings, sound.filter_isFinish]
  cases w.finishNode? <;> simp

end Sound

/-- What is needed from an id can be had: it names the start or a step at top level. -/
def Provides (w : Workflow) (id : String) : Prop :=
  w.namesStart id ∨ w.namesStart id = false ∧ w.namesFinish id = false ∧
    ∃ node ∈ w.nodes, node.isStep ∧ node.id = id

theorem provides_of_provider {id : String} {number : Nat}
    (h : w.provider w.vertices id = .vertex number) : w.Provides id := by
  unfold provider at h
  split at h
  next start => exact .inl start
  next notStart =>
    split at h
    next => contradiction
    next notFinish =>
      split at h
      next step =>
        simp only [vertices, List.contains_eq_mem, List.mem_eraseDups, List.mem_map,
          List.mem_filter, decide_eq_true_eq] at step
        obtain ⟨node, ⟨member, isStep⟩, same⟩ := step
        exact .inr ⟨by simpa using notStart, by simpa using notFinish, node, member, isStep, same⟩
      next => contradiction

theorem provides_of_link {c : Consumer} {d : Dependency} {link : Link}
    (h : w.link w.vertices c d = .ok link) : w.Provides d.producer := by
  unfold Workflow.link at h
  split at h
  · contradiction
  · split at h
    next found => exact provides_of_provider found
    next => contradiction
    next => contradiction

theorem eq_nil_of_firstFaults {faults : List LinkFault} (none : firstFaults faults [] = []) :
    faults = [] := by
  cases faults with
  | nil => rfl
  | cons f rest => simp [firstFaults] at none

/-- Without link faults everything that a consumer needs can be had. -/
theorem provides_of_linkFaults (none : w.linkFaults = []) {c : Consumer}
    (consumer : c ∈ w.consumers w.vertices) {d : Dependency} (needed : d ∈ c.dependencies) :
    w.Provides d.producer := by
  have faultless := eq_nil_of_firstFaults none
  rw [List.filterMap_eq_nil_iff] at faultless
  have member : w.link w.vertices c d ∈ w.linkResults :=
    List.mem_flatMap.mpr ⟨c, consumer, List.mem_map_of_mem needed⟩
  have ok := faultless _ member
  cases result : w.link w.vertices c d with
  | ok link => exact provides_of_link result
  | error fault => simp [result] at ok

theorem mem_consumers {node : Node} (member : node ∈ w.nodes) (notStart : node.isStart = false) :
    ⟨node.id, if node.isFinish then w.vertices.finish else w.vertices.ofStep node.id,
      node.dependencies fun input => input⟩ ∈ w.consumers w.vertices :=
  List.mem_append_left _ (List.mem_filterMap.mpr ⟨node, member, by simp [consumer?, notStart]⟩)

theorem provides_of_node (none : w.linkFaults = []) {node inner : Node} (member : node ∈ w.nodes)
    (notStart : node.isStart = false) (inside : inner ∈ node.flatten) {b : Binding}
    (bound : b ∈ inner.inputs) {id output : String} (taken : b.origin = .nodeOutput id output) :
    w.Provides id := by
  obtain ⟨d, needed, rfl⟩ := Node.exists_dependency inside (Node.mem_ownDependencies bound taken)
    fun input => input
  exact provides_of_linkFaults none (mem_consumers member notStart) needed

/-- What a node takes from another one can be had, at whatever depth it stands. -/
theorem provides_of_inputs (none : w.linkFaults = []) {inner : Node} (inside : inner ∈ w.allNodes)
    (notStart : inner.isStart = false) {b : Binding} (bound : b ∈ inner.inputs) {id output : String}
    (taken : b.origin = .nodeOutput id output) : w.Provides id := by
  obtain ⟨node, member, inside⟩ := List.mem_flatMap.mp inside
  refine provides_of_node none member ?_ inside bound taken
  cases node with
  | start head =>
    rw [List.mem_singleton.mp inside] at notStart
    contradiction
  | call | branch | finish => rfl

theorem provides_of_output (none : w.linkFaults = []) {b : Binding}
    (bound : b ∈ w.outputs ++ (w.nodes.filter Node.isFinish).flatMap Node.inputs)
    {id output : String} (taken : b.origin = .nodeOutput id output) : w.Provides id := by
  rcases List.mem_append.mp bound with own | finish
  · have needed : ⟨finishId, id, some output, some b.parameter⟩ ∈
        (w.outputConsumer w.vertices).dependencies :=
      List.mem_filterMap.mpr ⟨b, own, by rw [taken]; rfl⟩
    exact provides_of_linkFaults none (List.mem_append_right _ (by simp)) needed
  · obtain ⟨node, isFinish, bound⟩ := List.mem_flatMap.mp finish
    obtain ⟨member, isFinish⟩ := List.mem_filter.mp isFinish
    refine provides_of_node none member ?_ node.self_mem_flatten bound taken
    cases node with
    | start head => contradiction
    | call | branch | finish => rfl

end Workflow

end WorkflowBundle
