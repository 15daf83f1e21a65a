import WorkflowBundle.Proofs.Workflow.Accepted
import WorkflowBundle.Proofs.Workflow.Edges
import WorkflowBundle.Proofs.Workflow.StandIn

/-! The order in which a workflow lists its nodes. Much is decided by what stands first: the start
and the finish, the node that an id stands for, the numbers of the vertices. In a well laid out
workflow all that is looked up is there once, so it is found in whatever order the nodes stand. -/
namespace WorkflowBundle

namespace Workflow

variable {w w' : Workflow} {node other : Node} {id : String} {e : Edge}

/-- The same nodes in whatever order, and the same found among them. -/
structure Alike (w w' : Workflow) : Prop where
  nodes : w'.nodes.Perm w.nodes
  outputs : w'.outputs = w.outputs
  startNode? : w'.startNode? = w.startNode?
  finishNode? : w'.finishNode? = w.finishNode?
  node? : ∀ id, w'.node? id = w.node? id

theorem length_filter_id {nodes : List Node} (distinct : (nodes.map Node.id).Nodup) (id : String) :
    (nodes.filter (·.id == id)).length ≤ 1 := by
  have once := List.nodup_iff_count_le_one.mp distinct id
  rwa [List.count, List.countP_map, List.countP_eq_length_filter] at once

theorem WellLaid.alike (laid : w.WellLaid) {nodes : List Node} (perm : nodes.Perm w.nodes) :
    w.Alike { w with nodes } where
  nodes := perm
  outputs := rfl
  startNode? := (find?_eq_of_perm perm.symm laid.starts).symm
  finishNode? := (find?_eq_of_perm perm.symm laid.finishes).symm
  node? id := (find?_eq_of_perm perm.symm (length_filter_id laid.sound.nodup id)).symm

namespace Alike

variable (alike : w.Alike w')
include alike

theorem symm : w'.Alike w where
  nodes := alike.nodes.symm
  outputs := alike.outputs.symm
  startNode? := alike.startNode?.symm
  finishNode? := alike.finishNode?.symm
  node? id := (alike.node? id).symm

theorem mem_iff : node ∈ w'.nodes ↔ node ∈ w.nodes := alike.nodes.mem_iff

theorem allNodes_perm : w'.allNodes.Perm w.allNodes := alike.nodes.flatMap_right Node.flatten

theorem namesStart_eq (id : String) : w'.namesStart id = w.namesStart id := by
  rw [namesStart, namesStart, alike.startNode?]

theorem namesFinish_eq (id : String) : w'.namesFinish id = w.namesFinish id := by
  rw [namesFinish, namesFinish, alike.finishNode?]

theorem canGive (given : w.CanGive id) : w'.CanGive id := by
  rcases given with start | ⟨node, member, step⟩
  · exact .inl (by rw [alike.namesStart_eq, start])
  · exact .inr ⟨node, alike.mem_iff.mpr member, step⟩

theorem before (h : w.Before node other) : w'.Before node other :=
  ⟨alike.mem_iff.mpr h.1, alike.mem_iff.mpr h.2.1, h.2.2⟩

theorem wellLaid (laid : w.WellLaid) : w'.WellLaid where
  ids := (alike.allNodes_perm.map Node.id).nodup_iff.mpr laid.ids
  reserved node listed := laid.reserved node (alike.allNodes_perm.mem_iff.mp listed)
  starts := (alike.nodes.filter Node.isStart).length_eq ▸ laid.starts
  finishes := (alike.nodes.filter Node.isFinish).length_eq ▸ laid.finishes
  arms head condition a b member := laid.arms head condition a b (alike.mem_iff.mp member)
  bare node member := laid.bare node (alike.mem_iff.mp member)
  sources node member inner inside id needed := by
    obtain ⟨given, apart⟩ := laid.sources node (alike.mem_iff.mp member) inner inside id needed
    exact ⟨alike.canGive given, apart⟩
  outputs id needed := by
    rw [alike.outputs] at needed
    exact alike.canGive (laid.outputs id needed)
  acyclic node walk :=
    laid.acyclic node (Relation.TransGen.mono (fun _ _ => alike.symm.before) node node walk)

theorem producerName_eq (id : String) : w'.producerName id = w.producerName id := by
  rw [producerName, producerName, alike.namesStart_eq]

theorem supplier?_eq (origin : Origin) : w'.supplier? origin = w.supplier? origin := by
  cases origin with
  | nodeOutput id output => rw [supplier?, supplier?, alike.producerName_eq]
  | workflowInput name => rfl
  | literal value => rfl

theorem declares (declared : w.Declares e) : w'.Declares e := by
  cases declared with
  | input member bound supplied =>
    exact .input (alike.mem_iff.mpr member) bound ((alike.supplier?_eq _).trans supplied)
  | armInput member inside bound supplied =>
    exact .armInput (alike.mem_iff.mpr member) inside bound ((alike.supplier?_eq _).trans supplied)
  | runsAfter member inside after =>
    rw [← alike.producerName_eq]
    exact .runsAfter (alike.mem_iff.mpr member) inside after
  | output bound supplied =>
    rw [← alike.outputs] at bound
    exact .output bound ((alike.supplier?_eq _).trans supplied)

theorem ties (tie : w.Ties e) : w'.Ties e := by
  cases tie with
  | entry member step free =>
    exact .entry (alike.mem_iff.mpr member) step fun e declared => free e (alike.symm.declares declared)
  | exit member step free =>
    exact .exit (alike.mem_iff.mpr member) step fun e declared => free e (alike.symm.declares declared)

theorem draws (drawn : w.Draws e) : w'.Draws e := by
  cases drawn with
  | declared declared => exact .declared (alike.declares declared)
  | tie tie => exact .tie (alike.ties tie)
  | through free =>
    exact .through fun e listed => free e (listed.imp alike.symm.declares alike.symm.ties)

theorem edges_eq (wired : w.Wired) (wired' : w'.Wired) : w'.edges = w.edges := by
  apply congrArg SortedMap.keys
  apply SortedMap.ext_keys
  intro e
  calc e ∈ w'.edges
    _ ↔ w'.Draws e := wired'.mem_edges
    _ ↔ w.Draws e := ⟨alike.symm.draws, alike.draws⟩
    _ ↔ e ∈ w.edges := wired.mem_edges.symm

end Alike

end Workflow

namespace Scope

variable {s : Scope} {nodes : List Node} {checked : CheckedWorkflow}

section Alike

variable (alike : s.workflow.Alike (s.withNodes nodes).workflow)
include alike

theorem sameOrigins_of_alike : s.SameOrigins (s.withNodes nodes) := by
  refine ⟨rfl, fun origin => ?_⟩
  cases origin with
  | workflowInput name => rfl
  | literal value => rfl
  | nodeOutput id output =>
    simp only [originType, alike.namesStart_eq, alike.namesFinish_eq, alike.node?,
      funext exposes_withNodes]
    rfl

theorem outputFaults_of_alike : (s.withNodes nodes).outputFaults = s.outputFaults := by
  simp only [outputFaults, Workflow.outputBindings, Workflow.finishLabel, alike.finishNode?,
    (sameOrigins_of_alike alike).bindingFaults]
  rfl

/-- Nodes are found faultless in whatever order they stand. -/
theorem clean_of_alike (laid : s.workflow.WellLaid) (clean : s.Clean) :
    (s.withNodes nodes).Clean where
  sound := (alike.wellLaid laid).sound
  linked := (alike.wellLaid laid).linkFaults_eq_nil
  arms node member := by
    rw [armFaults_withNodes]
    exact clean.arms node (alike.mem_iff.mp member)
  nodes node member := by
    rw [nodeFaults_withNodes (sameOrigins_of_alike alike)]
    exact clean.nodes node (alike.mem_iff.mp member)
  outputs := (outputFaults_of_alike alike).trans clean.outputs

end Alike

theorem exists_check_iff : (∃ checked, s.check = .ok checked) ↔ s.defects = [] := by
  simp only [check_eq_ok_iff, exists_and_left, exists_eq', and_true]

theorem exists_check_of_perm (perm : nodes.Perm s.workflow.nodes)
    (accepted : ∃ checked, s.check = .ok checked) :
    ∃ checked, (s.withNodes nodes).check = .ok checked := by
  rw [exists_check_iff, defects_eq_nil_iff] at accepted ⊢
  obtain ⟨laid, clean⟩ := accepted
  have alike : s.workflow.Alike (s.withNodes nodes).workflow := laid.alike perm
  exact ⟨alike.wellLaid laid, clean_of_alike alike laid clean⟩

theorem nodeOrder_perm_steps (accepted : s.check = .ok checked) :
    checked.nodeOrder.Perm ((s.workflow.nodes.filter Node.isStep).map Node.id) := by
  obtain ⟨-, order, ordered, same⟩ :=
    s.workflow.decides_nodeOrder.ok _ (nodeOrder_eq_of_check accepted).1
  rw [same, ← (wired_of_check accepted).sound.vertices_steps]
  exact Workflow.stepsOf_perm ordered

end Scope

namespace Sample

/-- Two steps that do not wait for each other. -/
def parallel : Scope where
  workflow := {
    id := callee "w"
    interface := ⟨unary.inputs, .ofList [("y", .simple .integer), ("z", .simple .integer)]⟩
    nodes := [.start ⟨"begin", [], []⟩,
      .call ⟨"a", [⟨"x", .workflowInput "x"⟩], []⟩ .task (callee "k"),
      .call ⟨"b", [⟨"x", .nodeOutput "begin" "x"⟩], []⟩ .task (callee "k"),
      .finish ⟨"done", [⟨"y", .nodeOutput "a" "v"⟩], []⟩]
    outputs := [⟨"z", .nodeOutput "b" "v"⟩] }
  index := ⟨.empty⟩
  interfaces := .ofList [(callee "k", unary)]
  rule := .allMembers

end Sample

/-- In whatever order a workflow lists its nodes at top level, it is accepted or not alike, with the
same edges and with the same steps in its order. -/
theorem Scope.check_perm {s : Scope} {nodes : List Node} (perm : nodes.Perm s.workflow.nodes) :
    ((∃ checked, s.check = .ok checked) ↔ ∃ checked, (s.withNodes nodes).check = .ok checked) ∧
    ∀ checked checked', s.check = .ok checked → (s.withNodes nodes).check = .ok checked' →
      checked'.edges = checked.edges ∧ checked'.nodeOrder.Perm checked.nodeOrder := by
  constructor
  · constructor
    · exact exists_check_of_perm perm
    · intro accepted
      exact exists_check_of_perm (s := s.withNodes nodes) perm.symm accepted
  · intro checked checked' accepted accepted'
    constructor
    · have laid := wellLaid_of_defects (check_eq_ok_iff.mp accepted).1
      have alike : s.workflow.Alike (s.withNodes nodes).workflow := laid.alike perm
      rw [(nodeOrder_eq_of_check accepted).2, (nodeOrder_eq_of_check accepted').2]
      exact alike.edges_eq (wired_of_check accepted) (wired_of_check accepted')
    · have steps := (perm.filter Node.isStep).map Node.id
      exact (nodeOrder_perm_steps accepted').trans (steps.trans (nodeOrder_perm_steps accepted).symm)

open Sample in
/-- Listed the other way round the two steps come out the other way round, with the same edges. -/
theorem Scope.check_perm_parallel : ∃ checked checked', parallel.check = .ok checked ∧
    (parallel.withNodes parallel.workflow.nodes.reverse).check = .ok checked' ∧
      checked'.edges = checked.edges ∧ checked'.nodeOrder.Perm checked.nodeOrder ∧
        checked.nodeOrder = ["b", "a"] ∧ checked'.nodeOrder = ["a", "b"] := by
  have accepted : parallel.check = .ok _ := check_eq_ok_iff.mpr ⟨by rfl, rfl⟩
  obtain ⟨alike, same⟩ := check_perm (List.reverse_perm parallel.workflow.nodes)
  obtain ⟨checked', accepted'⟩ := alike.mp ⟨_, accepted⟩
  obtain ⟨edges, order⟩ := same _ _ accepted accepted'
  refine ⟨_, checked', accepted, accepted', edges, order, by rfl, ?_⟩
  obtain ⟨-, rfl⟩ := check_eq_ok_iff.mp accepted'
  rfl

end WorkflowBundle
