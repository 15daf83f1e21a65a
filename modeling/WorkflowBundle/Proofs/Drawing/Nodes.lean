import WorkflowBundle.Closure.Drawing
import WorkflowBundle.Proofs.Workflow.Edges

/-! What drawings of an accepted workflow show: its steps at top level, the start and the finish,
each once, and its edges, which join these nodes and no others. -/
namespace WorkflowBundle

theorem Vertices.name_mem_names (v : Vertices) (number : Nat) : v.name number ∈ v.names := by
  rw [name, List.getD_eq_getElem?_getD]
  cases found : v.names[number]? with
  | none => simp [names]
  | some id => exact List.mem_of_getElem? found

/-- The ids of the nodes in a drawing. The start and the finish have the reserved ones. -/
def Workflow.drawnIds (w : Workflow) : List String :=
  (w.nodes.filter Node.isStep).map Node.id ++ [startId, finishId]

theorem Workflow.Sound.drawnIds_perm {w : Workflow} (sound : w.Sound) :
    w.drawnIds.Perm w.vertices.names := by
  rw [Vertices.names, sound.vertices_steps]
  exact List.perm_middle

/-- All strings that drawings show of the workflow are of a kind. -/
structure CheckedWorkflow.ShowsOnly (w : CheckedWorkflow) (kind : String → Prop) : Prop where
  ids : ∀ id ∈ w.spec.drawnIds, kind id
  descriptions : ∀ node ∈ w.spec.nodes, node.isStep → kind node.describe
  labels : ∀ e ∈ w.edges, ∀ label ∈ e.label?, kind label

variable {s : Scope} {checked : CheckedWorkflow} {id label : String} {e : Edge} {node : Node}

theorem CheckedWorkflow.exists_of_mem_steps (listed : (id, label) ∈ checked.steps.entries) :
    ∃ node ∈ checked.spec.nodes, node.isStep ∧ node.id = id ∧ node.describe = label := by
  obtain ⟨node, member, same⟩ := List.mem_map.mp (SortedMap.mem_of_mem_ofList listed)
  obtain ⟨member, step⟩ := List.mem_filter.mp member
  obtain ⟨rfl, rfl⟩ := Prod.mk.inj same
  exact ⟨node, member, step, rfl, rfl⟩

namespace Scope

theorem spec_eq_of_check (accepted : s.check = .ok checked) : checked.spec = s.workflow := by
  obtain ⟨-, rfl⟩ := check_eq_ok_iff.mp accepted
  rfl

theorem drawnIds_nodup (accepted : s.check = .ok checked) : checked.spec.drawnIds.Nodup := by
  have wired := wired_of_check accepted
  rw [spec_eq_of_check accepted]
  exact wired.sound.drawnIds_perm.nodup_iff.mpr wired.names_nodup

theorem mem_steps_of_step (accepted : s.check = .ok checked) (member : node ∈ checked.spec.nodes)
    (step : node.isStep) : (node.id, node.describe) ∈ checked.steps.entries := by
  have among : node ∈ checked.spec.nodes.filter Node.isStep := List.mem_filter.mpr ⟨member, step⟩
  have distinct := (List.nodup_append.mp (drawnIds_nodup accepted)).1
  obtain ⟨label, entry⟩ : ∃ label, (node.id, label) ∈ checked.steps.entries := by
    have listed : node.id ∈ checked.steps.keys :=
      SortedMap.mem_keys_ofList.mpr ⟨node.describe, List.mem_map_of_mem among⟩
    simpa [SortedMap.keys] using listed
  obtain ⟨other, member', step', same, rfl⟩ := CheckedWorkflow.exists_of_mem_steps entry
  obtain rfl : other = node :=
    List.inj_on_of_nodup_map distinct (List.mem_filter.mpr ⟨member', step'⟩) among same
  exact entry

/-- Each node is drawn once. -/
theorem drawn_perm (accepted : s.check = .ok checked) :
    (checked.steps.keys ++ [Workflow.startId, Workflow.finishId]).Perm checked.spec.drawnIds := by
  have distinct := (List.nodup_append.mp (drawnIds_nodup accepted)).1
  refine List.Perm.append_right _ ?_
  refine (List.perm_ext_iff_of_nodup (SortedMap.nodup_keys _) distinct).mpr fun id => ?_
  simp [CheckedWorkflow.steps, SortedMap.mem_keys_ofList]

theorem drawn_of_mem_edges (accepted : s.check = .ok checked) (listed : e ∈ checked.edges) :
    e.source ∈ checked.spec.drawnIds ∧ e.target ∈ checked.spec.drawnIds := by
  rw [(nodeOrder_eq_of_check accepted).2] at listed
  obtain ⟨l, -, rfl⟩ := Workflow.mem_edges_iff.mp listed
  have drawn := (wired_of_check accepted).sound.drawnIds_perm
  rw [spec_eq_of_check accepted, drawn.mem_iff, drawn.mem_iff]
  exact ⟨Vertices.name_mem_names _ _, Vertices.name_mem_names _ _⟩

/-- The same strings, as a drawing comes upon them. -/
theorem showsOnly_iff {kind : String → Prop} (accepted : s.check = .ok checked)
    (reserved : ∀ id ∈ [Workflow.startId, Workflow.finishId], kind id) :
    checked.ShowsOnly kind ↔
      (∀ entry ∈ checked.steps.entries, kind entry.1 ∧ kind entry.2) ∧
      ∀ e ∈ checked.edges, (kind e.source ∧ kind e.target) ∧ ∀ label ∈ e.label?, kind label := by
  constructor
  · rintro ⟨ids, descriptions, labels⟩
    refine ⟨fun entry listed => ?_, fun e listed => ?_⟩
    · obtain ⟨node, member, step, same, described⟩ := CheckedWorkflow.exists_of_mem_steps listed
      have drawn : entry.1 ∈ checked.spec.drawnIds := by
        rw [← (drawn_perm accepted).mem_iff]
        exact List.mem_append_left _ (List.mem_map_of_mem listed)
      exact ⟨ids _ drawn, described ▸ descriptions node member step⟩
    · obtain ⟨source, target⟩ := drawn_of_mem_edges accepted listed
      exact ⟨⟨ids _ source, ids _ target⟩, labels e listed⟩
  · rintro ⟨steps, edges⟩
    have named : ∀ node ∈ checked.spec.nodes, node.isStep → kind node.id ∧ kind node.describe :=
      fun node member step => steps _ (mem_steps_of_step accepted member step)
    refine ⟨fun id drawn => ?_, fun node member step => (named node member step).2,
      fun e listed => (edges e listed).2⟩
    rcases List.mem_append.mp drawn with step | other
    · obtain ⟨node, among, rfl⟩ := List.mem_map.mp step
      obtain ⟨member, step⟩ := List.mem_filter.mp among
      exact (named node member step).1
    · exact reserved id other

end Scope

end WorkflowBundle
