import WorkflowBundle.Proofs.Drawing.Nodes
import WorkflowBundle.Proofs.Text.Breaks

/-! The identifiers of nodes in a Mermaid drawing. Rewriting an id forgets whether a character was a
hyphen or an underscore, so the nodes of an accepted workflow are kept apart exactly when no two of
their ids differ in nothing else. What declares a node or joins two of them stands on a line of its
own as long as no id and no label has a line break in it. -/
namespace WorkflowBundle

/-- The strings differ at most in where they have hyphens and where underscores. -/
def Confusable (a b : String) : Prop :=
  List.Forall₂ (fun c d => c = d ∨ c ∈ ['-', '_'] ∧ d ∈ ['-', '_']) a.toList b.toList

/-- What a Mermaid drawing says of a node or an edge. It is a line of the text unless an id or a label
in it has a line break. -/
inductive MermaidLine where
  | node (identifier shape : String)
  | edge (source arrow target : String)

namespace MermaidLine

def content : MermaidLine → String
  | node identifier shape => "    " ++ identifier ++ shape
  | edge source arrow target => "    " ++ source ++ arrow ++ target

def text (line : MermaidLine) : String := line.content ++ "\n"

/-- The identifier that the line declares. -/
def declared? : MermaidLine → Option String
  | node identifier _ => some identifier
  | edge .. => none

/-- The identifiers that the line joins. -/
def joined? : MermaidLine → Option (String × String)
  | node .. => none
  | edge source _ target => some (source, target)

end MermaidLine

/-- Ids of the nodes at top level and the reserved ones. -/
def Workflow.topLevelIds (w : Workflow) : List String :=
  w.nodes.map Node.id ++ [startId, finishId]

namespace CheckedWorkflow

variable {w : CheckedWorkflow}

/-- The line for an edge. -/
def mermaidEdge (e : Edge) : MermaidLine :=
  .edge (mermaidId e.source)
    (match e.label? with
      | some label => " -->|" ++ label ++ "| "
      | none => " -.-> ") (mermaidId e.target)

/-- The lines after the first. -/
def mermaidLines (w : CheckedWorkflow) : List MermaidLine :=
  w.steps.entries.map (fun e =>
    .node (mermaidId e.1) ("[" ++ quoted (e.1 ++ ": " ++ e.2) ++ "]")) ++
  [.node (mermaidId Workflow.startId) "((start))", .node (mermaidId Workflow.finishId) "((end))"] ++
  w.edges.map mermaidEdge

/-- The identifier stands for the node of the id and for no other node of the drawing. -/
def Identifies (w : CheckedWorkflow) (identifier id : String) : Prop :=
  id ∈ w.spec.drawnIds ∧ ∀ other ∈ w.spec.drawnIds, mermaidId other = identifier ↔ other = id

/-- Different nodes have different identifiers, wherever the drawing mentions them. -/
structure KeepsApart (w : CheckedWorkflow) : Prop where
  ids : ∀ a ∈ w.spec.topLevelIds, ∀ b ∈ w.spec.topLevelIds, a ≠ b → mermaidId a ≠ mermaidId b
  declared : (w.mermaidLines.filterMap MermaidLine.declared?).Nodup
  joined : List.Forall₂
    (fun e joined => w.Identifies joined.1 e.source ∧ w.Identifies joined.2 e.target) w.edges
    (w.mermaidLines.filterMap MermaidLine.joined?)

/-- What becomes of a character shows all about it but whether it was a hyphen or an underscore. -/
theorem rewritten_eq_iff {c d : Char} :
    (if c = '-' then '_' else c) = (if d = '-' then '_' else d) ↔
      c = d ∨ c ∈ ['-', '_'] ∧ d ∈ ['-', '_'] := by
  simp only [List.mem_cons, List.not_mem_nil, or_false]
  split <;> split <;> grind

theorem mermaidId_eq_iff {a b : String} : mermaidId a = mermaidId b ↔ Confusable a b := by
  simp only [mermaidId, Confusable, String.ofList_inj, ← List.forall₂_eq_eq_eq,
    List.forall₂_map_left_iff, List.forall₂_map_right_iff, rewritten_eq_iff]

instance (a b : String) : Decidable (Confusable a b) := decidable_of_iff _ mermaidId_eq_iff

theorem mermaid_eq :
    w.mermaid = "graph TD\n" ++ String.join (w.mermaidLines.map MermaidLine.text) := by
  have step : "]\n" = "]" ++ "\n" := rfl
  have start : "((start))\n" = "((start))" ++ "\n" := rfl
  have finish : "((end))\n" = "((end))" ++ "\n" := rfl
  have lines : w.mermaid = "graph TD\n" ++
      String.join (w.steps.entries.map fun e =>
        "    " ++ mermaidId e.1 ++ "[" ++ quoted (e.1 ++ ": " ++ e.2) ++ "]\n") ++
      "    " ++ mermaidId Workflow.startId ++ "((start))\n" ++
      "    " ++ mermaidId Workflow.finishId ++ "((end))\n" ++
      String.join (w.edges.map fun e => (mermaidEdge e).text) := rfl
  rw [lines, step, start, finish]
  simp only [mermaidLines, List.map_append, List.map_map, Function.comp_def,
    MermaidLine.text, MermaidLine.content, String.join_append, List.map_cons, List.map_nil,
    String.join_cons, String.join_nil, String.append_assoc, String.append_empty]

theorem betweenBreaks_mermaid_iff :
    betweenBreaks w.mermaid = "graph TD" :: w.mermaidLines.map MermaidLine.content ++ [""] ↔
      ∀ line ∈ w.mermaidLines, OneLine line.content := by
  have joined : w.mermaid =
      String.join (("graph TD" :: w.mermaidLines.map MermaidLine.content).map (· ++ "\n")) := by
    rw [mermaid_eq, List.map_cons, String.join_cons, List.map_map]
    rfl
  have header : OneLine "graph TD" := by decide
  rw [joined, betweenBreaks_join_iff, List.forall_mem_cons, List.forall_mem_map]
  exact and_iff_right header

theorem oneLine_mermaidId_iff {id : String} : OneLine (mermaidId id) ↔ OneLine id := by
  have rewritten (c : Char) : (if c = '-' then '_' else c) = '\n' ↔ c = '\n' := by
    split
    next hyphen => simp [hyphen]
    next => rfl
  simp only [OneLine, mermaidId, String.toList_ofList, List.mem_map, rewritten, exists_eq_right]

theorem oneLine_node_iff {id label : String} :
    OneLine (MermaidLine.node (mermaidId id)
      ("[" ++ quoted (id ++ ": " ++ label) ++ "]")).content ↔ OneLine id ∧ OneLine label := by
  have marks : OneLine "    " ∧ OneLine "[" ∧ OneLine "\"" ∧ OneLine ": " ∧ OneLine "]" := by decide
  simp only [MermaidLine.content, quoted, oneLine_append_iff, oneLine_mermaidId_iff, marks,
    true_and, and_true, and_self_left]

theorem oneLine_edge_iff {e : Edge} : OneLine (mermaidEdge e).content ↔
    (OneLine e.source ∧ OneLine e.target) ∧ ∀ label ∈ e.label?, OneLine label := by
  have marks : OneLine "    " ∧ OneLine " -->|" ∧ OneLine "| " ∧ OneLine " -.-> " := by decide
  cases labelled : e.label? with
  | none =>
    simp [mermaidEdge, labelled, MermaidLine.content, oneLine_append_iff, oneLine_mermaidId_iff,
      marks]
  | some label =>
    simp [mermaidEdge, labelled, MermaidLine.content, oneLine_append_iff, oneLine_mermaidId_iff,
      marks, and_right_comm]

theorem oneLine_mermaidLines_iff : (∀ line ∈ w.mermaidLines, OneLine line.content) ↔
    (∀ entry ∈ w.steps.entries, OneLine entry.1 ∧ OneLine entry.2) ∧
    ∀ e ∈ w.edges, (OneLine e.source ∧ OneLine e.target) ∧
      ∀ label ∈ e.label?, OneLine label := by
  have reserved : ∀ line ∈ [MermaidLine.node (mermaidId Workflow.startId) "((start))",
      .node (mermaidId Workflow.finishId) "((end))"], OneLine line.content := by decide +kernel
  rw [mermaidLines, List.forall_mem_append, List.forall_mem_append, and_iff_left reserved]
  simp only [List.forall_mem_map, oneLine_node_iff, oneLine_edge_iff]

theorem declared_mermaidLines : w.mermaidLines.filterMap MermaidLine.declared? =
    (w.steps.keys ++ [Workflow.startId, Workflow.finishId]).map mermaidId := by
  simp [mermaidLines, mermaidEdge, SortedMap.keys, MermaidLine.declared?, List.filterMap_append,
    List.filterMap_map, Function.comp_def]

theorem joined_mermaidLines : w.mermaidLines.filterMap MermaidLine.joined? =
    w.edges.map fun e => (mermaidId e.source, mermaidId e.target) := by
  simp [mermaidLines, mermaidEdge, MermaidLine.joined?, List.filterMap_append, List.filterMap_map,
    List.filterMap_cons, Function.comp_def]

end CheckedWorkflow

namespace Scope

open CheckedWorkflow

variable {s : Scope} {checked : CheckedWorkflow}

theorem mem_topLevelIds_of_drawn {w : Workflow} {id : String} (drawn : id ∈ w.drawnIds) :
    id ∈ w.topLevelIds := by
  rcases List.mem_append.mp drawn with step | reserved
  · exact List.mem_append_left _ ((List.filter_sublist.map Node.id).subset step)
  · exact List.mem_append_right _ reserved

theorem declared_perm (accepted : s.check = .ok checked) :
    (checked.mermaidLines.filterMap MermaidLine.declared?).Perm
      (checked.spec.drawnIds.map mermaidId) := by
  rw [declared_mermaidLines]
  exact (drawn_perm accepted).map _

theorem keepsApart_of_distinct (accepted : s.check = .ok checked)
    (distinct : ∀ a ∈ checked.spec.topLevelIds, ∀ b ∈ checked.spec.topLevelIds,
      Confusable a b → a = b) : checked.KeepsApart := by
  have same : ∀ a ∈ checked.spec.drawnIds, ∀ b ∈ checked.spec.drawnIds,
      mermaidId a = mermaidId b → a = b :=
    fun a drawn b drawn' eq => distinct a (mem_topLevelIds_of_drawn drawn) b
      (mem_topLevelIds_of_drawn drawn') (mermaidId_eq_iff.mp eq)
  have identifies : ∀ id ∈ checked.spec.drawnIds, checked.Identifies (mermaidId id) id :=
    fun id drawn => ⟨drawn, fun other drawn' => ⟨same other drawn' id drawn, congrArg _⟩⟩
  constructor
  · intro a top b top' differ eq
    exact differ (distinct a top b top' (mermaidId_eq_iff.mp eq))
  · rw [(declared_perm accepted).nodup_iff]
    exact (drawnIds_nodup accepted).map_on same
  · rw [joined_mermaidLines, List.forall₂_map_right_iff, List.forall₂_same]
    intro e listed
    obtain ⟨source, target⟩ := drawn_of_mem_edges accepted listed
    exact ⟨identifies _ source, identifies _ target⟩

end Scope

namespace Sample

/-- Two steps with the given ids, the second of which waits for the first. -/
def chained (first second : String) : Scope where
  workflow := {
    id := callee "w"
    interface := {}
    nodes := [.call ⟨first, [], []⟩ .workflow (callee "k"),
      .call ⟨second, [], [first]⟩ .workflow (callee "k")] }
  index := {}
  interfaces := .ofList [(callee "k", {})]
  rule := .anyMember

end Sample

/-- A Mermaid drawing of an accepted workflow declares its nodes, each once, and has each of them and
of the edges on a line of its own exactly when no id, description or label has a line break in it.
It keeps the nodes apart exactly when no two ids differ only in where they have hyphens and where
underscores. -/
theorem Scope.keepsApart_iff_of_check {s : Scope} {checked : CheckedWorkflow}
    (accepted : s.check = .ok checked) :
    checked.mermaid = "graph TD\n" ++ String.join (checked.mermaidLines.map MermaidLine.text) ∧
    (betweenBreaks checked.mermaid =
      "graph TD" :: checked.mermaidLines.map MermaidLine.content ++ [""] ↔
        checked.ShowsOnly OneLine) ∧
    (checked.mermaidLines.filterMap MermaidLine.declared?).Perm
      (checked.spec.drawnIds.map CheckedWorkflow.mermaidId) ∧
    (checked.KeepsApart ↔ ∀ a ∈ checked.spec.topLevelIds, ∀ b ∈ checked.spec.topLevelIds,
      Confusable a b → a = b) := by
  refine ⟨CheckedWorkflow.mermaid_eq, ?_, declared_perm accepted, ?_,
    keepsApart_of_distinct accepted⟩
  · rw [CheckedWorkflow.betweenBreaks_mermaid_iff, CheckedWorkflow.oneLine_mermaidLines_iff,
      showsOnly_iff accepted (by decide)]
  · intro apart a top b top' confusable
    by_contra differ
    exact apart.ids a top b top' differ (CheckedWorkflow.mermaidId_eq_iff.mpr confusable)

theorem keepsApart_chained : ∃ checked, (Sample.chained "a-b" "a_c").check = .ok checked ∧
    checked.KeepsApart ∧ ("a_b", "a_c") ∈ checked.mermaidLines.filterMap MermaidLine.joined? := by
  have accepted : (Sample.chained "a-b" "a_c").check = .ok _ :=
    Scope.check_eq_ok_iff.mpr ⟨by rfl, rfl⟩
  obtain ⟨-, -, -, apart⟩ := Scope.keepsApart_iff_of_check accepted
  refine ⟨_, accepted, apart.mpr ?_, by decide +kernel⟩
  decide

/-- Two steps become one, and the edge between them an edge from it to itself. -/
theorem not_keepsApart_chained : ∃ checked, (Sample.chained "a-b" "a_b").check = .ok checked ∧
    ¬checked.KeepsApart ∧
    checked.mermaidLines.filterMap MermaidLine.declared? =
      ["a_b", "a_b", "start_node", "end_node"] ∧
    ("a_b", "a_b") ∈ checked.mermaidLines.filterMap MermaidLine.joined? ∧
    betweenBreaks checked.mermaid = ["graph TD", "    a_b[\"a-b: workflow p/d/k@1\"]",
      "    a_b[\"a_b: workflow p/d/k@1\"]", "    start_node((start))", "    end_node((end))",
      "    a_b -.-> a_b", "    a_b -.-> end_node", "    start_node -.-> a_b", ""] := by
  have accepted : (Sample.chained "a-b" "a_b").check = .ok _ :=
    Scope.check_eq_ok_iff.mpr ⟨by rfl, rfl⟩
  refine ⟨_, accepted, fun apart => ?_, by rfl, by decide +kernel, ?_⟩
  · exact apart.ids "a-b" (by decide) "a_b" (by decide) (by decide) (by decide)
  · rw [CheckedWorkflow.betweenBreaks_mermaid_iff.mpr (by decide +kernel)]
    rfl

end WorkflowBundle
