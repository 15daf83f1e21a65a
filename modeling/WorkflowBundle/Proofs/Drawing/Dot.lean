import WorkflowBundle.Proofs.Drawing.DotText
import WorkflowBundle.Proofs.Drawing.Nodes

/-! Reading a drawing in DOT back. Ids and labels are written between quotes as they are. So the
drawing of an accepted workflow has its nodes and edges when all these strings are quotable, and
does not have them when an id is not. A label that is not can be made to look like the end of its
line and a line for an edge of its own. -/
namespace WorkflowBundle.Dot

open CheckedWorkflow (quoted)

/-- One line of a drawing, with the blank line below it if there is one. -/
inductive Line where
  | direction
  | defaults
  | step (id label : String)
  | start
  | finish
  | edge (source target : String) (label? : Option String)

namespace Line

def text : Line → String
  | direction => "    rankdir=TB;\n"
  | defaults => "    node [shape=box, style=rounded];\n\n"
  | step id label => "    " ++ quoted id ++ " [label=" ++ quoted (id ++ "\\n" ++ label) ++ "];\n"
  | start => "    " ++ quoted Workflow.startId ++ " [shape=circle];\n"
  | finish => "    " ++ quoted Workflow.finishId ++ " [shape=doublecircle];\n\n"
  | edge source target label? => "    " ++ quoted source ++ " -> " ++ quoted target ++
    match label? with
    | some label => " [label=" ++ quoted label ++ "];\n"
    | none => " [style=dashed];\n"

/-- The last tokens of a line, for one attribute. -/
def ending (name : String) (value : Token) : List Token :=
  [.mark '[', .word name, .mark '=', value, .mark ']', .mark ';']

def tokens : Line → List Token
  | direction => [.word "rankdir", .mark '=', .word "TB", .mark ';']
  | defaults => [.word "node", .mark '[', .word "shape", .mark '=', .word "box", .mark ',',
    .word "style", .mark '=', .word "rounded", .mark ']', .mark ';']
  | step id label => .quoted id :: ending "label" (.quoted (id ++ "\\n" ++ label))
  | start => .quoted Workflow.startId :: ending "shape" (.word "circle")
  | finish => .quoted Workflow.finishId :: ending "shape" (.word "doublecircle")
  | edge source target label? => .quoted source :: .mark '-' :: .mark '>' :: .quoted target ::
    match label? with
    | some label => ending "label" (.quoted label)
    | none => ending "style" (.word "dashed")

def statement : Line → Statement
  | direction | defaults => .setting
  | step id _ => .node id
  | start => .node Workflow.startId
  | finish => .node Workflow.finishId
  | edge source target _ => .edge source target

/-- What the workflow puts between the quotes of the line is quotable. -/
def Quotable : Line → Prop
  | direction | defaults | start | finish => True
  | step id label => Dot.Quotable id ∧ Dot.Quotable label
  | edge source target label? => (Dot.Quotable source ∧ Dot.Quotable target) ∧
    ∀ label ∈ label?, Dot.Quotable label

instance : (line : Line) → Decidable line.Quotable
  | direction | defaults | start | finish => inferInstanceAs (Decidable True)
  | step id label => inferInstanceAs (Decidable (Dot.Quotable id ∧ Dot.Quotable label))
  | edge source target label? => inferInstanceAs (Decidable ((Dot.Quotable source ∧
      Dot.Quotable target) ∧ ∀ label ∈ label?, Dot.Quotable label))

theorem quotable_label {id label : String} :
    Dot.Quotable id ∧ Dot.Quotable (id ++ "\\n" ++ label) ↔
      Dot.Quotable id ∧ Dot.Quotable label := by
  have lineBreak : Dot.Quotable "\\n" := by decide
  refine and_congr_right fun quotable => ?_
  rw [String.append_assoc, quotable.append_iff, lineBreak.append_iff]

theorem spells (line : Line) : Spells line.Quotable line.text line.tokens := by
  have indent : Spells True "    " [] := .fixed fun _ => rfl
  have arrow : Spells True " -> " [.mark '-', .mark '>'] := .fixed fun _ => rfl
  have label : Spells True " [label=" [.mark '[', .word "label", .mark '='] := .fixed fun _ => rfl
  have ends : Spells True "];\n" [.mark ']', .mark ';'] := .fixed fun _ => rfl
  cases line with
  | direction => exact .fixed fun _ => rfl
  | defaults => exact .fixed fun _ => rfl
  | start => exact .fixed fun _ => rfl
  | finish => exact .fixed fun _ => rfl
  | step id label' =>
    have opened := (indent.append (.quoted id)).append label
    refine ((opened.append (.quoted (id ++ "\\n" ++ label'))).append ends).congr ?_
    simp only [true_and, and_true]
    exact quotable_label
  | edge source target label? =>
    have joined := ((indent.append (.quoted source)).append arrow).append (.quoted target)
    cases label? with
    | none =>
      have dashed : Spells True " [style=dashed];\n" (ending "style" (.word "dashed")) :=
        .fixed fun _ => rfl
      refine (joined.append dashed).congr ?_
      simp [Quotable]
    | some text =>
      refine (joined.append ((label.append (.quoted text)).append ends)).congr ?_
      simp [Quotable]

theorem means (line : Line) : Means line.tokens [line.statement] := by
  intro rest
  cases line with
  | edge source target label? => cases label? <;> rfl
  | _ => rfl

end Line

variable {lines : List Line}

def drawing (lines : List Line) : String :=
  "digraph workflow \x7b\n" ++ String.join (lines.map Line.text) ++ "\x7d\n"

/-- The drawing with each string as it is. -/
def drawingTokens (lines : List Line) : List Token :=
  .word "digraph" :: .word "workflow" :: .mark '\x7b' ::
    (lines.flatMap Line.tokens ++ [.mark '\x7d'])

theorem tokens_drawing_iff : Dot.tokens .between (drawing lines).toList = drawingTokens lines ↔
    ∀ line ∈ lines, line.Quotable := by
  have header : Spells True "digraph workflow \x7b\n"
    [.word "digraph", .word "workflow", .mark '\x7b'] := .fixed fun _ => rfl
  have closing : Spells True "\x7d\n" [.mark '\x7d'] := .fixed fun _ => rfl
  have whole : Spells (∀ line ∈ lines, line.Quotable) (drawing lines) (drawingTokens lines) :=
    ((header.append (.join Line.spells lines)).append closing).congr (by simp)
  simpa [Dot.tokens, Place.atEnd] using whole [] []

theorem read_drawing (quotable : ∀ line ∈ lines, line.Quotable) :
    read (drawing lines) = some (lines.map Line.statement) :=
  read_eq_some (tokens_drawing_iff.mpr quotable) (.flatMap Line.means lines)

/-- A label that ends its line and begins one for an edge of its own. -/
def forgery (label source target label' : String) : String :=
  label ++ "\"];\n    \"" ++ source ++ "\" -> \"" ++ target ++ "\" [label=\"" ++ label'

theorem drawing_forgery {before after : List Line} {a b label source target label' : String} :
    drawing (before ++ .edge a b (some (forgery label source target label')) :: after) =
      drawing (before ++ .edge a b (some label) :: .edge source target (some label') :: after) := by
  have ends : "\"];\n    \"" = "\"" ++ ("];\n" ++ ("    " ++ "\"")) := rfl
  have arrow : "\" -> \"" = "\"" ++ (" -> " ++ "\"") := rfl
  have opening : "\" [label=\"" = "\"" ++ (" [label=" ++ "\"") := rfl
  have text : (Line.edge a b (some (forgery label source target label'))).text =
      (Line.edge a b (some label)).text ++ (Line.edge source target (some label')).text := by
    unfold forgery Line.text quoted
    rw [ends, arrow, opening]
    simp only [String.append_assoc, -String.reduceAppend]
  have joined : String.join (List.map Line.text
        (.edge a b (some (forgery label source target label')) :: after)) =
      String.join (List.map Line.text
        (.edge a b (some label) :: .edge source target (some label') :: after)) := by
    rw [List.map_cons, List.map_cons, List.map_cons, String.join_cons, String.join_cons,
      String.join_cons, text, String.append_assoc]
  unfold drawing
  rw [List.map_append, List.map_append, String.join_append, String.join_append, joined]

end WorkflowBundle.Dot

namespace WorkflowBundle

namespace CheckedWorkflow

variable {w : CheckedWorkflow}

def dotLines (w : CheckedWorkflow) : List Dot.Line :=
  .direction :: .defaults :: w.steps.entries.map (fun e => .step e.1 e.2) ++ [.start, .finish] ++
    w.edges.map fun e => .edge e.source e.target e.label?

/-- All strings that the drawing of the workflow has between quotes are quotable. -/
def Quotable (w : CheckedWorkflow) : Prop := w.ShowsOnly Dot.Quotable

/-- The drawing has a node statement for each node and an edge statement for each edge, and no
others. -/
def ReadsBack (w : CheckedWorkflow) : Prop :=
  ∃ said, Dot.read w.dot = some said ∧
    (said.filterMap Dot.Statement.node?).Perm w.spec.drawnIds ∧
    said.filterMap Dot.Statement.edge? = w.edges.map fun e => (e.source, e.target)

theorem dot_eq : w.dot = Dot.drawing w.dotLines := by
  have lines : w.dot =
      "digraph workflow \x7b\n    rankdir=TB;\n    node [shape=box, style=rounded];\n\n" ++
      String.join (w.steps.entries.map fun e => (Dot.Line.step e.1 e.2).text) ++
      "    " ++ quoted Workflow.startId ++ " [shape=circle];\n" ++
      "    " ++ quoted Workflow.finishId ++ " [shape=doublecircle];\n\n" ++
      String.join (w.edges.map fun e => (Dot.Line.edge e.source e.target e.label?).text) ++
      "\x7d\n" := rfl
  have header : "digraph workflow \x7b\n    rankdir=TB;\n    node [shape=box, style=rounded];\n\n" =
      "digraph workflow \x7b\n" ++ (Dot.Line.direction.text ++ Dot.Line.defaults.text) := rfl
  unfold Dot.drawing
  rw [lines, header]
  simp only [dotLines, List.map_append, List.map_cons, List.map_nil, List.map_map,
    Function.comp_def, Dot.Line.text, String.join_append, String.join_cons, String.join_nil,
    String.append_assoc, String.append_empty]

theorem node?_dotLines : (w.dotLines.map Dot.Line.statement).filterMap Dot.Statement.node? =
    w.steps.keys ++ [Workflow.startId, Workflow.finishId] := by
  simp [dotLines, SortedMap.keys, Dot.Line.statement, Dot.Statement.node?, List.filterMap_append,
    List.filterMap_map, List.filterMap_cons, Function.comp_def]

theorem edge?_dotLines : (w.dotLines.map Dot.Line.statement).filterMap Dot.Statement.edge? =
    w.edges.map fun e => (e.source, e.target) := by
  simp [dotLines, Dot.Line.statement, Dot.Statement.edge?, List.filterMap_append,
    List.filterMap_map, List.filterMap_cons, Function.comp_def]

theorem quotable_dotLines_iff : (∀ line ∈ w.dotLines, line.Quotable) ↔
    (∀ entry ∈ w.steps.entries, Dot.Quotable entry.1 ∧ Dot.Quotable entry.2) ∧
    ∀ e ∈ w.edges, (Dot.Quotable e.source ∧ Dot.Quotable e.target) ∧
      ∀ label ∈ e.label?, Dot.Quotable label := by
  simp only [dotLines, List.forall_mem_append, List.forall_mem_cons, List.forall_mem_map,
    Dot.Line.Quotable, List.not_mem_nil, false_implies, implies_true, true_and, and_true]

theorem quotable_of_readsBack (readsBack : w.ReadsBack) :
    ∀ id ∈ w.spec.drawnIds, Dot.Quotable id := by
  obtain ⟨said, read, nodes, -⟩ := readsBack
  intro id drawn
  obtain ⟨found, listed, isNode⟩ := List.mem_filterMap.mp (nodes.mem_iff.mpr drawn)
  have sound := Dot.sound_of_read read found listed
  cases found with
  | node => cases isNode; exact sound
  | setting | edge => cases isNode

end CheckedWorkflow

namespace Scope

variable {s : Scope} {checked : CheckedWorkflow}

theorem forall_dotLines_iff (accepted : s.check = .ok checked) :
    (∀ line ∈ checked.dotLines, line.Quotable) ↔ checked.Quotable := by
  rw [CheckedWorkflow.Quotable, showsOnly_iff accepted (by decide)]
  exact CheckedWorkflow.quotable_dotLines_iff

end Scope

namespace Sample

/-- A step `a` that gives an integer to a step `b`, which takes it as `x`. -/
def passing (output : String) : Scope where
  workflow := {
    id := callee "w"
    interface := {}
    nodes := [.call ⟨"a", [], []⟩ .workflow (callee "k"),
      .call ⟨"b", [⟨"x", .nodeOutput "a" output⟩], []⟩ .workflow (callee "l")] }
  index := {}
  interfaces := .ofList [(callee "k", ⟨.empty, .ofList [(output, .simple .integer)]⟩),
    (callee "l", ⟨.ofList [("x", ⟨.simple .integer, true, none⟩)], .empty⟩)]
  rule := .anyMember

end Sample

/-- The drawing of an accepted workflow reads back when its strings are quotable, which is exactly
when each of them is read as it is. With an id that is not quotable it does not read back. -/
theorem Scope.readsBack_of_check {s : Scope} {checked : CheckedWorkflow}
    (accepted : s.check = .ok checked) :
    (checked.Quotable → checked.ReadsBack) ∧
    (Dot.tokens .between checked.dot.toList = Dot.drawingTokens checked.dotLines ↔
      checked.Quotable) ∧
    (checked.ReadsBack → ∀ id ∈ checked.spec.drawnIds, Dot.Quotable id) := by
  have strings := forall_dotLines_iff accepted
  refine ⟨fun quotable => ?_, ?_, CheckedWorkflow.quotable_of_readsBack⟩
  · refine ⟨checked.dotLines.map Dot.Line.statement, ?_, ?_, CheckedWorkflow.edge?_dotLines⟩
    · rw [CheckedWorkflow.dot_eq, Dot.read_drawing (strings.mpr quotable)]
    · rw [CheckedWorkflow.node?_dotLines]
      exact drawn_perm accepted
  · rw [CheckedWorkflow.dot_eq, Dot.tokens_drawing_iff, strings]

/-- The name has a double quote behind a backslash. -/
theorem readsBack_passing : ∃ checked, (Sample.passing "\\\"v]").check = .ok checked ∧
    checked.Quotable ∧ checked.ReadsBack := by
  have accepted : (Sample.passing "\\\"v]").check = .ok _ :=
    Scope.check_eq_ok_iff.mpr ⟨by rfl, rfl⟩
  obtain ⟨readsBack, -, -⟩ := Scope.readsBack_of_check accepted
  refine ⟨_, accepted, ?quotable, readsBack ?quotable⟩
  exact ⟨by decide, by decide, by decide⟩

/-- In the drawing `b` gives a value to `a` too. -/
theorem Sample.read_passing_forgery {checked : CheckedWorkflow}
    (accepted : (passing (Dot.forgery "v" "b" "a" "w")).check = .ok checked) :
    Dot.read checked.dot = some [.setting, .setting, .node "a", .node "b", .node "start-node",
      .node "end-node", .edge "a" "b", .edge "b" "a", .edge "b" "end-node",
      .edge "start-node" "a"] := by
  have lines : checked.dotLines = [.direction, .defaults, .step "a" "workflow p/d/k@1",
      .step "b" "workflow p/d/l@1", .start, .finish] ++
      .edge "a" "b" (some (Dot.forgery "v" "b" "a" "w → x")) ::
      [.edge "b" "end-node" none, .edge "start-node" "a" none] := by
    obtain ⟨-, rfl⟩ := Scope.check_eq_ok_iff.mp accepted
    rfl
  rw [CheckedWorkflow.dot_eq, lines, Dot.drawing_forgery, Dot.read_drawing (by decide)]
  rfl

open Sample in
/-- The drawing has an edge that the workflow does not have. -/
theorem not_readsBack_passing : ∃ checked,
    (passing (Dot.forgery "v" "b" "a" "w")).check = .ok checked ∧ ¬checked.ReadsBack ∧
    checked.edges.map (fun e => (e.source, e.target)) =
      [("a", "b"), ("b", "end-node"), ("start-node", "a")] ∧
    (Dot.read checked.dot).map (fun said => said.filterMap Dot.Statement.edge?) =
      some [("a", "b"), ("b", "a"), ("b", "end-node"), ("start-node", "a")] := by
  have accepted : (passing (Dot.forgery "v" "b" "a" "w")).check = .ok _ :=
    Scope.check_eq_ok_iff.mpr ⟨by rfl, rfl⟩
  refine ⟨_, accepted, ?_, by rfl, by rw [read_passing_forgery accepted]; rfl⟩
  rintro ⟨said, read, -, edges⟩
  obtain rfl := Option.some.inj (read.symm.trans (read_passing_forgery accepted))
  exact absurd edges (by decide)

end WorkflowBundle
