import WorkflowBundle.Closure

/-! Drawings of a checked workflow: its execution order as text, and its graph for two
programs that lay out graphs. -/
namespace WorkflowBundle

namespace Node

/-- What the node does, in a few words. -/
def describe (node : Node) : String :=
  match node with
  | call _ _ r =>
    node.kindName ++ " " ++ r.project ++ "/" ++ r.domain ++ "/" ++ r.name ++ "@" ++ r.version
  | branch _ _ a b => "branch " ++ a.id ++ " | " ++ b.id
  | start _ => "start"
  | finish _ => "end"

end Node

namespace Edge

/-- The values that an edge passes; none when it only orders. -/
def label? (e : Edge) : Option String :=
  match e.output, e.input with
  | some output, some input => some (if output = input then output else output ++ " → " ++ input)
  | _, _ => none

end Edge

namespace CheckedWorkflow

def steps (w : CheckedWorkflow) : SortedMap String String :=
  .ofList ((w.spec.nodes.filter Node.isStep).map fun n => (n.id, n.describe))

/-- Nodes with an edge to the given one, each once. -/
def producers (w : CheckedWorkflow) (id : String) : List String :=
  ((w.edges.filter (·.target == id)).map (·.source)).eraseDups

def line (w : CheckedWorkflow) (position : Nat) (id : String) : String :=
  let depends := match w.producers id with
    | [] => ""
    | producers => " [depends: " ++ ", ".intercalate producers ++ "]"
  toString (position + 1) ++ ". " ++ id ++ " (" ++ (w.steps.get? id).getD "end" ++ ")" ++ depends ++ "\n"

/-- The steps in execution order, each with the nodes that it waits for. -/
def text (w : CheckedWorkflow) : String :=
  w.spec.id.display ++ "\n" ++
    String.join ((w.nodeOrder ++ [Workflow.finishId]).mapIdx w.line)

def quoted (s : String) : String := "\"" ++ s ++ "\""

def dot (w : CheckedWorkflow) : String :=
  "digraph workflow \x7b\n    rankdir=TB;\n    node [shape=box, style=rounded];\n\n" ++
  String.join (w.steps.entries.map fun (id, label) =>
    "    " ++ quoted id ++ " [label=" ++ quoted (id ++ "\\n" ++ label) ++ "];\n") ++
  "    " ++ quoted Workflow.startId ++ " [shape=circle];\n" ++
  "    " ++ quoted Workflow.finishId ++ " [shape=doublecircle];\n\n" ++
  String.join (w.edges.map fun e =>
    "    " ++ quoted e.source ++ " -> " ++ quoted e.target ++
      (match e.label? with
        | some label => " [label=" ++ quoted label ++ "];\n"
        | none => " [style=dashed];\n")) ++
  "\x7d\n"

/-- An id as Mermaid takes it. -/
def mermaidId (id : String) : String :=
  String.ofList (id.toList.map fun c => if c = '-' then '_' else c)

def mermaid (w : CheckedWorkflow) : String :=
  "graph TD\n" ++
  String.join (w.steps.entries.map fun (id, label) =>
    "    " ++ mermaidId id ++ "[" ++ quoted (id ++ ": " ++ label) ++ "]\n") ++
  "    " ++ mermaidId Workflow.startId ++ "((start))\n" ++
  "    " ++ mermaidId Workflow.finishId ++ "((end))\n" ++
  String.join (w.edges.map fun e =>
    "    " ++ mermaidId e.source ++
      (match e.label? with
        | some label => " -->|" ++ label ++ "| "
        | none => " -.-> ") ++ mermaidId e.target ++ "\n")

end CheckedWorkflow

end WorkflowBundle
