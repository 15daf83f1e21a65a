import WorkflowBundle.Workflow

/-! Workflows as JSON and from documents. -/
namespace WorkflowBundle

namespace Origin

def toJson : Origin → Json
  | workflowInput name => .object [("workflow_input", .object [("name", .string name)])]
  | nodeOutput node output =>
    .object [("node_output", .object [("node_id", .string node), ("var", .string output)])]
  | literal value => .object [("literal", value.toJson)]

def readWorkflowInput : Document → Except Fault Origin :=
  Document.readRecord ["name"] (none : Option String)
    (fun _ doc _ => return some (← doc.readString))
    (fun name => return .workflowInput (← Document.required "name" name))

structure OutputDraft where
  node : Option String := none
  output : Option String := none

def readNodeOutput : Document → Except Fault Origin :=
  Document.readRecord ["node_id", "var"] ({} : OutputDraft)
    (fun field doc draft =>
      if field == "node_id" then return { draft with node := some (← doc.readString) }
      else return { draft with output := some (← doc.readString) })
    (fun draft => do
      let node ← Document.required "node_id" draft.node
      return .nodeOutput node (← Document.required "var" draft.output))

def read (form : Form) (doc : Document) : Except Fault Origin := do
  let (name, payload) ← doc.readVariant form ["workflow_input", "node_output", "literal"]
  match name with
  | "workflow_input" => Document.readNamed form readWorkflowInput payload
  | "node_output" => Document.readNamed form readNodeOutput payload
  | _ => return .literal (← Document.readPayload (Literal.read form) payload)

end Origin

namespace Binding

def toJson (b : Binding) : Json :=
  .object [("var", .string b.parameter), ("source", b.origin.toJson)]

structure Draft where
  parameter : Option String := none
  origin : Option Origin := none

def read (form : Form) : Document → Except Fault Binding :=
  Document.readRecord ["var", "source"] ({} : Draft)
    (fun field doc draft =>
      if field == "var" then return { draft with parameter := some (← doc.readString) }
      else return { draft with origin := some (← Origin.read form doc) })
    (fun draft => do return ⟨← Document.required "var" draft.parameter,
      ← Document.required "source" draft.origin⟩)

end Binding

def Comparison.read (form : Form) : Document → Except Fault Comparison :=
  Document.readChoice form all name

namespace Operand

def toJson : Operand → Json
  | input name => .object [("var", .string name)]
  | literal value => .object [("literal", value.toJson)]

def read (form : Form) (doc : Document) : Except Fault Operand := do
  let (name, payload) ← doc.readVariant form ["var", "literal"]
  match name with
  | "var" => return .input (← Document.readPayload Document.readString payload)
  | _ => return .literal (← Document.readPayload (Literal.read form) payload)

end Operand

namespace Condition

def toJson : Condition → Json
  | comparison left op right =>
    .object [("comparison", .object [("left", left.toJson), ("op", .string op.name),
      ("right", right.toJson)])]
  | and a b => .object [("and", .array [a.toJson, b.toJson])]
  | or a b => .object [("or", .array [a.toJson, b.toJson])]

structure Draft where
  left : Option Operand := none
  op : Option Comparison := none
  right : Option Operand := none

def readComparison (form : Form) : Document → Except Fault Condition :=
  Document.readRecord ["left", "op", "right"] ({} : Draft)
    (fun field doc draft =>
      match field with
      | "left" => return { draft with left := some (← Operand.read form doc) }
      | "op" => return { draft with op := some (← Comparison.read form doc) }
      | _ => return { draft with right := some (← Operand.read form doc) })
    (fun draft => do
      let left ← Document.required "left" draft.left
      let op ← Document.required "op" draft.op
      return .comparison left op (← Document.required "right" draft.right))

def readPair (read : Document → Except Fault α) : Option Document → Except Fault (α × α)
  | some (.list (first :: rest)) => do
    let a ← read first
    match rest with
    | [] => .error .mismatch
    | second :: others =>
      let b ← read second
      if others.isEmpty then return (a, b) else .error .mismatch
  | _ => .error .mismatch

def readWithin (form : Form) : (depth : Nat) → Document → Except Fault Condition
  | 0, _ => .error .mismatch
  | depth + 1, doc => do
    let (name, payload) ← doc.readVariant form ["comparison", "and", "or"]
    match name with
    | "comparison" => Document.readNamed form (readComparison form) payload
    | "and" => do
      let (a, b) ← readPair (readWithin form depth) payload
      return .and a b
    | _ => do
      let (a, b) ← readPair (readWithin form depth) payload
      return .or a b

def read (form : Form) (doc : Document) : Except Fault Condition := readWithin form doc.depth doc

end Condition

/-- What a node does, without its id and bindings. -/
inductive Action where
  | call (kind : ResourceType) (reference : EntityId)
  | branch (condition : Condition) (whenTrue whenFalse : Node)
  | start
  | finish

namespace Action

def ofHead (head : NodeHead) : Action → Node
  | call kind reference => .call head kind reference
  | branch condition a b => .branch head condition a b
  | start => .start head
  | finish => .finish head

def variants : List String := ["task", "workflow", "launch_plan", "branch", "start", "end"]

def readReference : Document → Except Fault EntityId :=
  Document.readRecord ["reference"] (none : Option EntityId)
    (fun _ doc _ => return some (← EntityId.read .buffered doc))
    (Document.required "reference")

structure Draft where
  condition : Option Condition := none
  whenTrue : Option Node := none
  whenFalse : Option Node := none

def readBranch (readNode : Document → Except Fault Node) : Document → Except Fault Action :=
  Document.readRecord ["condition", "if_true", "if_false"] ({} : Draft)
    (fun field doc draft =>
      match field with
      | "condition" => return { draft with condition := some (← Condition.read .buffered doc) }
      | "if_true" => return { draft with whenTrue := some (← readNode doc) }
      | _ => return { draft with whenFalse := some (← readNode doc) })
    (fun draft => do
      let condition ← Document.required "condition" draft.condition
      let whenTrue ← Document.required "if_true" draft.whenTrue
      return .branch condition whenTrue (← Document.required "if_false" draft.whenFalse))

def read (form : Form) (readNode : Document → Except Fault Node) (doc : Document) :
    Except Fault Action := do
  let (name, fields) ← doc.readTagged form "type" variants
  match name with
  | "task" => return .call .task (← readReference fields)
  | "workflow" => return .call .workflow (← readReference fields)
  | "launch_plan" => return .call .launchPlan (← readReference fields)
  | "branch" => readBranch readNode fields
  | "start" => return .start
  | _ => return .finish

end Action

namespace Node

/-- The node with its action under a tag. -/
def json (head : NodeHead) (action : List (String × Json)) : Json :=
  .object [("id", .string head.id), ("kind", .object action),
    ("inputs", .array (head.inputs.map Binding.toJson)),
    ("upstream", .array (head.runsAfter.map .string))]

def toJson : Node → Json
  | call head kind reference =>
    json head [("type", .string kind.name), ("reference", reference.toJson)]
  | branch head condition a b =>
    json head [("type", .string "branch"), ("condition", condition.toJson),
      ("if_true", a.toJson), ("if_false", b.toJson)]
  | start head => json head [("type", .string "start")]
  | finish head => json head [("type", .string "end")]

structure Draft where
  id : Option String := none
  action : Option Action := none
  inputs : List Binding := []
  runsAfter : List String := []

def readWithin (form : Form) : (depth : Nat) → Document → Except Fault Node
  | 0, _ => .error .mismatch
  | depth + 1, doc =>
    Document.readRecord ["id", "kind", "inputs", "upstream"] ({} : Draft)
      (fun field doc draft =>
        match field with
        | "id" => return { draft with id := some (← doc.readString) }
        | "kind" => return { draft with action := some (← Action.read form (readWithin .buffered depth) doc) }
        | "inputs" => return { draft with inputs := ← doc.readList (Binding.read form) }
        | _ => return { draft with runsAfter := ← doc.readList Document.readString })
      (fun draft => do
        let id ← Document.required "id" draft.id
        let action ← Document.required "kind" draft.action
        return action.ofHead ⟨id, draft.inputs, draft.runsAfter⟩)
      doc

def read (form : Form) (doc : Document) : Except Fault Node := readWithin form doc.depth doc

end Node

namespace Workflow

/-- The fields of a workflow, to stand beside a tag or alone. -/
def members (w : Workflow) : List (String × Json) :=
  [("id", w.id.toJson), ("interface", w.interface.toJson),
    ("nodes", .array (w.nodes.map Node.toJson)), ("outputs", .array (w.outputs.map Binding.toJson))]

def toJson (w : Workflow) : Json := .object w.members

structure Draft where
  id : Option EntityId := none
  interface : Option Interface := none
  nodes : List Node := []
  outputs : List Binding := []

def read (form : Form) : Document → Except Fault Workflow :=
  Document.readRecord ["id", "interface", "nodes", "outputs"] ({} : Draft)
    (fun field doc draft =>
      match field with
      | "id" => return { draft with id := some (← EntityId.read form doc) }
      | "interface" => return { draft with interface := some (← Interface.read form doc) }
      | "nodes" => return { draft with nodes := ← doc.readList (Node.read form) }
      | _ => return { draft with outputs := ← doc.readList (Binding.read form) })
    (fun draft => return {
      id := ← Document.required "id" draft.id
      interface := ← Document.required "interface" draft.interface
      nodes := draft.nodes
      outputs := draft.outputs })

end Workflow

end WorkflowBundle
