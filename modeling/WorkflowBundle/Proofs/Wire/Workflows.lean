import WorkflowBundle.Proofs.Wire.Values
import WorkflowBundle.Workflow.Record

/-! Workflows are read back from their JSON, node by node. -/
namespace WorkflowBundle

open Document (ofJson)

variable (form : Form)

theorem ResourceType.mem_all (resourceType : ResourceType) : resourceType ∈ ResourceType.all := by
  cases resourceType <;> decide

theorem ResourceType.read_name (resourceType : ResourceType) :
    ResourceType.read form (ofJson (.string resourceType.name)) = .ok resourceType :=
  Document.readChoice_name resourceType.mem_all (by decide)

theorem EntityId.read_toJson (id : EntityId) :
    EntityId.read form (ofJson id.toJson) = .ok id := by
  rw [EntityId.read, EntityId.toJson,
    Document.readRecord_object (by simp [EntityId.fields]) (by simp)]
  simp [Document.readString_string, ResourceType.read_name, Document.required, bind, Except.bind,
    pure, Except.pure]

namespace Origin

def Canonical : Origin → Prop
  | literal value => value.Canonical
  | workflowInput _ | nodeOutput _ _ => True

theorem readWorkflowInput_object (name : String) :
    readWorkflowInput (ofJson (.object [("name", .string name)])) = .ok (.workflowInput name) := by
  rw [readWorkflowInput, Document.readRecord_object (by simp) (by simp)]
  simp [Document.readString_string, Document.required, bind, Except.bind, pure, Except.pure]

theorem readNodeOutput_object (node output : String) :
    readNodeOutput (ofJson (.object [("node_id", .string node), ("var", .string output)])) =
      .ok (.nodeOutput node output) := by
  rw [readNodeOutput, Document.readRecord_object (by simp) (by simp)]
  simp [Document.readString_string, Document.required, bind, Except.bind, pure, Except.pure]

theorem read_toJson {origin : Origin} (canonical : origin.Canonical) :
    read form (ofJson origin.toJson) = .ok origin := by
  cases origin with
  | workflowInput name =>
    rw [read, toJson, Document.readVariant_object (by simp)]
    simp [Document.readNamed_object, readWorkflowInput_object, bind, Except.bind]
  | nodeOutput node output =>
    rw [read, toJson, Document.readVariant_object (by simp)]
    simp [Document.readNamed_object, readNodeOutput_object, bind, Except.bind]
  | literal value =>
    rw [read, toJson, Document.readVariant_object (by simp)]
    simp [Document.readPayload, Literal.read_toJson form canonical, bind, Except.bind, pure,
      Except.pure]

end Origin

theorem Binding.read_toJson {b : Binding} (canonical : b.origin.Canonical) :
    Binding.read form (ofJson b.toJson) = .ok b := by
  rw [Binding.read, Binding.toJson, Document.readRecord_object (by simp) (by simp)]
  simp [Document.readString_string, Origin.read_toJson form canonical, Document.required, bind,
    Except.bind, pure, Except.pure]

theorem Comparison.read_name (op : Comparison) :
    Comparison.read form (ofJson (.string op.name)) = .ok op :=
  Document.readChoice_name (by cases op <;> decide) (by decide)

namespace Operand

def Canonical : Operand → Prop
  | literal value => value.Canonical
  | input _ => True

theorem read_toJson {operand : Operand} (canonical : operand.Canonical) :
    read form (ofJson operand.toJson) = .ok operand := by
  cases operand with
  | input name =>
    rw [read, toJson, Document.readVariant_object (by simp)]
    simp [Document.readPayload, Document.readString_string, bind, Except.bind, pure, Except.pure]
  | literal value =>
    rw [read, toJson, Document.readVariant_object (by simp)]
    simp [Document.readPayload, Literal.read_toJson form canonical, bind, Except.bind, pure,
      Except.pure]

end Operand

namespace Condition

def Canonical : Condition → Prop
  | comparison left _ right => left.Canonical ∧ right.Canonical
  | and a b | or a b => a.Canonical ∧ b.Canonical

theorem readComparison_object {left right : Operand} (op : Comparison)
    (canonical : left.Canonical ∧ right.Canonical) :
    readComparison form (ofJson (.object [("left", left.toJson), ("op", .string op.name),
      ("right", right.toJson)])) = .ok (.comparison left op right) := by
  rw [readComparison, Document.readRecord_object (by simp) (by simp)]
  simp [Operand.read_toJson form canonical.1, Operand.read_toJson form canonical.2,
    Comparison.read_name, Document.required, bind, Except.bind, pure, Except.pure]

theorem readPair_array {α : Type} {read : Document → Except Fault α} {a b : Json} {x y : α}
    (first : read (ofJson a) = .ok x) (second : read (ofJson b) = .ok y) :
    readPair read (some (ofJson (.array [a, b]))) = .ok (x, y) := by
  simp [readPair, ofJson, first, second, bind, Except.bind, pure, Except.pure]

theorem readWithin_toJson {depth : Nat} {condition : Condition} (canonical : condition.Canonical)
    (enough : (ofJson condition.toJson).depth ≤ depth) :
    readWithin form depth (ofJson condition.toJson) = .ok condition := by
  induction depth generalizing condition with
  | zero =>
    have positive := (ofJson condition.toJson).depth_pos
    omega
  | succ depth ih =>
    have arms {a b : Condition} {name : String} (canonical : a.Canonical ∧ b.Canonical)
        (variant : condition.toJson = .object [(name, .array [a.toJson, b.toJson])]) :
        readPair (readWithin form depth) (some (ofJson (.array [a.toJson, b.toJson]))) =
          .ok (a, b) := by
      have whole := Document.depth_payload_le enough variant
      have first := @Document.depth_lt_array a.toJson [a.toJson, b.toJson] (by simp)
      have second := @Document.depth_lt_array b.toJson [a.toJson, b.toJson] (by simp)
      exact readPair_array (ih canonical.1 (by omega)) (ih canonical.2 (by omega))
    cases condition with
    | comparison left op right =>
      rw [toJson, readWithin, Document.readVariant_object (by simp)]
      simp [Document.readNamed_object, readComparison_object form op canonical, bind, Except.bind]
    | and a b =>
      rw [toJson, readWithin, Document.readVariant_object (by simp)]
      simp [arms canonical rfl, bind, Except.bind, pure, Except.pure]
    | or a b =>
      rw [toJson, readWithin, Document.readVariant_object (by simp)]
      simp [arms canonical rfl, bind, Except.bind, pure, Except.pure]

theorem read_toJson {condition : Condition} (canonical : condition.Canonical) :
    read form (ofJson condition.toJson) = .ok condition :=
  readWithin_toJson form canonical le_rfl

end Condition

theorem readList_strings (names : List String) :
    Document.readList Document.readString (ofJson (.array (names.map .string))) = .ok names :=
  Document.readList_array fun name _ => Document.readString_string name

theorem readList_bindings {bindings : List Binding}
    (canonical : ∀ b ∈ bindings, b.origin.Canonical) :
    Document.readList (Binding.read form) (ofJson (.array (bindings.map Binding.toJson))) =
      .ok bindings :=
  Document.readList_array fun b among => Binding.read_toJson form (canonical b among)

def NodeHead.Canonical (head : NodeHead) : Prop := ∀ b ∈ head.inputs, b.origin.Canonical

def Node.Canonical : Node → Prop
  | call head _ _ | start head | finish head => head.Canonical
  | branch head condition a b =>
    head.Canonical ∧ condition.Canonical ∧ a.Canonical ∧ b.Canonical

namespace Action

variable (readNode : Document → Except Fault Node)

theorem readReference_object (reference : EntityId) :
    readReference (ofJson (.object [("reference", reference.toJson)])) = .ok reference := by
  rw [readReference, Document.readRecord_object (by simp) (by simp)]
  simp [EntityId.read_toJson, Document.required, bind, Except.bind, pure, Except.pure]

theorem read_call (kind : ResourceType) (reference : EntityId) :
    read form readNode (ofJson (.object [("type", .string kind.name),
      ("reference", reference.toJson)])) = .ok (.call kind reference) := by
  rw [read, Document.readTagged_object (by cases kind <;> decide) (by simp)]
  cases kind <;> simp [ResourceType.name, readReference_object, bind, Except.bind, pure, Except.pure]

theorem read_branch {condition : Condition} (canonical : condition.Canonical) {a b : Node}
    (whenTrue : readNode (ofJson a.toJson) = .ok a)
    (whenFalse : readNode (ofJson b.toJson) = .ok b) :
    read form readNode (ofJson (.object [("type", .string "branch"),
      ("condition", condition.toJson), ("if_true", a.toJson), ("if_false", b.toJson)])) =
        .ok (.branch condition a b) := by
  rw [read, Document.readTagged_object (by decide) (by simp)]
  simp only [bind, Except.bind]
  rw [readBranch, Document.readRecord_object (by simp) (by simp)]
  simp [Condition.read_toJson .buffered canonical, whenTrue, whenFalse, Document.required, bind,
    Except.bind, pure, Except.pure]

theorem read_start :
    read form readNode (ofJson (.object [("type", .string "start")])) = .ok .start := by
  rw [read, Document.readTagged_object (by decide) (by simp)]
  rfl

theorem read_finish :
    read form readNode (ofJson (.object [("type", .string "end")])) = .ok .finish := by
  rw [read, Document.readTagged_object (by decide) (by simp)]
  rfl

end Action

namespace Node

theorem readWithin_json {depth : Nat} {head : NodeHead} (canonical : head.Canonical)
    {action : Action} {members : List (String × Json)}
    (acts : Action.read form (readWithin .buffered depth) (ofJson (.object members)) = .ok action) :
    readWithin form (depth + 1) (ofJson (json head members)) = .ok (action.ofHead head) := by
  rw [readWithin, json, Document.readRecord_object (by simp) (by simp)]
  simp [Document.readString_string, acts, readList_bindings form canonical, readList_strings,
    Document.required, bind, Except.bind, pure, Except.pure]

/-- What an action holds stands two levels below the node. -/
theorem depth_lt_json (head : NodeHead) {action : List (String × Json)} {key : String} {j : Json}
    (among : (key, j) ∈ action) : (ofJson j).depth < (ofJson (json head action)).depth := by
  have inside := Document.depth_lt_object among
  rw [json]
  exact inside.trans (@Document.depth_lt_object "kind" _ _ (by simp))

theorem readWithin_toJson {depth : Nat} {node : Node} (canonical : node.Canonical)
    (enough : (ofJson node.toJson).depth ≤ depth) :
    readWithin form depth (ofJson node.toJson) = .ok node := by
  induction depth generalizing form node with
  | zero =>
    have positive := (ofJson node.toJson).depth_pos
    omega
  | succ depth ih =>
    cases node with
    | call head kind reference =>
      exact readWithin_json form canonical (Action.read_call form _ kind reference)
    | start head => exact readWithin_json form canonical (Action.read_start form _)
    | finish head => exact readWithin_json form canonical (Action.read_finish form _)
    | branch head condition a b =>
      obtain ⟨heads, conditions, first, second⟩ := canonical
      rw [toJson] at enough ⊢
      have whenTrue := @depth_lt_json head [("type", .string "branch"),
        ("condition", condition.toJson), ("if_true", a.toJson), ("if_false", b.toJson)] "if_true"
        a.toJson (by simp)
      have whenFalse := @depth_lt_json head [("type", .string "branch"),
        ("condition", condition.toJson), ("if_true", a.toJson), ("if_false", b.toJson)] "if_false"
        b.toJson (by simp)
      exact readWithin_json form heads (Action.read_branch form _ conditions
        (ih .buffered first (by omega)) (ih .buffered second (by omega)))

theorem read_toJson {node : Node} (canonical : node.Canonical) :
    read form (ofJson node.toJson) = .ok node :=
  readWithin_toJson form canonical le_rfl

end Node

structure Workflow.Canonical (w : Workflow) : Prop where
  interface : w.interface.Canonical
  nodes : ∀ node ∈ w.nodes, node.Canonical
  outputs : ∀ b ∈ w.outputs, b.origin.Canonical

/-- A workflow is read back from its fields, which may have stood beside a tag. -/
theorem Workflow.read_members {w : Workflow} (canonical : w.Canonical) :
    Workflow.read form (ofJson (.object w.members)) = .ok w := by
  have nodes : Document.readList (Node.read form) (ofJson (.array (w.nodes.map Node.toJson))) =
      .ok w.nodes :=
    Document.readList_array fun node among => Node.read_toJson form (canonical.nodes node among)
  rw [Workflow.read, Workflow.members, Document.readRecord_object (by simp) (by simp)]
  simp [EntityId.read_toJson, Interface.read_toJson form canonical.interface, nodes,
    readList_bindings form canonical.outputs, Document.required, bind, Except.bind, pure,
    Except.pure]

end WorkflowBundle
