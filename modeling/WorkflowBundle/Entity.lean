import WorkflowBundle.Workflow.Record

/-! The records of a bundle: tasks, workflows and launch plans. -/
namespace WorkflowBundle

structure Task where
  id : EntityId
  taskType : String := ""
  interface : Interface
  /-- Settings of the execution, carried along unread. -/
  metadata : Json := .null
  deriving Inhabited

namespace Task

def members (t : Task) : List (String × Json) :=
  [("id", t.id.toJson), ("task_type", .string t.taskType), ("interface", t.interface.toJson)] ++
    match t.metadata with
    | .null => []
    | metadata => [("metadata", metadata)]

def toJson (t : Task) : Json := .object t.members

structure Draft where
  id : Option EntityId := none
  taskType : String := ""
  interface : Option Interface := none
  metadata : Json := .null

def read (form : Form) : Document → Except Fault Task :=
  Document.readRecord ["id", "task_type", "interface", "metadata"] ({} : Draft)
    (fun field doc draft =>
      match field with
      | "id" => return { draft with id := some (← EntityId.read form doc) }
      | "task_type" => return { draft with taskType := ← doc.readString }
      | "interface" => return { draft with interface := some (← Interface.read form doc) }
      | _ => return { draft with metadata := ← doc.toJson })
    (fun draft => return {
      id := ← Document.required "id" draft.id
      taskType := draft.taskType
      interface := ← Document.required "interface" draft.interface
      metadata := draft.metadata })

end Task

structure LaunchPlan where
  id : EntityId
  workflow : EntityId
  /-- Inputs that callers cannot give. -/
  fixedInputs : SortedMap String Literal := .empty
  /-- Inputs with another default, which callers may still give. -/
  defaultInputs : SortedMap String Literal := .empty
  deriving Inhabited

namespace LaunchPlan

def members (p : LaunchPlan) : List (String × Json) :=
  [("id", p.id.toJson), ("workflow", p.workflow.toJson),
    ("fixed_inputs", .ofMap Literal.toJson p.fixedInputs),
    ("default_inputs", .ofMap Literal.toJson p.defaultInputs)]

def toJson (p : LaunchPlan) : Json := .object p.members

structure Draft where
  id : Option EntityId := none
  workflow : Option EntityId := none
  fixedInputs : SortedMap String Literal := .empty
  defaultInputs : SortedMap String Literal := .empty

def read (form : Form) : Document → Except Fault LaunchPlan :=
  Document.readRecord ["id", "workflow", "fixed_inputs", "default_inputs"] ({} : Draft)
    (fun field doc draft =>
      match field with
      | "id" => return { draft with id := some (← EntityId.read form doc) }
      | "workflow" => return { draft with workflow := some (← EntityId.read form doc) }
      | "fixed_inputs" => return { draft with fixedInputs := ← doc.readMap (Literal.read form) }
      | _ => return { draft with defaultInputs := ← doc.readMap (Literal.read form) })
    (fun draft => return {
      id := ← Document.required "id" draft.id
      workflow := ← Document.required "workflow" draft.workflow
      fixedInputs := draft.fixedInputs
      defaultInputs := draft.defaultInputs })

end LaunchPlan

inductive Entity where
  | task (task : Task)
  | workflow (workflow : Workflow)
  | launchPlan (plan : LaunchPlan)
  deriving Inhabited

namespace Entity

def id : Entity → EntityId
  | task t => t.id
  | workflow w => w.id
  | launchPlan p => p.id

def resourceType : Entity → ResourceType
  | task _ => .task
  | workflow _ => .workflow
  | launchPlan _ => .launchPlan

/-- Entities that the record refers to, in identifier order. -/
def references (e : Entity) : List EntityId :=
  let listed := match e with
    | task _ => []
    | workflow w => w.references
    | launchPlan p => [p.workflow]
  (SortedMap.ofList (listed.map (·, ()))).keys

def toJson : Entity → Json
  | task t => .object (("kind", .string "task") :: t.members)
  | workflow w => .object (("kind", .string "workflow") :: w.members)
  | launchPlan p => .object (("kind", .string "launch_plan") :: p.members)

/-- Reads the record at the top of a text. -/
def read (outline : Outline) : Except Fault Entity := do
  let (kind, fields) ← outline.readTagged "kind" (ResourceType.all.map ResourceType.name)
  match kind with
  | "task" => return .task (← Task.read .buffered fields)
  | "workflow" => return .workflow (← Workflow.read .buffered fields)
  | _ => return .launchPlan (← LaunchPlan.read .buffered fields)

end Entity

end WorkflowBundle
