import WorkflowBundle.Entity

/-! What a bundle compiles to: its entities with the interfaces they expose, workflows with
their validated graphs, and an order in which everything can be registered. -/
namespace WorkflowBundle

/-- An edge of a workflow graph. It passes an output of its source to an input of its target,
or only orders the two. -/
structure Edge where
  source : String
  target : String
  output : Option String := none
  input : Option String := none
  deriving DecidableEq, Repr, Inhabited

namespace Edge

/-- By source, target, output and input; an edge that only orders comes first. -/
def order : Edge → Edge → Ordering :=
  compareLex (compareOn (·.source)) <| compareLex (compareOn (·.target)) <|
    compareLex (compareOn (·.output)) (compareOn (·.input))

instance : Ord Edge := ⟨order⟩

instance : Std.TransOrd Edge :=
  inferInstanceAs (Std.TransCmp (compareLex (compareOn fun e : Edge => e.source) _))

instance : Std.LawfulEqOrd Edge where
  eq_of_compare {a b} h := by
    have h : order a b = .eq := h
    simp only [order, compareLex, compareOn, Ordering.then_eq_eq] at h
    obtain ⟨source, target, output, input⟩ := h
    cases a; cases b
    simp only [Edge.mk.injEq]
    exact ⟨Std.LawfulEqOrd.eq_of_compare source, Std.LawfulEqOrd.eq_of_compare target,
      Std.LawfulEqOrd.eq_of_compare output, Std.LawfulEqOrd.eq_of_compare input⟩

def toJson (e : Edge) : Json :=
  .object ([("from", .string e.source), ("to", .string e.target)] ++
    Json.optional "from_var" .string e.output ++ Json.optional "to_var" .string e.input)

structure Draft where
  source : Option String := none
  target : Option String := none
  output : Option String := none
  input : Option String := none

def read : Document → Except Fault Edge :=
  Document.readRecord ["from", "to", "from_var", "to_var"] ({} : Draft)
    (fun field doc draft =>
      match field with
      | "from" => return { draft with source := some (← doc.readString) }
      | "to" => return { draft with target := some (← doc.readString) }
      | "from_var" => return { draft with output := ← doc.readOption Document.readString }
      | _ => return { draft with input := ← doc.readOption Document.readString })
    (fun draft => return {
      source := ← Document.required "from" draft.source
      target := ← Document.required "to" draft.target
      output := draft.output
      input := draft.input })

end Edge

structure CheckedWorkflow where
  spec : Workflow
  /-- The steps at top level in an order in which they can run. -/
  nodeOrder : List String
  /-- Edges between the steps, the start and the finish. -/
  edges : List Edge
  deriving Inhabited

namespace CheckedWorkflow

def members (w : CheckedWorkflow) : List (String × Json) :=
  [("spec", w.spec.toJson), ("node_order", .array (w.nodeOrder.map .string)),
    ("edges", .array (w.edges.map Edge.toJson))]

def toJson (w : CheckedWorkflow) : Json := .object w.members

structure Draft where
  spec : Option Workflow := none
  nodeOrder : Option (List String) := none
  edges : Option (List Edge) := none

def read (form : Form) : Document → Except Fault CheckedWorkflow :=
  Document.readRecord ["spec", "node_order", "edges"] ({} : Draft)
    (fun field doc draft =>
      match field with
      | "spec" => return { draft with spec := some (← Workflow.read form doc) }
      | "node_order" => return { draft with nodeOrder := some (← doc.readList Document.readString) }
      | _ => return { draft with edges := some (← doc.readList Edge.read) })
    (fun draft => return {
      spec := ← Document.required "spec" draft.spec
      nodeOrder := ← Document.required "node_order" draft.nodeOrder
      edges := ← Document.required "edges" draft.edges })

end CheckedWorkflow

inductive Member where
  | task (task : Task)
  | workflow (workflow : CheckedWorkflow)
  /-- A launch plan with the interface that it leaves to callers. -/
  | launchPlan (plan : LaunchPlan) (interface : Interface)
  deriving Inhabited

namespace Member

def id : Member → EntityId
  | task t => t.id
  | workflow w => w.spec.id
  | launchPlan p _ => p.id

def entity : Member → Entity
  | task t => .task t
  | workflow w => .workflow w.spec
  | launchPlan p _ => .launchPlan p

/-- What callers of the entity see. -/
def interface : Member → Interface
  | task t => t.interface
  | workflow w => w.spec.interface
  | launchPlan _ exposed => exposed

def toJson : Member → Json
  | task t => .object [("kind", .string "task"), ("spec", t.toJson)]
  | workflow w => .object (("kind", .string "workflow") :: w.members)
  | launchPlan p exposed =>
    .object [("kind", .string "launch_plan"), ("spec", p.toJson), ("interface", exposed.toJson)]

def readTask : Document → Except Fault Member :=
  Document.readRecord ["spec"] (none : Option Task)
    (fun _ doc _ => return some (← Task.read .buffered doc))
    (fun spec => return .task (← Document.required "spec" spec))

structure PlanDraft where
  spec : Option LaunchPlan := none
  interface : Option Interface := none

def readLaunchPlan : Document → Except Fault Member :=
  Document.readRecord ["spec", "interface"] ({} : PlanDraft)
    (fun field doc draft =>
      if field == "spec" then return { draft with spec := some (← LaunchPlan.read .buffered doc) }
      else return { draft with interface := some (← Interface.read .buffered doc) })
    (fun draft => do
      let spec ← Document.required "spec" draft.spec
      return .launchPlan spec (← Document.required "interface" draft.interface))

def read (form : Form) (doc : Document) : Except Fault Member := do
  let (kind, fields) ← doc.readTagged form "kind" (ResourceType.all.map ResourceType.name)
  match kind with
  | "task" => readTask fields
  | "workflow" => return .workflow (← CheckedWorkflow.read .buffered fields)
  | _ => readLaunchPlan fields

end Member

structure Closure where
  members : SortedMap EntityId Member := .empty
  /-- Registration order: what an entity refers to stands before it. -/
  order : List EntityId := []
  deriving Inhabited

namespace Closure

def get? (c : Closure) (id : EntityId) : Option Member := c.members.get? id

def size (c : Closure) : Nat := c.members.size

def isEmpty (c : Closure) : Bool := c.members.isEmpty

def workflows (c : Closure) : List CheckedWorkflow :=
  c.members.values.filterMap fun
    | .workflow w => some w
    | _ => none

def count (c : Closure) (resourceType : ResourceType) : Nat :=
  c.members.values.countP fun m => m.entity.resourceType == resourceType

/-- The members in identifier order; each carries its own key. -/
def toJson (c : Closure) : Json :=
  .object [("entities", .array (c.members.values.map Member.toJson)),
    ("order", .array (c.order.map EntityId.toJson))]

structure Draft where
  members : Option (List Member) := none
  order : Option (List EntityId) := none

/-- Reads a closure. Of members with one identifier the last counts. -/
def read (form : Form) : Document → Except Fault Closure :=
  Document.readRecord ["entities", "order"] ({} : Draft)
    (fun field doc draft =>
      if field == "entities" then
        return { draft with members := some (← doc.readList (Member.read form)) }
      else return { draft with order := some (← doc.readList (EntityId.read form)) })
    (fun draft => do
      let members ← Document.required "entities" draft.members
      let order ← Document.required "order" draft.order
      return ⟨.ofList (members.map fun m => (m.id, m)), order⟩)

end Closure

end WorkflowBundle
