import WorkflowBundle.Interface.Narrowing

/-! The entities of a bundle by identifier, and the interfaces that they expose. -/
namespace WorkflowBundle

/-- An entity with the entry that it was read from. -/
structure Record where
  entry : String
  entity : Entity
  deriving Inhabited

/-- One record for each declared identifier. -/
structure Index where
  records : SortedMap EntityId Record := .empty
  deriving Inhabited

namespace Index

/-- Adds records in turn. The first of an identifier is kept; every other one is a defect. -/
def addAll : List Record → Index → Index × List Defect
  | [], index => (index, [])
  | record :: records, index =>
    let id := record.entity.id
    match index.records.get? id with
    | some kept =>
      let (index, defects) := addAll records index
      (index, .duplicateEntity id kept.entry record.entry :: defects)
    | none => addAll records ⟨index.records.insert id record⟩

def declares (index : Index) (id : EntityId) : Bool := index.records.contains id

/-- References of one entity to what is not declared. -/
def unresolved (index : Index) (id : EntityId) (entity : Entity) : List Defect :=
  (entity.references.filter fun r => !index.declares r).map (.unresolvedReference id)

/-- Indexes records, taken in order of their entries. -/
def build (records : List Record) : Index × List Defect :=
  let sorted := records.mergeSort fun a b => (compare a.entry b.entry).isLE
  let (index, duplicates) := addAll sorted {}
  (index, duplicates ++ index.records.entries.flatMap fun e => index.unresolved e.1 e.2.entity)

def size (index : Index) : Nat := index.records.size

def isEmpty (index : Index) : Bool := index.records.isEmpty

def ids (index : Index) : List EntityId := index.records.keys

def entities (index : Index) : List Entity := index.records.values.map (·.entity)

def get? (index : Index) (id : EntityId) : Option Entity := (index.records.get? id).map (·.entity)

def tasks (index : Index) : List Task :=
  index.entities.filterMap fun
    | .task t => some t
    | _ => none

def workflows (index : Index) : List Workflow :=
  index.entities.filterMap fun
    | .workflow w => some w
    | _ => none

def launchPlans (index : Index) : List LaunchPlan :=
  index.entities.filterMap fun
    | .launchPlan p => some p
    | _ => none

def launchPlan? (index : Index) (id : EntityId) : Option LaunchPlan :=
  match index.get? id with
  | some (.launchPlan p) => some p
  | _ => none

end Index

/-- The interfaces of the entities that can be called. -/
abbrev InterfaceTable := SortedMap EntityId Interface

namespace Interface

/-- Defaults that are no values of their type. -/
def defaultDefects (id : EntityId) (i : Interface) : List Defect :=
  i.inputs.entries.filterMap fun (name, p) =>
    match p.default with
    | some value =>
      if p.dataType.admits value then none
      else some (InputFault.badDefault value.shape p.dataType |>.defect id name)
    | none => none

/-- Generic types, which have a meaning only at the boundary of a workflow. -/
def genericDefects (id : EntityId) (i : Interface) : List Defect :=
  (i.inputTypes.entries ++ i.outputs.entries).filterMap fun (name, type) =>
    if type.containsGeneric then some (InputFault.genericInTask type |>.defect id name) else none

end Interface

namespace InterfaceTable

def add (state : InterfaceTable × List Defect) (id : EntityId) (i : Interface)
    (defects : List Defect) : InterfaceTable × List Defect :=
  if defects.isEmpty then (state.1.insert id i, state.2) else (state.1, state.2 ++ defects)

def addTask (state : InterfaceTable × List Defect) (t : Task) : InterfaceTable × List Defect :=
  add state t.id t.interface (t.interface.defaultDefects t.id ++ t.interface.genericDefects t.id)

def addWorkflow (state : InterfaceTable × List Defect) (w : Workflow) :
    InterfaceTable × List Defect :=
  add state w.id w.interface (w.interface.defaultDefects w.id)

/-- A plan over a workflow without interface adds nothing: that is a defect already. -/
def addLaunchPlan (state : InterfaceTable × List Defect) (p : LaunchPlan) :
    InterfaceTable × List Defect :=
  match state.1.get? p.workflow with
  | none => state
  | some workflow =>
    match p.narrow workflow with
    | .ok exposed => (state.1.insert p.id exposed, state.2)
    | .error defects => (state.1, state.2 ++ defects)

/-- Interfaces of everything in an index; launch plans after the workflows that they narrow. -/
def resolve (index : Index) : InterfaceTable × List Defect :=
  let state := index.tasks.foldl addTask (.empty, [])
  let state := index.workflows.foldl addWorkflow state
  index.launchPlans.foldl addLaunchPlan state

end InterfaceTable

end WorkflowBundle
