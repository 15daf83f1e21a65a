import WorkflowBundle.Record

/-! Identifiers of the entities in a bundle. They are totally ordered, so everything keyed
by them comes out in one order whatever order the bundle was packed in. -/
namespace WorkflowBundle

/-- What kind of entity an identifier points at. -/
inductive ResourceType where
  | task
  | workflow
  | launchPlan
  deriving DecidableEq, Repr, Inhabited

namespace ResourceType

def all : List ResourceType := [task, workflow, launchPlan]

def name : ResourceType → String
  | task => "task"
  | workflow => "workflow"
  | launchPlan => "launch_plan"

/-- Tasks come before workflows and workflows before launch plans. -/
def rank : ResourceType → Nat
  | task => 0
  | workflow => 1
  | launchPlan => 2

theorem rank_injective {a b : ResourceType} (h : a.rank = b.rank) : a = b := by
  cases a <;> cases b <;> simp_all [rank]

def read (form : Form) : Document → Except Fault ResourceType :=
  Document.readChoice form all name

end ResourceType

/-- Key of an entity, unique within a bundle. -/
structure EntityId where
  resourceType : ResourceType
  project : String
  domain : String
  name : String
  version : String
  deriving DecidableEq, Repr, Inhabited

/-- Why an identifier is refused: its first bad component. -/
inductive IdentifierFault where
  | emptyComponent (label : String)
  | strayCharacter (label value : String)
  deriving DecidableEq, Repr

def IdentifierFault.message : IdentifierFault → String
  | emptyComponent label => "identifier " ++ label ++ " is empty"
  | strayCharacter label value =>
    "identifier " ++ label ++ " '" ++ value ++ "' contains characters outside [A-Za-z0-9_.:-]"

namespace EntityId

/-- By resource type first, then component by component. -/
def order : EntityId → EntityId → Ordering :=
  compareLex (compareOn (·.resourceType.rank)) <|
    compareLex (compareOn (·.project)) <| compareLex (compareOn (·.domain)) <|
      compareLex (compareOn (·.name)) (compareOn (·.version))

instance : Ord EntityId := ⟨order⟩

instance : Std.TransOrd EntityId :=
  inferInstanceAs (Std.TransCmp (compareLex (compareOn fun id : EntityId => id.resourceType.rank) _))

instance : Std.LawfulEqOrd EntityId where
  eq_of_compare {a b} h := by
    have h : order a b = .eq := h
    simp only [order, compareLex, compareOn, Ordering.then_eq_eq] at h
    obtain ⟨rank, project, domain, name, version⟩ := h
    cases a; cases b
    simp only [EntityId.mk.injEq]
    exact ⟨ResourceType.rank_injective (Std.LawfulEqOrd.eq_of_compare rank),
      Std.LawfulEqOrd.eq_of_compare project, Std.LawfulEqOrd.eq_of_compare domain,
      Std.LawfulEqOrd.eq_of_compare name, Std.LawfulEqOrd.eq_of_compare version⟩

def retype (id : EntityId) (resourceType : ResourceType) : EntityId :=
  { id with resourceType }

def components (id : EntityId) : List (String × String) :=
  [("project", id.project), ("domain", id.domain), ("name", id.name), ("version", id.version)]

/-- Letters and digits of ASCII and the marks that may join them. -/
def isComponentChar (c : Char) : Bool :=
  c.isAlphanum || c == '_' || c == '.' || c == ':' || c == '-'

def componentFault (label value : String) : Option IdentifierFault :=
  if value.isEmpty then some (.emptyComponent label)
  else if value.toList.all isComponentChar then none
  else some (.strayCharacter label value)

/-- The first bad component; none when the identifier is well formed. -/
def fault (id : EntityId) : Option IdentifierFault :=
  id.components.findSome? fun (label, value) => componentFault label value

/-- Display form, `type:project/domain/name@version`. -/
def display (id : EntityId) : String :=
  id.resourceType.name ++ ":" ++ id.project ++ "/" ++ id.domain ++ "/" ++ id.name ++ "@" ++ id.version

def toJson (id : EntityId) : Json :=
  .object [("resource_type", .string id.resourceType.name), ("project", .string id.project),
    ("domain", .string id.domain), ("name", .string id.name), ("version", .string id.version)]

structure Draft where
  resourceType : Option ResourceType := none
  project : Option String := none
  domain : Option String := none
  name : Option String := none
  version : Option String := none

def fields : List String := ["resource_type", "project", "domain", "name", "version"]

def read (form : Form) : Document → Except Fault EntityId :=
  Document.readRecord fields ({} : Draft)
    (fun field doc draft =>
      match field with
      | "resource_type" => return { draft with resourceType := some (← ResourceType.read form doc) }
      | "project" => return { draft with project := some (← doc.readString) }
      | "domain" => return { draft with domain := some (← doc.readString) }
      | "name" => return { draft with name := some (← doc.readString) }
      | _ => return { draft with version := some (← doc.readString) })
    (fun draft => return {
      resourceType := ← Document.required "resource_type" draft.resourceType
      project := ← Document.required "project" draft.project
      domain := ← Document.required "domain" draft.domain
      name := ← Document.required "name" draft.name
      version := ← Document.required "version" draft.version })

end EntityId

end WorkflowBundle
