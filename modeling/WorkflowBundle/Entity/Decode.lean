import WorkflowBundle.Index
import WorkflowBundle.Json.Reader
import WorkflowBundle.Text.Utf8
import WorkflowBundle.Text.WhiteSpace
import WorkflowBundle.Yaml

/-! Reading the entries of a bundle. An entry is one record as JSON or YAML; what kind of
record it is stands in the record. An entry that cannot be read is reported and the others
are read all the same. -/
namespace WorkflowBundle

structure Entry where
  name : String
  data : List UInt8
  deriving DecidableEq, Repr, Inhabited

inductive ReferenceSite where
  | planTarget
  | node (id : String)

def ReferenceSite.label : ReferenceSite → String
  | planTarget => "launch plan target"
  | node id => "node '" ++ id ++ "'"

inductive DecodeFault where
  | notText (fault : Utf8.Fault)
  | empty
  | notRecord (fault : Fault)
  | identifier (fault : IdentifierFault)
  /-- The record has an identifier of another resource type. -/
  | wrongRecord (id : EntityId) (record : ResourceType)
  | wrongReference (site : ReferenceSite) (expected : ResourceType) (found : EntityId)

def DecodeFault.message : DecodeFault → String
  | notText fault => "not valid UTF-8: " ++ fault.message
  | empty => "entry is empty"
  | notRecord fault => fault.message
  | identifier fault => fault.message
  | wrongRecord id record =>
    "identifier " ++ id.display ++ " is declared in a " ++ record.name ++ " record"
  | wrongReference site expected found =>
    site.label ++ " must reference a " ++ expected.name ++ ", found " ++ found.display

namespace EntityId

/-- Checks a reference to an entity of a given resource type. -/
def referenceFault? (site : ReferenceSite) (expected : ResourceType) (id : EntityId) :
    Option DecodeFault :=
  match id.fault with
  | some fault => some (.identifier fault)
  | none => if id.resourceType = expected then none else some (.wrongReference site expected id)

end EntityId

namespace Node

/-- A call must refer to an entity of the type that it calls. -/
def referenceFault? : Node → Option DecodeFault
  | call head kind reference => reference.referenceFault? (.node head.id) kind
  | _ => none

end Node

namespace Entity

def referenceFault? : Entity → Option DecodeFault
  | task _ => none
  | workflow w => w.allNodes.findSome? Node.referenceFault?
  | launchPlan p => p.workflow.referenceFault? .planTarget .workflow

/-- The first fault of the identifiers in a record. -/
def identifierFault? (e : Entity) : Option DecodeFault :=
  match e.id.fault with
  | some fault => some (.identifier fault)
  | none =>
    if e.id.resourceType = e.resourceType then e.referenceFault?
    else some (.wrongRecord e.id e.resourceType)

/-- What a text says: JSON when it starts with a brace, YAML otherwise. -/
def source (text : String) : Except DecodeFault Source :=
  match text.toList.dropWhile isWhiteSpace with
  | [] => .error .empty
  | c :: _ => .ok (if c = '\x7b' then Json.Reader.source text else Yaml.source "kind" text)

def ofText (text : String) : Except DecodeFault Entity := do
  let source ← source text
  let entity ← (source.read Entity.read).mapError .notRecord
  match entity.identifierFault? with
  | some fault => .error fault
  | none => .ok entity

def decode (data : List UInt8) : Except DecodeFault Entity := do
  ofText (← (Utf8.decode data).mapError .notText)

end Entity

namespace Entry

/-- The record of an entry, or a defect about the entry. -/
def decode (e : Entry) : Except Defect Record :=
  match Entity.decode e.data with
  | .ok entity => .ok ⟨e.name, entity⟩
  | .error fault => .error (.undecodable e.name fault.message)

/-- The records of the entries that can be read, and defects about the others. -/
def decodeAll (entries : List Entry) : List Record × List Defect :=
  (entries.filterMap fun e => e.decode.toOption,
    entries.filterMap fun e =>
      match e.decode with
      | .ok _ => none
      | .error defect => some defect)

end Entry

end WorkflowBundle
