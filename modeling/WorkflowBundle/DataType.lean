import WorkflowBundle.Record

/-! Types that parameters declare. -/
namespace WorkflowBundle

inductive SimpleKind where
  | integer
  | float
  | string
  | boolean
  | datetime
  | duration
  | binary
  | nothing
  deriving DecidableEq, Repr, Inhabited

namespace SimpleKind

def all : List SimpleKind := [integer, float, string, boolean, datetime, duration, binary, nothing]

def name : SimpleKind → String
  | integer => "integer"
  | float => "float"
  | string => "string"
  | boolean => "boolean"
  | datetime => "datetime"
  | duration => "duration"
  | binary => "binary"
  | nothing => "none"

/-- Integers and floats can be compared with each other. -/
def isNumeric : SimpleKind → Bool
  | integer | float => true
  | _ => false

end SimpleKind

inductive Dimensionality where
  | single
  | multipart
  deriving DecidableEq, Repr, Inhabited

namespace Dimensionality

def all : List Dimensionality := [single, multipart]

def name : Dimensionality → String
  | single => "single"
  | multipart => "multipart"

end Dimensionality

structure Column where
  name : String
  kind : SimpleKind
  deriving DecidableEq, Repr

/-- Declared type of a parameter. A blob with the empty format is one of any format, a schema
without columns is any schema, and a generic type is settled only at run time. -/
inductive DataType where
  | simple (kind : SimpleKind)
  | collection (item : DataType)
  | map (item : DataType)
  | blob (format : String) (dimensionality : Dimensionality)
  | schema (columns : List Column)
  | struct
  | union (members : List DataType)
  | generic (name : String)
  deriving Repr, Inhabited

namespace DataType

mutual

def same : DataType → DataType → Bool
  | simple k, simple l => k == l
  | collection a, collection b => same a b
  | map a, map b => same a b
  | blob f d, blob g e => f == g && d == e
  | schema cs, schema ds => cs == ds
  | struct, struct => true
  | union ms, union ns => sameAll ms ns
  | generic m, generic n => m == n
  | _, _ => false

def sameAll : List DataType → List DataType → Bool
  | [], [] => true
  | a :: as, b :: bs => same a b && sameAll as bs
  | _, _ => false

end

mutual

theorem same_iff : (a b : DataType) → (same a b = true ↔ a = b)
  | simple _, b => by cases b <;> simp [same]
  | collection a, b => by cases b <;> simp [same, same_iff a]
  | map a, b => by cases b <;> simp [same, same_iff a]
  | blob _ _, b => by cases b <;> simp [same]
  | schema _, b => by cases b <;> simp [same]
  | struct, b => by cases b <;> simp [same]
  | union ms, b => by cases b <;> simp [same, sameAll_iff ms]
  | generic _, b => by cases b <;> simp [same]

theorem sameAll_iff : (as bs : List DataType) → (sameAll as bs = true ↔ as = bs)
  | [], bs => by cases bs <;> simp [sameAll]
  | a :: as, bs => by cases bs <;> simp [sameAll, same_iff a, sameAll_iff as]

end

instance : DecidableEq DataType := fun a b => decidable_of_iff _ (same_iff a b)

mutual

/-- The type is a generic placeholder or has one inside. -/
def containsGeneric : DataType → Bool
  | generic _ => true
  | collection item | map item => containsGeneric item
  | union members => anyContainsGeneric members
  | simple _ | blob _ _ | schema _ | struct => false

def anyContainsGeneric : List DataType → Bool
  | [] => false
  | member :: members => containsGeneric member || anyContainsGeneric members

end

mutual

/-- Values of the type can be compared in a branch condition. -/
def isPrimitive : DataType → Bool
  | simple _ | generic _ => true
  | union members => allPrimitive members
  | _ => false

def allPrimitive : List DataType → Bool
  | [] => true
  | member :: members => isPrimitive member && allPrimitive members

end

theorem anyContainsGeneric_eq (members : List DataType) :
    anyContainsGeneric members = members.any containsGeneric := by
  induction members with
  | nil => rfl
  | cons member members ih => simp [anyContainsGeneric, ih]

mutual

def display : DataType → String
  | simple kind => kind.name
  | collection item => "collection<" ++ display item ++ ">"
  | map item => "map<" ++ display item ++ ">"
  | blob format dimensionality =>
    if format.isEmpty then "blob(" ++ dimensionality.name ++ ")"
    else "blob(" ++ format ++ ", " ++ dimensionality.name ++ ")"
  | schema columns =>
    if columns.isEmpty then "schema"
    else "schema\x7b" ++ ", ".intercalate (columns.map fun c => c.name ++ ": " ++ c.kind.name) ++ "\x7d"
  | struct => "struct"
  | union members => "union<" ++ " | ".intercalate (displayAll members) ++ ">"
  | generic name => "generic<" ++ name ++ ">"

def displayAll : List DataType → List String
  | [] => []
  | member :: members => display member :: displayAll members

end

mutual

def toJson : DataType → Json
  | simple kind => .object [("simple", .string kind.name)]
  | collection item => .object [("collection", toJson item)]
  | map item => .object [("map", toJson item)]
  | blob format dimensionality =>
    .object [("blob", .object [("format", .string format),
      ("dimensionality", .string dimensionality.name)])]
  | schema columns =>
    .object [("schema", .object [("columns", .array (columns.map fun c =>
      .object [("name", .string c.name), ("type", .string c.kind.name)]))])]
  | struct => .string "struct"
  | union members => .object [("union", .array (toJsonAll members))]
  | generic name => .object [("generic", .string name)]

def toJsonAll : List DataType → List Json
  | [] => []
  | member :: members => toJson member :: toJsonAll members

end

end DataType

def SimpleKind.read (form : Form) : Document → Except Fault SimpleKind :=
  Document.readChoice form all name

def Dimensionality.read (form : Form) : Document → Except Fault Dimensionality :=
  Document.readChoice form all name

namespace Column

structure Draft where
  name : Option String := none
  kind : Option SimpleKind := none

def read (form : Form) : Document → Except Fault Column :=
  Document.readRecord ["name", "type"] ({} : Draft)
    (fun field doc draft =>
      if field == "name" then return { draft with name := some (← doc.readString) }
      else return { draft with kind := some (← SimpleKind.read form doc) })
    (fun draft => return ⟨← Document.required "name" draft.name, ← Document.required "type" draft.kind⟩)

end Column

namespace DataType

def variants : List String :=
  ["simple", "collection", "map", "blob", "schema", "struct", "union", "generic"]

structure BlobDraft where
  format : String := ""
  dimensionality : Dimensionality := .single

def readBlob (form : Form) : Document → Except Fault DataType :=
  Document.readRecord ["format", "dimensionality"] ({} : BlobDraft)
    (fun field doc draft =>
      if field == "format" then return { draft with format := ← doc.readString }
      else return { draft with dimensionality := ← Dimensionality.read form doc })
    (fun draft => .ok (.blob draft.format draft.dimensionality))

def readSchema (form : Form) : Document → Except Fault DataType :=
  Document.readRecord ["columns"] []
    (fun _ doc _ => Document.readList (Column.read form) doc)
    (fun columns => .ok (.schema columns))

/-- Reads a type of at most `depth` levels of the document. -/
def readWithin (form : Form) : (depth : Nat) → Document → Except Fault DataType
  | 0, _ => .error .mismatch
  | depth + 1, doc => do
    let (name, payload) ← doc.readVariant form variants
    match name with
    | "simple" => return .simple (← Document.readPayload (SimpleKind.read form) payload)
    | "collection" => return .collection (← Document.readPayload (readWithin form depth) payload)
    | "map" => return .map (← Document.readPayload (readWithin form depth) payload)
    | "blob" => Document.readNamed form (readBlob form) payload
    | "schema" => Document.readNamed form (readSchema form) payload
    | "struct" => do
      Document.readNothing form payload
      return .struct
    | "union" =>
      return .union (← Document.readPayload (Document.readList (readWithin form depth)) payload)
    | _ => return .generic (← Document.readPayload Document.readString payload)

def read (form : Form) (doc : Document) : Except Fault DataType := readWithin form doc.depth doc

end DataType

end WorkflowBundle
