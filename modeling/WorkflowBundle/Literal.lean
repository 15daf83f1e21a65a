import WorkflowBundle.DataType

/-! Values written out in a bundle: defaults, inputs that a launch plan fixes, static
bindings, operands of conditions. -/
namespace WorkflowBundle

inductive Literal where
  | integer (value : Int64)
  | float (value : Float)
  | string (value : String)
  | boolean (value : Bool)
  | datetime (value : String)
  | duration (value : String)
  /-- Bytes in base 64. -/
  | binary (value : String)
  | nothing
  | collection (items : List Literal)
  | map (entries : List (String × Literal))
  | blob (uri : String)
  | schema (uri : String)
  | struct (value : Json)
  deriving Inhabited

namespace Literal

def shape : Literal → String
  | integer _ => "integer"
  | float _ => "float"
  | string _ => "string"
  | boolean _ => "boolean"
  | datetime _ => "datetime"
  | duration _ => "duration"
  | binary _ => "binary"
  | nothing => "none"
  | collection _ => "collection"
  | map _ => "map"
  | blob _ => "blob"
  | schema _ => "schema"
  | struct _ => "struct"

/-- Kind of a scalar value. -/
def scalarKind? : Literal → Option SimpleKind
  | integer _ => some .integer
  | float _ => some .float
  | string _ => some .string
  | boolean _ => some .boolean
  | datetime _ => some .datetime
  | duration _ => some .duration
  | binary _ => some .binary
  | nothing => some .nothing
  | _ => none

def dataType? (value : Literal) : Option DataType := value.scalarKind?.map .simple

def isPrimitive (value : Literal) : Bool := value.scalarKind?.isSome

end Literal

namespace SimpleKind

/-- A scalar has its own kind, and an integer is a float too. -/
def admits (kind : SimpleKind) (value : Literal) : Bool :=
  match value.scalarKind? with
  | some own => own == kind || own == .integer && kind == .float
  | none => false

end SimpleKind

namespace DataType

mutual

/-- The value can be given to a parameter of the type. Collections and maps are taken item
by item, a union takes what one of its members takes and a generic type takes everything. -/
def admits : DataType → Literal → Bool
  | generic _, _ => true
  | union members, value => anyAdmits members value
  | simple kind, value => kind.admits value
  | collection item, .collection items => items.all (admits item)
  | map item, .map entries => entries.all fun e => admits item e.2
  | blob _ _, .blob _ => true
  | schema _, .schema _ => true
  | struct, .struct _ => true
  | _, _ => false

def anyAdmits : List DataType → Literal → Bool
  | [], _ => false
  | member :: members, value => admits member value || anyAdmits members value

end

theorem anyAdmits_eq (members : List DataType) (value : Literal) :
    anyAdmits members value = members.any (admits · value) := by
  induction members with
  | nil => rfl
  | cons member members ih => simp [anyAdmits, ih]

end DataType

namespace Literal

mutual

def toJson : Literal → Json
  | integer value => .object [("integer", .int value.toInt)]
  | float value => .object [("float", .float value)]
  | string value => .object [("string", .string value)]
  | boolean value => .object [("boolean", .bool value)]
  | datetime value => .object [("datetime", .string value)]
  | duration value => .object [("duration", .string value)]
  | binary value => .object [("binary", .string value)]
  | nothing => .string "none"
  | collection items => .object [("collection", .array (toJsonItems items))]
  | map entries => .object [("map", .object (toJsonEntries entries))]
  | blob uri => .object [("blob", .object [("uri", .string uri)])]
  | schema uri => .object [("schema", .object [("uri", .string uri)])]
  | struct value => .object [("struct", value)]

def toJsonItems : List Literal → List Json
  | [] => []
  | item :: items => toJson item :: toJsonItems items

def toJsonEntries : List (String × Literal) → List (String × Json)
  | [] => []
  | (key, value) :: entries => (key, toJson value) :: toJsonEntries entries

end

def variants : List String :=
  ["integer", "float", "string", "boolean", "datetime", "duration", "binary", "none",
    "collection", "map", "blob", "schema", "struct"]

def readUri : Document → Except Fault String :=
  Document.readRecord ["uri"] (none : Option String)
    (fun _ doc _ => return some (← doc.readString))
    (Document.required "uri")

/-- Reads a value of at most `depth` levels of the document. -/
def readWithin (form : Form) : (depth : Nat) → Document → Except Fault Literal
  | 0, _ => .error .mismatch
  | depth + 1, doc => do
    let (name, payload) ← doc.readVariant form variants
    match name with
    | "integer" => return .integer (← Document.readPayload Document.readInt64 payload)
    | "float" => return .float (← Document.readPayload Document.readFloat payload)
    | "string" => return .string (← Document.readPayload Document.readString payload)
    | "boolean" => return .boolean (← Document.readPayload Document.readBool payload)
    | "datetime" => return .datetime (← Document.readPayload Document.readString payload)
    | "duration" => return .duration (← Document.readPayload Document.readString payload)
    | "binary" => return .binary (← Document.readPayload Document.readString payload)
    | "none" => do
      Document.readNothing form payload
      return .nothing
    | "collection" =>
      return .collection (← Document.readPayload (Document.readList (readWithin form depth)) payload)
    | "map" => do
      let map ← Document.readPayload (Document.readMap (readWithin form depth)) payload
      return .map map.entries
    | "blob" => return .blob (← Document.readNamed form readUri payload)
    | "schema" => return .schema (← Document.readNamed form readUri payload)
    | _ => return .struct (← Document.readPayload Document.toJson payload)

def read (form : Form) (doc : Document) : Except Fault Literal := readWithin form doc.depth doc

end Literal

end WorkflowBundle
