import WorkflowBundle.Json

/-! What a text in a data format says, as it says it: fields of a table in the order and with
the repetitions of the text, keys that need not be strings, integers of any size. -/
namespace WorkflowBundle

inductive Document where
  | null
  | bool (value : Bool)
  | int (value : Int)
  | float (value : Float)
  | text (value : String)
  | list (items : List Document)
  | table (fields : List (Document × Document))
  deriving Inhabited

inductive Fault where
  | missingField (name : String)
  | duplicateField (name : String)
  | unknownVariant (name : String) (known : List String)
  /-- A value of another shape or out of range. -/
  | mismatch
  /-- The text breaks the rules of its format. -/
  | malformed
  deriving DecidableEq, Repr, Inhabited

namespace Fault

def quoteName (name : String) : String := "`" ++ name ++ "`"

def expectation : List String → String
  | [] => "there are no variants"
  | [one] => "expected " ++ quoteName one
  | [one, two] => "expected " ++ quoteName one ++ " or " ++ quoteName two
  | names => "expected one of " ++ ", ".intercalate (names.map quoteName)

def message : Fault → String
  | missingField name => "missing field " ++ quoteName name
  | duplicateField name => "duplicate field " ++ quoteName name
  | unknownVariant name known => "unknown variant " ++ quoteName name ++ ", " ++ expectation known
  | mismatch => "<mismatch>"
  | malformed => "<syntax>"

end Fault

namespace Document

mutual

/-- Levels of lists and tables inside one another; at least one. -/
def depth : Document → Nat
  | list items => depthItems items + 1
  | table fields => depthFields fields + 1
  | _ => 1

def depthItems : List Document → Nat
  | [] => 0
  | item :: items => max (depth item) (depthItems items)

def depthFields : List (Document × Document) → Nat
  | [] => 0
  | (key, value) :: fields => max (max (depth key) (depth value)) (depthFields fields)

end

mutual

/-- The document as JSON data: of equal keys the last one counts, keys are sorted, and a
double that is not finite is null. Keys must be strings. -/
def toJson : Document → Except Fault Json
  | null => .ok .null
  | bool b => .ok (.bool b)
  | int i => .ok (.int i)
  | float x => .ok (if x.isFinite then .float x else .null)
  | text s => .ok (.string s)
  | list items => return .array (← toJsonItems items)
  | table fields => return .object (← toJsonFields fields [])

def toJsonItems : List Document → Except Fault (List Json)
  | [] => .ok []
  | item :: items => do
    let head ← toJson item
    return head :: (← toJsonItems items)

def toJsonFields : List (Document × Document) → Entries String Json → Except Fault (Entries String Json)
  | [], members => .ok members
  | (text key, value) :: fields, members => do
    let member ← toJson value
    toJsonFields fields (members.insert key member)
  | _ :: _, _ => .error .mismatch

end

mutual

/-- The document that the text of a JSON value says. -/
def ofJson : Json → Document
  | .null => null
  | .bool b => bool b
  | .int i => int i
  | .float x => float x
  | .string s => text s
  | .array items => list (ofJsonItems items)
  | .object members => table (ofJsonMembers members)

def ofJsonItems : List Json → List Document
  | [] => []
  | item :: items => ofJson item :: ofJsonItems items

def ofJsonMembers : List (String × Json) → List (Document × Document)
  | [] => []
  | (key, value) :: members => (text key, ofJson value) :: ofJsonMembers members

end

end Document

/-- Where and why reading ended inside the top value of a text. -/
structure Stop where
  fault : Fault
  /-- Key of the field whose value was being read. -/
  key : Option Document := none
  /-- The value being read had opened a list or a table. -/
  nested : Bool := false

/-- The top value of a text as far as it could be read. A reader that looks at the fields in
turn finds the faults of a text in the order in which the text has them. -/
inductive Outline where
  | table (fields : List (Document × Document)) (stop : Option Stop)
  | list (items : List Document) (stop : Option Stop)
  | scalar
  | unreadable (fault : Fault)

/-- A text of one document: its top value, and what is wrong with the text after it. -/
structure Source where
  outline : Outline
  trailing : Option Fault

end WorkflowBundle
