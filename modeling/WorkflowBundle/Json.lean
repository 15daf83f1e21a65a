import WorkflowBundle.Decimal
import WorkflowBundle.SortedMap

/-! JSON values and their text. Members of an object are written in the order in which the
value holds them; a value read as data holds them in key order with each key once. -/
namespace WorkflowBundle

inductive Json where
  | null
  | bool (value : Bool)
  | int (value : Int)
  | float (value : Float)
  | string (value : String)
  | array (items : List Json)
  | object (members : List (String × Json))
  deriving Inhabited

namespace Json

def hexDigit (n : Nat) : Char := Nat.digitChar (n % 16)

/-- A character inside a quoted string. -/
def escape (c : Char) : List Char :=
  if c == '"' then ['\\', '"']
  else if c == '\\' then ['\\', '\\']
  else if c == '\n' then ['\\', 'n']
  else if c == '\r' then ['\\', 'r']
  else if c == '\t' then ['\\', 't']
  else if c.toNat == 8 then ['\\', 'b']
  else if c.toNat == 12 then ['\\', 'f']
  else if c.toNat < 32 then ['\\', 'u', '0', '0', hexDigit (c.toNat / 16), hexDigit c.toNat]
  else [c]

/-- A string between quotes, followed by more text. -/
def quote (s : String) (rest : List Char) : List Char :=
  '"' :: s.toList.foldr (fun c tail => escape c ++ tail) ('"' :: rest)

/-- Text of a value that is neither array nor object. A double without a decimal text
(infinite or not a number) is written as null. -/
def scalarText : Json → List Char
  | null => "null".toList
  | bool true => "true".toList
  | bool false => "false".toList
  | int i => (toString i).toList
  | float x => if x.isFinite then (Decimal.text x).toList else "null".toList
  | string s => quote s []
  | array _ | object _ => []

mutual

/-- Text without any space, followed by more text. -/
def writeCompact : Json → List Char → List Char
  | array items, rest => '[' :: writeCompactItems items (']' :: rest)
  | object members, rest => '\x7b' :: writeCompactMembers members ('\x7d' :: rest)
  | scalar, rest => scalarText scalar ++ rest

def writeCompactItems : List Json → List Char → List Char
  | [], rest => rest
  | [item], rest => writeCompact item rest
  | item :: items, rest => writeCompact item (',' :: writeCompactItems items rest)

def writeCompactMembers : List (String × Json) → List Char → List Char
  | [], rest => rest
  | [(key, value)], rest => quote key (':' :: writeCompact value rest)
  | (key, value) :: members, rest =>
    quote key (':' :: writeCompact value (',' :: writeCompactMembers members rest))

end

/-- A new line at a nesting level, two spaces a level. -/
def newline (level : Nat) (rest : List Char) : List Char :=
  '\n' :: (List.replicate (2 * level) ' ' ++ rest)

mutual

/-- Text with one item or member a line, indented by nesting, followed by more text. -/
def writePretty (level : Nat) : Json → List Char → List Char
  | array [], rest => '[' :: ']' :: rest
  | array items, rest =>
    '[' :: newline (level + 1) (writePrettyItems level items (newline level (']' :: rest)))
  | object [], rest => '\x7b' :: '\x7d' :: rest
  | object members, rest =>
    '\x7b' :: newline (level + 1) (writePrettyMembers level members (newline level ('\x7d' :: rest)))
  | scalar, rest => scalarText scalar ++ rest

def writePrettyItems (level : Nat) : List Json → List Char → List Char
  | [], rest => rest
  | [item], rest => writePretty (level + 1) item rest
  | item :: items, rest =>
    writePretty (level + 1) item (',' :: newline (level + 1) (writePrettyItems level items rest))

def writePrettyMembers (level : Nat) : List (String × Json) → List Char → List Char
  | [], rest => rest
  | [(key, value)], rest => quote key (':' :: ' ' :: writePretty (level + 1) value rest)
  | (key, value) :: members, rest =>
    quote key (':' :: ' ' :: writePretty (level + 1) value
      (',' :: newline (level + 1) (writePrettyMembers level members rest)))

end

def compact (value : Json) : String := String.ofList (writeCompact value [])

def pretty (value : Json) : String := String.ofList (writePretty 0 value [])

def ofMap {β : Type} (toJson : β → Json) (map : SortedMap String β) : Json :=
  object (map.entries.map fun e => (e.1, toJson e.2))

/-- A member that is left out when there is nothing to say. -/
def optional {β : Type} (name : String) (toJson : β → Json) : Option β → List (String × Json)
  | none => []
  | some value => [(name, toJson value)]

def member? (value : Json) (name : String) : Option Json :=
  match value with
  | object members => members.lookup name
  | _ => none

end Json

end WorkflowBundle
