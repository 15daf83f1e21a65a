/-! What a TOML text says: a table of values. A table may be written in several places, but not
in every way: how it came to be decides what can still be added to it. -/
namespace WorkflowBundle.Toml

/-- How a table came to be. -/
inductive Origin where
  | header
  /-- A header names a table inside it. -/
  | implied
  /-- A dotted key leads through it. -/
  | dotted
  | inline
  deriving DecidableEq, Repr

inductive Value where
  | text (s : String)
  | integer (i : Int)
  | float (x : Float)
  | bool (b : Bool)
  | moment
  | array (items : List Value)
  | table (origin : Origin) (fields : List (String × Value))
  | tables (elements : List (List (String × Value)))
  deriving Repr, Inhabited

abbrev Fields := List (String × Value)

namespace Fields

/-- Puts a value under a key, in place of the one that is there. -/
def put (key : String) (value : Value) : Fields → Fields
  | [] => [(key, value)]
  | (k, v) :: rest => if k == key then (k, value) :: rest else (k, v) :: put key value rest

def onLast (change : Fields → Option Fields) : List Fields → Option (List Fields)
  | [] => none
  | [last] => (change last).map ([·])
  | first :: rest => (onLast change rest).map (first :: ·)

/-- Changes the table that a value is, or the last of its tables. Headers cannot get into
braces. -/
def within (change : Fields → Option Fields) : Value → Option Value
  | .table origin fields => if origin = .inline then none else (change fields).map (.table origin)
  | .tables elements => (onLast change elements).map .tables
  | _ => none

/-- Follows a header to the table that holds its last key, making the tables on the way. -/
def follow (change : String → Fields → Option Fields) : List String → Fields → Option Fields
  | [], _ => none
  | [key], fields => change key fields
  | key :: path, fields =>
    match fields.lookup key with
    | none => (follow change path []).map fun inner => fields.put key (.table .implied inner)
    | some value => (within (follow change path) value).map (fields.put key)

/-- Opens a table by its header. Each has one header. -/
def openTable : List String → Fields → Option Fields :=
  follow fun key fields =>
    match fields.lookup key with
    | none => some (fields.put key (.table .header []))
    | some (.table .implied inner) => some (fields.put key (.table .header inner))
    | some _ => none

/-- Opens the next of the tables under a header. -/
def openElement : List String → Fields → Option Fields :=
  follow fun key fields =>
    match fields.lookup key with
    | none => some (fields.put key (.tables [[]]))
    | some (.tables elements) => some (fields.put key (.tables (elements ++ [[]])))
    | some _ => none

def add (key : String) (value : Value) (fields : Fields) : Option Fields :=
  if (fields.lookup key).isSome then none else some (fields.put key value)

/-- Adds a value under a dotted key. The table that takes it must come from dotted keys. -/
def addDotted (key : String) (value : Value) : List String → Fields → Option Fields
  | [], fields => fields.add key value
  | part :: path, fields =>
    match fields.lookup part with
    | none => (addDotted key value path []).map fun inner => fields.put part (.table .dotted inner)
    | some (.table .dotted inner) =>
      (addDotted key value path inner).map fun inner => fields.put part (.table .dotted inner)
    | some (.table .implied inner) =>
      if path.isEmpty then none
      else (addDotted key value path inner).map fun inner => fields.put part (.table .implied inner)
    | some (.tables elements) =>
      if path.isEmpty then none
      else (onLast (addDotted key value path) elements).map fun elements =>
        fields.put part (.tables elements)
    | some _ => none

/-- Splits a key into the path to its table and its last part, and adds the value there. -/
def assign (path : List String) (value : Value) (fields : Fields) : Option Fields := do
  addDotted (← path.getLast?) value path.dropLast fields

/-- Changes the table that was opened by a header. The empty header stands for the top. -/
def change (f : Fields → Option Fields) : List String → Fields → Option Fields
  | [], fields => f fields
  | key :: path, fields => do
    return fields.put key (← within (change f path) (← fields.lookup key))

end Fields

end WorkflowBundle.Toml
