import WorkflowBundle.Document

/-! Reading records and variants from documents. A record is a table of named fields or a
list of its fields in declaration order; a variant is a bare name or a table whose only key
is the name. Faults come in the order of the document: fields are read one by one, and only
when all are read is a missing one noticed. -/
namespace WorkflowBundle

/-- How a value reaches its reader. A value that was held back while the tag of an enclosing
record was looked for is read more loosely. -/
inductive Form where
  | direct
  | buffered
  deriving DecidableEq, Repr

namespace Document

def readString : Document → Except Fault String
  | text s => .ok s
  | _ => .error .mismatch

def readBool : Document → Except Fault Bool
  | bool b => .ok b
  | _ => .error .mismatch

def readInt64 : Document → Except Fault Int64
  | int i =>
    if Int64.minValue.toInt ≤ i ∧ i ≤ Int64.maxValue.toInt then .ok (Int64.ofInt i)
    else .error .mismatch
  | _ => .error .mismatch

def readUInt64 : Document → Except Fault UInt64
  | int i => if 0 ≤ i ∧ i < UInt64.size then .ok (UInt64.ofNat i.toNat) else .error .mismatch
  | _ => .error .mismatch

/-- A double; an integer stands for the double nearest to it. -/
def readFloat : Document → Except Fault Float
  | float x => .ok x
  | int i => .ok (if i < 0 then (Int64.ofInt i).toFloat else (UInt64.ofNat i.toNat).toFloat)
  | _ => .error .mismatch

def readOption (read : Document → Except Fault α) : Document → Except Fault (Option α)
  | null => .ok none
  | doc => return some (← read doc)

def readList (read : Document → Except Fault α) : Document → Except Fault (List α)
  | list items => items.mapM read
  | _ => .error .mismatch

/-- Fields of a table with string keys, in the order of the document. -/
def readFields (read : Document → Except Fault α) :
    List (Document × Document) → Except Fault (List (String × α))
  | [] => .ok []
  | (text key, value) :: fields => do
    let head ← read value
    return (key, head) :: (← readFields read fields)
  | _ :: _ => .error .mismatch

/-- A map from strings; of equal keys the last one counts. -/
def readMap (read : Document → Except Fault α) : Document → Except Fault (SortedMap String α)
  | table fields => return .ofList (← readFields read fields)
  | _ => .error .mismatch

/-- The known name that a key stands for: itself, or the one at that position. -/
def knownName? (known : List String) : Document → Except Fault (Option String)
  | text name => .ok (if known.contains name then some name else none)
  | int i => if 0 ≤ i then .ok known[i.toNat]? else .error .mismatch
  | _ => .error .mismatch

/-- The fields of a table in turn. `seen` are the known names met before. -/
def readKnown (known : List String) (step : String → Document → δ → Except Fault δ) :
    List (Document × Document) → (seen : List String) → δ → Except Fault δ
  | [], _, draft => .ok draft
  | (key, value) :: fields, seen, draft => do
    match ← knownName? known key with
    | none => readKnown known step fields seen draft
    | some name =>
      if seen.contains name then .error (.duplicateField name)
      else readKnown known step fields (name :: seen) (← step name value draft)

/-- The items of a list as the known fields in turn. -/
def readPositional (step : String → Document → δ → Except Fault δ) :
    (known : List String) → List Document → δ → Except Fault δ
  | _, [], draft => .ok draft
  | [], _ :: _, draft => .ok draft
  | name :: known, item :: items, draft => do
    readPositional step known items (← step name item draft)

/-- A record with the given fields. `step` reads one field into the draft, `finish` makes the
record of the draft or names the first field missing. -/
def readRecord (known : List String) (empty : δ) (step : String → Document → δ → Except Fault δ)
    (finish : δ → Except Fault α) : Document → Except Fault α
  | table fields => do finish (← readKnown known step fields [] empty)
  | list items => do
    let draft ← readPositional step known items empty
    match finish draft with
    | .ok record => if items.length ≤ known.length then .ok record else .error .mismatch
    | .error _ => .error .mismatch
  | _ => .error .mismatch

def required (name : String) : Option α → Except Fault α
  | some value => .ok value
  | none => .error (.missingField name)

/-- One of the known names. A position stands for a name in the loose form. -/
def readName (form : Form) (known : List String) : Document → Except Fault String
  | text name => if known.contains name then .ok name else .error (.unknownVariant name known)
  | int i =>
    match form, known[i.toNat]? with
    | .buffered, some name => if 0 ≤ i then .ok name else .error .mismatch
    | _, _ => .error .mismatch
  | _ => .error .mismatch

/-- A variant: its name, and its payload unless the name stands alone. -/
def readVariant (form : Form) (known : List String) :
    Document → Except Fault (String × Option Document)
  | text name => if known.contains name then .ok (name, none) else .error (.unknownVariant name known)
  | table [(key, payload)] => return (← readName form known key, some payload)
  | _ => .error .mismatch

def readNothing (form : Form) : Option Document → Except Fault Unit
  | none => .ok ()
  | some null => .ok ()
  | some (table []) => if form = .buffered then .ok () else .error .mismatch
  | some _ => .error .mismatch

/-- One of some values, which is given by its name alone. -/
def readChoice (form : Form) (values : List α) (name : α → String) (doc : Document) :
    Except Fault α := do
  let (found, payload) ← doc.readVariant form (values.map name)
  readNothing form payload
  match values.find? (name · == found) with
  | some value => .ok value
  | none => .error .mismatch

def readPayload (read : Document → Except Fault α) : Option Document → Except Fault α
  | some doc => read doc
  | none => .error .mismatch

/-- The payload of a variant with named fields; a list of them is taken in the loose form. -/
def readNamed (form : Form) (read : Document → Except Fault α) : Option Document → Except Fault α
  | some (table fields) => read (table fields)
  | some (list items) => if form = .buffered then read (list items) else .error .mismatch
  | _ => .error .mismatch

/-- Looks through the fields of a table for its tag. Gives the tag's name, once it is found,
and the other fields. -/
def findTag (readTag : Document → Except Fault String) (tag : String) :
    List (Document × Document) → (found : Option String) →
    Except Fault (Option String × List (Document × Document))
  | [], found => .ok (found, [])
  | (key, value) :: fields, found =>
    match key with
    | text name =>
      if name = tag then
        if found.isSome then .error (.duplicateField tag)
        else do
          let name ← readTag value
          findTag readTag tag fields (some name)
      else keep key value fields found
    | _ => keep key value fields found
where
  keep (key value : Document) (fields : List (Document × Document)) (found : Option String) :
      Except Fault (Option String × List (Document × Document)) := do
    let (found, others) ← findTag readTag tag fields found
    return (found, (key, value) :: others)

/-- A record whose kind is named by a tag among its fields, or by the first item of a list:
the name, and the document without it. -/
def readTagged (form : Form) (tag : String) (known : List String) :
    Document → Except Fault (String × Document)
  | table fields => do
    match ← findTag (readName form known) tag fields none with
    | (some name, others) => .ok (name, table others)
    | (none, _) => .error (.missingField tag)
  | list (first :: items) => return (← readName form known first, list items)
  | list [] => .error (.missingField tag)
  | _ => .error .mismatch

end Document

/-- The tagged record at the top of a text. A fault of the text is met at its place among the
fields. The tag itself must be a name. -/
def Outline.readTagged (tag : String) (known : List String) :
    Outline → Except Fault (String × Document)
  | table fields stop => do
    let (found, others) ← Document.findTag (Document.readName .direct known) tag fields none
    match stop with
    | some stop =>
      match stop.key with
      | some (.text key) =>
        if key = tag then
          if found.isSome then .error (.duplicateField tag)
          else .error (if stop.nested then .mismatch else stop.fault)
        else .error stop.fault
      | _ => .error stop.fault
    | none =>
      match found with
      | some name => .ok (name, .table others)
      | none => .error (.missingField tag)
  | list items stop => do
    match items, stop with
    | [], none => .error (.missingField tag)
    | [], some stop => .error (if stop.nested then .mismatch else stop.fault)
    | first :: _, some stop => do
      let _ ← Document.readName .direct known first
      .error stop.fault
    | first :: items, none => return (← Document.readName .direct known first, .list items)
  | scalar => .error .mismatch
  | unreadable fault => .error fault

/-- A record at the top of a text. What follows the record is looked at last. -/
def Source.read (read : Outline → Except Fault α) (source : Source) : Except Fault α := do
  let value ← read source.outline
  match source.trailing with
  | some fault => .error fault
  | none => .ok value

end WorkflowBundle
