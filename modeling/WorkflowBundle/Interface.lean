import WorkflowBundle.Literal

/-! What an entity takes from its callers and gives back to them. -/
namespace WorkflowBundle

structure Parameter where
  dataType : DataType
  required : Bool := true
  /-- Value of the input when the caller gives none. -/
  default : Option Literal := none
  deriving Inhabited

namespace Parameter

/-- An input that its plan gives a default and that callers may leave out. -/
def withDefault (dataType : DataType) (value : Literal) : Parameter :=
  { dataType, required := false, default := some value }

/-- A required input without default. -/
def mustBeBound (p : Parameter) : Bool := p.required && p.default.isNone

def toJson (p : Parameter) : Json :=
  .object ([("type", p.dataType.toJson), ("required", .bool p.required)] ++
    Json.optional "default" Literal.toJson p.default)

structure Draft where
  dataType : Option DataType := none
  required : Bool := true
  default : Option Literal := none

def read (form : Form) : Document → Except Fault Parameter :=
  Document.readRecord ["type", "required", "default"] ({} : Draft)
    (fun field doc draft =>
      match field with
      | "type" => return { draft with dataType := some (← DataType.read form doc) }
      | "required" => return { draft with required := ← doc.readBool }
      | _ => return { draft with default := ← doc.readOption (Literal.read form) })
    (fun draft => return {
      dataType := ← Document.required "type" draft.dataType
      required := draft.required
      default := draft.default })

end Parameter

structure Interface where
  inputs : SortedMap String Parameter := .empty
  outputs : SortedMap String DataType := .empty
  deriving Inhabited

namespace Interface

/-- Names of the inputs that every caller has to bind. -/
def requiredInputs (i : Interface) : List String :=
  (i.inputs.entries.filter fun e => e.2.mustBeBound).map (·.1)

def inputTypes (i : Interface) : SortedMap String DataType := i.inputs.map (·.dataType)

def toJson (i : Interface) : Json :=
  .object [("inputs", .ofMap Parameter.toJson i.inputs), ("outputs", .ofMap DataType.toJson i.outputs)]

def read (form : Form) : Document → Except Fault Interface :=
  Document.readRecord ["inputs", "outputs"] ({} : Interface)
    (fun field doc draft =>
      if field == "inputs" then return { draft with inputs := ← doc.readMap (Parameter.read form) }
      else return { draft with outputs := ← doc.readMap (DataType.read form) })
    .ok

end Interface

end WorkflowBundle
