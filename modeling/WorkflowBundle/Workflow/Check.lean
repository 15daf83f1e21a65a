import WorkflowBundle.DataType.Compatibility
import WorkflowBundle.Index
import WorkflowBundle.Workflow.Graph

/-! Checks of a workflow against the interfaces of what it calls. All faults are collected:
one fault hides another only when both are about the same binding. -/
namespace WorkflowBundle

abbrev Outputs := SortedMap String DataType

/-- Why the arms of a branch cannot stand for each other. -/
inductive ArmMismatch where
  | names (whenTrue : String) (produced : List String) (whenFalse : String) (other : List String)
  | types (output : String) (type : DataType) (whenTrue : String) (other : DataType) (whenFalse : String)

def ArmMismatch.message : ArmMismatch → String
  | names whenTrue produced whenFalse other =>
    "'" ++ whenTrue ++ "' produces [" ++ ", ".intercalate produced ++ "] but '" ++ whenFalse ++
      "' produces [" ++ ", ".intercalate other ++ "]"
  | types output type whenTrue other whenFalse =>
    "output '" ++ output ++ "' is " ++ type.display ++ " in '" ++ whenTrue ++ "' but " ++
      other.display ++ " in '" ++ whenFalse ++ "'"

/-- Why a comparison cannot be made. -/
inductive ConditionFault where
  | unknownVariable (name : String)
  | literalOperand (shape : String)
  | operandType (type : DataType)
  | incomparable (op : Comparison) (left right : DataType)

def ConditionFault.message : ConditionFault → String
  | unknownVariable name => "unknown variable '" ++ name ++ "'"
  | literalOperand shape => "a " ++ shape ++ " literal cannot be compared"
  | operandType type => "operand of type " ++ type.display ++ " is not a primitive"
  | incomparable op left right =>
    "cannot apply " ++ op.title ++ " to " ++ left.display ++ " and " ++ right.display

namespace Workflow

/-- Ids that stand more than once, reserved ids in use, and start and finish nodes after the
first. Nodes of arms count for the ids. -/
def idFaults : List Node → (seen reported : List String) → List (String × NodeFault)
  | [], _, _ => []
  | node :: nodes, seen, reported =>
    let again := seen.contains node.id && !reported.contains node.id
    (if again then [(node.id, .duplicateId)] else []) ++
    (if node.id == startId && !node.isStart || node.id == finishId && !node.isFinish then
      [(node.id, .misplaced "uses an id reserved for the start and end nodes")] else []) ++
    idFaults nodes (node.id :: seen) (if again then node.id :: reported else reported)

def structureFaults (w : Workflow) : List (String × NodeFault) :=
  idFaults w.allNodes [] [] ++
    ((w.nodes.filter Node.isStart).drop 1).map (fun n => (n.id, .misplaced "is a second start node")) ++
    ((w.nodes.filter Node.isFinish).drop 1).map (fun n => (n.id, .misplaced "is a second end node"))

/-- The nodes at top level that ids stand for: of one id the first. -/
def firstNodes (w : Workflow) : List Node := w.nodes.eraseDupsBy fun a b => a.id == b.id

/-- The node at top level that an id stands for. -/
def node? (w : Workflow) (id : String) : Option Node := w.nodes.find? (·.id == id)

def finishLabel (w : Workflow) : String := (w.finishNode?.map Node.id).getD finishId

/-- Bindings of the workflow outputs: its own and those of the finish node. -/
def outputBindings (w : Workflow) : List Binding :=
  w.outputs ++ (w.finishNode?.map Node.inputs).getD []

end Workflow

/-- A workflow and what is known about the entities that it calls. -/
structure Scope where
  workflow : Workflow
  index : Index
  interfaces : InterfaceTable
  rule : UnionRule

namespace Scope

/-- Outputs that pass for each other in both directions. -/
def interchangeable (s : Scope) (a b : DataType) : Bool :=
  a.isCompatible s.rule b && b.isCompatible s.rule a

/-- How two arms with these outputs differ. -/
def armMismatch? (s : Scope) (a : Node) (produced : Outputs) (b : Node) (other : Outputs) :
    Option ArmMismatch :=
  if produced.keys != other.keys then some (.names a.id produced.keys b.id other.keys)
  else (produced.entries.zip other.values).findSome? fun ((name, type), otherType) =>
    if s.interchangeable type otherType then none
    else some (.types name type a.id otherType b.id)

/-- What a node produces; none when that is unknown. A branch produces what its first arm
does, if the arms agree. -/
def exposes (s : Scope) : Node → Option Outputs
  | .call _ _ reference => (s.interfaces.get? reference).map (·.outputs)
  | .branch _ _ a b =>
    match s.exposes a, s.exposes b with
    | some produced, some other =>
      if (s.armMismatch? a produced b other).isSome then none else some produced
    | _, _ => none
  | .start _ => some s.workflow.interface.inputTypes
  | .finish _ => none

/-- Branches whose arms do not agree, inner ones first. -/
def armFaults (s : Scope) : Node → List (String × NodeFault)
  | .branch head _ a b =>
    s.armFaults a ++ s.armFaults b ++
      match s.exposes a, s.exposes b with
      | some produced, some other =>
        match s.armMismatch? a produced b other with
        | some mismatch => [(head.id, .armMismatch mismatch.message)]
        | none => []
      | _, _ => []
  | _ => []

def inputType (s : Scope) (name : String) : Except NodeFault (Option DataType) :=
  match s.workflow.interface.inputs.get? name with
  | some p => .ok (some p.dataType)
  | none => .error (.unknownOutput Workflow.startId name)

/-- Type of a bound value. It is not known when its node is not known, which is a fault of the
graph, or when the node's outputs are not. -/
def originType (s : Scope) : Origin → Except NodeFault (Option DataType)
  | .workflowInput name => s.inputType name
  | .nodeOutput node output =>
    if s.workflow.namesStart node then s.inputType output
    else if s.workflow.namesFinish node then .ok none
    else match (s.workflow.node? node).bind s.exposes with
      | none => .ok none
      | some outputs =>
        match outputs.get? output with
        | some type => .ok (some type)
        | none => .error (.unknownOutput node output)
  | .literal value => .ok value.dataType?

/-- What is wrong with binding a parameter of a type to the value. -/
def originFault? (s : Scope) (b : Binding) (expected : DataType) : Option NodeFault :=
  match b.origin with
  | .literal value =>
    if expected.admits value then none
    else some (.typeMismatch b.parameter expected.display value.shape)
  | origin =>
    match s.originType origin with
    | .error fault => some fault
    | .ok none => none
    | .ok (some type) =>
      if type.isCompatible s.rule expected then none
      else some (.typeMismatch b.parameter expected.display type.display)

/-- What is wrong with a first binding of its name. `fixed` are the inputs that the called
launch plan fixes. -/
def bindingFault? (s : Scope) (types : SortedMap String DataType)
    (fixed : Option (EntityId × SortedMap String Literal)) (b : Binding) : Option NodeFault :=
  match fixed with
  | some (plan, values) =>
    if values.contains b.parameter then some (.fixedInputRebound plan b.parameter)
    else declared
  | none => declared
where
  declared : Option NodeFault :=
    match types.get? b.parameter with
    | none => some (.unknownInput b.parameter)
    | some expected => s.originFault? b expected

/-- Faults of bindings in turn; each name may be bound once. -/
def bindingFaults (s : Scope) (types : SortedMap String DataType)
    (fixed : Option (EntityId × SortedMap String Literal)) :
    List Binding → (bound : List String) → List NodeFault
  | [], _ => []
  | b :: bindings, bound =>
    if bound.contains b.parameter then
      .duplicateBinding b.parameter :: bindingFaults s types fixed bindings bound
    else
      (s.bindingFault? types fixed b).toList ++
        bindingFaults s types fixed bindings (b.parameter :: bound)

def missing (names : List String) (bindings : List Binding) : List NodeFault :=
  (names.filter fun name => !bindings.any (·.parameter == name)).map .missingInput

def callFaults (s : Scope) (head : NodeHead) (i : Interface)
    (fixed : Option (EntityId × SortedMap String Literal)) : List NodeFault :=
  s.bindingFaults i.inputTypes fixed head.inputs [] ++ missing i.requiredInputs head.inputs

/-- Variables that a condition can use, with their types where these are known, and faults of
the bindings that make them. -/
def bindVariables (s : Scope) : List Binding → (known : List (String × Option DataType)) →
    List (String × Option DataType) × List NodeFault
  | [], known => (known, [])
  | b :: bindings, known =>
    if (known.lookup b.parameter).isSome then
      let (all, faults) := s.bindVariables bindings known
      (all, .duplicateBinding b.parameter :: faults)
    else
      match s.originType b.origin with
      | .ok type => s.bindVariables bindings ((b.parameter, type) :: known)
      | .error fault =>
        let (all, faults) := s.bindVariables bindings ((b.parameter, none) :: known)
        (all, fault :: faults)

/-- Type of an operand, where it is known. -/
def operandType (known : List (String × Option DataType)) :
    Operand → Except ConditionFault (Option DataType)
  | .input name =>
    match known.lookup name with
    | some type => .ok type
    | none => .error (.unknownVariable name)
  | .literal value =>
    if value.isPrimitive then .ok value.dataType? else .error (.literalOperand value.shape)

/-- What is wrong with comparing values of two types. -/
def comparisonFaults (s : Scope) (op : Comparison) (left right : DataType) : List ConditionFault :=
  if left.isPrimitive && right.isPrimitive then
    if left.isComparable s.rule right then [] else [.incomparable op left right]
  else ([left, right].filter (!·.isPrimitive)).map .operandType

def conditionFaults (s : Scope) (known : List (String × Option DataType)) :
    Condition → List ConditionFault
  | .comparison left op right =>
    match operandType known left, operandType known right with
    | .ok (some left), .ok (some right) => s.comparisonFaults op left right
    | .ok _, .ok _ => []
    | .error a, .error b => [a, b]
    | .error a, .ok _ => [a]
    | .ok _, .error b => [b]
  | .and a b | .or a b => conditionFaults s known a ++ conditionFaults s known b

/-- Faults of a branch itself. Its bindings are the variables of its condition. -/
def branchFaults (s : Scope) (head : NodeHead) (condition : Condition) : List NodeFault :=
  let (known, faults) := s.bindVariables head.inputs []
  faults ++ (s.conditionFaults known condition).map fun f => .badCondition f.message

/-- Inputs that callers of a node's entity cannot bind. -/
def fixedInputs (s : Scope) (kind : ResourceType) (reference : EntityId) :
    Option (EntityId × SortedMap String Literal) :=
  if kind = .launchPlan then (s.index.launchPlan? reference).map fun p => (reference, p.fixedInputs)
  else none

/-- Faults of a node and the nodes of its arms. Bindings of a finish node are looked at with
the workflow outputs, and calls of what has no interface not at all. -/
def nodeFaults (s : Scope) (inArm : Bool) : Node → List (String × NodeFault)
  | .call head kind reference =>
    match s.interfaces.get? reference with
    | none => []
    | some i => (s.callFaults head i (s.fixedInputs kind reference)).map (head.id, ·)
  | .branch head condition a b =>
    (s.branchFaults head condition).map (head.id, ·) ++ s.nodeFaults true a ++ s.nodeFaults true b
  | .start head =>
    if inArm then [(head.id, .misplaced "cannot appear inside a branch arm")]
    else if head.inputs.isEmpty && head.runsAfter.isEmpty then []
    else [(head.id, .misplaced "is a start node and cannot have inputs or upstream nodes")]
  | .finish head =>
    if inArm then [(head.id, .misplaced "cannot appear inside a branch arm")] else []

/-- Faults of the bindings of the workflow outputs. Every declared output must be bound. -/
def outputFaults (s : Scope) : List (String × NodeFault) :=
  let w := s.workflow
  (s.bindingFaults w.interface.outputs none w.outputBindings [] ++
    missing w.interface.outputs.keys w.outputBindings).map (w.finishLabel, ·)

def faults (s : Scope) : List (String × NodeFault) :=
  s.workflow.firstNodes.flatMap s.armFaults ++ s.workflow.nodes.flatMap (s.nodeFaults false) ++
    s.outputFaults

def defects (s : Scope) : List Defect :=
  let w := s.workflow
  let cycles := match w.nodeOrder with
    | .ok _ => []
    | .error cycles => cycles.map (.graphCycle w.id)
  let named := List.map fun (f : String × NodeFault) => Defect.node w.id f.1 f.2
  named (w.structureFaults ++ w.linkFaults) ++ cycles ++ named s.faults

/-- The workflow with its graph, or all its defects. -/
def check (s : Scope) : Except (List Defect) CheckedWorkflow :=
  match s.defects with
  | [] => .ok ⟨s.workflow, s.workflow.nodeOrder.toOption.getD [], s.workflow.edges⟩
  | defects => .error defects

end Scope

end WorkflowBundle
