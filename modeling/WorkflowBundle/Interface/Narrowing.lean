import WorkflowBundle.Defect
import WorkflowBundle.Entity

/-! What a launch plan leaves to its callers. An input that the plan fixes is gone, one that it
gives a default may be left out, and the others stay as the workflow declares them. -/
namespace WorkflowBundle

/-- What is wrong with an input or output of an interface, or with a value given to one. -/
inductive InputFault where
  /-- The default of a declared input is no value of its type. -/
  | badDefault (shape : String) (declared : DataType)
  | genericInTask (declared : DataType)
  | fixedUndeclared (workflow : EntityId)
  | defaultedUndeclared (workflow : EntityId)
  | fixedMismatch (shape : String) (declared : DataType)
  | defaultMismatch (shape : String) (declared : DataType)
  | fixedAndDefaulted
  deriving DecidableEq, Repr

namespace InputFault

def message : InputFault → String
  | badDefault shape declared =>
    "has a " ++ shape ++ " default, which does not conform to " ++ declared.display
  | genericInTask declared =>
    "declares " ++ declared.display ++ ", but tasks cannot use generic placeholders"
  | fixedUndeclared workflow =>
    "is fixed, but " ++ workflow.display ++ " declares no such input"
  | defaultedUndeclared workflow =>
    "is defaulted, but " ++ workflow.display ++ " declares no such input"
  | fixedMismatch shape declared =>
    "has a fixed " ++ shape ++ " value, but the workflow declares " ++ declared.display
  | defaultMismatch shape declared =>
    "has a default " ++ shape ++ " value, but the workflow declares " ++ declared.display
  | fixedAndDefaulted => "is both fixed and defaulted"

def defect (entity : EntityId) (name : String) (fault : InputFault) : Defect :=
  .badInterface entity name fault.message

end InputFault

namespace LaunchPlan

def fixedFault? (plan : LaunchPlan) (workflow : Interface) (name : String) (value : Literal) :
    Option InputFault :=
  match workflow.inputs.get? name with
  | none => some (.fixedUndeclared plan.workflow)
  | some p => if p.dataType.admits value then none else some (.fixedMismatch value.shape p.dataType)

def defaultFault? (plan : LaunchPlan) (workflow : Interface) (name : String) (value : Literal) :
    Option InputFault :=
  if plan.fixedInputs.contains name then some .fixedAndDefaulted
  else match workflow.inputs.get? name with
    | none => some (.defaultedUndeclared plan.workflow)
    | some p =>
      if p.dataType.admits value then none else some (.defaultMismatch value.shape p.dataType)

/-- Defects of the plan against the interface of its workflow: at most one for each value that
it fixes, then at most one for each default. -/
def defects (plan : LaunchPlan) (workflow : Interface) : List Defect :=
  (plan.fixedInputs.entries.filterMap fun e =>
    (plan.fixedFault? workflow e.1 e.2).map (InputFault.defect plan.id e.1)) ++
  (plan.defaultInputs.entries.filterMap fun e =>
    (plan.defaultFault? workflow e.1 e.2).map (InputFault.defect plan.id e.1))

/-- An input of the workflow as callers of the plan see it. -/
def exposedInput (plan : LaunchPlan) (name : String) (p : Parameter) : Option Parameter :=
  if plan.fixedInputs.contains name then none
  else match plan.defaultInputs.get? name with
    | some value => some (.withDefault p.dataType value)
    | none => some p

/-- The interface of the workflow without the inputs that the plan fixes. -/
def exposed (plan : LaunchPlan) (workflow : Interface) : Interface :=
  { workflow with inputs := workflow.inputs.filterMap plan.exposedInput }

/-- The interface that the plan leaves to its callers, unless it does not fit its workflow. -/
def narrow (plan : LaunchPlan) (workflow : Interface) : Except (List Defect) Interface :=
  match plan.defects workflow with
  | [] => .ok (plan.exposed workflow)
  | defects => .error defects

end LaunchPlan

end WorkflowBundle
