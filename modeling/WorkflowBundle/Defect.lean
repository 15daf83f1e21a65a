import WorkflowBundle.Identifier

/-! Everything that can be wrong with a bundle, its configuration or the files around it.
Defects of one compilation are reported together, in an order that depends on what they are
about and not on where they were found. -/
namespace WorkflowBundle

/-- What is wrong at one node of a workflow. The finish node stands for the workflow outputs. -/
inductive NodeFault where
  | duplicateId
  | unknownNode (reference : String)
  | selfReference
  | unknownInput (parameter : String)
  | fixedInputRebound (plan : EntityId) (parameter : String)
  | duplicateBinding (parameter : String)
  | missingInput (parameter : String)
  | unknownOutput (source output : String)
  | typeMismatch (parameter expected actual : String)
  /-- The arms of a branch differ in what they produce. -/
  | armMismatch (reason : String)
  | badCondition (reason : String)
  /-- A start or finish node is misplaced or misused. -/
  | misplaced (reason : String)
  deriving DecidableEq, Repr, Inhabited

inductive Defect where
  | unreadableArchive (reason : String)
  | undecodable (entry reason : String)
  | duplicateEntity (entity : EntityId) (first second : String)
  | unresolvedReference (referrer missing : EntityId)
  | badInterface (entity : EntityId) (parameter reason : String)
  | node (workflow : EntityId) (node : String) (fault : NodeFault)
  | graphCycle (workflow : EntityId) (nodes : List String)
  | circularDependency (cycle : List EntityId)
  /-- All defects of a compilation, and how many they are. -/
  | compilation (defects : List Defect) (count : Nat)
  | badConfig (reason : String)
  | badArgument (message : String)
  | fileMissing (path : String)
  | fileUnreadable (path error : String)
  | fileUnwritable (path error : String)
  | system (message : String)
  | badYaml (message : String)
  | badJson (message : String)
  | badToml (message : String)
  deriving Repr, Inhabited

def arrows (names : List String) : String := " → ".intercalate names

namespace NodeFault

def message (node : String) : NodeFault → String
  | duplicateId => "node id '" ++ node ++ "' is used more than once"
  | unknownNode reference => "node '" ++ node ++ "' depends on unknown node '" ++ reference ++ "'"
  | selfReference => "node '" ++ node ++ "' depends on itself"
  | unknownInput parameter => "node '" ++ node ++ "' has no input named '" ++ parameter ++ "'"
  | fixedInputRebound plan parameter =>
    "node '" ++ node ++ "' binds '" ++ parameter ++ "', which " ++ plan.display ++ " already fixes"
  | duplicateBinding parameter =>
    "node '" ++ node ++ "' binds '" ++ parameter ++ "' more than once"
  | missingInput parameter =>
    "node '" ++ node ++ "' does not bind required input '" ++ parameter ++ "'"
  | unknownOutput source output =>
    "node '" ++ node ++ "' reads '" ++ output ++ "' from '" ++ source ++
      "', which produces no such value"
  | typeMismatch parameter expected actual =>
    "node '" ++ node ++ "' input '" ++ parameter ++ "' expects " ++ expected ++
      " but is bound to " ++ actual
  | armMismatch reason => "branch '" ++ node ++ "' arms expose different outputs: " ++ reason
  | badCondition reason => "branch '" ++ node ++ "' has an invalid condition: " ++ reason
  | misplaced reason => "node '" ++ node ++ "' " ++ reason

def code : NodeFault → String
  | duplicateId => "duplicate_node_id"
  | unknownNode _ => "unknown_node"
  | selfReference => "self_reference"
  | unknownInput _ => "unknown_input"
  | fixedInputRebound _ _ => "fixed_input_rebound"
  | duplicateBinding _ => "duplicate_binding"
  | missingInput _ => "missing_input"
  | unknownOutput _ _ => "unknown_output"
  | typeMismatch _ _ _ => "type_mismatch"
  | armMismatch _ => "branch_output_mismatch"
  | badCondition _ => "invalid_branch_condition"
  | misplaced _ => "invalid_start_end"

def help? : NodeFault → Option String
  | unknownNode reference =>
    some ("Check that '" ++ reference ++ "' is a top-level node of this workflow")
  | fixedInputRebound _ _ =>
    some "Fixed launch plan inputs cannot be overridden; remove the binding or launch the workflow directly"
  | armMismatch _ =>
    some "Both arms of a branch must produce the same named outputs with compatible types"
  | _ => none

end NodeFault

namespace Defect

def message : Defect → String
  | unreadableArchive reason => "Bundle archive is unreadable: " ++ reason
  | undecodable entry reason => "Entry '" ++ entry ++ "' could not be decoded: " ++ reason
  | duplicateEntity entity first second =>
    "Entity " ++ entity.display ++ " is declared twice (in '" ++ first ++ "' and '" ++ second ++ "')"
  | unresolvedReference referrer missing =>
    referrer.display ++ " references " ++ missing.display ++ ", which is not in the bundle"
  | badInterface entity parameter reason =>
    entity.display ++ ": input '" ++ parameter ++ "' " ++ reason
  | node workflow name fault => workflow.display ++ ": " ++ fault.message name
  | graphCycle workflow nodes =>
    workflow.display ++ ": node graph contains a cycle: " ++ arrows nodes
  | circularDependency cycle =>
    "Circular dependency between entities: " ++ arrows (cycle.map EntityId.display)
  | compilation _ count => "Compilation failed with " ++ toString count ++ " error(s)"
  | badConfig reason => "Invalid configuration: " ++ reason
  | badArgument message => "Invalid argument: " ++ message
  | fileMissing path => "File not found: " ++ path
  | fileUnreadable path error => "Failed to read file '" ++ path ++ "': " ++ error
  | fileUnwritable path error => "Failed to write file '" ++ path ++ "': " ++ error
  | system message => "IO error: " ++ message
  | badYaml message => "YAML parsing error: " ++ message
  | badJson message => "JSON parsing error: " ++ message
  | badToml message => "TOML parsing error: " ++ message

/-- Short name of the kind of defect, for tools that read reports. -/
def code (defect : Defect) : String :=
  "flowpack::" ++ match defect with
    | unreadableArchive _ => "archive"
    | undecodable _ _ => "decode"
    | duplicateEntity _ _ _ => "duplicate_entity"
    | unresolvedReference _ _ => "unresolved_reference"
    | badInterface _ _ _ => "interface"
    | node _ _ fault => fault.code
    | graphCycle _ _ => "graph_cycle"
    | circularDependency _ => "circular_dependency"
    | compilation _ _ => "compilation"
    | badConfig _ => "invalid_config"
    | badArgument _ => "invalid_argument"
    | fileMissing _ => "file_not_found"
    | fileUnreadable _ _ => "file_read_error"
    | fileUnwritable _ _ => "file_write_error"
    | system _ => "io_error"
    | badYaml _ => "yaml_error"
    | badJson _ => "json_error"
    | badToml _ => "toml_error"

/-- Advice that goes with every defect of the kind. -/
def help? : Defect → Option String
  | unreadableArchive _ =>
    some "The bundle must be a gzip-compressed tar archive of serialized entities"
  | duplicateEntity _ _ _ =>
    some "Each identifier must be declared exactly once per bundle; bump the version of one of them"
  | unresolvedReference _ missing =>
    some ("Package '" ++ missing.display ++ "' into the bundle or fix the reference")
  | node _ _ fault => fault.help?
  | graphCycle _ _ => some "Workflow nodes must form a directed acyclic graph"
  | circularDependency _ =>
    some "A workflow cannot embed itself, directly or through launch plans"
  | _ => none

def entity? : Defect → Option EntityId
  | duplicateEntity entity _ _ | badInterface entity _ _ => some entity
  | unresolvedReference referrer _ => some referrer
  | node workflow _ _ | graphCycle workflow _ => some workflow
  | circularDependency cycle => cycle.head?
  | _ => none

def entry? : Defect → Option String
  | undecodable entry _ => some entry
  | duplicateEntity _ _ second => some second
  | _ => none

/-- The defect itself, or those that it gathers. -/
def parts : Defect → List Defect
  | compilation defects _ => defects
  | defect => [defect]

/-- Defects about no entity come first, by entry; the others follow by entity. -/
def compareScope (a b : Defect) : Ordering :=
  match a.entity?, b.entity? with
  | none, none => compare a.entry? b.entry?
  | none, some _ => .lt
  | some _, none => .gt
  | some x, some y => compare x y

/-- In order of scope. Defects of one scope stay in the order in which they were found. -/
def sort (defects : List Defect) : List Defect :=
  defects.mergeSort fun a b => (compareScope a b).isLE

/-- All defects of a compilation as one. Those already gathered are taken apart. -/
def gather (defects : List Defect) : Defect :=
  let found := sort (defects.flatMap parts)
  compilation found found.length

end Defect

structure Suggestion where
  action : String
  steps : List String
  deriving Repr

namespace Suggestion

def mendCycle (names : List String) : Suggestion where
  action := "Remove circular dependency"
  steps := ["Detected cycle: " ++ arrows names,
    "Break the cycle by removing one of the bindings or references"]

def forDefect? : Defect → Option Suggestion
  | .unreadableArchive _ => some {
      action := "Rebuild the bundle"
      steps := ["The file is not a readable gzip-compressed tar archive",
        "Re-run the packaging step and check the file was not truncated in transit"] }
  | .undecodable entry _ => some {
      action := "Re-serialize '" ++ entry ++ "'"
      steps := [
        "Each entry must be a JSON or YAML record with a 'kind' of task, workflow or launch_plan",
        "Regenerate the bundle with the packaging tool rather than editing entries by hand"] }
  | .unresolvedReference _ missing => some {
      action := "Add " ++ missing.display ++ " to the bundle"
      steps := ["Check the project, domain, name and version of the reference",
        "Include the referenced entity when packaging"] }
  | .node _ _ (.typeMismatch _ expected actual) => some {
      action := "Fix the binding type"
      steps := ["The consumer declares " ++ expected, "The producer supplies " ++ actual,
        "Bind a producer of the expected type, or convert with an intermediate task"] }
  | .node _ _ (.fixedInputRebound _ parameter) => some {
      action := "Remove the binding for '" ++ parameter ++ "'"
      steps := ["The launch plan pins this input; its callers cannot change it",
        "Use a default input in the launch plan if callers should be able to override it"] }
  | .graphCycle _ nodes => some (mendCycle nodes)
  | .circularDependency cycle => some (mendCycle (cycle.map EntityId.display))
  | _ => none

/-- The action behind an arrow and its steps below, a line each. -/
def text (s : Suggestion) : String :=
  "→ " ++ s.action ++ "\n" ++ String.join (s.steps.map fun step => "  " ++ step ++ "\n")

end Suggestion

end WorkflowBundle
