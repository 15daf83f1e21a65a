import WorkflowBundle.Archive
import WorkflowBundle.Closure.Digest
import WorkflowBundle.Closure.Drawing
import WorkflowBundle.CommandLine.Arguments
import WorkflowBundle.Config.File
import WorkflowBundle.Text.Lines

/-! Commands. They read a bundle by the settings in force, compile it, and print a summary of
the closure or a drawing of a workflow. All defects of a bundle are printed, each with a way
to mend it when there is one. -/
namespace WorkflowBundle

/-- What a compilation that failed prints. -/
def Defect.report (defects : List Defect) : String :=
  let suggestion (d : Defect) : String :=
    match Suggestion.forDefect? d with
    | some s => String.join ((lines s.text).map fun line => "    " ++ line ++ "\n")
    | none => ""
  "✗ " ++ toString defects.length ++ " defect(s) found\n" ++
    String.join (defects.map fun d => "\n  ✗ " ++ d.message ++ "\n" ++ suggestion d)

namespace CommandLine

inductive Failure where
  | defect (defect : Defect)
  /-- The bundle in a file has defects, and they have been printed. -/
  | notCompiled (file : String) (defects : List Defect)
  | noWorkflow (wanted : String) (present : List String)

namespace Failure

def message : Failure → String
  | defect d => d.message
  | notCompiled file defects =>
    "Compilation of " ++ file ++ " failed with " ++ toString defects.length ++ " defect(s)"
  | noWorkflow wanted present =>
    "Workflow '" ++ wanted ++ "' not found. Available workflows: " ++
      if present.isEmpty then "(none)" else ", ".intercalate present

def details : Failure → String
  | notCompiled _ defects => Defect.report defects
  | _ => ""

end Failure

def heading (title : String) : String :=
  title ++ "\n" ++ String.ofList (List.replicate (max title.length 40) '═') ++ "\n"

/-- A summary of a closure, after which it may have been written to a file. -/
def summary (file : String) (output : Option String) (verbose : Bool) (c : Closure) : String :=
  let tally (t : ResourceType) (noun : String) : String :=
    "  ✓ " ++ toString (c.count t) ++ " " ++ noun ++ "(s)\n"
  let written := match output with
    | some path => "  → Closure written to " ++ path ++ "\n"
    | none => ""
  let order := "\nRegistration order:\n" ++ String.join ((c.order.zipIdx 1).map fun (id, number) =>
    "  " ++ toString number ++ ". " ++ id.display ++ "\n")
  heading ("Compiled " ++ file) ++ tally .task "task" ++ tally .workflow "workflow" ++
    tally .launchPlan "launch plan" ++ "  → Digest: " ++ c.digest ++ "\n" ++ written ++
    if verbose then order else ""

def drawing (format : DrawingFormat) (w : CheckedWorkflow) : String :=
  match format with
  | .text => w.text
  | .dot => w.dot
  | .mermaid => w.mermaid

/-- The workflow with a full identifier, or else the last one with a name. -/
def findWorkflow (wanted : String) (c : Closure) : Except Failure CheckedWorkflow :=
  match c.workflows.find? (·.spec.id.display == wanted) with
  | some w => .ok w
  | none =>
    match (c.workflows.filter (·.spec.id.name == wanted)).getLast? with
    | some w => .ok w
    | none => .error (.noWorkflow wanted (c.workflows.map (·.spec.id.name)))

def compileBytes (config : Config) (file : String) (bytes : Except FileFault (List UInt8)) :
    Except Failure Closure :=
  match bytes with
  | .error .missing => .error (.defect (.fileMissing file))
  | .error .other => .error (.defect (.fileUnreadable file "<cause>"))
  | .ok bytes =>
    match config.compileApart bytes with
    | .ok c => .ok c
    | .error (.compilation defects _) => .error (.notCompiled file defects)
    | .error defect => .error (.defect defect)

def Action.fault? : Action → Option Failure
  | .graph workflow _ =>
    if (trimWhiteSpace workflow.toList).isEmpty then
      some (.defect (.badArgument "--workflow must name a workflow"))
    else none
  | .compile _ _ => none

section
variable {m : Type → Type} [Monad m]

/-- Compiles the bundle of a command by the settings in the current folder. -/
def compileFile (files : Files m) (c : Command) : ExceptT Failure m Closure := do
  match ← ExceptT.lift (Config.resolve files c.config "") with
  | .error defect => throw (.defect defect)
  | .ok config => liftM (compileBytes config c.file (← files.read c.file))

def save (files : Files m) (path : String) (closure : Closure) : ExceptT Failure m Unit := do
  match ← files.write path (Utf8.encode closure.toJson.pretty) with
  | .ok () => return ()
  | .error _ => throw (.defect (.fileUnwritable path "<cause>"))

/-- Runs a command, which gives what to print. -/
def Command.run (files : Files m) (c : Command) : ExceptT Failure m String := do
  if let some failure := c.action.fault? then throw failure
  let closure ← compileFile files c
  match c.action with
  | .compile format output => do
    if let some path := output then save files path closure
    match format with
    | .json => return closure.toJson.pretty ++ "\n"
    | .text => return summary c.file output c.verbose closure
  | .graph workflow format => do
    return drawing format (← findWorkflow workflow closure)

end

end CommandLine

end WorkflowBundle
