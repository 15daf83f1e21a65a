import WorkflowBundle.CommandLine

/-! The program: its arguments name a command, and files are those of the system. -/
namespace WorkflowBundle.CommandLine

/-- A path as seen from a folder, which is empty or ends in a slash. -/
def within (folder path : String) : String :=
  if path.startsWith "/" then path else folder ++ path

def faultOf : IO.Error → FileFault
  | .noFileOrDirectory _ _ _ => .missing
  | _ => .other

/-- The number of the error that there is a folder in place of a file. -/
def isFolderCode : UInt32 := 21

def attempt (action : IO α) : IO (Except FileFault α) := do
  try return .ok (← action) catch e => return .error (faultOf e)

/-- Access to the files of the system. An empty path leads nowhere. -/
def systemFiles (folder : String) : Files IO where
  isThere path := do
    match ← readAt path with
    | .error .missing => return false
    | _ => return true
  isFile path := return (← readAt path).toBool
  read := readAt
  write path bytes :=
    attempt (IO.FS.writeBinFile (within folder path) (ByteArray.mk bytes.toArray))
where
  readAt (path : String) : IO (Except FileFault (List UInt8)) := do
    if path.isEmpty then return .error .missing
    return (← attempt (IO.FS.readBinFile (within folder path))).map (·.toList)

def isFolder (path : String) : IO Bool := do
  try
    let _ ← IO.FS.readBinFile (path ++ "/.")
    return false
  catch
    | .inappropriateType _ code _ => return code = isFolderCode
    | _ => return false

def help : String :=
  "Compile workflow bundles into a validated, fully resolved closure\n\n" ++
  "Usage: flowpack [OPTIONS] <COMMAND>\n\n" ++
  "Commands:\n" ++
  "  compile  Compile a bundle and report every defect found\n" ++
  "  graph    Compile a bundle and show one workflow as a graph\n" ++
  "  help     Print this message\n\n" ++
  "Options:\n" ++
  "  -f, --file <FILE>          Bundle archive (.tgz)\n" ++
  "      --format <FORMAT>      text or json; for graph text, dot or mermaid\n" ++
  "  -o, --output <OUTPUT>      Write the compiled closure as JSON to this path\n" ++
  "  -w, --workflow <WORKFLOW>  Workflow name, or full identifier\n" ++
  "  -v, --verbose              Enable verbose output\n" ++
  "  -C, --directory <DIR>      Change to directory before executing\n" ++
  "      --config <PATH>        Compiler configuration file\n" ++
  "  -h, --help                 Print help\n" ++
  "  -V, --version              Print version\n"

def versionText : String := "flowpack 0.1.0\n"

def UsageFault.message : UsageFault → String
  | helpWanted => help
  | versionWanted => versionText
  | nothing => help
  | missingCommand => "error: a command is required\n"
  | unknownCommand => "error: unrecognized command\n"
  | unknownOption => "error: unexpected argument\n"
  | missingOption => "error: a required option was not given\n"
  | repeatedOption => "error: an option cannot be used more than once\n"
  | missingValue => "error: a value is required for an option\n"
  | badValue => "error: invalid value for an option\n"
  | extraValue => "error: unexpected value for an option\n"

/-- Prints why there is nothing to run, which is no failure if that was wanted. -/
def explain (fault : UsageFault) : IO UInt32 := do
  if fault = .helpWanted || fault = .versionWanted then
    IO.print fault.message
    return 0
  else
    IO.eprint fault.message
    return 2

def execute (folder : String) (c : Command) : IO UInt32 := do
  match ← (c.run (systemFiles folder)).run with
  | .ok text =>
    IO.print text
    return 0
  | .error failure =>
    IO.eprint (failure.details ++ "Error: " ++ failure.message ++ "\n")
    return 1

def start (words : List String) : IO UInt32 := do
  match read words with
  | .error fault => explain fault
  | .ok c =>
    match c.directory with
    | none => execute "" c
    | some folder =>
      if ← isFolder folder then execute (folder ++ "/") c
      else
        IO.eprint ("Error: Failed to change to directory '" ++ folder ++ "'\n")
        return 1

end WorkflowBundle.CommandLine

def main (words : List String) : IO UInt32 := WorkflowBundle.CommandLine.start words
