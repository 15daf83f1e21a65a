import WorkflowBundle.Text.WhiteSpace

/-! Command lines. Options stand before the command or after it. An option may be one word with
its value or be followed by it; one-letter options may share a word. The value of an option
that is followed by it is looked at when the next option comes, or at the end. -/
namespace WorkflowBundle.CommandLine

inductive UsageFault where
  | helpWanted
  | versionWanted
  | nothing
  | missingCommand
  | unknownCommand
  | unknownOption
  | missingOption
  | repeatedOption
  | missingValue
  | badValue
  /-- A value is given to an option that has none. -/
  | extraValue
  deriving DecidableEq, Repr

inductive OptionName where
  | verbose
  | directory
  | config
  | help
  | version
  | file
  | format
  | output
  | workflow
  deriving DecidableEq, Repr

namespace OptionName

def long : OptionName → String
  | verbose => "verbose"
  | directory => "directory"
  | config => "config"
  | help => "help"
  | version => "version"
  | file => "file"
  | format => "format"
  | output => "output"
  | workflow => "workflow"

def letter? : OptionName → Option Char
  | verbose => some 'v'
  | directory => some 'C'
  | help => some 'h'
  | version => some 'V'
  | file => some 'f'
  | output => some 'o'
  | workflow => some 'w'
  | config | format => none

def hasValue : OptionName → Bool
  | verbose | help | version => false
  | _ => true

end OptionName

inductive SummaryFormat where
  | text
  | json
  deriving DecidableEq, Repr

inductive DrawingFormat where
  | text
  | dot
  | mermaid
  deriving DecidableEq, Repr

/-- Names of formats may be written in capitals. -/
def SummaryFormat.ofName? (name : String) : Option SummaryFormat :=
  match name.toLower with
  | "text" => some .text
  | "json" => some .json
  | _ => none

def DrawingFormat.ofName? (name : String) : Option DrawingFormat :=
  match name.toLower with
  | "text" => some .text
  | "dot" => some .dot
  | "mermaid" => some .mermaid
  | _ => none

/-- What may stand at one level of a command line. -/
structure Grammar where
  options : List OptionName
  /-- The word is the name of a format. -/
  isFormat : String → Bool := fun _ => false
  commands : List String := []

namespace Grammar

def shared : List OptionName := [.verbose, .directory, .config, .help]

/-- What may stand before the command, and the commands. -/
def top : Grammar where
  options := .version :: shared
  commands := ["compile", "graph", "help"]

def compile : Grammar where
  options := [.file, .format, .output] ++ shared
  isFormat name := (SummaryFormat.ofName? name).isSome

def graph : Grammar where
  options := [.file, .workflow, .format] ++ shared
  isFormat name := (DrawingFormat.ofName? name).isSome

def ofLong? (g : Grammar) (name : String) : Option OptionName :=
  g.options.find? (·.long == name)

def ofLetter? (g : Grammar) (c : Char) : Option OptionName :=
  g.options.find? (·.letter? == some c)

def valueFault? (g : Grammar) (option : OptionName) (value : String) : Option UsageFault :=
  match option with
  | .directory | .config | .output => if value.isEmpty then some .missingValue else none
  | .file => if (trimWhiteSpace value.toList).isEmpty then some .badValue else none
  | .format => if g.isFormat value then none else some .badValue
  | _ => none

/-- What is wrong with a word that is neither an option nor a value. -/
def strayFault (g : Grammar) (word : String) (afterDashes : Bool) : UsageFault :=
  if g.commands.isEmpty || afterDashes && g.commands.contains word then .unknownOption
  else .unknownCommand

end Grammar

/-- Options that were met, each with its value or an empty one. -/
abbrev Given := List (OptionName × String)

structure Draft where
  given : Given := []
  /-- An option whose value was not looked at, or has not come yet. -/
  pending : Option (OptionName × Option String) := none

namespace Draft

def isWaiting (d : Draft) : Bool :=
  match d.pending with
  | some (_, none) => true
  | _ => false

/-- Notes an option. Help and the version are not noted but asked for at once. -/
def note (g : Grammar) (d : Draft) (option : OptionName) (value : String) :
    Except UsageFault Draft :=
  match option with
  | .help => .error .helpWanted
  | .version => .error .versionWanted
  | _ =>
    if (d.given.lookup option).isSome then .error .repeatedOption
    else match g.valueFault? option value with
      | some fault => .error fault
      | none => .ok { d with given := (option, value) :: d.given }

def settle (g : Grammar) (d : Draft) : Except UsageFault Draft :=
  match d.pending with
  | none => .ok d
  | some (_, none) => .error .missingValue
  | some (option, some value) => note g { d with pending := none } option value

/-- Meets an option with the value in its own word, if there is one. -/
def meet (g : Grammar) (d : Draft) (option : OptionName) (value : Option String) :
    Except UsageFault Draft :=
  match option.hasValue, value with
  | true, some value => do (← d.settle g).note g option value
  | true, none => do return { ← d.settle g with pending := some (option, none) }
  | false, none => do (← d.settle g).note g option ""
  | false, some _ => .error .extraValue

/-- Meets the option of a word that starts with two dashes. -/
def meetLong (g : Grammar) (d : Draft) (text : List Char) : Except UsageFault Draft :=
  let name := text.takeWhile (· != '=')
  let value := match text.drop name.length with
    | _ :: value => some (String.ofList value)
    | [] => none
  match g.ofLong? (String.ofList name) with
  | some option => d.meet g option value
  | none => .error .unknownOption

def valueBehind : List Char → Option String
  | [] => none
  | '=' :: value => some (String.ofList value)
  | value => some (String.ofList value)

/-- Meets the options of a word of letters. The first one with a value takes all behind it. -/
def meetLetters (g : Grammar) (d : Draft) : List Char → Except UsageFault Draft
  | [] => .ok d
  | c :: rest =>
    match g.ofLetter? c with
    | none => .error .unknownOption
    | some option =>
      if option.hasValue then d.meet g option (valueBehind rest)
      else do meetLetters g (← d.meet g option none) rest

def meetWord (g : Grammar) (d : Draft) (word : String) : Except UsageFault Draft :=
  match d.pending with
  | some (option, none) => .ok { d with pending := some (option, some word) }
  | _ => .error (g.strayFault word false)

/-- Meets a word that is neither a command nor two dashes. -/
def meetAny (g : Grammar) (d : Draft) (word : String) : Except UsageFault Draft :=
  match word.toList with
  | '-' :: '-' :: text => d.meetLong g text
  | '-' :: c :: letters => d.meetLetters g (c :: letters)
  | _ => d.meetWord g word

/-- Reads words up to a command. Behind two dashes alone there can be nothing. -/
def readWords (g : Grammar) (d : Draft) :
    List String → Except UsageFault (Draft × Option (String × List String))
  | [] => .ok (d, none)
  | word :: rest =>
    if !d.isWaiting && g.commands.contains word then .ok (d, some (word, rest))
    else if word == "--" then
      match rest with
      | [] => .ok (d, none)
      | stray :: _ => .error (g.strayFault stray true)
    else do readWords g (← d.meetAny g word) rest

end Draft

/-- The options among some words. -/
def Grammar.readOptions (g : Grammar) (words : List String) : Except UsageFault Given := do
  return (← (← Draft.readWords g {} words).1.settle g).given

inductive Action where
  /-- Says what is in it, and writes the closure to a file if one is named. -/
  | compile (format : SummaryFormat) (output : Option String)
  /-- Draws one workflow. -/
  | graph (workflow : String) (format : DrawingFormat)
  deriving DecidableEq, Repr

structure Command where
  file : String
  action : Action
  verbose : Bool := false
  directory : Option String := none
  config : Option String := none
  deriving DecidableEq, Repr

namespace Given

def demand (given : Given) (option : OptionName) : Except UsageFault String :=
  match given.lookup option with
  | some value => .ok value
  | none => .error .missingOption

def summaryFormat (given : Given) : SummaryFormat :=
  ((given.lookup .format).bind SummaryFormat.ofName?).getD .text

def drawingFormat (given : Given) : DrawingFormat :=
  ((given.lookup .format).bind DrawingFormat.ofName?).getD .text

end Given

/-- The command with some options before it and some after it, which count more. -/
def Command.ofGiven (before after : Given) (file : String) (action : Action) : Command where
  file := file
  action := action
  verbose := ((after ++ before).lookup .verbose).isSome
  directory := (after ++ before).lookup .directory
  config := (after ++ before).lookup .config

/-- Reads what comes after a command, but for the options that come before it. -/
def readCommand (name : String) (words : List String) :
    Except UsageFault (Given × String × Action) :=
  match name with
  | "compile" => do
    let given ← Grammar.compile.readOptions words
    return (given, ← given.demand .file,
      .compile given.summaryFormat (given.lookup .output))
  | "graph" => do
    let given ← Grammar.graph.readOptions words
    return (given, ← given.demand .file, .graph (← given.demand .workflow) given.drawingFormat)
  | _ =>
    match words with
    | [] => .error .helpWanted
    | [topic] => .error (if Grammar.top.commands.contains topic then .helpWanted else .unknownCommand)
    | _ => .error .unknownCommand

/-- Reads a command line. What is wrong after the command goes before what was left to look
at before it. -/
def read (words : List String) : Except UsageFault Command := do
  let (draft, rest) ← Draft.readWords .top {} words
  match rest with
  | some (name, rest) => do
    let (after, file, action) ← readCommand name rest
    return .ofGiven (← draft.settle .top).given after file action
  | none => do
    let before := (← draft.settle .top).given
    throw (if before.isEmpty then .nothing else .missingCommand)

end WorkflowBundle.CommandLine
