import WorkflowBundle.Config
import WorkflowBundle.Defect
import WorkflowBundle.Files
import WorkflowBundle.Text.Utf8
import WorkflowBundle.Toml.Reader
import WorkflowBundle.Yaml

/-! Settings in files. A file is YAML unless its name says that it is TOML. Unknown settings are
passed over. -/
namespace WorkflowBundle

namespace Yaml

/-- An empty value, which may stand for a record or a list without anything in it. -/
def isVoid : Node → Bool
  | .scalar _ text style => text.isEmpty && style = .plain
  | _ => false

/-- The text of a scalar that means more than its text: a plain one, or a literal block with
the tag of the type. -/
def typedText (type : String) : Node → Except Fault String
  | .scalar properties text style =>
    if style = .plain || style = .literal && properties.tag = some (coreTag type) then .ok text
    else .error .mismatch
  | _ => .error .mismatch

def writtenText : Node → Except Fault String
  | .scalar _ text _ => .ok text
  | _ => .error .mismatch

def Anchors.deref (a : Anchors) : Node → Except Fault Node
  | .aliasOf number =>
    match a.node? number with
    | some node => .ok node
    | none => .error .malformed
  | node => .ok node

def demand (value : Option α) : Except Fault α :=
  match value with
  | some value => .ok value
  | none => .error .mismatch

/-- Settings in YAML. A string is what the scalar has written; a name may be a tag of nothing. -/
def settings (a : Anchors) : SettingFormat Node where
  fields _ node := do
    let node ← a.deref node
    match node with
    | .table _ fields => do
      let named ← fields.mapM fun (key, value) => do
        return (← writtenText (← a.deref key), value)
      return (named, none)
    | node => if isVoid node then .ok ([], none) else .error .mismatch
  items node := do
    let node ← a.deref node
    match node with
    | .list _ items => .ok items
    | node => if isVoid node then .ok [] else .error .mismatch
  text node := do writtenText (← a.deref node)
  truth node := do demand (bool? (← typedText "bool" (← a.deref node)))
  number node := do demand (unsigned? (← typedText "int" (← a.deref node)))
  name known node := do
    let node ← a.deref node
    match node with
    | .scalar properties text style =>
      let name ← match ownTag? properties.tag with
        | some name => if style = .plain && (text.isEmpty || isNull text) then .ok name else .error .mismatch
        | none => .ok text
      if known.contains name then .ok name else .error (.unknownVariant name known)
    | _ => .error .mismatch

end Yaml

namespace Toml

/-- Settings in TOML. A record may be a list of its fields in order; a name may be the key of
an empty table. -/
def settings : SettingFormat Value where
  fields known
    | .table _ fields => .ok (fields, none)
    | .array items => .ok (known.zip items, none)
    | .tables elements => .ok (known.zip (elements.map (.table .header)), none)
    | .moment => .ok ([], none)
    | _ => .error .mismatch
  items
    | .array items => .ok items
    | .tables elements => .ok (elements.map (.table .header))
    | _ => .error .mismatch
  text
    | .text s => .ok s
    | _ => .error .mismatch
  truth
    | .bool b => .ok b
    | _ => .error .mismatch
  number
    | .integer i => if 0 ≤ i then .ok i.toNat.toUInt64 else .error .mismatch
    | _ => .error .mismatch
  name known value := do
    let name ← match value with
      | .text s => .ok s
      | .table _ [(key, .array [])] | .table _ [(key, .table _ [])] => .ok key
      | _ => .error .mismatch
    if known.contains name then .ok name else .error (.unknownVariant name known)

end Toml

namespace Config

def ofYaml (text : String) : Except Fault Config :=
  let d := Yaml.Parser.ofText text
  if !d.whole || d.more then .error .malformed
  else match d.root with
    | none => .ok {}
    | some root => read (Yaml.settings (.ofRoot root)) root

def ofToml (text : String) : Except Fault Config :=
  match Toml.ofText text with
  | some fields => read Toml.settings (.table .header fields)
  | none => .error .malformed

/-- The name of a file ends in `.toml`, with something before it. -/
def isTomlPath (path : String) : Bool :=
  match ((path.splitOn "/").filter fun part => part != "" && part != ".").getLast? with
  | some name => name.endsWith ".toml" && name != ".toml"
  | none => false

def ofText (path text : String) : Except ConfigFault Config := do
  let config ← ((if isTomlPath path then ofToml else ofYaml) text).mapError fun _ => .malformed path
  config.check
  return config

def ofFile (path : String) (bytes : Except FileFault (List UInt8)) : Except ConfigFault Config :=
  match bytes with
  | .error _ => .error (.unreadable path)
  | .ok bytes =>
    match Utf8.decode bytes with
    | .error _ => .error (.unreadable path)
    | .ok text => ofText path text

/-- Names of files with settings, the preferred one first. -/
def fileNames : List String := [".flowpack.yaml", ".flowpack.yml", "flowpack.toml"]

variable {m : Type → Type} [Monad m]

/-- The file with settings in a folder, whose path ends in a slash or is empty. -/
def discover (files : Files m) (folder : String) : m (Option String) :=
  (fileNames.map (folder ++ ·)).findM? files.isFile

def load (files : Files m) (path : String) : m (Except Defect Config) := do
  return (ofFile path (← files.read path)).mapError fun fault => .badConfig fault.message

/-- The settings in force: those of the file that is named, else those of a file that is found,
else the default ones. -/
def resolve (files : Files m) (named : Option String) (folder : String) :
    m (Except Defect Config) := do
  match named with
  | some path => if ← files.isThere path then load files path else return .error (.fileMissing path)
  | none =>
    match ← discover files folder with
    | some path => load files path
    | none => return .ok {}

end Config

end WorkflowBundle
