/-! Files as a program sees them, and a small tree of files in memory. -/
namespace WorkflowBundle

inductive FileFault where
  | missing
  | other
  deriving DecidableEq, Repr

structure Files (m : Type → Type) where
  isThere : String → m Bool
  isFile : String → m Bool
  read : String → m (Except FileFault (List UInt8))
  write : String → List UInt8 → m (Except FileFault Unit)

/-- A place in a tree: so many folders up from its root, and then down. -/
structure Location where
  up : Nat := 0
  down : List String := []
  deriving DecidableEq, Repr

/-- Files and folders, and the folder from which paths are followed. Folders on the way to
something need no mention. Nothing is known about what is outside. -/
structure FileTree where
  files : List (Location × List UInt8) := []
  folders : List Location := []
  current : Location := {}

namespace FileTree

inductive Kind where
  | file
  | folder
  deriving DecidableEq, Repr

def kind? (t : FileTree) (place : Location) : Option Kind :=
  if (t.files.lookup place).isSome then some .file
  else if place.down.isEmpty || (t.files.map Prod.fst ++ t.folders).any (fun other =>
      other.up == place.up && other.down.take place.down.length == place.down) then some .folder
  else none

/-- Goes one part of a path on from a folder. -/
def step (t : FileTree) (place : Location) (part : String) : Except FileFault Location :=
  match t.kind? place with
  | none => .error .missing
  | some .file => .error .other
  | some .folder =>
    if part == "" || part == "." then .ok place
    else if part == ".." then
      .ok (if place.down.isEmpty then { place with up := place.up + 1 }
        else { place with down := place.down.dropLast })
    else .ok { place with down := place.down ++ [part] }

def locate (t : FileTree) (path : String) : Except FileFault Location :=
  if path.isEmpty || path.startsWith "/" then .error .missing
  else (path.splitOn "/").foldlM t.step t.current

def kindAt? (t : FileTree) (path : String) : Option Kind :=
  match t.locate path with
  | .ok place => t.kind? place
  | .error _ => none

def read (t : FileTree) (path : String) : Except FileFault (List UInt8) := do
  let place ← t.locate path
  match t.files.lookup place, t.kind? place with
  | some bytes, _ => .ok bytes
  | none, some _ => .error .other
  | none, none => .error .missing

def write (t : FileTree) (path : String) (bytes : List UInt8) : Except FileFault FileTree := do
  let place ← t.locate path
  if t.kind? place == some .folder then .error .other
  else .ok { t with files := (place, bytes) :: t.files }

def addFile (t : FileTree) (path : String) (bytes : List UInt8) : FileTree :=
  { t with files := (⟨0, path.splitOn "/"⟩, bytes) :: t.files }

def addFolder (t : FileTree) (path : String) : FileTree :=
  { t with folders := ⟨0, path.splitOn "/"⟩ :: t.folders }

/-- Makes another folder the one from which paths are followed. -/
def enter? (t : FileTree) (path : String) : Option FileTree :=
  match t.locate path with
  | .ok place => if t.kind? place = some .folder then some { t with current := place } else none
  | .error _ => none

/-- Access to the files of a tree. -/
def access : Files (StateM FileTree) where
  isThere path := return ((← get).kindAt? path).isSome
  isFile path := return (← get).kindAt? path = some .file
  read path := return (← get).read path
  write path bytes := do
    match (← get).write path bytes with
    | .ok t => do
      set t
      return .ok ()
    | .error fault => return .error fault

end FileTree

end WorkflowBundle
