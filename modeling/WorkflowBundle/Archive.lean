import WorkflowBundle.Archive.Gzip
import WorkflowBundle.Archive.Tar
import WorkflowBundle.Compile
import WorkflowBundle.Config

/-! Bundles are compressed tape archives. Their files are taken into memory, within limits;
names that lead out of the bundle are refused. -/
namespace WorkflowBundle.Archive

inductive Fault where
  | notCompressed
  /-- The archive cannot be read on. -/
  | broken
  | escapingPath (path : String)
  | emptyPath
  | repeatedName (name : String)
  | tooManyEntries (limit : UInt64)
  | entryTooLarge (name : String) (size : Nat) (limit : UInt64)
  | unreadableData (name : String)
  | wrongSize (name : String) (declared found : Nat)
  | bundleTooLarge (limit : UInt64)
  /-- A sum of sizes does not fit into 64 bits. That is nothing to report: the program breaks off. -/
  | overflow
  deriving DecidableEq, Repr

def Fault.message : Fault → String
  | notCompressed => "invalid gzip header"
  | broken => "corrupt archive entry: <cause>"
  | escapingPath path => "entry path '" ++ path ++ "' escapes the bundle root"
  | emptyPath => "archive entry has an empty path"
  | repeatedName name => "entry '" ++ name ++ "' appears more than once"
  | tooManyEntries limit => "bundle has more than " ++ toString limit ++ " entries"
  | entryTooLarge name size limit =>
    "entry '" ++ name ++ "' is " ++ toString size ++ " bytes, above the " ++ toString limit ++
      " byte limit"
  | unreadableData name => "truncated entry '" ++ name ++ "': <cause>"
  | wrongSize name declared found =>
    "truncated entry '" ++ name ++ "': expected " ++ toString declared ++ " bytes, read " ++
      toString found
  | bundleTooLarge limit => "bundle expands beyond the " ++ toString limit ++ " byte limit"
  | overflow => "attempt to add with overflow"

def slash : UInt8 := 0x2F

def parent : List UInt8 := [0x2E, 0x2E]

def components (path : List UInt8) : List (List UInt8) :=
  (Tar.split slash path).filter fun part => part != [] && part != [0x2E]

/-- The components of a path below the root of the bundle. -/
def safeComponents (path : List UInt8) : Except Fault (List (List UInt8)) :=
  if path.head? == some slash || (components path).contains parent then
    .error (.escapingPath (Utf8.lossy path))
  else if (components path).isEmpty then .error .emptyPath
  else .ok (components path)

/-- A pattern covers the whole name or its last component. -/
def isIgnored (ignore : List NamePattern) (parts : List String) : Bool :=
  ignore.any fun p => p.covers ("/".intercalate parts) || p.covers (parts.getLastD "")

/-- What was taken so far, the latest entry first, and its size. -/
structure Kept where
  entries : List Entry := []
  bytes : Nat := 0

/-- The sum of two sizes, in 64 bits. -/
def addSizes (a b : Nat) : Except Fault Nat :=
  if a + b < UInt64.size then .ok (a + b) else .error .overflow

namespace Kept

/-- Takes a file under a name. Its contents are read up to one byte beyond what an entry may have,
and memory for them is taken to be there. -/
def take (limits : Limits) (kept : Kept) (name : String) (m : Tar.Member) : Except Fault Kept :=
  if kept.entries.any (·.name == name) then .error (.repeatedName name)
  else if limits.maxEntries.toNat ≤ kept.entries.length then
    .error (.tooManyEntries limits.maxEntries)
  else if limits.maxEntryBytes.toNat < m.size then
    .error (.entryTooLarge name m.size limits.maxEntryBytes)
  else do
    match m.content.read? (← addSizes limits.maxEntryBytes.toNat 1) with
    | none => .error (.unreadableData name)
    | some data =>
      if data.length ≠ m.size then .error (.wrongSize name m.size data.length)
      else
        let bytes ← addSizes kept.bytes data.length
        if limits.maxTotalBytes.toNat < bytes then .error (.bundleTooLarge limits.maxTotalBytes)
        else .ok ⟨⟨name, data⟩ :: kept.entries, bytes⟩

def add (limits : Limits) (ignore : List NamePattern) (kept : Kept) (m : Tar.Member) :
    Except Fault Kept := do
  let parts := (← safeComponents m.path).map Utf8.lossy
  if m.kind ≠ .file || isIgnored ignore parts then return kept
  else kept.take limits ("/".intercalate parts) m

end Kept

/-- Takes the entries of a bundle in the order of the archive. -/
def select (limits : Limits) (ignore : List NamePattern) (listing : Tar.Listing) :
    Except Fault (List Entry) := do
  let kept ← listing.members.foldlM (Kept.add limits ignore) {}
  if listing.sound then return kept.entries.reverse else throw .broken

def unpack (limits : Limits) (ignore : List NamePattern) (data : List UInt8) :
    Except Fault (List Entry) :=
  if data.take 2 == Gzip.magic then select limits ignore (Tar.list (Gzip.decompress data))
  else .error .notCompressed

end WorkflowBundle.Archive

namespace WorkflowBundle

namespace Config

/-- What keeps a bundle from being compiled. -/
inductive Failure where
  | defect (defect : Defect)
  /-- The sizes of its entries left 64 bits, at which the compilation breaks off. -/
  | overflow

def Failure.ofFault : Archive.Fault → Failure
  | .overflow => .overflow
  | fault => .defect (.unreadableArchive fault.message)

def unpack (config : Config) (data : List UInt8) : Except Failure (List Entry) := do
  let ignore ← config.ignorePatterns.mapError fun fault => .defect (.badConfig fault.message)
  (Archive.unpack config.limits ignore data).mapError .ofFault

def compile (config : Config) (data : List UInt8) : Except Failure Closure := do
  (WorkflowBundle.compile config.union (← config.unpack data)).mapError .defect

/-- Compiles apart from the rest of the program, which goes on when the compilation breaks off and
reports that. -/
def compileApart (config : Config) (data : List UInt8) : Except Defect Closure :=
  (config.compile data).mapError fun
    | .defect defect => defect
    | .overflow => .system "compilation task failed: <cause>"

end Config

end WorkflowBundle
