import WorkflowBundle.Archive.Stream
import WorkflowBundle.Text.Utf8
import WorkflowBundle.Text.WhiteSpace

/-! Tape archives: members in blocks, each with a header before its data. What does not fit
into a header stands in a member of its own before it. Two blocks of zeros end an archive, and
so does the end of the data. -/
namespace WorkflowBundle.Tar

def blockSize : Nat := 512

inductive MemberKind where
  | file
  | directory
  | other
  deriving DecidableEq, Repr

structure Member where
  path : List UInt8
  kind : MemberKind
  size : Nat
  content : ByteStream
  deriving DecidableEq, Repr

/-- The members of an archive. An archive that is not sound cannot be read on behind them. -/
structure Listing where
  members : List Member
  sound : Bool
  deriving DecidableEq, Repr

def digit? (base : Nat) (c : Char) : Option Nat :=
  if '0' ≤ c && c.toNat - '0'.toNat < base then some (c.toNat - '0'.toNat) else none

/-- A number without sign or with a plus sign. -/
def natural? (base : Nat) (text : List Char) : Option Nat :=
  let digits := match text with
    | '+' :: rest => rest
    | _ => text
  if digits.isEmpty then none
  else digits.foldlM (fun n c => (digit? base c).map (base * n + ·)) 0

def text? (bytes : List UInt8) : Option (List Char) :=
  (Utf8.decode bytes).toOption.map String.toList

/-- A number in octal digits up to a zero byte, with white space around it. -/
def octal? (field : List UInt8) : Option Nat := do
  natural? 8 (trimWhiteSpace (← text? (field.takeWhile (· != 0))))

/-- A number in octal digits, or one of eight bytes when the first bit is set. -/
def number? (field : List UInt8) : Option Nat :=
  match field with
  | first :: _ =>
    if first &&& 0x80 != 0 then
      some ((field.drop (field.length - 8)).foldl (fun n b => 256 * n + b.toNat) 0)
    else octal? field
  | [] => octal? field

structure Header where
  block : List UInt8

namespace Header

def field (h : Header) (offset length : Nat) : List UInt8 := (h.block.drop offset).take length

/-- A field of text, which ends before a zero byte. -/
def textField (h : Header) (offset length : Nat) : List UInt8 :=
  (h.field offset length).takeWhile (· != 0)

def format (h : Header) : List UInt8 := h.field 257 8

/-- The standard format. Long paths are cut in two. -/
def isStandard (h : Header) : Bool := h.format == [0x75, 0x73, 0x74, 0x61, 0x72, 0, 0x30, 0x30]

/-- The format with sparse members. -/
def isExtended (h : Header) : Bool :=
  h.format == [0x75, 0x73, 0x74, 0x61, 0x72, 0x20, 0x20, 0]

def tag (h : Header) : Char := Char.ofNat ((h.block.getD 156 0).toNat)

def kind (h : Header) : MemberKind :=
  match h.tag with
  | '\x00' | '0' => .file
  | '5' => .directory
  | _ => .other

/-- The sum of all bytes, with blanks in place of the sum itself. -/
def sum (h : Header) : Nat :=
  (h.block.take 148 ++ h.block.drop 156).foldl (fun n b => n + b.toNat) (8 * 32)

def isIntact (h : Header) : Bool := octal? (h.field 148 8) == some h.sum

def size? (h : Header) : Option Nat := number? (h.field 124 12)

def path (h : Header) : List UInt8 :=
  let name := h.textField 0 100
  let folder := if h.isStandard then h.textField 345 155 else []
  if folder.isEmpty then name else folder ++ 0x2F :: name

end Header

def split (separator : UInt8) : List UInt8 → List (List UInt8)
  | [] => [[]]
  | b :: rest =>
    match split separator rest with
    | piece :: pieces => if b == separator then [] :: piece :: pieces else (b :: piece) :: pieces
    | [] => [[]]

/-- Reads `length key=value`, where the length counts all of the line. -/
def attribute? (line : List UInt8) : Option (List UInt8 × List UInt8) := do
  let digits ← text? (line.takeWhile (· != 0x20))
  match line.dropWhile (· != 0x20) with
  | _ :: rest =>
    let length ← natural? 10 digits
    match rest.dropWhile (· != 0x3D) with
    | _ :: value =>
      if length == line.length + 1 then some (rest.takeWhile (· != 0x3D), value) else none
    | [] => none
  | [] => none

/-- What the lines of a member with attributes say, up to an empty line. -/
def attributes (data : List UInt8) : List (Option (List UInt8 × List UInt8)) :=
  ((split 0x0A data).takeWhile (!·.isEmpty)).map attribute?

def pathAttribute? (data : List UInt8) : Option (List UInt8) :=
  ((attributes data).filterMap id).lookup (Utf8.encode "path")

/-- The size, when no line before it is malformed. -/
def sizeAttribute? (data : List UInt8) : Option Nat :=
  match ((attributes data).takeWhile Option.isSome).filterMap id |>.lookup (Utf8.encode "size") with
  | some value =>
    match (text? value).bind (natural? 10) with
    | some n => if n < UInt64.size then some n else none
    | none => none
  | none => none

/-- How much of a sparse member is described: the place reached in it, and the stored bytes
that are left. -/
structure Sparse where
  place : Nat
  left : Nat

namespace Sparse

/-- Takes in a stored piece of a member of which `size` bytes are stored. -/
def add (size : Nat) (s : Sparse) (piece : List UInt8) : Option Sparse := do
  let offset := piece.take 12
  let length := (piece.drop 12).take 12
  if offset.headD 0 == 0 || length.headD 0 == 0 then return s
  let offset ← number? offset
  let length ← number? length
  if length != 0 && (size - s.left) % blockSize != 0 || offset < s.place ||
      UInt64.size ≤ offset + length || s.left < length then none
  return ⟨offset + length, s.left - length⟩

def addAll (size : Nat) (s : Sparse) (pieces : List UInt8) (count : Nat) : Option Sparse :=
  (List.range count).foldlM (fun s i => s.add size (pieces.drop (24 * i))) s

/-- Takes in blocks that list further pieces, and counts them. -/
def addBlocks (size : Nat) : (fuel : Nat) → Sparse → ByteStream → Option (Sparse × Nat)
  | 0, _, _ => none
  | fuel + 1, s, rest => do
    let block := rest.bytes.take blockSize
    let after ← rest.skip? blockSize
    let s ← s.addAll size block 21
    if block.getD 504 0 == 1 then
      let (s, count) ← addBlocks size fuel s after
      return (s, count + 1)
    else return (s, 1)

end Sparse

/-- The number of blocks behind a header that go on listing the pieces of a sparse member. -/
def sparseBlocks? (h : Header) (size : Nat) (rest : ByteStream) : Option Nat := do
  if h.tag != 'S' then return 0
  if !h.isExtended then none
  let s ← Sparse.addAll size ⟨0, size⟩ (h.field 386 96) 4
  let (s, count) ← if h.block.getD 482 0 == 1
    then s.addBlocks size (rest.bytes.length + 1) rest else some (s, 0)
  let real ← number? (h.field 483 12)
  if s.place == real && s.left == 0 then some count else none

/-- What the members before a member say about it. -/
structure Notes where
  path : Option (List UInt8) := none
  link : Option (List UInt8) := none
  attributes : Option (List UInt8) := none
  deriving DecidableEq

namespace Notes

/-- Notes down what a member of the given kind says; nothing is said twice. -/
def add? (notes : Notes) (tag : Char) (data : List UInt8) : Option Notes :=
  match tag with
  | 'L' => if notes.path.isSome then none else some { notes with path := some data }
  | 'K' => if notes.link.isSome then none else some { notes with link := some data }
  | _ => if notes.attributes.isSome then none else some { notes with attributes := some data }

/-- The path of the member with that header. A zero byte may end a noted path. -/
def pathFor (notes : Notes) (h : Header) : List UInt8 :=
  match notes.path with
  | some path => if path.getLast? == some 0 then path.dropLast else path
  | none => (notes.attributes.bind pathAttribute?).getD h.path

end Notes

/-- Members that only say something about the next one. -/
def isNote (h : Header) : Bool :=
  (h.isStandard || h.isExtended) && ['L', 'K', 'x'].contains h.tag

def span (size : Nat) : Nat := (size + blockSize - 1) / blockSize * blockSize

def Listing.broken : Listing := ⟨[], false⟩

/-- Lists the members from a position of the archive on. -/
def listFrom : (fuel : Nat) → Notes → (position : Nat) → ByteStream → Listing
  | 0, _, _, _ => .broken
  | fuel + 1, notes, position, stream =>
    match stream.read? blockSize with
    | none => .broken
    | some block =>
      if block.isEmpty || block.length == blockSize && block.all (· == 0) then
        ⟨[], notes == {}⟩
      else
        let h : Header := ⟨block⟩
        match stream.skip? blockSize, h.size? with
        | some rest, some declared =>
          let size := (notes.attributes.bind sizeAttribute?).getD declared
          let next := position + blockSize + span size
          if !h.isIntact || UInt64.size ≤ next then .broken
          else if isNote h then
            match notes.add? h.tag (rest.bytes.take size), rest.skip? (span size) with
            | some notes, some after => listFrom fuel notes next after
            | _, _ => .broken
          else
            match sparseBlocks? h size rest with
            | none => .broken
            | some extra =>
              let others := match rest.skip? (span size + blockSize * extra) with
                | some after => listFrom fuel {} (next + blockSize * extra) after
                | none => .broken
              ⟨⟨notes.pathFor h, h.kind, declared, rest.limit size⟩ :: others.members, others.sound⟩
        | _, _ => .broken

def list (stream : ByteStream) : Listing := listFrom (stream.bytes.length + 1) {} 0 stream

end WorkflowBundle.Tar
