import WorkflowBundle.Archive.Deflate
import WorkflowBundle.Archive.Stream

/-! Files with one deflated stream, a header before it, and a checksum and its length behind
it. The checksum matters to those who read up to the end. -/
namespace WorkflowBundle.Gzip

def crcStep : Nat → UInt32 → UInt32
  | 0, r => r
  | n + 1, r => crcStep n (if r &&& 1 == 1 then (r >>> 1) ^^^ 0xEDB88320 else r >>> 1)

def crc32 (bytes : List UInt8) : UInt32 :=
  bytes.foldl (fun r b => crcStep 8 (r ^^^ b.toUInt32)) 0xFFFFFFFF ^^^ 0xFFFFFFFF

def littleEndian : List UInt8 → Nat
  | [] => 0
  | b :: rest => b.toNat + 256 * littleEndian rest

def magic : List UInt8 := [0x1F, 0x8B]

/-- Names and comments in a header have at most so many bytes. -/
def maxText : Nat := 65535

/-- Skips a text that ends with a zero byte. -/
def skipText? (bytes : List UInt8) : Option (List UInt8) :=
  match bytes.dropWhile (· != 0) with
  | _ :: rest => if bytes.length - rest.length - 1 ≤ maxText then some rest else none
  | [] => none

/-- Skips a field of bytes with its length before it. -/
def skipExtra? (bytes : List UInt8) : Option (List UInt8) :=
  match bytes with
  | a :: b :: rest =>
    let length := littleEndian [a, b]
    if (rest.take length).length == length then some (rest.drop length) else none
  | _ => none

/-- Skips a checksum of the header, whose lower half is written. -/
def skipCheck? (header : List UInt8) (bytes : List UInt8) : Option (List UInt8) :=
  match bytes with
  | a :: b :: rest =>
    if littleEndian [a, b] == (crc32 header).toNat % 65536 then some rest else none
  | _ => none

def body? (bytes : List UInt8) : Option (List UInt8) := do
  match bytes with
  | a :: b :: method :: flags :: rest =>
    let rest ← if (rest.take 6).length == 6 then some (rest.drop 6) else none
    if [a, b] != magic || method != 8 || flags &&& 0xE0 != 0 then none
    let rest ← if flags &&& 4 != 0 then skipExtra? rest else some rest
    let rest ← if flags &&& 8 != 0 then skipText? rest else some rest
    let rest ← if flags &&& 16 != 0 then skipText? rest else some rest
    if flags &&& 2 != 0 then skipCheck? (bytes.take (bytes.length - rest.length)) rest
    else some rest
  | _ => none

/-- The checksum and the length behind the deflated data fit what was written. -/
def trailerFits (trailer output : List UInt8) : Bool :=
  trailer.length == 8 && littleEndian (trailer.take 4) == (crc32 output).toNat &&
    littleEndian (trailer.drop 4) == output.length % UInt32.size

def decompress (bytes : List UInt8) : ByteStream :=
  match body? bytes with
  | none => ⟨[], false⟩
  | some body =>
    let (output, rest) := Deflate.inflate (ByteArray.mk body.toArray) 0
    let output := output.toList
    match rest with
    | some place => ⟨output, trailerFits ((body.drop place).take 8) output⟩
    | none => ⟨output, false⟩

end WorkflowBundle.Gzip
