/-! Deflated data: literal bytes and copies of earlier ones, in blocks with prefix codes of
their own. What was written before a fault can be used, but a fault that is not just the end
of the data takes the window with it in which it is. -/
namespace WorkflowBundle.Deflate

inductive Fault where
  /-- The data ends too early. -/
  | cut
  | broken
  deriving DecidableEq, Repr

structure State where
  /-- The next bit to read, counted from the first bit of the data. -/
  position : Nat
  output : ByteArray

abbrev Decoder := EStateM Fault State

def bit (input : ByteArray) : Decoder Nat := fun s =>
  match input[s.position / 8]? with
  | some b => .ok ((b.toNat >>> (s.position % 8)) % 2) { s with position := s.position + 1 }
  | none => .error .cut s

/-- A number of so many bits, the low ones first. -/
def bits (input : ByteArray) : Nat → Decoder Nat
  | 0 => pure 0
  | n + 1 => do
    let low ← bit input
    return low + 2 * (← bits input n)

def emit (b : UInt8) : Decoder Unit := fun s => .ok () { s with output := s.output.push b }

def align : Decoder Unit := fun s => .ok () { s with position := (s.position + 7) / 8 * 8 }

/-- A canonical prefix code: how many symbols there are of each length from one on, and the
symbols in the order of their codes. -/
structure PrefixCode where
  counts : List Nat
  symbols : Array Nat

namespace PrefixCode

def maxLength : Nat := 15

def lengthRange : List Nat := List.range' 1 maxLength

/-- The part of all codes that the lengths take up, in units of the longest code. -/
def space (lengths : List Nat) : Nat :=
  lengthRange.foldl (fun total n => total + lengths.count n <<< (maxLength - n)) 0

/-- The code whose symbols have these lengths; a symbol of length zero is not used. Codes
are complete, but one symbol or none needs no complete code where that is allowed. -/
def ofLengths (sparse : Bool) (lengths : List Nat) : Decoder PrefixCode :=
  let symbols := lengthRange.flatMap fun n =>
    lengths.zipIdx.filterMap fun (length, symbol) => if length == n then some symbol else none
  if space lengths == 1 <<< maxLength || sparse && symbols.length ≤ 1 then
    let counts := lengthRange.map lengths.count
    pure ⟨(counts.reverse.dropWhile (· == 0)).reverse, symbols.toArray⟩
  else throw .broken

/-- Reads on in a code. `code` is what was read, doubled; the codes of this length start at
`first` and their symbols at `index`. -/
def decodeFrom (input : ByteArray) (symbols : Array Nat) :
    (counts : List Nat) → (code first index : Nat) → Decoder Nat
  | [], _, _, _ => throw .broken
  | count :: counts, code, first, index => do
    let code := code + (← bit input)
    if code < first + count then
      match symbols[index + (code - first)]? with
      | some symbol => return symbol
      | none => throw .broken
    else decodeFrom input symbols counts (2 * code) (2 * (first + count)) (index + count)

def decode (input : ByteArray) (c : PrefixCode) : Decoder Nat :=
  decodeFrom input c.symbols c.counts 0 0 0

end PrefixCode

/-- Least length of each length symbol and number of bits to add to it. -/
def lengthBase : Array (Nat × Nat) := #[
  (3, 0), (4, 0), (5, 0), (6, 0), (7, 0), (8, 0), (9, 0), (10, 0), (11, 1), (13, 1), (15, 1),
  (17, 1), (19, 2), (23, 2), (27, 2), (31, 2), (35, 3), (43, 3), (51, 3), (59, 3), (67, 4),
  (83, 4), (99, 4), (115, 4), (131, 5), (163, 5), (195, 5), (227, 5), (258, 0)]

/-- Least distance of each distance symbol and number of bits to add to it. -/
def distanceBase : Array (Nat × Nat) := #[
  (1, 0), (2, 0), (3, 0), (4, 0), (5, 1), (7, 1), (9, 2), (13, 2), (17, 3), (25, 3), (33, 4),
  (49, 4), (65, 5), (97, 5), (129, 6), (193, 6), (257, 7), (385, 7), (513, 8), (769, 8),
  (1025, 9), (1537, 9), (2049, 10), (3073, 10), (4097, 11), (6145, 11), (8193, 12), (12289, 12),
  (16385, 13), (24577, 13)]

/-- The number that a symbol of a table and the bits behind it stand for. -/
def extended (input : ByteArray) (table : Array (Nat × Nat)) (symbol : Nat) : Decoder Nat :=
  match table[symbol]? with
  | some (base, extra) => return base + (← bits input extra)
  | none => throw .broken

/-- Copies bytes from so far back. Zeros stand before the first byte. -/
def copyBack (distance : Nat) : Nat → ByteArray → ByteArray
  | 0, output => output
  | n + 1, output =>
    let b := if distance ≤ output.size then output[output.size - distance]?.getD 0 else 0
    copyBack distance n (output.push b)

/-- Symbols of a block up to its end mark. -/
def symbols (input : ByteArray) (literals distances : PrefixCode) : (fuel : Nat) → Decoder Unit
  | 0 => throw .cut
  | fuel + 1 => do
    let symbol ← literals.decode input
    if symbol < 256 then
      emit symbol.toUInt8
      symbols input literals distances fuel
    else if symbol == 256 then return
    else
      let length ← extended input lengthBase (symbol - 257)
      let distance ← extended input distanceBase (← distances.decode input)
      modify fun s => { s with output := copyBack distance length s.output }
      symbols input literals distances fuel

def stored (input : ByteArray) : Nat → Decoder Unit
  | 0 => return
  | n + 1 => do
    emit (← bits input 8).toUInt8
    stored input n

def storedBlock (input : ByteArray) : Decoder Unit := do
  align
  let length ← bits input 16
  let check ← bits input 16
  if length + check == 65535 then stored input length else throw .broken

/-- Lengths of codes until there are so many. The lengths read are in reverse. -/
def codeLengths (input : ByteArray) (code : PrefixCode) (total : Nat) :
    (fuel : Nat) → List Nat → Decoder (List Nat)
  | 0, before => return before.reverse
  | fuel + 1, before => do
    if before.length == total then return before.reverse
    if before.length > total then throw .broken
    let symbol ← code.decode input
    if symbol < 16 then codeLengths input code total fuel (symbol :: before)
    else if symbol == 16 then
      match before with
      | [] => throw .broken
      | last :: _ =>
        let count := 3 + (← bits input 2)
        codeLengths input code total fuel (List.replicate count last ++ before)
    else
      let count ← if symbol == 17 then (3 + ·) <$> bits input 3 else (11 + ·) <$> bits input 7
      codeLengths input code total fuel (List.replicate count 0 ++ before)

/-- The order in which the lengths of the code for lengths are written. -/
def lengthOrder : List Nat := [16, 17, 18, 0, 8, 7, 9, 6, 10, 5, 11, 4, 12, 3, 13, 2, 14, 1, 15]

/-- The codes that a block brings with it. -/
def ownCodes (input : ByteArray) : Decoder (PrefixCode × PrefixCode) := do
  let literalCount := (← bits input 5) + 257
  let distanceCount := (← bits input 5) + 1
  let lengthCount := (← bits input 4) + 4
  if literalCount > 286 || distanceCount > 30 then throw .broken
  let written ← (lengthOrder.take lengthCount).mapM fun symbol =>
    return (symbol, ← bits input 3)
  let lengths := (List.range 19).map fun symbol => (written.lookup symbol).getD 0
  let code ← PrefixCode.ofLengths false lengths
  let total := literalCount + distanceCount
  let lengths ← codeLengths input code total (total + 1) []
  let literals ← PrefixCode.ofLengths true (lengths.take literalCount)
  let distances ← PrefixCode.ofLengths true (lengths.drop literalCount)
  return (literals, distances)

/-- The codes of a block that brings none. -/
def commonCodes : Decoder (PrefixCode × PrefixCode) := do
  let literals ← PrefixCode.ofLengths true (List.replicate 144 8 ++ List.replicate 112 9 ++
    List.replicate 24 7 ++ List.replicate 8 8)
  return (literals, ← PrefixCode.ofLengths true (List.replicate 32 5))

/-- Every symbol takes a bit. -/
def symbolFuel (input : ByteArray) : Nat := 8 * input.size + 1

def block (input : ByteArray) (kind : Nat) : Decoder Unit := do
  match kind with
  | 0 => storedBlock input
  | 1 => do
    let (literals, distances) ← commonCodes
    symbols input literals distances (symbolFuel input)
  | 2 => do
    let (literals, distances) ← ownCodes input
    symbols input literals distances (symbolFuel input)
  | _ => throw .broken

/-- Blocks up to the one that is marked as the last. -/
def blocks (input : ByteArray) : (fuel : Nat) → Decoder Unit
  | 0 => throw .cut
  | fuel + 1 => do
    let last ← bit input
    block input (← bits input 2)
    if last == 0 then blocks input fuel

/-- Bytes are handed on in windows of this size. -/
def window : Nat := 32768

/-- How many bytes can be read before a fault that was met after `written` bytes. -/
def readable (fault : Fault) (written : Nat) : Nat :=
  match fault with
  | .cut => written
  | .broken => (written - 1) / window * window

/-- Inflates the data from a byte on: all bytes that can be read and, when there is no fault,
the place behind the data. -/
def inflate (input : ByteArray) (start : Nat) : ByteArray × Option Nat :=
  match (blocks input (symbolFuel input)).run ⟨8 * start, .empty⟩ with
  | .ok _ s => (s.output, some ((s.position + 7) / 8))
  | .error fault s => (s.output.extract 0 (readable fault s.output.size), none)

end WorkflowBundle.Deflate
