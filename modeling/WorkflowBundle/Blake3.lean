import WorkflowBundle.Json

/-! The BLAKE3 hash of a list of bytes, 256 bits long, without a key. -/
namespace WorkflowBundle.Blake3

abbrev Words := Vector UInt32 16

def initial : Vector UInt32 8 :=
  #v[0x6A09E667, 0xBB67AE85, 0x3C6EF372, 0xA54FF53A, 0x510E527F, 0x9B05688C, 0x1F83D9AB, 0x5BE0CD19]

def chunkStart : UInt32 := 1
def chunkEnd : UInt32 := 2
def parent : UInt32 := 4
def root : UInt32 := 8

def rotateRight (x n : UInt32) : UInt32 := (x >>> n) ||| (x <<< (32 - n))

def quarter (s : Words) (a b c d : Fin 16) (x y : UInt32) : Words :=
  let va := s[a] + s[b] + x
  let vd := rotateRight (s[d] ^^^ va) 16
  let vc := s[c] + vd
  let vb := rotateRight (s[b] ^^^ vc) 12
  let va := va + vb + y
  let vd := rotateRight (vd ^^^ va) 8
  let vc := vc + vd
  let vb := rotateRight (vb ^^^ vc) 7
  (((s.set a va).set b vb).set c vc).set d vd

def round (s m : Words) : Words :=
  let s := quarter s 0 4 8 12 m[0] m[1]
  let s := quarter s 1 5 9 13 m[2] m[3]
  let s := quarter s 2 6 10 14 m[4] m[5]
  let s := quarter s 3 7 11 15 m[6] m[7]
  let s := quarter s 0 5 10 15 m[8] m[9]
  let s := quarter s 1 6 11 12 m[10] m[11]
  let s := quarter s 2 7 8 13 m[12] m[13]
  quarter s 3 4 9 14 m[14] m[15]

def permute (m : Words) : Words :=
  #v[m[2], m[6], m[3], m[10], m[7], m[0], m[4], m[13], m[1], m[11], m[12], m[5], m[9], m[14],
    m[15], m[8]]

def rounds : Nat → Words → Words → Words
  | 0, s, _ => s
  | n + 1, s, m => rounds n (round s m) (permute m)

/-- Takes a block into a chaining value. -/
def compress (h : Vector UInt32 8) (block : Words) (counter : UInt64) (length flags : UInt32) :
    Vector UInt32 8 :=
  let s : Words := #v[h[0], h[1], h[2], h[3], h[4], h[5], h[6], h[7],
    initial[0], initial[1], initial[2], initial[3],
    counter.toUInt32, (counter >>> 32).toUInt32, length, flags]
  let s := rounds 7 s block
  Vector.ofFn fun i : Fin 8 => s[i.val] ^^^ s[i.val + 8]

/-- The word of four bytes, the lowest first. Missing bytes are zero. -/
def word (bytes : List UInt8) (i : Nat) : UInt32 :=
  let byte (k : Nat) : UInt32 := (bytes.getD (4 * i + k) 0).toUInt32
  byte 0 ||| (byte 1 <<< 8) ||| (byte 2 <<< 16) ||| (byte 3 <<< 24)

/-- The words of a block of at most 64 bytes. -/
def blockWords (bytes : List UInt8) : Words := Vector.ofFn fun i : Fin 16 => word bytes i.val

/-- What is left to compress: the result depends on whether it is the root of the tree. -/
structure Output where
  value : Vector UInt32 8
  block : Words
  counter : UInt64
  length : UInt32
  flags : UInt32

def Output.chain (o : Output) : Vector UInt32 8 :=
  compress o.value o.block o.counter o.length o.flags

def Output.finish (o : Output) : Vector UInt32 8 :=
  compress o.value o.block 0 o.length (o.flags ||| root)

/-- A chunk of at most 1024 bytes, block by block. -/
def chunkFrom (counter : UInt64) : (blocks : Nat) → (flags : UInt32) → Vector UInt32 8 →
    List UInt8 → Output
  | 0, flags, h, bytes =>
    ⟨h, blockWords bytes, counter, bytes.length.toUInt32, flags ||| chunkEnd⟩
  | blocks + 1, flags, h, bytes =>
    if bytes.length ≤ 64 then
      ⟨h, blockWords bytes, counter, bytes.length.toUInt32, flags ||| chunkEnd⟩
    else
      chunkFrom counter blocks 0 (compress h (blockWords (bytes.take 64)) counter 64 flags)
        (bytes.drop 64)

def chunk (counter : UInt64) (bytes : List UInt8) : Output :=
  chunkFrom counter 16 chunkStart initial bytes

def join (left right : Output) : Output :=
  ⟨initial, (left.chain ++ right.chain).cast rfl, 0, 64, parent⟩

/-- The largest power of two below a number of chunks. -/
def leftCount (chunks : Nat) : Nat := 1 <<< (chunks - 1).log2

/-- The tree over a number of chunks, the left part being full. -/
def tree : (fuel : Nat) → (chunks : Nat) → (first : Nat) → List UInt8 → Output
  | 0, _, first, bytes => chunk first.toUInt64 bytes
  | fuel + 1, chunks, first, bytes =>
    if chunks ≤ 1 then chunk first.toUInt64 bytes
    else
      let left := leftCount chunks
      join (tree fuel left first (bytes.take (1024 * left)))
        (tree fuel (chunks - left) (first + left) (bytes.drop (1024 * left)))

def hash (bytes : List UInt8) : Vector UInt32 8 :=
  let chunks := (bytes.length + 1023) / 1024
  (tree chunks chunks 0 bytes).finish

def hexByte (b : Nat) : List Char := [Json.hexDigit (b / 16), Json.hexDigit b]

/-- The hash in hexadecimal digits, the lowest byte of each word first. -/
def hex (bytes : List UInt8) : String :=
  String.ofList <| (hash bytes).toList.flatMap fun w =>
    let n := w.toNat
    hexByte (n % 256) ++ hexByte (n / 256 % 256) ++ hexByte (n / 65536 % 256) ++
      hexByte (n / 16777216)

end WorkflowBundle.Blake3
