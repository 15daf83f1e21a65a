/-! Text in UTF-8. A sequence that breaks the encoding ends before the first byte that could
not continue it, so what is wrong with a text has a place and a length. -/
namespace WorkflowBundle.Utf8

inductive Front where
  | done
  | char (c : Char) (rest : List UInt8)
  /-- Bytes that no character starts with, and their number. -/
  | broken (length : Nat) (rest : List UInt8)
  /-- The first bytes of a character, with the others missing. -/
  | cut

def isContinuation (b : UInt8) : Bool := 0x80 ≤ b && b ≤ 0xBF

/-- The byte may follow the first byte of a character of three bytes. -/
def secondOfThree (first b : UInt8) : Bool :=
  if first == 0xE0 then 0xA0 ≤ b && b ≤ 0xBF
  else if first == 0xED then 0x80 ≤ b && b ≤ 0x9F
  else isContinuation b

def secondOfFour (first b : UInt8) : Bool :=
  if first == 0xF0 then 0x90 ≤ b && b ≤ 0xBF
  else if first == 0xF4 then 0x80 ≤ b && b ≤ 0x8F
  else isContinuation b

/-- Low bits of a byte that continues a character. -/
def low (b : UInt8) : Nat := b.toNat % 64

def front : List UInt8 → Front
  | [] => .done
  | a :: rest =>
    if a < 0x80 then .char (Char.ofNat a.toNat) rest
    else if 0xC2 ≤ a && a ≤ 0xDF then
      match rest with
      | [] => .cut
      | b :: tail =>
        if isContinuation b then .char (Char.ofNat (a.toNat % 32 * 64 + low b)) tail
        else .broken 1 rest
    else if 0xE0 ≤ a && a ≤ 0xEF then
      match rest with
      | [] => .cut
      | b :: tail =>
        if !secondOfThree a b then .broken 1 rest
        else match tail with
          | [] => .cut
          | c :: last =>
            if isContinuation c then
              .char (Char.ofNat ((a.toNat % 16 * 64 + low b) * 64 + low c)) last
            else .broken 2 tail
    else if 0xF0 ≤ a && a ≤ 0xF4 then
      match rest with
      | [] => .cut
      | b :: tail =>
        if !secondOfFour a b then .broken 1 rest
        else match tail with
          | [] => .cut
          | c :: tail =>
            if !isContinuation c then .broken 2 (c :: tail)
            else match tail with
              | [] => .cut
              | d :: last =>
                if isContinuation d then
                  .char (Char.ofNat (((a.toNat % 8 * 64 + low b) * 64 + low c) * 64 + low d)) last
                else .broken 3 tail
    else .broken 1 rest

inductive Fault where
  | broken (length index : Nat)
  | cut (index : Nat)
  deriving DecidableEq, Repr

def Fault.message : Fault → String
  | broken length index =>
    "invalid utf-8 sequence of " ++ toString length ++ " bytes from index " ++ toString index
  | cut index => "incomplete utf-8 byte sequence from index " ++ toString index

/-- Decodes the bytes from an index on, with the characters before in reverse. -/
def decodeFrom : (fuel : Nat) → (total : Nat) → List UInt8 → List Char → Except Fault (List Char)
  | 0, _, _, before => .ok before.reverse
  | fuel + 1, total, bytes, before =>
    match front bytes with
    | .done => .ok before.reverse
    | .char c rest => decodeFrom fuel total rest (c :: before)
    | .broken length _ => .error (.broken length (total - bytes.length))
    | .cut => .error (.cut (total - bytes.length))

def decode (bytes : List UInt8) : Except Fault String :=
  (decodeFrom (bytes.length + 1) bytes.length bytes []).map String.ofList

/-- Decodes what can be decoded; every broken sequence gives one replacement character. -/
def decodeLoosely : (fuel : Nat) → List UInt8 → List Char
  | 0, _ => []
  | fuel + 1, bytes =>
    match front bytes with
    | .done => []
    | .char c rest => c :: decodeLoosely fuel rest
    | .broken _ rest => Char.ofNat 0xFFFD :: decodeLoosely fuel rest
    | .cut => [Char.ofNat 0xFFFD]

/-- The text of bytes that need not be text. -/
def lossy (bytes : List UInt8) : String := String.ofList (decodeLoosely (bytes.length + 1) bytes)

def encode (text : String) : List UInt8 := text.toUTF8.toList

end WorkflowBundle.Utf8
