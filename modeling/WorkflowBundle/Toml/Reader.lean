import WorkflowBundle.Decimal
import WorkflowBundle.Toml.Value

/-! Reading TOML. A text is read whole or not at all. -/
namespace WorkflowBundle.Toml

/-- Reads from the front of a text. -/
abbrev Reader := StateT (List Char) Option

namespace Reader

def char (p : Char → Bool) : Reader Char := fun
  | c :: rest => if p c then some (c, rest) else none
  | [] => none

def symbol (c : Char) : Reader Unit := do
  let _ ← char (· == c)

def word (s : String) : Reader Unit := s.toList.forM symbol

def many (p : Char → Bool) : Reader (List Char) := fun text =>
  some (text.takeWhile p, text.dropWhile p)

def peek? : Reader (Option Char) := fun text => some (text.head?, text)

def atEnd : Reader Bool := return (← peek?).isNone

/-- Goes on if the text does, and changes nothing otherwise. -/
def optional (r : Reader α) : Reader (Option α) := some <$> r <|> pure none

def blanks : Reader Unit := do
  let _ ← many fun c => c == ' ' || c == '\t'

/-- Characters of comments and strings, which no control character is. -/
def isPlain (c : Char) : Bool := c == '\t' || ' ' ≤ c && c != '\x7f'

def comment : Reader Unit := do
  symbol '#'
  let _ ← many isPlain

def newline : Reader Unit := symbol '\n' <|> word "\r\n"

/-- What may follow on a line. -/
def lineEnd : Reader Unit := do
  blanks
  let _ ← optional comment
  if !(← atEnd) then newline

def space : (fuel : Nat) → Reader Unit
  | 0 => pure ()
  | fuel + 1 => do
    blanks
    match ← peek? with
    | some '#' => do
      comment
      space fuel
    | some '\n' | some '\r' => do
      newline
      space fuel
    | _ => pure ()

/-- As many characters as there are left. -/
def fuel : Reader Nat := fun text => some (text.length + 1, text)

def hexValue? (c : Char) : Option Nat :=
  if c.isDigit then some (c.toNat - '0'.toNat)
  else if 'a' ≤ c && c ≤ 'f' then some (c.toNat - 'a'.toNat + 10)
  else if 'A' ≤ c && c ≤ 'F' then some (c.toNat - 'A'.toNat + 10)
  else none

/-- A character by its number in so many digits. -/
def numbered (digits : Nat) : Reader Char := do
  let values ← (List.range digits).mapM fun _ => do
    (hexValue? (← char fun _ => true) : Option Nat)
  let n := values.foldl (16 * · + ·) 0
  if h : n.isValidChar then return Char.ofNatAux n h else failure

def escaped : Reader Char := do
  match ← char fun _ => true with
  | 'b' => return '\x08'
  | 't' => return '\t'
  | 'n' => return '\n'
  | 'f' => return '\x0c'
  | 'r' => return '\r'
  | '"' => return '"'
  | '\\' => return '\\'
  | 'u' => numbered 4
  | 'U' => numbered 8
  | _ => failure

def basic : (fuel : Nat) → (before : List Char) → Reader String
  | 0, _ => failure
  | fuel + 1, before => do
    match ← char isPlain with
    | '"' => return String.ofList before.reverse
    | '\\' => do basic fuel ((← escaped) :: before)
    | c => basic fuel (c :: before)

/-- A string without escapes, up to its quote. -/
def verbatim : Reader String := do
  let body ← many fun c => isPlain c && c != '\''
  symbol '\''
  return String.ofList body

/-- Quotes in a string that ends with three of them: those that belong to the string, and
whether it ends. -/
def quotes (quote : Char) : Reader (List Char × Bool) := do
  let run := (← many (· == quote)).length
  if run < 3 then return (List.replicate run quote, false)
  else if run ≤ 5 then return (List.replicate (run - 3) quote, true)
  else failure

/-- A line that ends with a backslash goes on at the next character that is no blank. -/
def continuation : Reader Unit := do
  blanks
  newline
  let _ ← (← fuel) |> skip
where
  skip : Nat → Reader Unit
    | 0 => pure ()
    | fuel + 1 => do
      blanks
      match ← optional newline with
      | some _ => skip fuel
      | none => pure ()

/-- A string of several lines up to its three quotes. -/
def long (quote : Char) : (fuel : Nat) → (before : List Char) → Reader String
  | 0, _ => failure
  | fuel + 1, before => do
    match ← peek? with
    | none => failure
    | some '\n' | some '\r' => do
      newline
      long quote fuel ('\n' :: before)
    | some c =>
      if c == quote then do
        let (body, ends) ← quotes quote
        let before := body ++ before
        if ends then return String.ofList before.reverse else long quote fuel before
      else do
        let c ← char isPlain
        if c == '\\' && quote == '"' then
          match ← optional continuation with
          | some _ => long quote fuel before
          | none => do long quote fuel ((← escaped) :: before)
        else long quote fuel (c :: before)

/-- A newline right after the opening quotes does not belong to the string. -/
def longString (quote : Char) : Reader String := do
  let _ ← optional newline
  long quote (← fuel) []

def shortString : Reader String := do
  match ← char fun c => c == '"' || c == '\'' with
  | '"' => basic (← fuel) []
  | _ => verbatim

def string : Reader String :=
  (do word "\"\"\""; longString '"') <|> (do word "'''"; longString '\'') <|> shortString

/-- Nothing may be nested deeper. -/
def maxDepth : Nat := 80

def isBare (c : Char) : Bool :=
  'a' ≤ c && c ≤ 'z' || 'A' ≤ c && c ≤ 'Z' || c.isDigit || c == '-' || c == '_'

def simpleKey : Reader String := do
  match ← peek? with
  | some '"' | some '\'' => shortString
  | _ => do
    let name ← many isBare
    if name.isEmpty then failure else return String.ofList name

/-- Parts of a dotted key, with blanks around them. -/
def keyParts : (fuel : Nat) → Reader (List String)
  | 0 => failure
  | fuel + 1 => do
    blanks
    let part ← simpleKey
    blanks
    match ← peek? with
    | some '.' => do
      symbol '.'
      return part :: (← keyParts fuel)
    | _ => return [part]

def key : Reader (List String) := keyParts (maxDepth - 1)

def digits (p : Char → Bool) : Reader (List Char) := do
  let text ← many fun c => p c || c == '_'
  let isSeparated : Bool := !(text.zip text.tail).any fun (a, b) => a == '_' && b == '_'
  match text, text.getLast? with
  | first :: _, some last =>
    if first != '_' && last != '_' && isSeparated then return text.filter (· != '_') else failure
  | _, _ => failure

def sign : Reader Bool := do
  match ← optional (char fun c => c == '+' || c == '-') with
  | some c => return c == '-'
  | none => return false

/-- Digits without a zero in front, unless it stands alone. -/
def wholeDigits : Reader (List Char) := do
  match ← peek? with
  | some '0' => do
    symbol '0'
    return ['0']
  | _ => digits Char.isDigit

def bounded (i : Int) : Reader Value :=
  if Int64.minValue.toInt ≤ i ∧ i ≤ Int64.maxValue.toInt then return .integer i else failure

def natural (base : Nat) (digits : List Char) : Nat :=
  digits.foldl (fun n c => base * n + (hexValue? c).getD 0) 0

def based (mark : String) (base : Nat) : Reader Value := do
  word mark
  let text ← digits fun c => (hexValue? c).any (· < base)
  bounded (natural base text)

def integer : Reader Value :=
  based "0x" 16 <|> based "0o" 8 <|> based "0b" 2 <|> do
    let negative ← sign
    let n := natural 10 (← wholeDigits)
    bounded (if negative then -(n : Int) else n)

def exponent : Reader Int := do
  let _ ← char fun c => c == 'e' || c == 'E'
  let negative ← sign
  let n := natural 10 (← digits Char.isDigit)
  return if negative then -(n : Int) else n

def special : Reader Float := do
  let negative ← sign
  let x ← (do word "inf"; return 1.0 / 0.0) <|> (do word "nan"; return 0.0 / 0.0)
  return if negative then -x else x

/-- A double. Numbers too great for one are refused, those too small are not. -/
def float : Reader Value := .float <$> do
  (do
    let negative ← sign
    let whole ← wholeDigits
    let fraction ← optional (do symbol '.'; digits Char.isDigit)
    let power ← if fraction.isSome then (·.getD 0) <$> optional exponent else exponent
    let fraction := fraction.getD []
    let x := Decimal.nearest ⟨natural 10 (whole ++ fraction), power - fraction.length⟩
    if !negative && x.isInf then failure
    return if negative then -x else x) <|> special

/-- So many digits, within bounds. -/
def field (count low high : Nat) : Reader Nat := do
  let n := natural 10 (← (List.range count).mapM fun _ => char Char.isDigit)
  if low ≤ n && n ≤ high then return n else failure

def daysOf (year month : Nat) : Nat :=
  if month == 2 then
    if year % 4 == 0 && (year % 100 != 0 || year % 400 == 0) then 29 else 28
  else if [4, 6, 9, 11].contains month then 30
  else 31

def date : Reader Unit := do
  let year ← field 4 0 9999
  symbol '-'
  let month ← field 2 1 12
  symbol '-'
  let _ ← field 2 1 (daysOf year month)

def time : Reader Unit := do
  let _ ← field 2 0 23
  symbol ':'
  let _ ← field 2 0 59
  symbol ':'
  let _ ← field 2 0 60
  let _ ← optional do
    symbol '.'
    let _ ← char Char.isDigit
    many Char.isDigit

/-- How far a time is from universal time. -/
def offset : Reader Unit :=
  (do let _ ← char fun c => c == 'Z' || c == 'z') <|> do
    let _ ← char fun c => c == '+' || c == '-'
    let _ ← field 2 0 23
    symbol ':'
    let _ ← field 2 0 59

def moment : Reader Value := do
  (do
    date
    let _ ← optional do
      let _ ← char fun c => c == 'T' || c == 't' || c == ' '
      time
      optional offset) <|> time
  return .moment

def bool : Reader Value :=
  (do word "true"; return .bool true) <|> (do word "false"; return .bool false)

/-- Values up to the bracket that closes an array. -/
def items (value : Reader Value) : (fuel : Nat) → Reader (List Value)
  | 0 => failure
  | fuel + 1 => do
    space (← Reader.fuel)
    if (← peek?) == some ']' then
      symbol ']'
      return []
    let item ← value
    space (← Reader.fuel)
    match ← char fun c => c == ',' || c == ']' with
    | ',' => return item :: (← items value fuel)
    | _ => return [item]

/-- Fields up to the brace that closes a table. -/
def pairs (value : Reader Value) : (fuel : Nat) → Fields → Reader Fields
  | 0, _ => failure
  | fuel + 1, fields => do
    let path ← key
    symbol '='
    blanks
    let fields ← (fields.assign path (← value) : Option Fields)
    blanks
    match ← char fun c => c == ',' || c == '\x7d' with
    | ',' => pairs value fuel fields
    | _ => return fields

def inline (value : Reader Value) : Reader Value := do
  blanks
  if (← peek?) == some '\x7d' then
    symbol '\x7d'
    return .table .inline []
  return .table .inline (← pairs value (← fuel) [])

def value : (depth : Nat) → Reader Value
  | 0 => failure
  | depth + 1 => do
    match ← peek? with
    | some '"' | some '\'' => .text <$> string
    | some '[' => do
      if depth == 0 then failure
      symbol '['
      .array <$> items (value depth) (← fuel)
    | some '\x7b' => do
      if depth == 0 then failure
      symbol '\x7b'
      inline (value depth)
    | some 't' | some 'f' => bool
    | some _ => moment <|> float <|> integer
    | none => failure

/-- A text between two lines: what it said so far, and the header that is in force. -/
structure Progress where
  fields : Fields := []
  header : List String := []

/-- A line with a key and a value. -/
def assignment (p : Progress) : Reader Progress := do
  let path ← key
  symbol '='
  blanks
  let v ← value maxDepth
  lineEnd
  let fields ← (Fields.change (Fields.assign path v) p.header p.fields : Option Fields)
  return { p with fields }

/-- A line with a header in one pair of brackets or in two. -/
def header (p : Progress) : Reader Progress := do
  symbol '['
  let isElement := (← optional (symbol '[')).isSome
  let path ← key
  symbol ']'
  if isElement then symbol ']'
  lineEnd
  let opened := if isElement then p.fields.openElement path else p.fields.openTable path
  return ⟨← (opened : Option Fields), path⟩

def lines : (fuel : Nat) → Progress → Reader Fields
  | 0, _ => failure
  | fuel + 1, p => do
    blanks
    match ← peek? with
    | none => return p.fields
    | some '#' => do
      lineEnd
      lines fuel p
    | some '\n' | some '\r' => do
      newline
      lines fuel p
    | some '[' => do lines fuel (← header p)
    | some _ => do lines fuel (← assignment p)

end Reader

/-- The table that a text says. A mark of the byte order may stand in front of it. -/
def ofText (text : String) : Option Fields :=
  let chars := match text.toList with
    | '\ufeff' :: rest => rest
    | chars => chars
  ((Reader.lines (chars.length + 1) {}).run chars).map Prod.fst

end WorkflowBundle.Toml
