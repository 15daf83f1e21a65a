import WorkflowBundle.Document

/-! Reading JSON text. A reader takes the characters that are left and gives back what it
read with the characters after it; nothing is given back for a text that is not JSON. -/
namespace WorkflowBundle.Json.Reader

/-- Levels that may be open at once. -/
def maxDepth : Nat := 127

def skipBlank : List Char → List Char
  | [] => []
  | c :: rest => if c == ' ' || c == '\n' || c == '\t' || c == '\r' then skipBlank rest else c :: rest

def hexValue? (c : Char) : Option Nat :=
  if '0' ≤ c ∧ c ≤ '9' then some (c.toNat - 48)
  else if 'a' ≤ c ∧ c ≤ 'f' then some (c.toNat - 87)
  else if 'A' ≤ c ∧ c ≤ 'F' then some (c.toNat - 55)
  else none

def hexQuad? (a b c d : Char) : Option Nat := do
  return 4096 * (← hexValue? a) + 256 * (← hexValue? b) + 16 * (← hexValue? c) + (← hexValue? d)

/-- The first unit of a pair that makes one character. -/
def isHighUnit (unit : Nat) : Bool := 0xD800 ≤ unit && unit ≤ 0xDBFF

def isLowUnit (unit : Nat) : Bool := 0xDC00 ≤ unit && unit ≤ 0xDFFF

def simpleEscape? : Char → Option Char
  | '"' => some '"'
  | '\\' => some '\\'
  | '/' => some '/'
  | 'b' => some (Char.ofNat 8)
  | 'f' => some (Char.ofNat 12)
  | 'n' => some '\n'
  | 'r' => some '\r'
  | 't' => some '\t'
  | _ => none

/-- The rest of a string after its opening quote, with the characters before in reverse. A unit
of a pair that stands alone makes no character. -/
def stringTail : List Char → (before : List Char) → Option (String × List Char)
  | [], _ => none
  | '"' :: rest, before => some (String.ofList before.reverse, rest)
  | '\\' :: 'u' :: a :: b :: c :: d :: rest, before => do
    let unit ← hexQuad? a b c d
    if isHighUnit unit then
      match rest with
      | '\\' :: 'u' :: a :: b :: c :: d :: rest => do
        let low ← hexQuad? a b c d
        if isLowUnit low then
          stringTail rest (Char.ofNat (0x10000 + 1024 * (unit - 0xD800) + (low - 0xDC00)) :: before)
        else none
      | _ => none
    else if isLowUnit unit then none
    else stringTail rest (Char.ofNat unit :: before)
  | '\\' :: e :: rest, before => do stringTail rest ((← simpleEscape? e) :: before)
  | c :: rest, before =>
    if c == '\\' || c.toNat < 32 then none else stringTail rest (c :: before)

def string (chars : List Char) : Option (String × List Char) := stringTail chars []

/-- A significand of at most 64 bits: digits are taken while they fit, and the number of
digits passed over is counted. -/
def significand : List Char → (value : Nat) → (full : Bool) → (taken passed : Nat) →
    Nat × Bool × Nat × Nat × List Char
  | [], value, full, taken, passed => (value, full, taken, passed, [])
  | c :: rest, value, full, taken, passed =>
    if c.isDigit then
      let next := 10 * value + (c.toNat - 48)
      if full || UInt64.size ≤ next then significand rest value true taken (passed + 1)
      else significand rest next false (taken + 1) passed
    else (value, full, taken, passed, c :: rest)

/-- A double with its sign; none when out of range. -/
def signedFloat (negative : Bool) (value : Nat) (exponent : Int) : Option Document :=
  (Decimal.scaled value.toUInt64 exponent).map fun x => .float (if negative then -x else x)

def exponentPart (negative : Bool) (value : Nat) (shift : Int) (chars : List Char) :
    Option (Document × List Char) :=
  let (down, digits) := match chars with
    | '+' :: rest => (false, rest)
    | '-' :: rest => (true, rest)
    | rest => (false, rest)
  match Decimal.takeDigits digits 0 0 with
  | (_, 0, _) => none
  | (exponent, _, rest) => do
    let x ← signedFloat negative value (shift + if down then -(exponent : Int) else exponent)
    return (x, rest)

/-- What follows the digits before the point. -/
def numberTail (negative : Bool) (value : Nat) (full : Bool) (passed : Nat) (chars : List Char) :
    Option (Document × List Char) :=
  match chars with
  | '.' :: rest =>
    let (value, _, taken, skipped, after) := significand rest value false 0 0
    if taken + skipped == 0 then none
    else
      let shift : Int := (passed : Int) - taken
      match after with
      | c :: after =>
        if c == 'e' || c == 'E' then exponentPart negative value shift after
        else (signedFloat negative value shift).map (·, c :: after)
      | [] => (signedFloat negative value shift).map (·, [])
  | c :: rest =>
    if c == 'e' || c == 'E' then exponentPart negative value passed rest
    else (whole negative value full passed).map (·, c :: rest)
  | [] => (whole negative value full passed).map (·, [])
where
  /-- A number without fraction and exponent. Minus zero and what does not fit 64 bits are
  doubles. -/
  whole (negative : Bool) (value : Nat) (full : Bool) (passed : Nat) : Option Document :=
    if full then signedFloat negative value passed
    else if negative then
      if value == 0 || UInt64.size / 2 < value then some (.float (-value.toUInt64.toFloat))
      else some (.int (-(value : Int)))
    else some (.int value)

/-- An unsigned number; a zero in front stands alone. -/
def unsigned (negative : Bool) (chars : List Char) : Option (Document × List Char) :=
  match chars with
  | '0' :: rest =>
    match rest with
    | c :: _ => if c.isDigit then none else numberTail negative 0 false 0 rest
    | [] => numberTail negative 0 false 0 []
  | c :: _ =>
    if c.isDigit then
      let (value, full, _, passed, rest) := significand chars 0 false 0 0
      numberTail negative value full passed rest
    else none
  | [] => none

def number (chars : List Char) : Option (Document × List Char) :=
  match chars with
  | '-' :: rest => unsigned true rest
  | chars => unsigned false chars

def word (expected : List Char) (meaning : Document) (chars : List Char) :
    Option (Document × List Char) :=
  if expected.isPrefixOf chars then some (meaning, chars.drop expected.length) else none

def scalar (chars : List Char) : Option (Document × List Char) :=
  match chars with
  | '"' :: rest => (string rest).map fun (s, rest) => (.text s, rest)
  | 'n' :: _ => word "null".toList .null chars
  | 't' :: _ => word "true".toList (.bool true) chars
  | 'f' :: _ => word "false".toList (.bool false) chars
  | chars => number chars

/-- A key with the colon after it. -/
def key (chars : List Char) : Option (String × List Char) :=
  match skipBlank chars with
  | '"' :: rest => do
    let (name, rest) ← string rest
    match skipBlank rest with
    | ':' :: rest => some (name, rest)
    | _ => none
  | _ => none

mutual

def value : (fuel depth : Nat) → List Char → Option (Document × List Char)
  | 0, _, _ => none
  | fuel + 1, depth, chars =>
    match skipBlank chars with
    | '[' :: rest =>
      match depth with
      | 0 => none
      | depth + 1 => do
        let (items, rest) ← items fuel depth rest true
        return (.list items, rest)
    | '\x7b' :: rest =>
      match depth with
      | 0 => none
      | depth + 1 => do
        let (fields, rest) ← fields fuel depth rest true
        return (.table fields, rest)
    | chars => scalar chars

/-- The items up to the closing bracket, each but the first after a comma. -/
def items : (fuel depth : Nat) → List Char → (first : Bool) → Option (List Document × List Char)
  | 0, _, _, _ => none
  | fuel + 1, depth, chars, first =>
    match skipBlank chars, first with
    | ']' :: rest, _ => some ([], rest)
    | ',' :: rest, false => do
      let (head, rest) ← value fuel depth rest
      let (tail, rest) ← items fuel depth rest false
      return (head :: tail, rest)
    | chars, true => do
      let (head, rest) ← value fuel depth chars
      let (tail, rest) ← items fuel depth rest false
      return (head :: tail, rest)
    | _, false => none

/-- The fields up to the closing brace, each but the first after a comma. -/
def fields : (fuel depth : Nat) → List Char → (first : Bool) →
    Option (List (Document × Document) × List Char)
  | 0, _, _, _ => none
  | fuel + 1, depth, chars, first =>
    match skipBlank chars, first with
    | '\x7d' :: rest, _ => some ([], rest)
    | ',' :: rest, false => do
      let (name, rest) ← key rest
      let (head, rest) ← value fuel depth rest
      let (tail, rest) ← fields fuel depth rest false
      return ((.text name, head) :: tail, rest)
    | chars, true => do
      let (name, rest) ← key chars
      let (head, rest) ← value fuel depth rest
      let (tail, rest) ← fields fuel depth rest false
      return ((.text name, head) :: tail, rest)
    | _, false => none

end

/-- Steps enough for every text of this length: each value, item or field takes a character,
and none takes more than three steps. -/
def steps (chars : List Char) : Nat := 3 * chars.length + 3

def document? (text : String) : Option Document :=
  let chars := text.toList
  match value (steps chars) maxDepth chars with
  | some (doc, rest) => if (skipBlank rest).isEmpty then some doc else none
  | none => none

/-- The fields of the top table as far as they can be read. -/
def outlineFields (budget : Nat) : (fuel : Nat) → List Char → (first : Bool) →
    List (Document × Document) × Except Stop (List Char)
  | 0, _, _ => ([], .error ⟨.malformed, none, false⟩)
  | fuel + 1, chars, first =>
    let field (chars : List Char) : List (Document × Document) × Except Stop (List Char) :=
      match key chars with
      | none => ([], .error ⟨.malformed, none, false⟩)
      | some (name, rest) =>
        match value budget (maxDepth - 1) rest with
        | none =>
          let nested := match skipBlank rest with
            | c :: _ => c == '[' || c == '\x7b'
            | [] => false
          ([], .error ⟨.malformed, some (.text name), nested⟩)
        | some (doc, rest) =>
          let (tail, ending) := outlineFields budget fuel rest false
          ((.text name, doc) :: tail, ending)
    match skipBlank chars, first with
    | '\x7d' :: rest, _ => ([], .ok rest)
    | ',' :: rest, false => field rest
    | chars, true => field chars
    | _, false => ([], .error ⟨.malformed, none, false⟩)

/-- A text whose first character that is not blank opens a table. -/
def source (text : String) : Source :=
  let chars := text.toList
  match skipBlank chars with
  | '\x7b' :: rest =>
    match outlineFields (steps chars) (steps chars) rest true with
    | (fields, .error stop) => ⟨.table fields (some stop), none⟩
    | (fields, .ok rest) =>
      ⟨.table fields none, if (skipBlank rest).isEmpty then none else some .malformed⟩
  | _ => ⟨.unreadable .malformed, none⟩

end WorkflowBundle.Json.Reader
