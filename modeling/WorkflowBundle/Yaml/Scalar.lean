import WorkflowBundle.Decimal
import WorkflowBundle.Document

/-! What YAML scalars mean: plain ones may be null, a truth value or a number, and all others
are strings. -/
namespace WorkflowBundle.Yaml

def isNull (text : String) : Bool := ["~", "null", "Null", "NULL"].contains text

def bool? (text : String) : Option Bool :=
  if ["true", "True", "TRUE"].contains text then some true
  else if ["false", "False", "FALSE"].contains text then some false
  else none

def natural? (base : Nat) (digits : List Char) : Option Nat :=
  if digits.isEmpty then none
  else digits.foldlM (fun value ch => do
    let digit ← if ch.isDigit then some (ch.toNat - 48)
      else if 'a' ≤ ch ∧ ch ≤ 'f' then some (ch.toNat - 87)
      else if 'A' ≤ ch ∧ ch ≤ 'F' then some (ch.toNat - 55)
      else none
    if digit < base then some (base * value + digit) else none) 0

/-- Digits behind a mark for their base. -/
def marked? : List Char → Option (Nat × List Char)
  | '0' :: 'x' :: digits => some (16, digits)
  | '0' :: 'o' :: digits => some (8, digits)
  | '0' :: 'b' :: digits => some (2, digits)
  | _ => none

/-- Digits that start with a zero and go on are no number. -/
def isPadded : List Char → Bool
  | '0' :: d :: digits => (d :: digits).all Char.isDigit
  | _ => false

/-- The sign in front of a number and the rest of it. -/
def sign : List Char → Bool × List Char
  | '-' :: rest => (true, rest)
  | '+' :: rest => (false, rest)
  | rest => (false, rest)

def integer? (text : String) : Option Int :=
  let (negative, digits) := sign text.toList
  let magnitude := match marked? digits with
    | some (base, digits) => natural? base digits
    | none => if isPadded digits then none else natural? 10 digits
  magnitude.map fun n => if negative then -(n : Int) else n

def unsigned? (text : String) : Option UInt64 :=
  match text.toList with
  | '-' :: _ => none
  | _ =>
    match integer? text with
    | some i => if i < UInt64.size then some i.toNat.toUInt64 else none
    | none => none

/-- A double; a finite one if it is written in digits. -/
def float? (text : String) : Option Float :=
  let (negative, chars) := sign text.toList
  let signed (x : Float) : Float := if negative then -x else x
  let word := String.ofList chars
  if [".inf", ".Inf", ".INF"].contains word then some (signed (1.0 / 0.0))
  else if [".nan", ".NaN", ".NAN"].contains text then some (0.0 / 0.0)
  else do
    let x := Decimal.nearest (← Decimal.Scientific.ofChars? chars)
    if x.isFinite then some (signed x) else none

/-- How many integers there are of 128 bits. -/
def wideSize : Int := (UInt64.size : Int) * UInt64.size

/-- An integer of 128 bits, with sign or without. Those beyond 64 bits are no value of any kind. -/
def ofInteger (i : Int) : Option (Except Fault Document) :=
  if Int64.minValue.toInt ≤ i ∧ i < UInt64.size then some (.ok (.int i))
  else if -wideSize ≤ 2 * i ∧ i < wideSize then some (.error .mismatch)
  else none

def number? (text : String) : Option (Except Fault Document) := (integer? text).bind ofInteger

def plainMeaning (text : String) : Except Fault Document :=
  if text.isEmpty || isNull text then .ok .null
  else match bool? text with
    | some b => .ok (.bool b)
    | none =>
      match number? text with
      | some number => number
      | none =>
        match if isPadded (sign text.toList).2 then none else float? text with
        | some x => .ok (.float x)
        | none => .ok (.text text)

end WorkflowBundle.Yaml
