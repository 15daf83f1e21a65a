/-! Decimal text of doubles. A double is written with the fewest digits that read back to
it, found in exact arithmetic: for one digit, two digits and so on, the two neighbours of
the value on that decimal grid are tested against the interval of reals that round to it. -/
namespace WorkflowBundle.Decimal

/-- A positive double as significand · 2 ^ exponent. -/
structure Binary where
  significand : Nat
  exponent : Int
  /-- The double below is half as far away as the double above. -/
  narrowBelow : Bool
  deriving Repr

/-- A nonnegative number as digits · 10 ^ exponent. -/
structure Scientific where
  digits : Nat
  exponent : Int
  deriving Repr, DecidableEq

def powers (base : Nat) (exponent : Int) : Nat × Nat :=
  (Nat.pow base exponent.toNat, Nat.pow base (-exponent).toNat)

namespace Binary

/-- Compares (quarters / 4) · 2 ^ exponent with candidate · 10 ^ grid. -/
def compareGrid (b : Binary) (quarters candidate : Nat) (grid : Int) : Ordering :=
  let (twos, halves) := powers 2 (b.exponent - 2)
  let (tens, tenths) := powers 10 grid
  compare (quarters * twos * tenths) (candidate * tens * halves)

/-- The greatest multiple of 10 ^ grid that is not above the value. -/
def floorGrid (b : Binary) (grid : Int) : Nat :=
  let (twos, halves) := powers 2 (b.exponent - 2)
  let (tens, tenths) := powers 10 grid
  (4 * b.significand * twos * tenths) / (tens * halves)

/-- Whether candidate · 10 ^ grid rounds to the value; an end of the interval does when the
significand is even. -/
def rounds (b : Binary) (candidate : Nat) (grid : Int) : Bool :=
  let below := if b.narrowBelow then 4 * b.significand - 1 else 4 * b.significand - 2
  let above := 4 * b.significand + 2
  let even := b.significand % 2 == 0
  let low := b.compareGrid below candidate grid
  let high := b.compareGrid above candidate grid
  (low == .lt || low == .eq && even) && (high == .gt || high == .eq && even)

/-- Of two neighbours on a grid the nearer one, the even one at equal distance. -/
def nearer (b : Binary) (lower : Nat) (grid : Int) : Nat :=
  -- The middle of the two is (2 · lower + 1) / 2 on the grid.
  match b.compareGrid (8 * b.significand) (2 * lower + 1) grid with
  | .lt => lower
  | .gt => lower + 1
  | .eq => if lower % 2 == 0 then lower else lower + 1

/-- The least k from `start` on, within `fuel` steps, with the value below 10 ^ k. -/
def magnitude (b : Binary) : (fuel : Nat) → (start : Int) → Int
  | 0, k => k
  | fuel + 1, k =>
    if b.compareGrid (4 * b.significand) 1 k == .lt then k else magnitude b fuel (k + 1)

/-- The answer on the first grid of at least `count` digits that holds one. -/
def shortestFrom (b : Binary) (k : Int) : (fuel count : Nat) → Scientific
  | 0, _ => ⟨0, 0⟩
  | fuel + 1, count =>
    let grid := k - count
    let lower := b.floorGrid grid
    match b.rounds lower grid, b.rounds (lower + 1) grid with
    | true, true => ⟨b.nearer lower grid, grid⟩
    | true, false => ⟨lower, grid⟩
    | false, true => ⟨lower + 1, grid⟩
    | false, false => shortestFrom b k fuel (count + 1)

/-- The shortest decimal that reads back to the value, the nearest one of those. -/
def shortest (b : Binary) : Scientific :=
  b.shortestFrom (b.magnitude 660 (-330)) 17 1

end Binary

def Scientific.trim : (fuel : Nat) → Scientific → Scientific
  | 0, s => s
  | fuel + 1, s =>
    if s.digits != 0 && s.digits % 10 == 0 then trim fuel ⟨s.digits / 10, s.exponent + 1⟩ else s

/-- How many fractions a double can have: they take up 52 bits. -/
def fractions : Nat := 1 <<< 52

/-- How many exponents a double can have: they take up 11 bits. -/
def exponents : Nat := 1 <<< 11

def decompose (x : Float) : Bool × Option Binary :=
  let bits := x.toBits.toNat
  let fraction := bits % fractions
  let biased := bits / fractions % exponents
  let negative := bits / fractions / exponents == 1
  if biased == 0 then
    (negative, if fraction == 0 then none else some ⟨fraction, -1074, false⟩)
  else
    (negative, some ⟨fractions + fraction, (biased : Int) - 1075, fraction == 0 && biased > 1⟩)

/-- Positional text from 1e-5 up to below 1e16, an exponent with its sign elsewhere; a whole
number keeps one zero after the point. -/
def Scientific.text (s : Scientific) : String :=
  let digits := (Nat.toDigits 10 s.digits)
  let count : Int := digits.length
  let point := count + s.exponent
  let zeros (n : Int) : List Char := List.replicate n.toNat '0'
  String.ofList <|
    if -5 ≤ point - 1 ∧ point - 1 ≤ 15 then
      if point ≤ 0 then ['0', '.'] ++ zeros (-point) ++ digits
      else if count ≤ point then digits ++ zeros (point - count) ++ ['.', '0']
      else digits.take point.toNat ++ ['.'] ++ digits.drop point.toNat
    else
      let mantissa := match digits with
        | [] => []
        | [d] => [d]
        | d :: rest => d :: '.' :: rest
      let sign := if point - 1 < 0 then '-' else '+'
      mantissa ++ ['e', sign] ++ Nat.toDigits 10 (point - 1).natAbs

def text (x : Float) : String :=
  let (negative, magnitude) := decompose x
  let body := match magnitude with
    | none => "0.0"
    | some b => (b.shortest.trim 400).text
  if negative then "-" ++ body else body

/-- The double nearest to digits · 10 ^ exponent, infinite when that is out of range. -/
def nearest (s : Scientific) : Float :=
  if s.digits == 0 then 0.0
  else if s.exponent > 400 then 1.0 / 0.0
  else if s.exponent + (Nat.toDigits 10 s.digits).length < -400 then 0.0
  else Float.ofScientific s.digits (s.exponent < 0) s.exponent.natAbs

def tenTo (exponent : Nat) : Float := Float.ofScientific 1 false exponent

/-- The double reached from a 64-bit significand by one multiplication or division by a
power of ten; exponents below -308 are first brought up by divisions by 1e308. None when
the product is out of range. -/
def scaled (significand : UInt64) (exponent : Int) : Option Float :=
  go 4 significand.toFloat exponent
where
  go : (fuel : Nat) → Float → Int → Option Float
    | 0, _, _ => some 0.0
    | fuel + 1, value, exponent =>
      if exponent.natAbs ≤ 308 then
        if 0 ≤ exponent then
          let product := value * tenTo exponent.natAbs
          if product.isInf then none else some product
        else some (value / tenTo exponent.natAbs)
      else if value == 0.0 then some value
      else if 0 ≤ exponent then none
      else go fuel (value / tenTo 308) (exponent + 308)

/-- Splits off the decimal digits at the front: their value, their number and the rest. -/
def takeDigits : List Char → (value count : Nat) → Nat × Nat × List Char
  | [], value, count => (value, count, [])
  | c :: rest, value, count =>
    if c.isDigit then takeDigits rest (10 * value + (c.toNat - 48)) (count + 1)
    else (value, count, c :: rest)

/-- Reads an unsigned decimal: digits around an optional point, at least one of them, then an
optional exponent. -/
def Scientific.ofChars? (chars : List Char) : Option Scientific :=
  let (whole, wholeCount, rest) := takeDigits chars 0 0
  let (digits, fractionCount, rest) := match rest with
    | '.' :: rest => takeDigits rest whole 0
    | rest => (whole, 0, rest)
  if wholeCount + fractionCount == 0 then none
  else
    let shift : Int := -fractionCount
    match rest with
    | [] => some ⟨digits, shift⟩
    | e :: rest =>
      if e != 'e' && e != 'E' then none
      else
        let (negative, rest) := match rest with
          | '-' :: rest => (true, rest)
          | '+' :: rest => (false, rest)
          | rest => (false, rest)
        match takeDigits rest 0 0 with
        | (_, 0, _) => none
        | (exponent, _, []) => some ⟨digits, shift + if negative then -(exponent : Int) else exponent⟩
        | _ => none

end WorkflowBundle.Decimal
