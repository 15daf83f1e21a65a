/-! Positions in YAML text, and the character classes of the format. -/
namespace WorkflowBundle.Yaml

def isBlank (c : Char) : Bool := c == ' ' || c == '\t'

/-- A character that ends a line: line feed, carriage return, next line, line separator or
paragraph separator. -/
def isBreak (c : Char) : Bool :=
  c == '\n' || c == '\r' || c.toNat == 0x85 || c.toNat == 0x2028 || c.toNat == 0x2029

/-- A character of anchors, directive names and tag handles. -/
def isWord (c : Char) : Bool := c.isAlphanum || c == '_' || c == '-'

/-- A character that the format admits at all. -/
def isPrintable (c : Char) : Bool :=
  let n := c.toNat
  n == 9 || n == 10 || n == 13 || 0x20 ≤ n && n ≤ 0x7E || n == 0x85 || 0xA0 ≤ n && n ≤ 0xFFFD ||
    0x10000 ≤ n

def isBreakOrEnd : Option Char → Bool
  | some c => isBreak c
  | none => true

def isBlankOrEnd : Option Char → Bool
  | some c => isBlank c || isBreak c
  | none => true

/-- A place in a text: what is left to read, and how far it is from the start. -/
structure Cursor where
  rest : List Char
  index : Nat := 0
  line : Nat := 0
  column : Nat := 0
  deriving Inhabited

namespace Cursor

def peek (c : Cursor) (ahead : Nat) : Option Char := c.rest[ahead]?

def looksAt (c : Cursor) (expected : Char) : Bool := c.rest.head? == some expected

def advance (c : Cursor) (count : Nat) : Cursor :=
  { c with rest := c.rest.drop count, index := c.index + count, column := c.column + count }

/-- The characters in front that have a property, and the place after them. -/
def span (c : Cursor) (p : Char → Bool) : List Char × Cursor :=
  let taken := c.rest.takeWhile p
  (taken, c.advance taken.length)

def skipWhile (c : Cursor) (p : Char → Bool) : Cursor := (c.span p).2

/-- Passes over the end of a line. Gives the text that it stands for. -/
def readLine (c : Cursor) : List Char × Cursor :=
  let next (count : Nat) (rest : List Char) : Cursor := ⟨rest, c.index + count, c.line + 1, 0⟩
  match c.rest with
  | '\r' :: '\n' :: rest => (['\n'], next 2 rest)
  | ch :: rest =>
    if ch == '\n' || ch == '\r' || ch.toNat == 0x85 then (['\n'], next 1 rest)
    else if isBreak ch then ([ch], next 1 rest)
    else ([], c)
  | [] => ([], c)

def skipLine (c : Cursor) : Cursor := c.readLine.2

def skipComment (c : Cursor) : Cursor :=
  let c := c.skipWhile isBlank
  if c.looksAt '#' then c.skipWhile (!isBreak ·) else c

/-- Passes over the rest of a line that holds nothing but a comment. -/
def finishLine (c : Cursor) : Option Cursor :=
  let c := c.skipComment
  if isBreakOrEnd (c.peek 0) then some c.skipLine else none

/-- Three equal marks that make a line a boundary between documents. -/
def looksAtBoundary (c : Cursor) (mark : Char) : Bool :=
  c.column == 0 && c.peek 0 == some mark && c.peek 1 == some mark && c.peek 2 == some mark &&
    isBlankOrEnd (c.peek 3)

def atBoundary (c : Cursor) : Bool := c.looksAtBoundary '-' || c.looksAtBoundary '.'

end Cursor

end WorkflowBundle.Yaml
