import WorkflowBundle.Yaml.Token

/-! The tokens of a text, one after another. A mapping key is recognised only by the colon
after it, so tokens are held back while they may still turn out to start a key. No token is
read before it is needed: what is wrong later in a text is not noticed earlier than that. -/
namespace WorkflowBundle.Yaml

/-- A token that may turn out to start a mapping key. -/
structure KeyMark where
  /-- The block that it stands in needs a key here. -/
  required : Bool
  number : Nat
  cursor : Cursor

structure Scanner where
  cursor : Cursor
  queue : List Token := []
  taken : Nat := 0
  /-- Column of the innermost block, less than zero outside of blocks. -/
  indent : Int := -1
  outer : List Int := []
  /-- A key may start here. -/
  keyAllowed : Bool := true
  /-- The possible key of each open bracket, innermost first, and that outside of brackets. -/
  keys : List (Option KeyMark) := [none]

namespace Scanner

def inFlow (s : Scanner) : Bool := s.keys.length > 1

def push (s : Scanner) (t : Token) : Scanner := { s with queue := s.queue ++ [t] }

/-- Puts a token in front of the one with a number. -/
def insertAt (s : Scanner) (number : Nat) (t : Token) : Scanner :=
  let place := number - s.taken
  { s with queue := s.queue.take place ++ t :: s.queue.drop place }

/-- Opens a block at a column to the right of the one around it. -/
def openBlock (s : Scanner) (column : Nat) (number : Option Nat) (t : Token) : Scanner :=
  if s.inFlow || s.indent ≥ column then s
  else
    let s := { s with indent := column, outer := s.indent :: s.outer }
    match number with
    | some number => s.insertAt number t
    | none => s.push t

def closeBlocksFrom (column : Int) : (outer : List Int) → Scanner → Scanner
  | [], s => s
  | indent :: outer, s =>
    if s.indent > column then
      closeBlocksFrom column outer ({ s with indent, outer }.push .blockEnd)
    else s

def closeBlocks (s : Scanner) (column : Int) : Scanner :=
  if s.inFlow then s else closeBlocksFrom column s.outer s

/-- Gives up the possible key of the innermost bracket. -/
def dropKey (s : Scanner) : Option Scanner :=
  match s.keys with
  | some k :: keys => if k.required then none else some { s with keys := none :: keys }
  | _ => some s

/-- Takes note that the next token may start a key. -/
def markKey (s : Scanner) : Option Scanner :=
  if s.keyAllowed then do
    let required := !s.inFlow && s.indent == s.cursor.column
    let s ← s.dropKey
    let mark : KeyMark := ⟨required, s.taken + s.queue.length, s.cursor⟩
    return { s with keys := some mark :: s.keys.tail }
  else some s

/-- A possible key is out of reach when its line has ended, or after 1024 characters. -/
def isStale (c : Cursor) (k : KeyMark) : Bool :=
  k.cursor.line < c.line || k.cursor.index + 1024 < c.index

/-- Gives up possible keys that are out of reach. -/
def dropStale (s : Scanner) : Option Scanner :=
  if s.keys.any (fun key => key.any fun k => isStale s.cursor k && k.required) then none
  else some { s with keys := s.keys.map fun key => key.filter fun k => !isStale s.cursor k }

/-- Passes over blanks, comments and line ends. A tab counts as a blank where no key may
start, and after a line end outside of brackets a key may start. -/
def skipSpace : (fuel : Nat) → Scanner → Scanner
  | 0, s => s
  | fuel + 1, s =>
    let c := if s.cursor.index = 0 && s.cursor.looksAt '\ufeff' then s.cursor.advance 1 else s.cursor
    let c := c.skipWhile fun ch => ch == ' ' || (s.inFlow || !s.keyAllowed) && ch == '\t'
    let c := if c.looksAt '#' then c.skipWhile (!isBreak ·) else c
    if (c.peek 0).any isBreak then
      skipSpace fuel { s with cursor := c.skipLine, keyAllowed := s.keyAllowed || !s.inFlow }
    else { s with cursor := c }

/-- Takes a mark of some characters as a token. -/
def mark (s : Scanner) (count : Nat) (t : Token) : Scanner :=
  { s with cursor := s.cursor.advance count }.push t

def readEnd (s : Scanner) : Option Scanner := do
  let c := s.cursor
  let c := if c.column = 0 then c else { c with column := 0, line := c.line + 1 }
  let s ← ({ s with cursor := c }.closeBlocks (-1)).dropKey
  return { s with keyAllowed := false }.push .streamEnd

def readDirective (s : Scanner) : Option Scanner := do
  let s ← (s.closeBlocks (-1)).dropKey
  let (t, c) ← s.cursor.directive
  return { s with cursor := c, keyAllowed := false }.push t

def readBoundary (s : Scanner) (t : Token) : Option Scanner := do
  let s ← (s.closeBlocks (-1)).dropKey
  return { s with keyAllowed := false }.mark 3 t

def openBracket (s : Scanner) (t : Token) : Option Scanner := do
  let s ← s.markKey
  return { s with keys := none :: s.keys, keyAllowed := true }.mark 1 t

def closeBracket (s : Scanner) (t : Token) : Option Scanner := do
  let s ← s.dropKey
  let keys := if s.inFlow then s.keys.tail else s.keys
  return { s with keys, keyAllowed := false }.mark 1 t

def readComma (s : Scanner) : Option Scanner := do
  let s ← s.dropKey
  return { s with keyAllowed := true }.mark 1 .flowEntry

def readDash (s : Scanner) : Option Scanner := do
  if !s.inFlow && !s.keyAllowed then none
  else
    let s ← (s.openBlock s.cursor.column none .blockSequenceStart).dropKey
    return { s with keyAllowed := true }.mark 1 .blockEntry

def readQuestion (s : Scanner) : Option Scanner := do
  if !s.inFlow && !s.keyAllowed then none
  else
    let s ← (s.openBlock s.cursor.column none .blockMappingStart).dropKey
    return { s with keyAllowed := !s.inFlow }.mark 1 .key

/-- A colon in front of a value. What may have been a key is one. -/
def readColon (s : Scanner) : Option Scanner :=
  match s.keys.head? with
  | some (some k) =>
    let s := (s.insertAt k.number .key).openBlock k.cursor.column (some k.number) .blockMappingStart
    some ({ s with keys := none :: s.keys.tail, keyAllowed := false }.mark 1 .value)
  | _ =>
    if !s.inFlow && !s.keyAllowed then none
    else
      let s := s.openBlock s.cursor.column none .blockMappingStart
      some ({ s with keyAllowed := !s.inFlow }.mark 1 .value)

/-- A token that may start a key and after which none may start. -/
def readWith (s : Scanner) (read : Scanner → Option (Token × Cursor)) : Option Scanner := do
  let s ← s.markKey
  let (t, c) ← read s
  return { s with cursor := c, keyAllowed := false }.push t

def readBlockScalar (s : Scanner) (folded : Bool) : Option Scanner := do
  let s ← s.dropKey
  let (text, c) ← s.cursor.block folded s.indent
  return { s with cursor := c, keyAllowed := true }.push
    (.scalar text (if folded then .folded else .literal))

def readQuoted (s : Scanner) (double : Bool) : Option Scanner :=
  s.readWith fun s => do
    let (text, c) ← s.cursor.quoted double
    return (.scalar text (if double then .doubleQuoted else .singleQuoted), c)

/-- After a plain scalar whose line has ended a key may start. -/
def readPlain (s : Scanner) : Option Scanner := do
  let s ← s.markKey
  let (text, c, broken) ← s.cursor.plain s.inFlow (s.indent + 1).toNat
  return { s with cursor := c, keyAllowed := broken }.push (.scalar text .plain)

def startsPlain (s : Scanner) (ch : Char) : Bool :=
  let next := s.cursor.peek 1
  if ch == '-' then !next.any isBlank
  else if ch == '?' || ch == ':' then !s.inFlow && !isBlankOrEnd next
  else !(isBlank ch || isBreak ch || ",[]\x7b\x7d#&*!|>'\"%@\x60".toList.contains ch)

/-- Reads the next token, perhaps with others that it makes known. -/
def readNext (s : Scanner) : Option Scanner := do
  let s ← (skipSpace (s.cursor.rest.length + 1) s).dropStale
  let s := s.closeBlocks s.cursor.column
  let c := s.cursor
  let spaced := isBlankOrEnd (c.peek 1)
  match c.peek 0 with
  | none => s.readEnd
  | some ch =>
    if c.column = 0 && ch == '%' then s.readDirective
    else if c.looksAtBoundary '-' then s.readBoundary .documentStart
    else if c.looksAtBoundary '.' then s.readBoundary .documentEnd
    else if ch == '[' then s.openBracket .flowSequenceStart
    else if ch == '\x7b' then s.openBracket .flowMappingStart
    else if ch == ']' then s.closeBracket .flowSequenceEnd
    else if ch == '\x7d' then s.closeBracket .flowMappingEnd
    else if ch == ',' then s.readComma
    else if ch == '-' && spaced then s.readDash
    else if ch == '?' && (s.inFlow || spaced) then s.readQuestion
    else if ch == ':' && (s.inFlow || spaced) then s.readColon
    else if ch == '*' then s.readWith fun s => do
      let (name, c) ← s.cursor.anchorName
      return (.aliasOf name, c)
    else if ch == '&' then s.readWith fun s => do
      let (name, c) ← s.cursor.anchorName
      return (.anchor name, c)
    else if ch == '!' then s.readWith fun s => s.cursor.readTag s.inFlow
    else if ch == '|' && !s.inFlow then s.readBlockScalar false
    else if ch == '>' && !s.inFlow then s.readBlockScalar true
    else if ch == '\'' then s.readQuoted false
    else if ch == '"' then s.readQuoted true
    else if s.startsPlain ch then s.readPlain
    else none

/-- Reads tokens until the first one cannot start a key. -/
def fill : (fuel : Nat) → Scanner → Option Scanner
  | 0, _ => none
  | fuel + 1, s =>
    if s.queue.isEmpty then do fill fuel (← s.readNext)
    else do
      let s ← s.dropStale
      if s.keys.any (fun key => key.any fun k => k.number == s.taken) then fill fuel (← s.readNext)
      else return s

def peek (s : Scanner) : Option (Token × Scanner) := do
  let s ← fill (s.cursor.rest.length + 4) s
  return (s.queue.headD .streamEnd, s)

def skip (s : Scanner) : Scanner := { s with queue := s.queue.tail, taken := s.taken + 1 }

def ofText (text : String) : Scanner := { cursor := { rest := text.toList } }

end Scanner

end WorkflowBundle.Yaml
