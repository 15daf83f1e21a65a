import WorkflowBundle.Json.Reader
import WorkflowBundle.Text.Utf8
import WorkflowBundle.Yaml.Cursor

/-! Tokens of YAML text, and reading those that are longer than a mark: scalars in their five
styles, tags, anchors and directives. Nothing is given back for text that breaks the rules. -/
namespace WorkflowBundle.Yaml

inductive Style where
  | plain
  | singleQuoted
  | doubleQuoted
  | literal
  | folded
  deriving DecidableEq, Repr, Inhabited

/-- A tag is a list of bytes, since it may have any byte escaped in it. -/
abbrev Tag := List UInt8

inductive Token where
  | streamEnd
  | versionDirective (major minor : Nat)
  | tagDirective (handle : String) (stem : Tag)
  | documentStart
  | documentEnd
  | blockSequenceStart
  | blockMappingStart
  | blockEnd
  | flowSequenceStart
  | flowSequenceEnd
  | flowMappingStart
  | flowMappingEnd
  | blockEntry
  | flowEntry
  | key
  | value
  | aliasOf (name : String)
  | anchor (name : String)
  | tag (handle : String) (suffix : Tag)
  | scalar (text : String) (style : Style)
  deriving DecidableEq, Repr, Inhabited

namespace Cursor

/-! ## White space inside scalars -/

/-- Blanks and line ends between two parts of a scalar. -/
structure Gap where
  blanks : List Char := []
  firstBreak : List Char := []
  moreBreaks : List Char := []
  broken : Bool := false

/-- What a gap stands for: a single line end is a space, several are one less. -/
def Gap.fold (g : Gap) : List Char :=
  if !g.broken then g.blanks
  else if g.firstBreak == ['\n'] then
    if g.moreBreaks.isEmpty then [' '] else g.moreBreaks
  else g.firstBreak ++ g.moreBreaks

def gapFrom (indent : Nat) : (fuel : Nat) → Cursor → Gap → Option (Gap × Cursor)
  | 0, c, g => some (g, c)
  | fuel + 1, c, g =>
    match c.peek 0 with
    | some ch =>
      if isBlank ch then
        if g.broken then
          if ch == '\t' && c.column < indent then none else gapFrom indent fuel (c.advance 1) g
        else gapFrom indent fuel (c.advance 1) { g with blanks := g.blanks ++ [ch] }
      else if isBreak ch then
        let (text, next) := c.readLine
        if g.broken then gapFrom indent fuel next { g with moreBreaks := g.moreBreaks ++ text }
        else gapFrom indent fuel next { g with blanks := [], firstBreak := text, broken := true }
      else some (g, c)
    | none => some (g, c)

def gap (c : Cursor) (indent : Nat) (g : Gap := {}) : Option (Gap × Cursor) :=
  gapFrom indent (c.rest.length + 1) c g

/-! ## Plain scalars -/

def isFlowMark (c : Char) : Bool := c == ',' || c == '[' || c == ']' || c == '\x7b' || c == '\x7d'

/-- A part of a plain scalar without blanks. -/
def plainPart (flow : Bool) : List Char → Option (List Char × List Char)
  | [] => some ([], [])
  | ch :: rest =>
    if isBlank ch || isBreak ch then some ([], ch :: rest)
    else if flow && ch == ':' && rest.head?.any (fun n => isFlowMark n || n == '?') then none
    else if ch == ':' && isBlankOrEnd rest.head? || flow && isFlowMark ch then some ([], ch :: rest)
    else do
      let (part, rest) ← plainPart flow rest
      return (ch :: part, rest)

/-- Continues a plain scalar after `g`. Gives its text, the place after it, and whether a line
has ended since its last part. -/
def plainFrom (flow : Bool) (indent : Nat) : (fuel : Nat) → Cursor → (before : List Char) → Gap →
    Option (List Char × Cursor × Bool)
  | 0, c, before, g => some (before, c, g.broken)
  | fuel + 1, c, before, g =>
    if c.atBoundary || c.looksAt '#' then some (before, c, g.broken)
    else do
      let (part, _) ← plainPart flow c.rest
      let (before, g) := if part.isEmpty then (before, g) else (before ++ g.fold ++ part, {})
      let c := c.advance part.length
      match c.peek 0 with
      | some ch =>
        if isBlank ch || isBreak ch then do
          let (g, c) ← c.gap indent g
          if !flow && c.column < indent then some (before, c, g.broken)
          else plainFrom flow indent fuel c before g
        else some (before, c, g.broken)
      | none => some (before, c, g.broken)

/-- Reads a plain scalar. Its further lines start at the column `indent` or after it, unless it
stands inside brackets. -/
def plain (c : Cursor) (flow : Bool) (indent : Nat) : Option (String × Cursor × Bool) := do
  let (text, c, broken) ← plainFrom flow indent (c.rest.length + 1) c [] {}
  return (String.ofList text, c, broken)

/-! ## Quoted scalars -/

/-- The character that a letter after a backslash stands for. -/
def escaped? : Char → Option Char
  | '0' => some (Char.ofNat 0)
  | 'a' => some (Char.ofNat 7)
  | 'b' => some (Char.ofNat 8)
  | 't' => some '\t'
  | '\t' => some '\t'
  | 'n' => some '\n'
  | 'v' => some (Char.ofNat 11)
  | 'f' => some (Char.ofNat 12)
  | 'r' => some '\r'
  | 'e' => some (Char.ofNat 27)
  | ' ' => some ' '
  | '"' => some '"'
  | '/' => some '/'
  | '\\' => some '\\'
  | 'N' => some (Char.ofNat 0x85)
  | '_' => some (Char.ofNat 0xA0)
  | 'L' => some (Char.ofNat 0x2028)
  | 'P' => some (Char.ofNat 0x2029)
  | _ => none

def escapeLength? : Char → Option Nat
  | 'x' => some 2
  | 'u' => some 4
  | 'U' => some 8
  | _ => none

def hexNumber : List Char → (value : Nat) → Option Nat
  | [], value => some value
  | ch :: rest, value => do hexNumber rest (16 * value + (← Json.Reader.hexValue? ch))

/-- An escape after its backslash: the character, and the number of characters read. -/
def escape? (rest : List Char) : Option (Char × Nat) :=
  match rest with
  | [] => none
  | ch :: rest =>
    match escapeLength? ch with
    | none => (escaped? ch).map (·, 1)
    | some length => do
      let digits := rest.take length
      if digits.length < length then none
      else
        let value ← hexNumber digits 0
        if value.isValidChar then some (Char.ofNat value, length + 1) else none

/-- A part of a quoted scalar without blanks. The flag tells of an escaped line end after it. -/
def quotedPart (double : Bool) : (fuel : Nat) → Cursor → (before : List Char) →
    Option (List Char × Cursor × Bool)
  | 0, c, before => some (before, c, false)
  | fuel + 1, c, before =>
    match c.rest with
    | [] => some (before, c, false)
    | ch :: rest =>
      if isBlank ch || isBreak ch then some (before, c, false)
      else if !double && ch == '\'' && rest.head? == some '\'' then
        quotedPart double fuel (c.advance 2) (before ++ ['\''])
      else if ch == (if double then '"' else '\'') then some (before, c, false)
      else if double && ch == '\\' then
        if rest.head?.any isBreak then some (before, (c.advance 1).skipLine, true)
        else do
          let (ch, length) ← escape? rest
          quotedPart double fuel (c.advance (length + 1)) (before ++ [ch])
      else quotedPart double fuel (c.advance 1) (before ++ [ch])

def quotedFrom (double : Bool) : (fuel : Nat) → Cursor → (before : List Char) →
    Option (List Char × Cursor)
  | 0, _, _ => none
  | fuel + 1, c, before =>
    if c.atBoundary || c.rest.isEmpty then none
    else do
      let (before, c, joined) ← quotedPart double (c.rest.length + 1) c before
      if c.looksAt (if double then '"' else '\'') then some (before, c.advance 1)
      else
        let (g, c) ← c.gap 0 { broken := joined }
        quotedFrom double fuel c (before ++ g.fold)

def quoted (c : Cursor) (double : Bool) : Option (String × Cursor) := do
  let c := c.advance 1
  let (text, c) ← quotedFrom double (c.rest.length + 2) c []
  return (String.ofList text, c)

/-! ## Block scalars -/

/-- What becomes of the line ends after a block scalar. -/
inductive Chomping where
  | strip
  | clip
  | keep

/-- The marks after the one that opens a block scalar, in either order. The number is the
indentation, zero when it is not given. -/
def blockHeader (c : Cursor) : Option (Chomping × Nat × Cursor) :=
  let chomping? : Option Char → Option Chomping
    | some '+' => some .keep
    | some '-' => some .strip
    | _ => none
  let digit? : Option Char → Option Nat
    | some ch => if ch.isDigit then some (ch.toNat - 48) else none
    | none => none
  match chomping? (c.peek 0), digit? (c.peek 0) with
  | some chomping, _ =>
    match digit? (c.peek 1) with
    | some 0 => none
    | some indent => some (chomping, indent, c.advance 2)
    | none => some (chomping, 0, c.advance 1)
  | none, some 0 => none
  | none, some indent =>
    match chomping? (c.peek 1) with
    | some chomping => some (chomping, indent, c.advance 2)
    | none => some (.clip, indent, c.advance 1)
  | none, none => some (.clip, 0, c)

/-- Empty lines of a block scalar with the indentation `indent`, zero while it is not known.
Gives the line ends and the widest column met. -/
def emptyLines (indent : Nat) : (fuel : Nat) → Cursor → (breaks : List Char) → (widest : Nat) →
    Option (List Char × Nat × Cursor)
  | 0, c, breaks, widest => some (breaks, widest, c)
  | fuel + 1, c, breaks, widest =>
    let spaces := c.rest.takeWhile (· == ' ')
    let c := c.advance (if indent = 0 then spaces.length else min spaces.length (indent - c.column))
    let widest := max widest c.column
    if (indent = 0 || c.column < indent) && c.looksAt '\t' then none
    else
      match c.peek 0 with
      | some ch =>
        if isBreak ch then
          let (text, c) := c.readLine
          emptyLines indent fuel c (breaks ++ text) widest
        else some (breaks, widest, c)
      | none => some (breaks, widest, c)

/-- Lines of a block scalar. `lineEnd` is the end of the last line, `breaks` are those of the
empty lines after it. -/
def blockLines (folded : Bool) (indent : Nat) : (fuel : Nat) → Cursor →
    (before lineEnd breaks : List Char) → (afterBlank : Bool) →
    Option (List Char × List Char × List Char × Cursor)
  | 0, c, before, lineEnd, breaks, _ => some (before, lineEnd, breaks, c)
  | fuel + 1, c, before, lineEnd, breaks, afterBlank =>
    if c.column != indent || c.rest.isEmpty then some (before, lineEnd, breaks, c)
    else do
      let startsBlank := (c.peek 0).any isBlank
      let joint :=
        if folded && lineEnd == ['\n'] && !afterBlank && !startsBlank then
          if breaks.isEmpty then [' '] else breaks
        else lineEnd ++ breaks
      let (text, c) := c.span (!isBreak ·)
      let (lineEnd, c) := c.readLine
      let (breaks, _, c) ← emptyLines indent (c.rest.length + 1) c [] 0
      blockLines folded indent fuel c (before ++ joint ++ text) lineEnd breaks startsBlank

/-- Reads a block scalar inside a block of the column `parent`, none at the top. -/
def block (c : Cursor) (folded : Bool) (parent : Int) : Option (String × Cursor) := do
  let (chomping, increment, c) ← (c.advance 1).blockHeader
  let c ← c.finishLine
  let given := if increment = 0 then 0 else (max parent 0).toNat + increment
  let (breaks, widest, c) ← emptyLines given (c.rest.length + 1) c [] 0
  let indent := if given = 0 then max widest (max (parent + 1).toNat 1) else given
  let (text, lineEnd, breaks, c) ←
    blockLines folded indent (c.rest.length + 1) c [] [] breaks false
  let tail := match chomping with
    | .strip => []
    | .clip => lineEnd
    | .keep => lineEnd ++ breaks
  return (String.ofList (text ++ tail), c)

/-! ## Anchors, tags and directives -/

def anchorName (c : Cursor) : Option (String × Cursor) :=
  let (name, c) := (c.advance 1).span isWord
  let ends : Bool := isBlankOrEnd (c.peek 0) ||
    (c.peek 0).any fun ch => ch == '?' || ch == ':' || ch == ',' || ch == ']' || ch == '\x7d' ||
      ch == '%' || ch == '@' || ch == '\x60'
  if name.isEmpty || !ends then none else some (String.ofList name, c)

/-- A mark of exclamation with the word after it and, if there is one, another such mark. -/
def tagHandle (c : Cursor) : Option (List Char × Cursor) :=
  if !c.looksAt '!' then none
  else
    let (name, c) := (c.advance 1).span isWord
    if c.looksAt '!' then some ('!' :: name ++ ['!'], c.advance 1) else some ('!' :: name, c)

/-- A character of a tag. Some only occur in full forms. -/
def isTagChar (full : Bool) (ch : Char) : Bool :=
  isWord ch || ";/?:@&=+$.%!~*'()".toList.contains ch ||
    full && (ch == ',' || ch == '[' || ch == ']')

/-- Number of bytes in a character, by its first byte. -/
def sequenceLength? (first : Nat) : Option Nat :=
  if first < 0x80 then some 1
  else if 0xC0 ≤ first && first < 0xE0 then some 2
  else if 0xE0 ≤ first && first < 0xF0 then some 3
  else if 0xF0 ≤ first && first < 0xF8 then some 4
  else none

def escapedByte? (c : Cursor) : Option Nat :=
  match c.rest with
  | '%' :: a :: b :: _ => do return 16 * (← Json.Reader.hexValue? a) + (← Json.Reader.hexValue? b)
  | _ => none

/-- Further escaped bytes of a character. -/
def escapedTail : (count : Nat) → Cursor → Option (Tag × Cursor)
  | 0, c => some ([], c)
  | count + 1, c => do
    let byte ← c.escapedByte?
    if byte / 64 != 2 then none
    else
      let (tail, c) ← escapedTail count (c.advance 3)
      return (byte.toUInt8 :: tail, c)

/-- The bytes of a tag as far as they go. -/
def tagBytes (full : Bool) : (fuel : Nat) → Cursor → (before : Tag) → Option (Tag × Cursor)
  | 0, c, before => some (before, c)
  | fuel + 1, c, before =>
    match c.peek 0 with
    | none => some (before, c)
    | some ch =>
      if !isTagChar full ch then some (before, c)
      else if ch == '%' then do
        let first ← c.escapedByte?
        let length ← sequenceLength? first
        let (tail, c) ← escapedTail (length - 1) (c.advance 3)
        tagBytes full fuel c (before ++ first.toUInt8 :: tail)
      else tagBytes full fuel (c.advance 1) (before ++ Utf8.encode ch.toString)

/-- The bytes of a tag that must not be empty. -/
def tagText (c : Cursor) (full : Bool) : Option (Tag × Cursor) := do
  let (bytes, next) ← tagBytes full (c.rest.length + 1) c []
  if bytes.isEmpty then none else some (bytes, next)

/-- A tag: its handle, empty for a tag in full, and its suffix. -/
def readTag (c : Cursor) (flow : Bool) : Option (Token × Cursor) := do
  let (token, c) ←
    if c.peek 1 == some '<' then do
      let (suffix, c) ← (c.advance 2).tagText true
      if c.looksAt '>' then some (Token.tag "" suffix, c.advance 1) else none
    else do
      let (handle, next) ← c.tagHandle
      if handle.length > 1 && handle.getLast? == some '!' then do
        let (suffix, next) ← next.tagText false
        some (Token.tag (String.ofList handle) suffix, next)
      else do
        let (suffix, next) ← tagBytes false (next.rest.length + 1) next
          (Utf8.encode (String.ofList (handle.drop 1)))
        if suffix.isEmpty then some (Token.tag "" (Utf8.encode "!"), next)
        else some (Token.tag "!" suffix, next)
  if flow && c.looksAt ',' || isBlankOrEnd (c.peek 0) then some (token, c) else none

def versionNumber (c : Cursor) : Option (Nat × Cursor) :=
  let (digits, c) := c.span Char.isDigit
  if digits.isEmpty || digits.length > 9 then none
  else some (digits.foldl (fun n d => 10 * n + (d.toNat - 48)) 0, c)

def versionValue (c : Cursor) : Option (Token × Cursor) := do
  let (major, c) ← (c.skipWhile isBlank).versionNumber
  if !c.looksAt '.' then none
  else
    let (minor, c) ← (c.advance 1).versionNumber
    return (.versionDirective major minor, c)

def tagValue (c : Cursor) : Option (Token × Cursor) := do
  let (handle, c) ← (c.skipWhile isBlank).tagHandle
  if handle != ['!'] && handle.getLast? != some '!' then none
  else if !(c.peek 0).any isBlank then none
  else
    let (stem, c) ← (c.skipWhile isBlank).tagText true
    if isBlankOrEnd (c.peek 0) then some (.tagDirective (String.ofList handle) stem, c) else none

/-- A directive with its line. -/
def directive (c : Cursor) : Option (Token × Cursor) := do
  let (name, c) := (c.advance 1).span isWord
  if name.isEmpty || !isBlankOrEnd (c.peek 0) then none
  else
    let (token, c) ← match String.ofList name with
      | "YAML" => c.versionValue
      | "TAG" => c.tagValue
      | _ => none
    return (token, ← c.finishLine)

end Cursor

end WorkflowBundle.Yaml
