import WorkflowBundle.Yaml.Scanner

/-! The tree of a YAML document, built by recursive descent over the tokens. When the text
breaks off or breaks the rules, the tree is kept as far as it was known. -/
namespace WorkflowBundle.Yaml

/-- What may stand in front of a node. -/
structure Properties where
  /-- Number of the anchor, by which aliases know the node. -/
  anchor : Option Nat := none
  tag : Option Tag := none
  deriving DecidableEq, Repr, Inhabited

inductive Node where
  | scalar (properties : Properties) (text : String) (style : Style)
  | list (properties : Properties) (items : List Node)
  | table (properties : Properties) (fields : List (Node × Node))
  | aliasOf (number : Nat)
  | cut
  deriving Repr, Inhabited

namespace Node

def empty : Node := scalar {} "" .plain

mutual

/-- Anchored nodes by number, each before the ones inside it. -/
def anchored : Node → List (Nat × Node)
  | scalar properties text style => mine properties (scalar properties text style)
  | list properties items => mine properties (list properties items) ++ anchoredItems items
  | table properties fields => mine properties (table properties fields) ++ anchoredFields fields
  | aliasOf _ | cut => []

def anchoredItems : List Node → List (Nat × Node)
  | [] => []
  | item :: items => anchored item ++ anchoredItems items

def anchoredFields : List (Node × Node) → List (Nat × Node)
  | [] => []
  | (key, value) :: fields => anchored key ++ anchored value ++ anchoredFields fields

def mine (properties : Properties) (node : Node) : List (Nat × Node) :=
  match properties.anchor with
  | some number => [(number, node)]
  | none => []

end

end Node

/-- A parser between two tokens. -/
structure Parser where
  scanner : Scanner
  handles : List (String × Tag) := []
  anchors : List (String × Nat) := []
  /-- Number of nodes met so far, with those that end a list or table. -/
  events : Nat := 0

namespace Parser

/-- The next token, with the parser still in front of it. -/
def peek (p : Parser) : Option (Token × Parser) := do
  let (t, scanner) ← p.scanner.peek
  return (t, { p with scanner })

def skip (p : Parser) : Parser := { p with scanner := p.scanner.skip }

def count (p : Parser) : Parser := { p with events := p.events + 1 }

/-- Gives an anchor its number: that of the names in use. An anchor that is used again gets a
new one, which may be the number of another. -/
def addAnchor (p : Parser) : Option String → Parser × Option Nat
  | none => (p, none)
  | some name =>
    let number := p.anchors.length
    ({ p with anchors := (name, number) :: p.anchors.filter (·.1 != name) }, some number)

def tag? (p : Parser) (handle : String) (suffix : Tag) : Option Tag :=
  if handle.isEmpty then some suffix else (p.handles.lookup handle).map (· ++ suffix)

/-- Anchor and tag in front of a node, in either order, and the token after them. -/
def properties (p : Parser) :
    Option (Option String × Option (String × Tag) × Token × Parser) := do
  let (t, p) ← p.peek
  match t with
  | .anchor name =>
    let (t, p) ← p.skip.peek
    match t with
    | .tag handle suffix =>
      let (t, p) ← p.skip.peek
      return (some name, some (handle, suffix), t, p)
    | t => return (some name, none, t, p)
  | .tag handle suffix =>
    let (t, p) ← p.skip.peek
    match t with
    | .anchor name =>
      let (t, p) ← p.skip.peek
      return (some name, some (handle, suffix), t, p)
    | t => return (none, some (handle, suffix), t, p)
  | t => return (none, none, t, p)

/-- A node, the parser after it, and whether the text went on so far. -/
structure Parsed (α : Type) where
  result : α
  parser : Parser
  whole : Bool

def emptyNode (p : Parser) : Parsed Node := ⟨.empty, p.count, true⟩

/-- A mark of exclamation alone says that a scalar is none but a scalar. -/
def scalarTag (tag : Option Tag) : Option Tag := tag.filter (· != Utf8.encode "!")

mutual

/-- A node. In a block it may be a block; as a value in a block its list may be as far to the
left as its key. -/
def node : (fuel : Nat) → Parser → (inBlock asValue : Bool) → Parsed Node
  | 0, p, _, _ => ⟨.cut, p, false⟩
  | fuel + 1, start, inBlock, asValue =>
    match start.properties with
    | none => ⟨.cut, start, false⟩
    | some (none, none, .aliasOf name, p) =>
      match p.anchors.lookup name with
      | some number => ⟨.aliasOf number, p.skip.count, true⟩
      | none => ⟨.cut, p, false⟩
    | some (anchor, tagged, t, p) =>
      let tag := match tagged with
        | some (handle, suffix) => (p.tag? handle suffix).map some
        | none => some none
      match tag with
      | none => ⟨.cut, p, false⟩
      | some tag =>
        let list (p : Parser) (parse : Parser → Parsed (List Node)) : Parsed Node :=
          let (p, anchor) := p.addAnchor anchor
          let items := parse p.count
          ⟨.list ⟨anchor, tag⟩ items.result, items.parser, items.whole⟩
        let table (p : Parser) (parse : Parser → Parsed (List (Node × Node))) : Parsed Node :=
          let (p, anchor) := p.addAnchor anchor
          let fields := parse p.count
          ⟨.table ⟨anchor, tag⟩ fields.result, fields.parser, fields.whole⟩
        match t with
        | .scalar text style =>
          let (p, anchor) := p.addAnchor anchor
          ⟨.scalar ⟨anchor, scalarTag tag⟩ text style, p.skip.count, true⟩
        | .flowSequenceStart => list p.skip (flowItems fuel true)
        | .flowMappingStart => table p.skip (flowFields fuel true)
        | other =>
          if other = .blockEntry && asValue then list p (valueItems fuel)
          else if other = .blockSequenceStart && inBlock then list p.skip (blockItems fuel)
          else if other = .blockMappingStart && inBlock then table p.skip (blockFields fuel)
          else if anchor.isSome || tagged.isSome then
            let (p, anchor) := p.addAnchor anchor
            ⟨.scalar ⟨anchor, tag⟩ "" .plain, p.count, true⟩
          else ⟨.cut, p, false⟩

/-- A node, or an empty one in front of a token that ends its place. -/
def nodeUnless : (fuel : Nat) → Parser → (inBlock asValue : Bool) → List Token → Parsed Node
  | 0, p, _, _, _ => ⟨.cut, p, false⟩
  | fuel + 1, p, inBlock, asValue, ends =>
    match p.peek with
    | none => ⟨.cut, p, false⟩
    | some (t, p) => if ends.contains t then p.emptyNode else node fuel p inBlock asValue

/-- Items of a block sequence, up to its end. -/
def blockItems : (fuel : Nat) → Parser → Parsed (List Node)
  | 0, p => ⟨[.cut], p, false⟩
  | fuel + 1, p =>
    match p.peek with
    | some (.blockEntry, p) =>
      let item := nodeUnless fuel p.skip true false [.blockEntry, .blockEnd]
      if item.whole then
        let items := blockItems fuel item.parser
        ⟨item.result :: items.result, items.parser, items.whole⟩
      else ⟨[item.result], item.parser, false⟩
    | some (.blockEnd, p) => ⟨[], p.skip.count, true⟩
    | _ => ⟨[.cut], p, false⟩

/-- Items of a block sequence that is no block of its own. -/
def valueItems : (fuel : Nat) → Parser → Parsed (List Node)
  | 0, p => ⟨[.cut], p, false⟩
  | fuel + 1, p =>
    match p.peek with
    | some (.blockEntry, p) =>
      let item := nodeUnless fuel p.skip true false [.blockEntry, .key, .value, .blockEnd]
      if item.whole then
        let items := valueItems fuel item.parser
        ⟨item.result :: items.result, items.parser, items.whole⟩
      else ⟨[item.result], item.parser, false⟩
    | some (_, p) => ⟨[], p.count, true⟩
    | none => ⟨[.cut], p, false⟩

/-- Fields of a block mapping, up to its end. -/
def blockFields : (fuel : Nat) → Parser → Parsed (List (Node × Node))
  | 0, p => ⟨[(.cut, .cut)], p, false⟩
  | fuel + 1, p =>
    match p.peek with
    | some (.key, p) => blockField fuel (nodeUnless fuel p.skip true true [.key, .value, .blockEnd])
    | some (.blockEnd, p) => ⟨[], p.skip.count, true⟩
    | _ => ⟨[(.cut, .cut)], p, false⟩

/-- The value of a key in a block mapping, and the fields after it. -/
def blockField : (fuel : Nat) → Parsed Node → Parsed (List (Node × Node))
  | 0, key => ⟨[(key.result, .cut)], key.parser, false⟩
  | fuel + 1, key =>
    if !key.whole then ⟨[(key.result, .cut)], key.parser, false⟩
    else
      let value : Parsed Node := match key.parser.peek with
        | some (.value, p) => nodeUnless fuel p.skip true true [.key, .value, .blockEnd]
        | some (_, p) => p.emptyNode
        | none => ⟨.cut, key.parser, false⟩
      if value.whole then
        let fields := blockFields fuel value.parser
        ⟨(key.result, value.result) :: fields.result, fields.parser, fields.whole⟩
      else ⟨[(key.result, value.result)], value.parser, false⟩

/-- Items in brackets, up to the closing one. -/
def flowItems : (fuel : Nat) → (first : Bool) → Parser → Parsed (List Node)
  | 0, _, p => ⟨[.cut], p, false⟩
  | fuel + 1, first, p =>
    let next : Option (Token × Parser) := match p.peek with
      | some (.flowSequenceEnd, p) => some (.flowSequenceEnd, p)
      | some (.flowEntry, p) => if first then some (.flowEntry, p) else p.skip.peek
      | some (t, p) => if first then some (t, p) else none
      | none => none
    match next with
    | none => ⟨[.cut], p, false⟩
    | some (.flowSequenceEnd, p) => ⟨[], p.skip.count, true⟩
    | some (t, p) =>
      let item := if t = .key then flowPair fuel p.skip.count else node fuel p false false
      if item.whole then
        let items := flowItems fuel false item.parser
        ⟨item.result :: items.result, items.parser, items.whole⟩
      else ⟨[item.result], item.parser, false⟩

def flowPair : (fuel : Nat) → Parser → Parsed Node
  | 0, p => ⟨.cut, p, false⟩
  | fuel + 1, p =>
    let key : Parsed Node := match p.peek with
      | some (t, p) =>
        if t = .value || t = .flowEntry || t = .flowSequenceEnd then p.skip.emptyNode
        else node fuel p false false
      | none => ⟨.cut, p, false⟩
    if !key.whole then ⟨.table {} [(key.result, .cut)], key.parser, false⟩
    else
      let value := flowValue fuel key.parser .flowSequenceEnd
      if !value.whole then ⟨.table {} [(key.result, value.result)], value.parser, false⟩
      else match value.parser.peek with
        | some (_, p) => ⟨.table {} [(key.result, value.result)], p.count, true⟩
        | none => ⟨.table {} [(key.result, value.result), (.cut, .cut)], value.parser, false⟩

/-- The value of a key in brackets; empty without a colon or without anything after it. -/
def flowValue : (fuel : Nat) → Parser → (close : Token) → Parsed Node
  | 0, p, _ => ⟨.cut, p, false⟩
  | fuel + 1, p, close =>
    match p.peek with
    | some (.value, p) => nodeUnless fuel p.skip false false [.flowEntry, close]
    | some (_, p) => p.emptyNode
    | none => ⟨.cut, p, false⟩

/-- Fields in braces, up to the closing one. -/
def flowFields : (fuel : Nat) → (first : Bool) → Parser → Parsed (List (Node × Node))
  | 0, _, p => ⟨[(.cut, .cut)], p, false⟩
  | fuel + 1, first, p =>
    let next : Option (Token × Parser) := match p.peek with
      | some (.flowMappingEnd, p) => some (.flowMappingEnd, p)
      | some (.flowEntry, p) => if first then some (.flowEntry, p) else p.skip.peek
      | some (t, p) => if first then some (t, p) else none
      | none => none
    match next with
    | none => ⟨[(.cut, .cut)], p, false⟩
    | some (.flowMappingEnd, p) => ⟨[], p.skip.count, true⟩
    | some (t, p) =>
      let key := if t = .key then nodeUnless fuel p.skip false false [.value, .flowEntry, .flowMappingEnd]
        else node fuel p false false
      if !key.whole then ⟨[(key.result, .cut)], key.parser, false⟩
      else
        let value : Parsed Node :=
          if t = .key then flowValue fuel key.parser .flowMappingEnd
          else match key.parser.peek with
            | some (_, p) => p.emptyNode
            | none => ⟨.cut, key.parser, false⟩
        if value.whole then
          let fields := flowFields fuel false value.parser
          ⟨(key.result, value.result) :: fields.result, fields.parser, fields.whole⟩
        else ⟨[(key.result, value.result)], value.parser, false⟩

end

/-- Handles that every document has unless it says otherwise. -/
def standardHandles : List (String × Tag) :=
  [("!", Utf8.encode "!"), ("!!", Utf8.encode "tag:yaml.org,2002:")]

/-- Directives in front of a document, and the token after them. -/
def directives : (fuel : Nat) → Parser → (version : Bool) → Option (Token × Parser)
  | 0, _, _ => none
  | fuel + 1, p, version => do
    let (t, p) ← p.peek
    match t with
    | .versionDirective major minor =>
      if version || major != 1 || minor != 1 && minor != 2 then none
      else directives fuel p.skip true
    | .tagDirective handle stem =>
      if (p.handles.lookup handle).isSome then none
      else directives fuel { p.skip with handles := (handle, stem) :: p.handles } version
    | t =>
      let standard := standardHandles.filter fun h => (p.handles.lookup h.1).isNone
      return (t, { p with handles := p.handles ++ standard })

/-- The first document of a text. -/
structure Document where
  /-- The top node; none in a text without any. -/
  root : Option Node
  /-- The text of the document breaks no rule. -/
  whole : Bool
  /-- Another document follows, or text that breaks the rules. -/
  more : Bool := false
  events : Nat := 1

/-- What follows a document is the end of the text. -/
def atEnd : (fuel : Nat) → Parser → Bool
  | 0, _ => false
  | fuel + 1, p =>
    match p.peek with
    | some (.streamEnd, _) => true
    | some (.documentEnd, p) => atEnd fuel p.skip
    | _ => false

def finish (fuel : Nat) (n : Parsed Node) : Document :=
  if !n.whole then ⟨some n.result, false, false, n.parser.events⟩
  else match n.parser.peek with
    | none => ⟨some n.result, false, false, n.parser.events⟩
    | some (t, p) =>
      let rest := if t = .documentEnd then p.skip else p
      ⟨some n.result, true, !atEnd fuel rest, p.events⟩

def document (fuel : Nat) (p : Parser) : Document :=
  match p.peek with
  | none => ⟨none, false, false, 0⟩
  | some (.streamEnd, _) => ⟨none, true, false, 1⟩
  | some (t, p) =>
    let opens : Bool := match t with
      | .versionDirective _ _ | .tagDirective _ _ | .documentStart => true
      | _ => false
    match directives fuel p false with
    | none => ⟨none, false, false, 0⟩
    | some (t, p) =>
      if !opens then finish fuel (node fuel p true false)
      else if t != .documentStart then ⟨none, false, false, 0⟩
      else match p.skip.peek with
        | none => ⟨none, false, false, 0⟩
        | some (t, p) =>
          let isEmpty : Bool := match t with
            | .versionDirective _ _ | .tagDirective _ _ | .documentStart | .documentEnd
            | .streamEnd => true
            | _ => false
          finish fuel (if isEmpty then p.emptyNode else node fuel p true false)

def ofText (text : String) : Document :=
  if text.toList.all isPrintable then document (16 * text.length + 64) { scanner := .ofText text }
  else ⟨none, false, false, 0⟩

end Parser

end WorkflowBundle.Yaml
