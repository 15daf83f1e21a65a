import WorkflowBundle.Yaml.Node
import WorkflowBundle.Yaml.Scalar

/-! What a YAML text says. -/
namespace WorkflowBundle.Yaml

def coreTag (name : String) : Tag := Utf8.encode ("tag:yaml.org,2002:" ++ name)

/-- The name in a tag of the text's own. -/
def ownTag? (tag : Option Tag) : Option String :=
  match tag with
  | some (0x21 :: name) => (Utf8.decode (if name.isEmpty then [0x21] else name)).toOption
  | _ => none

/-- What a scalar means. A tag of the standard schema that stands for a type demands it. -/
def scalarMeaning (tag : Option Tag) (text : String) (style : Style) : Except Fault Document :=
  let demand (value : Option Document) : Except Fault Document :=
    match value with
    | some value => .ok value
    | none => .error .mismatch
  match tag with
  | none => if style = .plain then plainMeaning text else .ok (.text text)
  | some tag =>
    if tag = coreTag "bool" then demand ((bool? text).map .bool)
    else if tag = coreTag "int" then (number? text).getD (.error .mismatch)
    else if tag = coreTag "float" then demand ((float? text).map .float)
    else if tag = coreTag "null" then demand (if isNull text then some .null else none)
    else .ok (.text text)

structure Anchors where
  nodes : List (Nat × Node)

namespace Anchors

def ofRoot (root : Node) : Anchors := ⟨root.anchored⟩

/-- The node with a number: of several the last. -/
def node? (a : Anchors) (number : Nat) : Option Node := (a.nodes.reverse).lookup number

/-- The node that an alias means. Each use of an alias takes one from the budget. -/
def follow (a : Anchors) (budget : Nat) : Node → Except Fault (Node × Nat)
  | .aliasOf number =>
    match budget, a.node? number with
    | budget + 1, some node => .ok (node, budget)
    | _, _ => .error .malformed
  | node => .ok (node, budget)

end Anchors

def readAll (read : Nat → α → Except Fault (β × Nat)) : List α → Nat → Except Fault (List β × Nat)
  | [], budget => .ok ([], budget)
  | item :: items, budget => do
    let (first, budget) ← read budget item
    let (rest, budget) ← readAll read items budget
    return (first :: rest, budget)

/-- The document that a node says, at most `depth` levels deep. -/
def readNode (a : Anchors) : (depth : Nat) → (budget : Nat) → Node → Except Fault (Document × Nat)
  | depth, budget, node => do
    let (node, budget) ← a.follow budget node
    match node with
    | .scalar properties text style =>
      if (ownTag? properties.tag).isSome then .error .malformed
      else return (← scalarMeaning properties.tag text style, budget)
    | .list properties items =>
      match ownTag? properties.tag, depth with
      | none, depth + 1 => do
        let (items, budget) ← readAll (readNode a depth) items budget
        return (.list items, budget)
      | _, _ => .error .malformed
    | .table properties fields =>
      match ownTag? properties.tag, depth with
      | none, depth + 1 => do
        let field (budget : Nat) (f : Node × Node) : Except Fault ((Document × Document) × Nat) := do
          let (key, budget) ← readNode a depth budget f.1
          let (value, budget) ← readNode a depth budget f.2
          return ((key, value), budget)
        let (fields, budget) ← readAll field fields budget
        return (.table fields, budget)
      | _, _ => .error .malformed
    | .aliasOf _ | .cut => .error .malformed
termination_by depth => depth

def maxDepth : Nat := 128

/-- A scalar as it is written, whatever it would mean. -/
def readWritten (a : Anchors) (budget : Nat) (node : Node) : Except Fault (Document × Nat) := do
  let (node, budget) ← a.follow budget node
  match node with
  | .scalar _ text _ => return (.text text, budget)
  | .list _ _ | .table _ _ => .error .mismatch
  | .aliasOf _ | .cut => .error .malformed

/-- The fields of the top table as far as they can be read. The value of `nameKey` is taken as
it is written. -/
def outlineFields (a : Anchors) (nameKey : String) :
    List (Node × Node) → (budget : Nat) → List (Document × Document) × Option Stop
  | [], _ => ([], none)
  | (key, value) :: fields, budget =>
    match readNode a (maxDepth - 1) budget key with
    | .error fault => ([], some { fault })
    | .ok (key, budget) =>
      let isName : Bool := match key with
        | .text name => name == nameKey
        | _ => false
      let value :=
        if isName then readWritten a budget value else readNode a (maxDepth - 1) budget value
      match value with
      | .error fault => ([], some { fault, key })
      | .ok (value, budget) =>
        let (rest, stop) := outlineFields a nameKey fields budget
        ((key, value) :: rest, stop)

/-- The items of the top list as far as they can be read. The first one is taken as it is
written. -/
def outlineItems (a : Anchors) :
    List Node → (first : Bool) → (budget : Nat) → List Document × Option Stop
  | [], _, _ => ([], none)
  | item :: items, first, budget =>
    match if first then readWritten a budget item else readNode a (maxDepth - 1) budget item with
    | .error fault => ([], some { fault })
    | .ok (item, budget) =>
      let (rest, stop) := outlineItems a items false budget
      (item :: rest, stop)

/-- Each part of a document may be visited that often through aliases. -/
def visits : Nat := 100

def outline (nameKey : String) (d : Parser.Document) : Outline :=
  match d.root with
  | none => if d.whole then .scalar else .unreadable .malformed
  | some root =>
    let a := Anchors.ofRoot root
    let budget := visits * d.events
    match root with
    | .scalar _ _ _ => .scalar
    | .list properties items =>
      if (ownTag? properties.tag).isSome then .scalar
      else
        let (items, stop) := outlineItems a items true budget
        .list items stop
    | .table properties fields =>
      if (ownTag? properties.tag).isSome then .scalar
      else
        let (fields, stop) := outlineFields a nameKey fields budget
        .table fields stop
    | .aliasOf _ | .cut => .unreadable .malformed

/-- A text as YAML. The value under `nameKey` at the top is a name, however it is written. -/
def source (nameKey : String) (text : String) : Source :=
  let d := Parser.ofText text
  ⟨outline nameKey d, if d.whole && !d.more then none else some .malformed⟩

end WorkflowBundle.Yaml
