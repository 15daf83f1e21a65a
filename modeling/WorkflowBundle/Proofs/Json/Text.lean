import WorkflowBundle.Proofs.Json.Scalars

/-! The text of a JSON value. A grammar with blanks between its phrases stands between the
writers, whose texts it derives, and the reader, which reads what it derives. -/
namespace WorkflowBundle.Json

mutual

/-- Levels of arrays and objects inside one another. -/
def nesting : Json → Nat
  | array items => nestingItems items + 1
  | object members => nestingMembers members + 1
  | _ => 0

def nestingItems : List Json → Nat
  | [] => 0
  | item :: items => max (nesting item) (nestingItems items)

def nestingMembers : List (String × Json) → Nat
  | [] => 0
  | (_, value) :: members => max (nesting value) (nestingMembers members)

end

mutual

/-- There are no doubles in the value, and its integers have 64 bits. -/
def Exact : Json → Prop
  | int i => -2 ^ 63 ≤ i ∧ i < 2 ^ 64
  | float _ => False
  | array items => ExactItems items
  | object members => ExactMembers members
  | null | bool _ | string _ => True

def ExactItems : List Json → Prop
  | [] => True
  | item :: items => Exact item ∧ ExactItems items

def ExactMembers : List (String × Json) → Prop
  | [] => True
  | (_, value) :: members => Exact value ∧ ExactMembers members

end

mutual

def decideExact : (j : Json) → Decidable j.Exact
  | int i => inferInstanceAs (Decidable (-2 ^ 63 ≤ i ∧ i < 2 ^ 64))
  | float _ => isFalse id
  | array items => decideExactItems items
  | object members => decideExactMembers members
  | null | bool _ | string _ => isTrue trivial

def decideExactItems : (items : List Json) → Decidable (ExactItems items)
  | [] => isTrue trivial
  | item :: items =>
    have := decideExact item
    have := decideExactItems items
    inferInstanceAs (Decidable (_ ∧ _))

def decideExactMembers : (members : List (String × Json)) → Decidable (ExactMembers members)
  | [] => isTrue trivial
  | (_, value) :: members =>
    have := decideExact value
    have := decideExactMembers members
    inferInstanceAs (Decidable (_ ∧ _))

end

instance : DecidablePred Exact := decideExact

/-- What a text is read as: a value, a member, or what is left of an array or an object behind
one of its items or members. -/
inductive Phrase where
  | value (j : Json)
  | items (js : List Json)
  | member (key : String) (j : Json)
  | members (ms : List (String × Json))

open Reader (EndsNumber)

/-- The characters begin with a text of the phrase, and the rest follows it. -/
inductive Says : Phrase → List Char → List Char → Prop where
  | blank {p : Phrase} {c : Char} {chars rest : List Char} : c = ' ' ∨ c = '\n' →
      Says p chars rest → Says p (c :: chars) rest
  | null {rest : List Char} : Says (.value .null) (scalarText .null ++ rest) rest
  | bool {b : Bool} {rest : List Char} : Says (.value (.bool b)) (scalarText (.bool b) ++ rest) rest
  | int {i : Int} {rest : List Char} : -2 ^ 63 ≤ i ∧ i < 2 ^ 64 → EndsNumber rest →
      Says (.value (.int i)) (scalarText (.int i) ++ rest) rest
  | string {s : String} {rest : List Char} : Says (.value (.string s)) (quote s rest) rest
  | noItem {rest : List Char} : Says (.value (.array [])) ('[' :: ']' :: rest) rest
  | array {j : Json} {js : List Json} {chars mid rest : List Char} : Says (.value j) chars mid →
      Says (.items js) mid rest → Says (.value (.array (j :: js))) ('[' :: chars) rest
  | noMember {rest : List Char} : Says (.value (.object [])) ('\x7b' :: '\x7d' :: rest) rest
  | object {key : String} {j : Json} {ms : List (String × Json)} {chars mid rest : List Char} :
      Says (.member key j) chars mid → Says (.members ms) mid rest →
      Says (.value (.object ((key, j) :: ms))) ('\x7b' :: chars) rest
  | lastItem {rest : List Char} : Says (.items []) (']' :: rest) rest
  | nextItem {j : Json} {js : List Json} {chars mid rest : List Char} : Says (.value j) chars mid →
      Says (.items js) mid rest → Says (.items (j :: js)) (',' :: chars) rest
  | member {key : String} {j : Json} {chars rest : List Char} : Says (.value j) chars rest →
      Says (.member key j) (quote key (':' :: chars)) rest
  | lastMember {rest : List Char} : Says (.members []) ('\x7d' :: rest) rest
  | nextMember {key : String} {j : Json} {ms : List (String × Json)} {chars mid rest : List Char} :
      Says (.member key j) chars mid → Says (.members ms) mid rest →
      Says (.members ((key, j) :: ms)) (',' :: chars) rest

namespace Reader

theorem skipBlank_skipBlank (chars : List Char) : skipBlank (skipBlank chars) = skipBlank chars := by
  induction chars with
  | nil => rfl
  | cons c chars ih =>
    rw [skipBlank]
    split
    next => exact ih
    next dark => rw [skipBlank, if_neg dark]

theorem skipBlank_blank {c : Char} (blank : c = ' ' ∨ c = '\n') (chars : List Char) :
    skipBlank (c :: chars) = skipBlank chars := by
  rcases blank with rfl | rfl <;> simp [skipBlank]

variable {a b : List Char}

/-! Every reader skips blanks before it looks at anything. -/

theorem value_congr (same : skipBlank a = skipBlank b) (fuel depth : Nat) :
    value fuel depth a = value fuel depth b := by
  cases fuel with
  | zero => rw [value, value]
  | succ fuel => rw [value, value, same]

theorem items_congr (same : skipBlank a = skipBlank b) (fuel depth : Nat) (first : Bool) :
    items fuel depth a first = items fuel depth b first := by
  cases fuel with
  | zero => rw [items, items]
  | succ fuel =>
    unfold items
    rw [same]

theorem fields_congr (same : skipBlank a = skipBlank b) (fuel depth : Nat) (first : Bool) :
    fields fuel depth a first = fields fuel depth b first := by
  cases fuel with
  | zero => rw [fields, fields]
  | succ fuel =>
    unfold fields
    rw [same]

theorem key_congr (same : skipBlank a = skipBlank b) : key a = key b := by
  rw [key, key, same]

theorem outlineFields_congr (same : skipBlank a = skipBlank b) (budget fuel : Nat) (first : Bool) :
    outlineFields budget fuel a first = outlineFields budget fuel b first := by
  cases fuel with
  | zero => rw [outlineFields, outlineFields]
  | succ fuel =>
    unfold outlineFields
    rw [same]

end Reader

namespace Phrase

open Reader

/-- The reader of the phrase takes in what is before the rest, given steps for all characters. -/
def Read (p : Phrase) (chars rest : List Char) : Prop :=
  rest.length < chars.length ∧
  match p with
  | value j => ∀ fuel depth, 2 * chars.length ≤ fuel → j.nesting ≤ depth →
      Reader.value fuel depth chars = some (.ofJson j, rest)
  | items js => ∀ fuel depth, 2 * chars.length < fuel → nestingItems js ≤ depth →
      Reader.items fuel depth chars false = some (Document.ofJsonItems js, rest)
  | member name j => ∃ after, key chars = some (name, after) ∧ after.length < chars.length ∧
      ∀ fuel depth, 2 * after.length ≤ fuel → j.nesting ≤ depth →
        Reader.value fuel depth after = some (.ofJson j, rest)
  | members ms => ∀ fuel depth, 2 * chars.length < fuel → nestingMembers ms ≤ depth →
      fields fuel depth chars false = some (Document.ofJsonMembers ms, rest)

theorem Read.blank {p : Phrase} {c : Char} {chars rest : List Char} (blank : c = ' ' ∨ c = '\n')
    (read : p.Read chars rest) : p.Read (c :: chars) rest := by
  have same := skipBlank_blank blank chars
  obtain ⟨shorter, read⟩ := read
  refine ⟨by rw [List.length_cons]; omega, ?_⟩
  simp only [List.length_cons]
  cases p with
  | value j =>
    intro fuel depth enough deep
    rw [value_congr same]
    exact read fuel depth (by omega) deep
  | items js =>
    intro fuel depth enough deep
    rw [items_congr same]
    exact read fuel depth (by omega) deep
  | member name j =>
    obtain ⟨after, found, later, read⟩ := read
    exact ⟨after, by rwa [key_congr same], by omega, read⟩
  | members ms =>
    intro fuel depth enough deep
    rw [fields_congr same]
    exact read fuel depth (by omega) deep

/-- A value that opens neither an array nor an object. -/
theorem Read.scalar {j : Json} {c : Char} {tail rest : List Char}
    (plain : c ∉ [' ', '\n', '\t', '\r', '[', '\x7b'])
    (read : Reader.scalar (c :: tail) = some (.ofJson j, rest))
    (shorter : rest.length ≤ tail.length) : (value j).Read (c :: tail) rest := by
  refine ⟨by rw [List.length_cons]; omega, fun fuel depth enough _ => ?_⟩
  cases fuel with
  | zero => simp at enough
  | succ fuel =>
    simp only [List.mem_cons, List.not_mem_nil, or_false, not_or] at plain
    obtain ⟨blank, line, tab, back, bracket, brace⟩ := plain
    have front : skipBlank (c :: tail) = c :: tail := by
      simp [skipBlank, blank, line, tab, back]
    rw [Reader.value.eq_def]
    simp only [front]
    split
    next same => exact absurd (List.cons.inj same).1 bracket
    next same => exact absurd (List.cons.inj same).1 brace
    next => exact read

theorem Read.null {rest : List Char} : (value .null).Read (scalarText .null ++ rest) rest :=
  .scalar (by decide) rfl (by simp; omega)

theorem Read.bool {b : Bool} {rest : List Char} :
    (value (.bool b)).Read (scalarText (.bool b) ++ rest) rest := by
  cases b with
  | false => exact .scalar (by decide) rfl (by simp; omega)
  | true => exact .scalar (by decide) rfl (by simp; omega)

theorem length_escape_le (chars tail : List Char) :
    tail.length ≤ (chars.foldr (fun c tail => escape c ++ tail) tail).length := by
  induction chars with
  | nil => exact le_refl _
  | cons c chars ih =>
    rw [List.foldr_cons, List.length_append]
    omega

theorem Read.string {s : String} {rest : List Char} :
    (value (.string s)).Read (quote s rest) rest := by
  refine .scalar (by decide) ?_ ?_
  · rw [Reader.scalar, string_quote]
    rfl
  · have shorter := length_escape_le s.toList ('"' :: rest)
    rw [List.length_cons] at shorter
    omega

theorem Read.int {i : Int} {rest : List Char} (range : -2 ^ 63 ≤ i ∧ i < 2 ^ 64)
    (ends : EndsNumber rest) : (value (.int i)).Read (scalarText (.int i) ++ rest) rest := by
  have read := number_toString range ends
  obtain ⟨c, tail, text, front⟩ := exists_cons_toString i
  rw [text, List.cons_append] at read
  rw [scalarText, text, List.cons_append]
  refine .scalar ?_ ?_ ?_
  · intro among
    simp only [List.mem_cons, List.not_mem_nil, or_false] at among
    rcases among with rfl | rfl | rfl | rfl | rfl | rfl <;> revert front <;> decide
  · rw [scalar_number front, read]
    rfl
  · rw [List.length_append]
    omega

theorem not_value_of_bracket {chars tail : List Char} (bracket : skipBlank chars = ']' :: tail)
    (fuel depth : Nat) : Reader.value fuel depth chars = none := by
  cases fuel with
  | zero => rw [Reader.value]
  | succ fuel =>
    rw [Reader.value, bracket]
    rfl

/-- In front of the first item stands no comma. -/
theorem items_first {j : Json} {chars mid rest : List Char} {docs : List Document} {fuel depth : Nat}
    (first : Reader.value fuel depth chars = some (.ofJson j, mid))
    (others : Reader.items fuel depth mid false = some (docs, rest)) :
    Reader.items (fuel + 1) depth chars true = some (.ofJson j :: docs, rest) := by
  have skipped := value_congr (skipBlank_skipBlank chars) fuel depth
  rw [Reader.items.eq_def]
  dsimp only
  split
  next bracket => rw [not_value_of_bracket bracket] at first; contradiction
  next => contradiction
  next => simp [skipped, first, others]
  next => contradiction

theorem items_next {j : Json} {chars mid rest : List Char} {docs : List Document} {fuel depth : Nat}
    (next : Reader.value fuel depth chars = some (.ofJson j, mid))
    (others : Reader.items fuel depth mid false = some (docs, rest)) :
    Reader.items (fuel + 1) depth (',' :: chars) false = some (.ofJson j :: docs, rest) := by
  have comma : skipBlank (',' :: chars) = ',' :: chars := rfl
  rw [Reader.items.eq_def]
  simp [comma, next, others]

theorem Read.noItem {rest : List Char} : (value (.array [])).Read ('[' :: ']' :: rest) rest := by
  refine ⟨by simp, fun fuel depth enough deep => ?_⟩
  rw [List.length_cons, List.length_cons] at enough
  rw [nesting, nestingItems] at deep
  obtain ⟨fuel, rfl⟩ : ∃ n, fuel = n + 2 := ⟨fuel - 2, by omega⟩
  obtain ⟨depth, rfl⟩ : ∃ n, depth = n + 1 := ⟨depth - 1, by omega⟩
  rfl

theorem Read.array {j : Json} {js : List Json} {chars mid rest : List Char}
    (first : (value j).Read chars mid) (others : (items js).Read mid rest) :
    (value (.array (j :: js))).Read ('[' :: chars) rest := by
  obtain ⟨shorter, first⟩ := first
  obtain ⟨shortest, others⟩ := others
  refine ⟨by rw [List.length_cons]; omega, fun fuel depth enough deep => ?_⟩
  rw [List.length_cons] at enough
  rw [nesting, nestingItems] at deep
  obtain ⟨fuel, rfl⟩ : ∃ n, fuel = n + 2 := ⟨fuel - 2, by omega⟩
  obtain ⟨depth, rfl⟩ : ∃ n, depth = n + 1 := ⟨depth - 1, by omega⟩
  have read := items_first (first fuel depth (by omega) (by omega))
    (others fuel depth (by omega) (by omega))
  have bracket : skipBlank ('[' :: chars) = '[' :: chars := rfl
  rw [Reader.value, bracket]
  simp [read, Document.ofJson, Document.ofJsonItems]

theorem Read.nextItem {j : Json} {js : List Json} {chars mid rest : List Char}
    (next : (value j).Read chars mid) (others : (items js).Read mid rest) :
    (items (j :: js)).Read (',' :: chars) rest := by
  obtain ⟨shorter, next⟩ := next
  obtain ⟨shortest, others⟩ := others
  refine ⟨by rw [List.length_cons]; omega, fun fuel depth enough deep => ?_⟩
  rw [List.length_cons] at enough
  rw [nestingItems] at deep
  obtain ⟨fuel, rfl⟩ : ∃ n, fuel = n + 1 := ⟨fuel - 1, by omega⟩
  exact items_next (next fuel depth (by omega) (by omega)) (others fuel depth (by omega) (by omega))

theorem Read.lastItem {rest : List Char} : (items []).Read (']' :: rest) rest := by
  refine ⟨by simp, fun fuel depth enough deep => ?_⟩
  obtain ⟨fuel, rfl⟩ : ∃ n, fuel = n + 1 := ⟨fuel - 1, by omega⟩
  rfl

theorem key_quote (name : String) (rest : List Char) :
    key (quote name (':' :: rest)) = some (name, rest) := by
  have front (tail : List Char) : skipBlank ('"' :: tail) = '"' :: tail := rfl
  have colon : skipBlank (':' :: rest) = ':' :: rest := rfl
  rw [key, quote, front]
  simp only [string_quote, Option.bind_eq_bind, Option.bind_some, colon]

theorem Read.member {name : String} {j : Json} {chars rest : List Char}
    (read : (value j).Read chars rest) : (member name j).Read (quote name (':' :: chars)) rest := by
  have longer := length_escape_le name.toList ('"' :: ':' :: chars)
  rw [List.length_cons, List.length_cons] at longer
  have length : chars.length < (quote name (':' :: chars)).length := by
    rw [quote, List.length_cons]
    omega
  exact ⟨read.1.trans length, chars, key_quote name chars, length, read.2⟩

theorem exists_quote_of_key {chars after : List Char} {name : String}
    (found : key chars = some (name, after)) : ∃ tail, skipBlank chars = '"' :: tail := by
  rw [key] at found
  split at found
  next tail front => exact ⟨tail, front⟩
  next => contradiction

theorem fields_first {name : String} {j : Json} {chars after mid rest : List Char}
    {docs : List (Document × Document)} {fuel depth : Nat} (found : key chars = some (name, after))
    (first : Reader.value fuel depth after = some (.ofJson j, mid))
    (others : fields fuel depth mid false = some (docs, rest)) :
    fields (fuel + 1) depth chars true = some ((.text name, .ofJson j) :: docs, rest) := by
  obtain ⟨tail, front⟩ := exists_quote_of_key found
  have named : key ('"' :: tail) = some (name, after) := by
    rw [← found]
    exact key_congr (by rw [front]; rfl)
  rw [fields.eq_def]
  simp [front, named, first, others]

theorem fields_next {name : String} {j : Json} {chars after mid rest : List Char}
    {docs : List (Document × Document)} {fuel depth : Nat} (found : key chars = some (name, after))
    (next : Reader.value fuel depth after = some (.ofJson j, mid))
    (others : fields fuel depth mid false = some (docs, rest)) :
    fields (fuel + 1) depth (',' :: chars) false =
      some ((.text name, .ofJson j) :: docs, rest) := by
  have comma : skipBlank (',' :: chars) = ',' :: chars := rfl
  rw [fields.eq_def]
  simp [comma, found, next, others]

theorem Read.noMember {rest : List Char} :
    (value (.object [])).Read ('\x7b' :: '\x7d' :: rest) rest := by
  refine ⟨by simp, fun fuel depth enough deep => ?_⟩
  rw [List.length_cons, List.length_cons] at enough
  rw [nesting, nestingMembers] at deep
  obtain ⟨fuel, rfl⟩ : ∃ n, fuel = n + 2 := ⟨fuel - 2, by omega⟩
  obtain ⟨depth, rfl⟩ : ∃ n, depth = n + 1 := ⟨depth - 1, by omega⟩
  rfl

theorem Read.object {name : String} {j : Json} {ms : List (String × Json)}
    {chars mid rest : List Char} (first : (Phrase.member name j).Read chars mid)
    (others : (members ms).Read mid rest) :
    (value (.object ((name, j) :: ms))).Read ('\x7b' :: chars) rest := by
  obtain ⟨shorter, after, found, later, first⟩ := first
  obtain ⟨shortest, others⟩ := others
  refine ⟨by rw [List.length_cons]; omega, fun fuel depth enough deep => ?_⟩
  rw [List.length_cons] at enough
  rw [nesting, nestingMembers] at deep
  obtain ⟨fuel, rfl⟩ : ∃ n, fuel = n + 2 := ⟨fuel - 2, by omega⟩
  obtain ⟨depth, rfl⟩ : ∃ n, depth = n + 1 := ⟨depth - 1, by omega⟩
  have read := fields_first found (first fuel depth (by omega) (by omega))
    (others fuel depth (by omega) (by omega))
  have brace : skipBlank ('\x7b' :: chars) = '\x7b' :: chars := rfl
  rw [Reader.value, brace]
  simp [read, Document.ofJson, Document.ofJsonMembers]

theorem Read.lastMember {rest : List Char} : (members []).Read ('\x7d' :: rest) rest := by
  refine ⟨by simp, fun fuel depth enough deep => ?_⟩
  obtain ⟨fuel, rfl⟩ : ∃ n, fuel = n + 1 := ⟨fuel - 1, by omega⟩
  rfl

theorem Read.nextMember {name : String} {j : Json} {ms : List (String × Json)}
    {chars mid rest : List Char} (next : (Phrase.member name j).Read chars mid)
    (others : (members ms).Read mid rest) :
    (members ((name, j) :: ms)).Read (',' :: chars) rest := by
  obtain ⟨shorter, after, found, later, next⟩ := next
  obtain ⟨shortest, others⟩ := others
  refine ⟨by rw [List.length_cons]; omega, fun fuel depth enough deep => ?_⟩
  rw [List.length_cons] at enough
  rw [nestingMembers] at deep
  obtain ⟨fuel, rfl⟩ : ∃ n, fuel = n + 1 := ⟨fuel - 1, by omega⟩
  exact fields_next found (next fuel depth (by omega) (by omega))
    (others fuel depth (by omega) (by omega))

end Phrase

/-- What the grammar derives is read. -/
theorem Says.read {p : Phrase} {chars rest : List Char} (said : Says p chars rest) :
    p.Read chars rest := by
  induction said with
  | blank blank _ ih => exact ih.blank blank
  | null => exact .null
  | bool => exact .bool
  | int range ends => exact .int range ends
  | string => exact .string
  | noItem => exact .noItem
  | array _ _ first others => exact first.array others
  | noMember => exact .noMember
  | object _ _ first others => exact first.object others
  | lastItem => exact .lastItem
  | nextItem _ _ next others => exact next.nextItem others
  | member _ ih => exact ih.member
  | lastMember => exact .lastMember
  | nextMember _ _ next others => exact next.nextMember others

end WorkflowBundle.Json
