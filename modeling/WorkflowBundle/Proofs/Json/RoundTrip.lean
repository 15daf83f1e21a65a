import WorkflowBundle.Proofs.Json.Text

/-! Both writers write texts of the grammar, so what is written of a value is read as that value,
whatever stands around it and wherever the reader begins to look at it. -/
namespace WorkflowBundle.Json

open Reader

variable {rest close : List Char}

theorem endsNumber_cons {c : Char}
    (ends : c.isDigit = false ∧ c ≠ '.' ∧ c ≠ 'e' ∧ c ≠ 'E') : EndsNumber (c :: rest) := by
  intro d front
  rw [List.head?_cons, Option.mem_some_iff] at front
  exact front ▸ ends

theorem endsNumber_nil : EndsNumber [] := by
  intro c front
  contradiction

theorem endsNumber_newline (level : Nat) : EndsNumber (newline level rest) :=
  endsNumber_cons (by decide)

theorem Says.spaces {p : Phrase} {chars : List Char} (said : Says p chars rest) (n : Nat) :
    Says p (List.replicate n ' ' ++ chars) rest := by
  induction n with
  | zero => exact said
  | succ n ih => exact .blank (.inl rfl) ih

theorem Says.newline {p : Phrase} {chars : List Char} (said : Says p chars rest) (level : Nat) :
    Says p (newline level chars) rest :=
  .blank (.inr rfl) (said.spaces (2 * level))

mutual

theorem said_writeCompact : (j : Json) → j.Exact → ∀ rest, EndsNumber rest →
    Says (.value j) (writeCompact j rest) rest
  | .null, _, _, _ => .null
  | .bool _, _, _, _ => .bool
  | .int _, exact, _, ends => .int exact ends
  | .string s, _, rest, _ => by
    have text : writeCompact (.string s) rest = quote s rest := by
      simp [writeCompact, scalarText, quote]
    exact text ▸ .string
  | .array [], _, _, _ => .noItem
  | .array (j :: js), exact, rest, _ => by
    obtain ⟨mid, first, others⟩ :=
      said_writeCompactItems (j :: js) exact (']' :: rest) rest .lastItem
        (endsNumber_cons (by decide)) j js rfl
    exact .array first others
  | .object [], _, _, _ => .noMember
  | .object ((key, j) :: ms), exact, rest, _ => by
    obtain ⟨mid, first, others⟩ :=
      said_writeCompactMembers ((key, j) :: ms) exact ('\x7d' :: rest) rest .lastMember
        (endsNumber_cons (by decide)) key j ms rfl
    exact .object first others

theorem said_writeCompactItems : (items : List Json) → ExactItems items → ∀ close rest,
    Says (.items []) close rest → EndsNumber close → ∀ j js, items = j :: js →
      ∃ mid, Says (.value j) (writeCompactItems items close) mid ∧ Says (.items js) mid rest
  | [], _, _, _, _, _, _, _, same => by contradiction
  | [item], exact, close, rest, ending, ends, j, js, same => by
    obtain ⟨rfl, rfl⟩ := List.cons.inj same
    exact ⟨close, said_writeCompact item exact.1 close ends, ending⟩
  | item :: next :: items, exact, close, rest, ending, ends, j, js, same => by
    obtain ⟨rfl, rfl⟩ := List.cons.inj same
    obtain ⟨mid, first, others⟩ :=
      said_writeCompactItems (next :: items) exact.2 close rest ending ends next items rfl
    exact ⟨_, said_writeCompact item exact.1 _ (endsNumber_cons (by decide)),
      .nextItem first others⟩

theorem said_writeCompactMembers : (members : List (String × Json)) → ExactMembers members →
    ∀ close rest, Says (.members []) close rest → EndsNumber close → ∀ key j ms,
      members = (key, j) :: ms → ∃ mid, Says (.member key j) (writeCompactMembers members close) mid ∧
        Says (.members ms) mid rest
  | [], _, _, _, _, _, _, _, _, same => by contradiction
  | [(name, value)], exact, close, rest, ending, ends, key, j, ms, same => by
    obtain ⟨member, rfl⟩ := List.cons.inj same
    obtain ⟨rfl, rfl⟩ := Prod.mk.inj member
    exact ⟨close, .member (said_writeCompact value exact.1 close ends), ending⟩
  | (name, value) :: next :: members, exact, close, rest, ending, ends, key, j, ms, same => by
    obtain ⟨member, rfl⟩ := List.cons.inj same
    obtain ⟨rfl, rfl⟩ := Prod.mk.inj member
    obtain ⟨mid, first, others⟩ :=
      said_writeCompactMembers (next :: members) exact.2 close rest ending ends next.1 next.2
        members rfl
    exact ⟨_, .member (said_writeCompact value exact.1 _ (endsNumber_cons (by decide))),
      .nextMember first others⟩

end

mutual

theorem said_writePretty : (j : Json) → j.Exact → ∀ level rest, EndsNumber rest →
    Says (.value j) (writePretty level j rest) rest
  | .null, _, _, _, _ => .null
  | .bool _, _, _, _, _ => .bool
  | .int _, exact, _, _, ends => .int exact ends
  | .string s, _, level, rest, _ => by
    have text : writePretty level (.string s) rest = quote s rest := by
      simp [writePretty, scalarText, quote]
    exact text ▸ .string
  | .array [], _, _, _, _ => .noItem
  | .array (j :: js), exact, level, rest, _ => by
    obtain ⟨mid, first, others⟩ :=
      said_writePrettyItems (j :: js) exact level (newline level (']' :: rest)) rest
        (.newline .lastItem level) (endsNumber_newline level) j js rfl
    exact .array (first.newline (level + 1)) others
  | .object [], _, _, _, _ => .noMember
  | .object ((key, j) :: ms), exact, level, rest, _ => by
    obtain ⟨mid, first, others⟩ :=
      said_writePrettyMembers ((key, j) :: ms) exact level (newline level ('\x7d' :: rest)) rest
        (.newline .lastMember level) (endsNumber_newline level) key j ms rfl
    exact .object (first.newline (level + 1)) others

theorem said_writePrettyItems : (items : List Json) → ExactItems items → ∀ level close rest,
    Says (.items []) close rest → EndsNumber close → ∀ j js, items = j :: js →
      ∃ mid, Says (.value j) (writePrettyItems level items close) mid ∧ Says (.items js) mid rest
  | [], _, _, _, _, _, _, _, _, same => by contradiction
  | [item], exact, level, close, rest, ending, ends, j, js, same => by
    obtain ⟨rfl, rfl⟩ := List.cons.inj same
    exact ⟨close, said_writePretty item exact.1 (level + 1) close ends, ending⟩
  | item :: next :: items, exact, level, close, rest, ending, ends, j, js, same => by
    obtain ⟨rfl, rfl⟩ := List.cons.inj same
    obtain ⟨mid, first, others⟩ :=
      said_writePrettyItems (next :: items) exact.2 level close rest ending ends next items rfl
    exact ⟨_, said_writePretty item exact.1 (level + 1) _ (endsNumber_cons (by decide)),
      .nextItem (first.newline (level + 1)) others⟩

theorem said_writePrettyMembers : (members : List (String × Json)) → ExactMembers members →
    ∀ level close rest, Says (.members []) close rest → EndsNumber close → ∀ key j ms,
      members = (key, j) :: ms →
        ∃ mid, Says (.member key j) (writePrettyMembers level members close) mid ∧
          Says (.members ms) mid rest
  | [], _, _, _, _, _, _, _, _, _, same => by contradiction
  | [(name, value)], exact, level, close, rest, ending, ends, key, j, ms, same => by
    obtain ⟨member, rfl⟩ := List.cons.inj same
    obtain ⟨rfl, rfl⟩ := Prod.mk.inj member
    exact ⟨close, .member (.blank (.inl rfl) (said_writePretty value exact.1 (level + 1) close ends)),
      ending⟩
  | (name, value) :: next :: members, exact, level, close, rest, ending, ends, key, j, ms, same => by
    obtain ⟨member, rfl⟩ := List.cons.inj same
    obtain ⟨rfl, rfl⟩ := Prod.mk.inj member
    obtain ⟨mid, first, others⟩ :=
      said_writePrettyMembers (next :: members) exact.2 level close rest ending ends next.1 next.2
        members rfl
    have said := said_writePretty value exact.1 (level + 1)
      (',' :: newline (level + 1) (writePrettyMembers level (next :: members) close))
      (endsNumber_cons (by decide))
    exact ⟨_, .member (.blank (.inl rfl) said), .nextMember (first.newline (level + 1)) others⟩

end

/-- The text, of either layout, as a text of the value from its first character to its last. -/
def Spells (text : String) (j : Json) : Prop := Says (.value j) text.toList []

theorem spells_compact {j : Json} (exact : j.Exact) : Spells j.compact j := by
  rw [Spells, compact, String.toList_ofList]
  exact said_writeCompact j exact [] endsNumber_nil

theorem spells_pretty {j : Json} (exact : j.Exact) : Spells j.pretty j := by
  rw [Spells, pretty, String.toList_ofList]
  exact said_writePretty j exact 0 [] endsNumber_nil

variable {text : String} {j : Json}

/-- A text of a value is read as that value. -/
theorem document?_eq (spelled : Spells text j) (shallow : j.nesting ≤ maxDepth) :
    document? text = some (.ofJson j) := by
  have read := spelled.read.2 (steps text.toList) maxDepth (by rw [steps]; omega) shallow
  simp [document?, read, skipBlank]

/-- What stands in the braces of a text of an object. -/
theorem Says.open_object {ms : List (String × Json)} {chars : List Char}
    (said : Says (.value (.object ms)) chars rest) :
    ∃ inner, skipBlank chars = '\x7b' :: inner ∧ inner.length < chars.length ∧
      (ms = [] ∧ inner = '\x7d' :: rest ∨ ∃ key j others mid, ms = (key, j) :: others ∧
        Says (.member key j) inner mid ∧ Says (.members others) mid rest) := by
  generalize phrase : Phrase.value (.object ms) = p at said
  induction said with
  | @blank _ c chars _ blank _ ih =>
    obtain ⟨inner, front, shorter, within⟩ := ih phrase
    refine ⟨inner, by rw [skipBlank_blank blank, front], ?_, within⟩
    rw [List.length_cons]
    omega
  | noMember =>
    obtain rfl : ms = [] := by simpa using phrase
    exact ⟨_, rfl, by simp, .inl ⟨rfl, rfl⟩⟩
  | @object key j others chars mid _ first rest _ _ =>
    obtain rfl : ms = (key, j) :: others := by simpa using phrase
    exact ⟨_, rfl, by simp, .inr ⟨key, j, others, mid, rfl, first, rest⟩⟩
  | null | bool | int | string | noItem | array | lastItem | nextItem | member | lastMember
  | nextMember => simp at phrase

/-! The fields of the top object are read one by one, so that a fault is met at its place. There
is none. -/

variable {name : String} {chars after mid : List Char} {budget fuel : Nat}
  {fields : List (Document × Document)}

theorem outlineFields_first (found : key chars = some (name, after))
    (first : value budget (maxDepth - 1) after = some (.ofJson j, mid))
    (others : outlineFields budget fuel mid false = (fields, .ok rest)) :
    outlineFields budget (fuel + 1) chars true = ((.text name, .ofJson j) :: fields, .ok rest) := by
  obtain ⟨tail, front⟩ := Phrase.exists_quote_of_key found
  have named : key ('"' :: tail) = some (name, after) := by
    rw [← found]
    exact key_congr (by rw [front]; rfl)
  rw [outlineFields.eq_def]
  simp [front, named, first, others]

theorem outlineFields_next (found : key chars = some (name, after))
    (next : value budget (maxDepth - 1) after = some (.ofJson j, mid))
    (others : outlineFields budget fuel mid false = (fields, .ok rest)) :
    outlineFields budget (fuel + 1) (',' :: chars) false =
      ((.text name, .ofJson j) :: fields, .ok rest) := by
  have comma : skipBlank (',' :: chars) = ',' :: chars := rfl
  rw [outlineFields.eq_def]
  simp [comma, found, next, others]

theorem Says.outlineFields {ms : List (String × Json)} (said : Says (.members ms) chars rest)
    (enough : chars.length < fuel) (room : 2 * chars.length ≤ budget)
    (shallow : nestingMembers ms ≤ maxDepth - 1) :
    outlineFields budget fuel chars false = (Document.ofJsonMembers ms, .ok rest) := by
  generalize phrase : Phrase.members ms = p at said
  induction said generalizing ms fuel with
  | @blank _ c chars _ blank _ ih =>
    rw [List.length_cons] at enough room
    rw [outlineFields_congr (skipBlank_blank blank chars)]
    exact ih (by omega) (by omega) shallow phrase
  | lastMember =>
    obtain rfl : ms = [] := by simpa using phrase
    obtain ⟨fuel, rfl⟩ : ∃ n, fuel = n + 1 := ⟨fuel - 1, by omega⟩
    rfl
  | @nextMember key j others chars mid _ next _ _ ih =>
    obtain rfl : ms = (key, j) :: others := by simpa using phrase
    obtain ⟨fuel, rfl⟩ : ∃ n, fuel = n + 1 := ⟨fuel - 1, by omega⟩
    obtain ⟨shorter, after, found, later, read⟩ := next.read
    rw [List.length_cons] at enough room
    rw [nestingMembers] at shallow
    exact outlineFields_next found (read budget _ (by omega) (by omega))
      (ih (by omega) (by omega) (by omega) rfl)
  | null | bool | int | string | noItem | array | noMember | object | lastItem | nextItem
  | member => simp at phrase

/-- A text of an object is a source with the members of the object. -/
theorem source_eq {ms : List (String × Json)} (spelled : Spells text (.object ms))
    (shallow : (object ms).nesting ≤ maxDepth) :
    source text = ⟨.table (Document.ofJsonMembers ms) none, none⟩ := by
  obtain ⟨inner, front, shorter, within⟩ := spelled.open_object
  have steps_eq : steps text.toList = 3 * text.toList.length + 2 + 1 := rfl
  have outlined : outlineFields (steps text.toList) (steps text.toList) inner true =
      (Document.ofJsonMembers ms, .ok []) := by
    rw [nesting] at shallow
    rcases within with ⟨rfl, rfl⟩ | ⟨key, j, others, mid, rfl, first, said⟩
    · rfl
    · obtain ⟨later, after, found, inside, read⟩ := first.read
      rw [nestingMembers] at shallow
      have value := read (steps text.toList) (maxDepth - 1) (by omega) (by omega)
      have fields : outlineFields (steps text.toList) (3 * text.toList.length + 2) mid false =
          (Document.ofJsonMembers others, .ok []) :=
        said.outlineFields (by omega) (by omega) (by omega)
      exact outlineFields_first found value fields
  simp [source, front, outlined, skipBlank]

end WorkflowBundle.Json
