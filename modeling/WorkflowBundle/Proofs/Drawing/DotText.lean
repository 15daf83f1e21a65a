import WorkflowBundle.Closure.Drawing

/-! A reader of drawings in DOT, for graphs without subgraphs whose statements end with semicolons.
A quoted string runs from a double quote to the next one that does not follow a backslash, so a
string between quotes is read as it is exactly when it has double quotes behind backslashes only and
no backslash at its end. -/
namespace WorkflowBundle.Dot

inductive Token where
  | word (text : String)
  | quoted (text : String)
  | mark (c : Char)
  /-- A quoted string that does not end. -/
  | unclosed
  deriving DecidableEq, Repr

/-- Where the reader stands, with the characters of the token that it is in, the last one first. -/
inductive Place where
  | between
  | inWord (sofar : List Char)
  | inQuotes (sofar : List Char)

def isWordChar (c : Char) : Bool := c.isAlphanum || c == '_'

namespace Place

/-- The character stands at the beginning of a token. -/
def enter (c : Char) : List Token × Place :=
  if c = '"' then ([], inQuotes [])
  else if c.isWhitespace then ([], between)
  else if isWordChar c then ([], inWord [c])
  else ([.mark c], between)

/-- The tokens that a character completes. -/
def step : Place → Char → List Token × Place
  | between, c => enter c
  | inWord sofar, c =>
    if isWordChar c then ([], inWord (c :: sofar))
    else (.word (String.ofList sofar.reverse) :: (enter c).1, (enter c).2)
  | inQuotes sofar, c =>
    if c = '"' ∧ sofar.head? ≠ some '\\' then ([.quoted (String.ofList sofar.reverse)], between)
    else ([], inQuotes (c :: sofar))

/-- The token that the end of the text completes. -/
def atEnd : Place → List Token
  | between => []
  | inWord sofar => [.word (String.ofList sofar.reverse)]
  | inQuotes _ => [.unclosed]

end Place

def tokens : Place → List Char → List Token
  | place, [] => place.atEnd
  | place, c :: rest => (place.step c).1 ++ tokens (place.step c).2 rest

/-- Leaves out lists of attributes, which stand in brackets. -/
def withoutAttributes : (inside : Bool) → List Token → List Token
  | _, [] => []
  | true, t :: rest => withoutAttributes (t ≠ .mark ']') rest
  | false, t :: rest =>
    if t = .mark '[' then withoutAttributes true rest else t :: withoutAttributes false rest

inductive Statement where
  /-- Of the graph, or of all nodes or edges. -/
  | setting
  | node (id : String)
  | edge (source target : String)
  deriving DecidableEq, Repr

namespace Token

/-- An id is a word or a quoted string. -/
def id? : Token → Option String
  | word text | quoted text => some text
  | mark _ | unclosed => none

end Token

namespace Statement

def ofTokens? : List Token → Option Statement
  | [.word text] => some (if text ∈ ["graph", "node", "edge"] then setting else node text)
  | [.quoted text] => some (node text)
  | [a, .mark '=', b] => if a.id?.isSome && b.id?.isSome then some setting else none
  | [a, .mark '-', .mark '>', b] => do return edge (← a.id?) (← b.id?)
  | _ => none

def node? : Statement → Option String
  | node id => some id
  | _ => none

def edge? : Statement → Option (String × String)
  | edge source target => some (source, target)
  | _ => none

end Statement

/-- Reads statements up to the closing brace. Tokens of the current one come last first. -/
def statements : (current : List Token) → List Token → Option (List Statement)
  | _, [] => none
  | current, t :: rest =>
    if t = .mark ';' then
      (Statement.ofTokens? current.reverse).bind fun first =>
        (statements [] rest).map (first :: ·)
    else if t = .mark '\x7d' then if current.isEmpty && rest.isEmpty then some [] else none
    else statements (t :: current) rest

/-- The statements of a directed graph with a name. -/
def read (text : String) : Option (List Statement) :=
  match tokens .between text.toList with
  | .word keyword :: .word _ :: .mark c :: body =>
    if keyword = "digraph" ∧ c = '\x7b' then statements [] (withoutAttributes false body) else none
  | _ => none

example : read "digraph g \x7b a -> \"b \\\" c\" [k=\"]\"]; \x7d" =
    some [.edge "a" "b \\\" c"] := by rfl

/-- Each double quote is behind a backslash. -/
def Escaped (chars : List Char) : Prop :=
  ∀ before after, chars = before ++ '"' :: after → before.getLast? = some '\\'

/-- A string that can stand between quotes. -/
structure Quotable (s : String) : Prop where
  escaped : Escaped s.toList
  closed : s.toList.getLast? ≠ some '\\'

theorem escaped_nil : Escaped [] := by simp [Escaped]

theorem escaped_append {a b : List Char} : Escaped (a ++ b) ↔ Escaped a ∧
    ∀ before after, b = before ++ '"' :: after → (a ++ before).getLast? = some '\\' := by
  constructor
  · intro whole
    constructor
    · rintro before after rfl
      exact whole before (after ++ b) (by simp)
    · rintro before after rfl
      exact whole (a ++ before) after (by simp)
  · rintro ⟨first, second⟩ before after found
    -- The quote stands in the one part or in the other.
    rcases List.append_eq_append_iff.mp found with ⟨middle, rfl, later⟩ | ⟨middle, rfl, later⟩
    · exact second middle after later
    · cases middle with
      | nil => simpa using second [] after later.symm
      | cons c middle =>
        obtain ⟨rfl, -⟩ := List.cons.inj later
        exact first before middle rfl

theorem escaped_concat {chars : List Char} {c : Char} :
    Escaped (chars ++ [c]) ↔ Escaped chars ∧ (c = '"' → chars.getLast? = some '\\') := by
  rw [escaped_append, and_congr_right_iff]
  refine fun _ => ⟨fun last quote => by simpa using last [] [] (by simp [quote]), ?_⟩
  intro last before after found
  cases before with
  | nil => simpa using last (List.cons.inj found).1
  | cons d before => simp at found

theorem Quotable.append_iff {a b : String} (first : Quotable a) :
    Quotable (a ++ b) ↔ Quotable b := by
  have last : ∀ before,
      (a.toList ++ before).getLast? = some '\\' ↔ before.getLast? = some '\\' := by
    intro before
    cases before with
    | nil => simpa using first.closed
    | cons c before => simp
  have escaped : Escaped (a.toList ++ b.toList) ↔ Escaped b.toList := by
    rw [escaped_append, and_iff_right first.escaped]
    simp only [last, Escaped]
  constructor
  · rintro ⟨whole, closed⟩
    rw [String.toList_append] at whole closed
    exact ⟨escaped.mp whole, mt (last b.toList).mpr closed⟩
  · rintro ⟨second, closed⟩
    constructor
    · rw [String.toList_append]
      exact escaped.mpr second
    · rw [String.toList_append]
      exact mt (last b.toList).mp closed

theorem quotable_of_isWordChar {chars : List Char} (word : ∀ c ∈ chars, isWordChar c) :
    Quotable (String.ofList chars) := by
  constructor
  · rw [String.toList_ofList]
    rintro before after rfl
    exact absurd (word '"' (by simp)) (by decide)
  · rw [String.toList_ofList]
    exact fun last => absurd (word _ (List.mem_of_getLast? last)) (by decide)

/-- What the reader knows about the characters that it keeps. -/
def Place.Sound : Place → Prop
  | between => True
  | inWord sofar => ∀ c ∈ sofar, isWordChar c
  | inQuotes sofar => Escaped sofar.reverse

/-- An id that the reader finds can stand between quotes. -/
def Token.Sound (t : Token) : Prop := ∀ id, t.id? = some id → Quotable id

namespace Place

variable {place : Place} {c : Char} {sofar : List Char}

theorem sound_word (sound : (inWord sofar).Sound) :
    (Token.word (String.ofList sofar.reverse)).Sound := by
  rintro id ⟨⟩
  exact quotable_of_isWordChar fun c member => sound c (List.mem_reverse.mp member)

theorem sound_enter : (enter c).2.Sound ∧ ∀ t ∈ (enter c).1, t.Sound := by
  unfold enter
  split
  · exact ⟨escaped_nil, by simp⟩
  split
  · exact ⟨trivial, by simp⟩
  split
  · rename_i word
    exact ⟨by simpa [Sound] using word, by simp⟩
  · exact ⟨trivial, by simp [Token.Sound, Token.id?]⟩

theorem sound_step (sound : place.Sound) :
    (place.step c).2.Sound ∧ ∀ t ∈ (place.step c).1, t.Sound := by
  cases place with
  | between => exact sound_enter
  | inWord sofar =>
    simp only [step]
    split
    · rename_i word
      exact ⟨List.forall_mem_cons.mpr ⟨word, sound⟩, by simp⟩
    · exact ⟨sound_enter.1, List.forall_mem_cons.mpr ⟨sound_word sound, sound_enter.2⟩⟩
  | inQuotes sofar =>
    simp only [step]
    split
    · rename_i closing
      refine ⟨trivial, List.forall_mem_singleton.mpr ?_⟩
      rintro id ⟨⟩
      exact ⟨by simpa [Sound] using sound, by simpa using closing.2⟩
    · rename_i inside
      refine ⟨?_, by simp⟩
      rw [Sound, List.reverse_cons, escaped_concat]
      exact ⟨sound, fun quote => by simpa [quote] using inside⟩

theorem sound_atEnd (sound : place.Sound) : ∀ t ∈ place.atEnd, t.Sound := by
  cases place with
  | between => simp [atEnd]
  | inWord sofar => exact List.forall_mem_singleton.mpr (sound_word sound)
  | inQuotes sofar => simp [atEnd, Token.Sound, Token.id?]

theorem sound_tokens {chars : List Char} (sound : place.Sound) :
    ∀ t ∈ tokens place chars, t.Sound := by
  induction chars generalizing place with
  | nil => exact sound_atEnd sound
  | cons c chars ih =>
    obtain ⟨next, now⟩ := sound_step (c := c) sound
    exact List.forall_mem_append.mpr ⟨now, ih next⟩

end Place

section

variable {sofar chars rest : List Char} {more : List Token} {c : Char} {s text : String}

theorem tokens_closing (closing : sofar.head? ≠ some '\\') :
    tokens (.inQuotes sofar) ('"' :: rest) =
      .quoted (String.ofList sofar.reverse) :: tokens .between rest := by
  simp [tokens, Place.step, closing]

theorem tokens_inside (inside : ¬(c = '"' ∧ sofar.head? ≠ some '\\')) :
    tokens (.inQuotes sofar) (c :: rest) = tokens (.inQuotes (c :: sofar)) rest := by
  simp [tokens, Place.step, inside]

/-- A quoted string is no shorter than what the reader has of it. -/
theorem length_le_of_tokens (read : tokens (.inQuotes sofar) chars = .quoted text :: more) :
    sofar.length ≤ text.toList.length := by
  induction chars generalizing sofar with
  | nil => simp [tokens, Place.atEnd] at read
  | cons c chars ih =>
    by_cases closing : c = '"' ∧ sofar.head? ≠ some '\\'
    · obtain ⟨rfl, closing⟩ := closing
      rw [tokens_closing closing] at read
      obtain ⟨⟨⟩, -⟩ := List.cons.inj read
      simp
    · rw [tokens_inside closing] at read
      exact Nat.le_of_succ_le (ih read)

/-- The reader comes to the quote at the end, and stops there, exactly when the string is quotable. -/
theorem tokens_inQuotes_iff (sound : (Place.inQuotes sofar).Sound) :
    tokens (.inQuotes sofar) (chars ++ '"' :: rest) =
      .quoted (String.ofList (sofar.reverse ++ chars)) :: more ↔
    Quotable (String.ofList (sofar.reverse ++ chars)) ∧ tokens .between rest = more := by
  induction chars generalizing sofar with
  | nil =>
    simp only [List.nil_append, List.append_nil]
    by_cases closing : sofar.head? = some '\\'
    · rw [tokens_inside (by simp [closing])]
      constructor
      · -- The reader goes past the quote, so what it reads is longer.
        intro read
        have longer := length_le_of_tokens read
        rw [List.length_cons, String.toList_ofList, List.length_reverse] at longer
        omega
      · rintro ⟨quotable, -⟩
        exact absurd (by simpa using closing) quotable.closed
    · rw [tokens_closing closing, List.cons_inj_right, iff_and_self]
      exact fun _ => ⟨by simpa [Place.Sound] using sound, by simpa using closing⟩
  | cons c chars ih =>
    by_cases closing : c = '"' ∧ sofar.head? ≠ some '\\'
    · obtain ⟨rfl, closing⟩ := closing
      rw [List.cons_append, tokens_closing closing]
      constructor
      · -- The reader stops here, so what it reads is shorter.
        intro read
        have same := Token.quoted.inj (List.cons.inj read).1
        rw [String.ofList_inj] at same
        simp at same
      · rintro ⟨quotable, -⟩
        have last := quotable.escaped sofar.reverse chars (by simp)
        exact absurd (by simpa using last) closing
    · have next := (Place.sound_step (c := c) sound).1
      simp only [Place.step, if_neg closing] at next
      rw [List.cons_append, tokens_inside closing]
      simpa using ih next

/-- A string between quotes is read as it is exactly when it is quotable. -/
theorem tokens_quoted_iff :
    tokens .between ((CheckedWorkflow.quoted s).toList ++ rest) = .quoted s :: more ↔
    Quotable s ∧ tokens .between rest = more := by
  have entered : tokens .between ((CheckedWorkflow.quoted s).toList ++ rest) =
      tokens (.inQuotes []) (s.toList ++ '"' :: rest) := by
    simp [CheckedWorkflow.quoted, tokens, Place.step, Place.enter]
  simpa [entered] using @tokens_inQuotes_iff [] s.toList rest more escaped_nil

end

instance (s : String) : Decidable (Quotable s) :=
  decidable_of_iff (tokens .between (CheckedWorkflow.quoted s).toList = [.quoted s])
    (by simpa [tokens, Place.atEnd] using @tokens_quoted_iff [] [] s)

/-- Whatever follows, the text is read as the tokens exactly under the condition. -/
def Spells (condition : Prop) (text : String) (ts : List Token) : Prop :=
  ∀ rest more, tokens .between (text.toList ++ rest) = ts ++ more ↔
    condition ∧ tokens .between rest = more

namespace Spells

variable {P Q : Prop} {a b : String} {ts us : List Token} {α : Type}

theorem fixed (spelled : ∀ rest, tokens .between (a.toList ++ rest) = ts ++ tokens .between rest) :
    Spells True a ts := by
  intro rest more
  rw [spelled, List.append_cancel_left_eq, true_and]

theorem quoted (s : String) : Spells (Quotable s) (CheckedWorkflow.quoted s) [.quoted s] :=
  fun _ _ => tokens_quoted_iff

theorem append (first : Spells P a ts) (second : Spells Q b us) :
    Spells (P ∧ Q) (a ++ b) (ts ++ us) := by
  intro rest more
  rw [String.toList_append, List.append_assoc, List.append_assoc, first, second, and_assoc]

theorem congr (spelled : Spells P a ts) (same : P ↔ Q) : Spells Q a ts := by
  intro rest more
  rw [← same]
  exact spelled rest more

theorem join {P : α → Prop} {text : α → String} {ts : α → List Token}
    (spelled : ∀ x, Spells (P x) (text x) (ts x)) (xs : List α) :
    Spells (∀ x ∈ xs, P x) (String.join (xs.map text)) (xs.flatMap ts) := by
  induction xs with
  | nil => exact (fixed fun _ => rfl).congr (by simp)
  | cons x xs ih =>
    rw [List.map_cons, String.join_cons, List.flatMap_cons]
    exact ((spelled x).append ih).congr List.forall_mem_cons.symm

end Spells

/-- The tokens are the statements, whatever follows. -/
def Means (ts : List Token) (said : List Statement) : Prop :=
  ∀ rest, statements [] (withoutAttributes false (ts ++ rest)) =
    (statements [] (withoutAttributes false rest)).map (said ++ ·)

theorem Means.flatMap {α : Type} {ts : α → List Token} {said : α → Statement}
    (meant : ∀ x, Means (ts x) [said x]) (xs : List α) :
    Means (xs.flatMap ts) (xs.map said) := by
  intro rest
  induction xs with
  | nil => simp
  | cons x xs ih =>
    rw [List.flatMap_cons, List.append_assoc, meant x, ih, Option.map_map]
    rfl

theorem read_eq_some {text name : String} {ts : List Token} {said : List Statement}
    (spelled : tokens .between text.toList =
      .word "digraph" :: .word name :: .mark '\x7b' :: (ts ++ [.mark '\x7d']))
    (meant : Means ts said) : read text = some said := by
  have closed : statements [] (withoutAttributes false [.mark '\x7d']) = some [] := by rfl
  simp only [read, spelled, and_self, if_true]
  rw [meant, closed, Option.map_some, List.append_nil]

/-- The ids of the statement can stand between quotes. -/
def Statement.Sound : Statement → Prop
  | setting => True
  | node id => Quotable id
  | edge source target => Quotable source ∧ Quotable target

theorem Statement.sound_of_ofTokens? {ts : List Token} {found : Statement}
    (sound : ∀ t ∈ ts, t.Sound) (parsed : ofTokens? ts = some found) : found.Sound := by
  unfold ofTokens? at parsed
  split at parsed
  · rename_i text
    have quotable : Quotable text := sound (.word text) (by simp) text rfl
    split at parsed <;> cases parsed
    · trivial
    · exact quotable
  · rename_i text
    cases parsed
    exact sound (.quoted text) (by simp) text rfl
  · split at parsed <;> cases parsed
    trivial
  · rename_i a b
    obtain ⟨source, isSource, parsed⟩ := Option.bind_eq_some_iff.mp parsed
    obtain ⟨target, isTarget, parsed⟩ := Option.bind_eq_some_iff.mp parsed
    cases parsed
    exact ⟨sound a (by simp) source isSource, sound b (by simp) target isTarget⟩
  · cases parsed

theorem mem_of_mem_withoutAttributes {inside : Bool} {ts : List Token} {t : Token}
    (member : t ∈ withoutAttributes inside ts) : t ∈ ts := by
  induction ts generalizing inside with
  | nil => cases inside <;> simp [withoutAttributes] at member
  | cons u ts ih =>
    cases inside with
    | true => exact List.mem_cons_of_mem _ (ih member)
    | false =>
      rw [withoutAttributes] at member
      split at member
      · exact List.mem_cons_of_mem _ (ih member)
      · rcases List.mem_cons.mp member with rfl | member
        · exact List.mem_cons_self
        · exact List.mem_cons_of_mem _ (ih member)

theorem sound_of_statements {current ts : List Token} {said : List Statement}
    (before : ∀ t ∈ current, t.Sound) (after : ∀ t ∈ ts, t.Sound)
    (parsed : statements current ts = some said) : ∀ found ∈ said, found.Sound := by
  induction ts generalizing current said with
  | nil => simp [statements] at parsed
  | cons t ts ih =>
    obtain ⟨sound, after⟩ := List.forall_mem_cons.mp after
    rw [statements] at parsed
    split at parsed
    · obtain ⟨first, ends, parsed⟩ := Option.bind_eq_some_iff.mp parsed
      obtain ⟨others, later, rfl⟩ := Option.map_eq_some_iff.mp parsed
      refine List.forall_mem_cons.mpr ⟨?_, ih (List.forall_mem_nil _) after later⟩
      refine Statement.sound_of_ofTokens? (fun t member => ?_) ends
      exact before t (List.mem_reverse.mp member)
    split at parsed
    · split at parsed
      · cases parsed
        simp
      · simp at parsed
    · exact ih (List.forall_mem_cons.mpr ⟨sound, before⟩) after parsed

theorem sound_of_read {text : String} {said : List Statement} (parsed : read text = some said) :
    ∀ found ∈ said, found.Sound := by
  have sound : ∀ t ∈ tokens .between text.toList, t.Sound := Place.sound_tokens trivial
  unfold read at parsed
  split at parsed
  · rename_i header
    rw [header] at sound
    split at parsed
    · refine sound_of_statements (by simp) (fun t member => sound t ?_) parsed
      simp [mem_of_mem_withoutAttributes member]
    · simp at parsed
  · simp at parsed

end WorkflowBundle.Dot
