/-! Patterns of file names. A star stands for any text, a question mark for one character, a
bracket for one character of a class, and two stars for any number of whole path components.
Only two stars care about slashes. -/
namespace WorkflowBundle

structure CharRange where
  first : Char
  last : Char
  deriving DecidableEq, Repr

def CharRange.contains (r : CharRange) (c : Char) : Bool := r.first ≤ c && c ≤ r.last

inductive PatternToken where
  | char (c : Char)
  | anyChar
  | anyOf (ranges : List CharRange)
  | noneOf (ranges : List CharRange)
  | anyText
  | anyComponents
  deriving DecidableEq, Repr

inductive PatternProblem where
  | badClass
  | tooManyStars
  | partOfComponent
  deriving DecidableEq, Repr

/-- What is wrong with a pattern, and the character near which it is. -/
structure PatternFault where
  position : Nat
  problem : PatternProblem
  deriving DecidableEq, Repr

def PatternProblem.message : PatternProblem → String
  | badClass => "invalid range pattern"
  | tooManyStars => "wildcards are either regular `*` or recursive `**`"
  | partOfComponent => "recursive wildcards must form a single path component"

def PatternFault.message (f : PatternFault) : String :=
  "Pattern syntax error near position " ++ toString f.position ++ ": " ++ f.problem.message

structure NamePattern where
  tokens : List PatternToken
  deriving DecidableEq, Repr

namespace NamePattern

/-- Ranges of a class. A dash at either end of the class stands for itself. -/
def ranges : List Char → List CharRange
  | a :: '-' :: b :: rest => ⟨a, b⟩ :: ranges rest
  | a :: rest => ⟨a, a⟩ :: ranges rest
  | [] => []

/-- Splits after the bracket that closes a class. It is not the first character. -/
def splitClass? : List Char → Option (List Char × List Char)
  | [] => none
  | c :: rest =>
    match rest.dropWhile (· != ']') with
    | _ :: after => some (c :: rest.takeWhile (· != ']'), after)
    | [] => none

theorem length_after_class {text body after : List Char} (h : splitClass? text = some (body, after)) :
    after.length < text.length := by
  cases text with
  | nil => simp [splitClass?] at h
  | cons c rest =>
    have shorter := (List.dropWhile_sublist (l := rest) (· != ']')).length_le
    simp only [splitClass?] at h
    split at h
    · rename_i d last found
      rw [found] at shorter
      simp only [Option.some.injEq, Prod.mk.injEq] at h
      rw [← h.2]
      simp only [List.length_cons] at *
      omega
    · simp at h

def class? : List Char → Option (PatternToken × List Char)
  | '!' :: rest => (splitClass? rest).map fun (body, after) => (.noneOf (ranges body), after)
  | rest => (splitClass? rest).map fun (body, after) => (.anyOf (ranges body), after)

theorem length_after {text after : List Char} {token : PatternToken}
    (h : class? text = some (token, after)) : after.length < text.length := by
  unfold class? at h
  split at h <;> obtain ⟨⟨body, rest⟩, found, same⟩ := Option.map_eq_some_iff.1 h <;>
    simp only [Prod.mk.injEq] at same <;> rw [← same.2] <;> have := length_after_class found
  · simp only [List.length_cons]; omega
  · exact this

/-- Reads a pattern from a position on. A path component starts there or goes on. -/
def read (position : Nat) (starts : Bool) (text : List Char) :
    Except PatternFault (List PatternToken) :=
  match text with
  | [] => .ok []
  | '?' :: rest => return .anyChar :: (← read (position + 1) false rest)
  | '*' :: '*' :: '*' :: _ => .error ⟨position + 2, .tooManyStars⟩
  | '*' :: '*' :: rest =>
    if !starts then .error ⟨position - 1, .partOfComponent⟩
    else match rest with
      | [] => .ok [.anyComponents]
      | '/' :: rest => return .anyComponents :: (← read (position + 3) true rest)
      | _ => .error ⟨position + 2, .partOfComponent⟩
  | '*' :: rest => return .anyText :: (← read (position + 1) false rest)
  | '[' :: rest =>
    match h : class? rest with
    | some (token, after) =>
      have := length_after h
      return token :: (← read (position + 1 + (rest.length - after.length)) false after)
    | none => .error ⟨position, .badClass⟩
  | c :: rest => return .char c :: (← read (position + 1) (c == '/') rest)
  termination_by text.length

def ofText (text : String) : Except PatternFault NamePattern :=
  (read 0 true text.toList).map NamePattern.mk

/-- What may be left of a text, from all of it to nothing. -/
def suffixes : List Char → List (List Char)
  | [] => [[]]
  | c :: rest => (c :: rest) :: suffixes rest

/-- What may be left of a text after some of its components. -/
def laterComponents : List Char → List (List Char)
  | [] => [[]]
  | c :: rest => if c == '/' then rest :: laterComponents rest else laterComponents rest

def accepts (token : PatternToken) (c : Char) : Bool :=
  match token with
  | .char d => c == d
  | .anyChar => true
  | .anyOf ranges => ranges.any (·.contains c)
  | .noneOf ranges => !ranges.any (·.contains c)
  | .anyText | .anyComponents => false

/-- What may be left after a token, given what may be left before it, longest first. -/
def advance (texts : List (List Char)) (token : PatternToken) : List (List Char) :=
  match token, texts with
  | .anyText, longest :: _ => suffixes longest
  | .anyComponents, longest :: _ => longest :: laterComponents longest
  | token, texts => texts.filterMap fun
    | c :: rest => if accepts token c then some rest else none
    | [] => none

def covers (p : NamePattern) (name : String) : Bool :=
  (p.tokens.foldl advance [name.toList]).any List.isEmpty

end NamePattern

end WorkflowBundle
