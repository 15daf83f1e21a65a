import Mathlib
import WorkflowBundle.Json.Reader

/-! Strings and integers as JSON text. What is written of one is read back, with the text after
it left as it was. -/
namespace WorkflowBundle.Json.Reader

theorem hexQuad?_control : ∀ n < 32,
    hexQuad? '0' '0' (hexDigit (n / 16)) (hexDigit n) = some n := by
  decide

theorem stringTail_plain {c : Char} (quote : c ≠ '"') (slash : c ≠ '\\') (large : 32 ≤ c.toNat)
    (rest before : List Char) : stringTail (c :: rest) before = stringTail rest (c :: before) := by
  rw [stringTail.eq_def]
  split
  · contradiction
  next same => exact absurd (List.cons.inj same).1 quote
  next same => exact absurd (List.cons.inj same).1 slash
  next same => exact absurd (List.cons.inj same).1 slash
  next same =>
    obtain ⟨rfl, rfl⟩ := List.cons.inj same
    simp [slash, large]

theorem stringTail_simple {e c : Char} (meaning : simpleEscape? e = some c)
    (rest before : List Char) :
    stringTail ('\\' :: e :: rest) before = stringTail rest (c :: before) := by
  rw [stringTail]
  · simp [meaning]
  · rintro a b c d tail rfl -
    contradiction

theorem stringTail_control {c : Char} (small : c.toNat < 32) (rest before : List Char) :
    stringTail ('\\' :: 'u' :: '0' :: '0' :: hexDigit (c.toNat / 16) :: hexDigit c.toNat :: rest)
      before = stringTail rest (c :: before) := by
  have single : isHighUnit c.toNat = false ∧ isLowUnit c.toNat = false := by
    simp only [isHighUnit, isLowUnit, Bool.and_eq_false_iff, decide_eq_false_iff_not]
    omega
  rw [stringTail, hexQuad?_control _ small]
  simp [single]

theorem stringTail_escape (c : Char) (rest before : List Char) :
    stringTail (escape c ++ rest) before = stringTail rest (c :: before) := by
  have char {e : Char} {n : Nat} (number : (c.toNat == n) = true)
      (meaning : simpleEscape? e = some (Char.ofNat n)) : simpleEscape? e = some c := by
    rw [meaning, ← eq_of_beq number, Char.ofNat_toNat]
  unfold escape
  split
  next same => exact stringTail_simple (by rw [eq_of_beq same]; rfl) rest before
  split
  next same => exact stringTail_simple (by rw [eq_of_beq same]; rfl) rest before
  split
  next same => exact stringTail_simple (by rw [eq_of_beq same]; rfl) rest before
  split
  next same => exact stringTail_simple (by rw [eq_of_beq same]; rfl) rest before
  split
  next same => exact stringTail_simple (by rw [eq_of_beq same]; rfl) rest before
  split
  next same => exact stringTail_simple (char same rfl) rest before
  split
  next same => exact stringTail_simple (char same rfl) rest before
  split
  next small => exact stringTail_control small rest before
  next quote slash _ _ _ _ _ large =>
    exact stringTail_plain (by simpa using quote) (by simpa using slash) (by omega) rest before

/-- A string is read back from between its quotes. -/
theorem string_quote (s : String) (rest : List Char) :
    string (s.toList.foldr (fun c tail => escape c ++ tail) ('"' :: rest)) = some (s, rest) := by
  have all (chars before : List Char) :
      stringTail (chars.foldr (fun c tail => escape c ++ tail) ('"' :: rest)) before =
        some (String.ofList (before.reverse ++ chars), rest) := by
    induction chars generalizing before with
    | nil => simp [stringTail]
    | cons c chars ih => rw [List.foldr_cons, stringTail_escape, ih]; simp
  rw [string, all]
  simp

/-- Nothing here goes on with a number. -/
def EndsNumber (rest : List Char) : Prop :=
  ∀ c ∈ rest.head?, c.isDigit = false ∧ c ≠ '.' ∧ c ≠ 'e' ∧ c ≠ 'E'

variable {rest : List Char}

theorem le_ofDigitChars (digits : List Char) (v : Nat) : v ≤ Nat.ofDigitChars 10 digits v := by
  induction digits generalizing v with
  | nil => simp
  | cons c digits ih =>
    rw [Nat.ofDigitChars_cons]
    exact (by omega : v ≤ _).trans (ih _)

/-- Digits are taken in as long as their value fits. -/
theorem significand_digits {digits : List Char} (all : ∀ c ∈ digits, c.isDigit = true) {v : Nat}
    (fits : Nat.ofDigitChars 10 digits v < UInt64.size) (ends : EndsNumber rest)
    (taken passed : Nat) :
    significand (digits ++ rest) v false taken passed =
      (Nat.ofDigitChars 10 digits v, false, taken + digits.length, passed, rest) := by
  induction digits generalizing v taken with
  | nil =>
    cases rest with
    | nil => simp [significand]
    | cons c rest => simp [significand, (ends c (by simp)).1]
  | cons c digits ih =>
    rw [List.forall_mem_cons] at all
    rw [Nat.ofDigitChars_cons] at fits ⊢
    have next := lt_of_le_of_lt (le_ofDigitChars digits _) fits
    have zero : '0'.toNat = 48 := rfl
    rw [zero] at fits next ⊢
    have room : (false || decide (UInt64.size ≤ 10 * v + (c.toNat - 48))) = false := by
      simpa using next
    rw [List.cons_append, significand, if_pos all.1]
    simp only [room, Bool.false_eq_true, if_false]
    rw [ih all.2 fits, List.length_cons, Nat.add_right_comm, Nat.add_assoc]

theorem numberTail_whole (negative : Bool) (n : Nat) (ends : EndsNumber rest) :
    numberTail negative n false 0 rest =
      (numberTail.whole negative n false 0).map (·, rest) := by
  unfold numberTail
  split
  next tail => exact absurd rfl (ends '.' (by simp)).2.1
  next c tail point =>
    obtain ⟨-, -, small, large⟩ := ends c (by simp)
    simp [small, large]
  next => rfl

/-- The first digit of a positive number is not zero. -/
theorem head?_toDigits (n : Nat) (positive : 0 < n) : (Nat.toDigits 10 n).head? ≠ some '0' := by
  induction n using Nat.strongRecOn with
  | ind n ih =>
    rw [Nat.toDigits_eq_if (by decide)]
    split
    next small =>
      interval_cases n <;> decide
    next large =>
      rw [List.head?_append_of_ne_nil _ Nat.toDigits_ne_nil]
      exact ih (n / 10) (by omega) (by omega)

theorem unsigned_toDigits (negative : Bool) {n : Nat} (fits : n < UInt64.size)
    (ends : EndsNumber rest) : unsigned negative (Nat.toDigits 10 n ++ rest) =
      (numberTail.whole negative n false 0).map (·, rest) := by
  rw [← numberTail_whole negative n ends]
  have all : ∀ c ∈ Nat.toDigits 10 n, c.isDigit = true :=
    fun c among => Nat.isDigit_of_mem_toDigits (by decide) (by decide) among
  have value := significand_digits all (by rwa [Nat.ofDigitChars_ten_toDigits]) ends 0 0
  rw [Nat.ofDigitChars_ten_toDigits] at value
  rcases Nat.eq_zero_or_pos n with rfl | positive
  · rw [Nat.toDigits_zero, List.singleton_append]
    cases rest with
    | nil => rfl
    | cons c rest => exact if_neg (by simp [(ends c (by simp)).1])
  · have zero := head?_toDigits n positive
    cases digits : Nat.toDigits 10 n with
    | nil => exact absurd digits Nat.toDigits_ne_nil
    | cons c others =>
      rw [digits] at all value zero
      rw [unsigned.eq_def]
      split
      next same => exact absurd (by rw [(List.cons.inj same).1]; rfl) zero
      next d tail other same =>
        obtain ⟨rfl, rfl⟩ := List.cons.inj same
        rw [if_pos (all c (by simp))]
        simp only [value]
      next same => contradiction

theorem number_toDigits {n : Nat} (fits : n < UInt64.size) (ends : EndsNumber rest) :
    number (Nat.toDigits 10 n ++ rest) = some (.int n, rest) := by
  have read := unsigned_toDigits false fits ends
  cases digits : Nat.toDigits 10 n with
  | nil => exact absurd digits Nat.toDigits_ne_nil
  | cons c others =>
    have digit : c.isDigit = true :=
      Nat.isDigit_of_mem_toDigits (by decide) (by decide) (digits ▸ List.mem_cons_self)
    rw [number.eq_def]
    split
    next same =>
      obtain ⟨rfl, -⟩ := List.cons.inj same
      contradiction
    next => simpa [digits, numberTail.whole] using read

theorem number_neg_toDigits {n : Nat} (positive : 0 < n) (fits : n ≤ UInt64.size / 2)
    (ends : EndsNumber rest) :
    number ('-' :: (Nat.toDigits 10 n ++ rest)) = some (.int (-n), rest) := by
  have small : ¬UInt64.size / 2 < n := by omega
  rw [number, unsigned_toDigits true (by omega) ends]
  simp [numberTail.whole, positive.ne', small]

theorem toList_toString (i : Int) : (toString i).toList =
    if i < 0 then '-' :: Nat.toDigits 10 i.natAbs else Nat.toDigits 10 i.natAbs := by
  cases i with
  | ofNat n =>
    change (toString n).toList = _
    rw [Nat.toString_eq_ofList_toDigits, String.toList_ofList, if_neg (by simp)]
    rfl
  | negSucc n =>
    change ("-" ++ toString (n + 1)).toList = _
    rw [if_pos (Int.negSucc_lt_zero n)]
    simp

/-- An integer of 64 bits is read back. -/
theorem number_toString {i : Int} (range : -2 ^ 63 ≤ i ∧ i < 2 ^ 64) (ends : EndsNumber rest) :
    number ((toString i).toList ++ rest) = some (.int i, rest) := by
  have size : UInt64.size = 2 ^ 64 := rfl
  rw [toList_toString]
  split
  next negative =>
    rw [List.cons_append, number_neg_toDigits (by omega) (by omega) ends]
    congr
    omega
  next positive =>
    rw [number_toDigits (by omega) ends]
    congr
    omega

theorem exists_cons_toString (i : Int) :
    ∃ c tail, (toString i).toList = c :: tail ∧ (c = '-' ∨ c.isDigit = true) := by
  rw [toList_toString]
  split
  next => exact ⟨_, _, rfl, .inl rfl⟩
  next =>
    obtain ⟨c, tail, digits⟩ :=
      List.exists_cons_of_ne_nil (Nat.toDigits_ne_nil (b := 10) (n := i.natAbs))
    exact ⟨c, tail, digits,
      .inr (Nat.isDigit_of_mem_toDigits (by decide) (by decide) (digits ▸ List.mem_cons_self))⟩

theorem scalar_number {c : Char} (front : c = '-' ∨ c.isDigit = true) (tail : List Char) :
    scalar (c :: tail) = number (c :: tail) := by
  rw [scalar.eq_def]
  split
  all_goals first
    | rfl
    | next same =>
      obtain ⟨rfl, -⟩ := List.cons.inj same
      exact absurd front (by decide)

end WorkflowBundle.Json.Reader
