import Mathlib
import WorkflowBundle.Text.Utf8

/-! Laws of UTF-8. What a text starts with is read back from its bytes, and nothing else is read
as a character: the bytes of a text are the only ones that say it. -/
namespace WorkflowBundle.Utf8

/-- The bytes are one character, with the number. -/
inductive Spells : List UInt8 → Nat → Prop where
  | one {a : UInt8} : a < 0x80 → Spells [a] a.toNat
  | two {a b : UInt8} : 0xC2 ≤ a → a ≤ 0xDF → isContinuation b →
      Spells [a, b] (a.toNat % 32 * 64 + low b)
  | three {a b c : UInt8} : 0xE0 ≤ a → a ≤ 0xEF → secondOfThree a b → isContinuation c →
      Spells [a, b, c] ((a.toNat % 16 * 64 + low b) * 64 + low c)
  | four {a b c d : UInt8} : 0xF0 ≤ a → a ≤ 0xF4 → secondOfFour a b → isContinuation c →
      isContinuation d →
      Spells [a, b, c, d] (((a.toNat % 8 * 64 + low b) * 64 + low c) * 64 + low d)

variable {bytes rest : List UInt8} {n : Nat}

theorem Spells.front (spells : Spells bytes n) (rest : List UInt8) :
    front (bytes ++ rest) = .char (Char.ofNat n) rest := by
  cases spells with
  | one small => simp only [List.cons_append, List.nil_append, Utf8.front, if_pos small]
  | @two a b least most next =>
    have large : ¬a < 0x80 := by
      simp only [UInt8.lt_iff_toNat_lt, UInt8.le_iff_toNat_le] at *
      simp at *; omega
    simp [Utf8.front, large, least, most, next]
  | @three a b c least most next last =>
    have large : ¬a < 0x80 ∧ ¬a ≤ 0xDF := by
      simp only [UInt8.lt_iff_toNat_lt, UInt8.le_iff_toNat_le] at *
      simp at *; omega
    simp [Utf8.front, large, least, most, next, last]
  | @four a b c d least most next third last =>
    have large : ¬a < 0x80 ∧ ¬a ≤ 0xDF ∧ ¬a ≤ 0xEF := by
      simp only [UInt8.lt_iff_toNat_lt, UInt8.le_iff_toNat_le] at *
      simp at *; omega
    simp [Utf8.front, large, least, most, next, third, last]

/-- Only the bytes of a character are read as one. -/
theorem spells_of_front {c : Char} (read : front bytes = .char c rest) :
    ∃ own n, bytes = own ++ rest ∧ Spells own n ∧ c = Char.ofNat n := by
  unfold front at read
  split at read
  · contradiction
  split at read
  next small =>
    obtain ⟨rfl, rfl⟩ := Front.char.inj read
    exact ⟨_, _, rfl, .one small, rfl⟩
  split at read
  next range =>
    obtain ⟨least, most⟩ := Bool.and_eq_true_iff.mp range
    split at read
    · contradiction
    split at read
    next next =>
      obtain ⟨rfl, rfl⟩ := Front.char.inj read
      exact ⟨_, _, rfl, .two (by simpa using least) (by simpa using most) next, rfl⟩
    next => contradiction
  split at read
  next range =>
    obtain ⟨least, most⟩ := Bool.and_eq_true_iff.mp range
    split at read
    · contradiction
    split at read
    · contradiction
    next next =>
      split at read
      · contradiction
      split at read
      next last =>
        obtain ⟨rfl, rfl⟩ := Front.char.inj read
        exact ⟨_, _, rfl, .three (by simpa using least) (by simpa using most) (by simpa using next)
          last, rfl⟩
      next => contradiction
  split at read
  next range =>
    obtain ⟨least, most⟩ := Bool.and_eq_true_iff.mp range
    split at read
    · contradiction
    split at read
    · contradiction
    next next =>
      split at read
      · contradiction
      split at read
      · contradiction
      next third =>
        split at read
        · contradiction
        split at read
        next last =>
          obtain ⟨rfl, rfl⟩ := Front.char.inj read
          exact ⟨_, _, rfl, .four (by simpa using least) (by simpa using most) (by simpa using next)
            (by simpa using third) last, rfl⟩
        next => contradiction
  next => contradiction

/-- The numbers of characters leave out the units of pairs. -/
theorem toNat_valid (c : Char) : c.toNat < 0xD800 ∨ 0xDFFF < c.toNat ∧ c.toNat < 0x110000 := c.valid

theorem toNat_ofNat_lt {k : Nat} (small : k < 256) : (UInt8.ofNat k).toNat = k := by
  rw [UInt8.toNat_ofNat', Nat.mod_eq_of_lt small]

/-- The six bits of a number that end it, as a byte that continues a character. -/
theorem isContinuation_ofNat (v : Nat) : isContinuation (UInt8.ofNat (v % 64 + 128)) := by
  have value : (UInt8.ofNat (v % 64 + 128)).toNat = v % 64 + 128 := toNat_ofNat_lt (by omega)
  simp only [isContinuation, Bool.and_eq_true, decide_eq_true_eq, UInt8.le_iff_toNat_le, value,
    UInt8.reduceToNat]
  omega

theorem low_ofNat (v : Nat) : low (UInt8.ofNat (v % 64 + 128)) = v % 64 := by
  rw [low, toNat_ofNat_lt (by omega)]
  omega

theorem ofNat_between {low high k : Nat} (small : k < 256) (high_small : high < 256)
    (least : low ≤ k) (most : k ≤ high) :
    UInt8.ofNat low ≤ UInt8.ofNat k ∧ UInt8.ofNat k ≤ UInt8.ofNat high := by
  rw [UInt8.le_iff_toNat_le, UInt8.le_iff_toNat_le, toNat_ofNat_lt small,
    toNat_ofNat_lt high_small, toNat_ofNat_lt (by omega)]
  exact ⟨least, most⟩

theorem ofNat_eq_iff {j k : Nat} (j_small : j < 256) (k_small : k < 256) :
    UInt8.ofNat j = UInt8.ofNat k ↔ j = k := by
  rw [← UInt8.toNat_inj, toNat_ofNat_lt j_small, toNat_ofNat_lt k_small]

variable {v : Nat}

theorem spells_two (least : 127 < v) (most : v ≤ 2047) :
    Spells [UInt8.ofNat (v / 64 % 32 + 192), UInt8.ofNat (v % 64 + 128)] v := by
  have value : (UInt8.ofNat (v / 64 % 32 + 192)).toNat = v / 64 % 32 + 192 :=
    toNat_ofNat_lt (by omega)
  have range := @ofNat_between 0xC2 0xDF (v / 64 % 32 + 192) (by omega) (by omega) (by omega)
    (by omega)
  have spelled := Spells.two range.1 range.2 (isContinuation_ofNat v)
  have number : (v / 64 % 32 + 192) % 32 * 64 + v % 64 = v := by omega
  rwa [low_ofNat, value, number] at spelled

theorem ofNat_beq {j k : Nat} (j_small : j < 256) (k_small : k < 256) :
    (UInt8.ofNat j == UInt8.ofNat k) = decide (j = k) := by
  rw [Bool.eq_iff_iff, beq_iff_eq, decide_eq_true_eq]
  exact ofNat_eq_iff j_small k_small

/-- The numbers of three bytes leave out the units of pairs, which is what the second byte says. -/
theorem secondOfThree_ofNat (least : 2047 < v) (most : v ≤ 65535)
    (valid : v < 0xD800 ∨ 0xDFFF < v) :
    secondOfThree (UInt8.ofNat (v / 4096 % 16 + 224)) (UInt8.ofNat (v / 64 % 64 + 128)) := by
  have first := @ofNat_beq (v / 4096 % 16 + 224) 0xE0 (by omega) (by omega)
  have last := @ofNat_beq (v / 4096 % 16 + 224) 0xED (by omega) (by omega)
  simp only [UInt8.reduceOfNat] at first last
  simp only [secondOfThree, first, last, decide_eq_true_eq]
  split
  next =>
    have range := @ofNat_between 0xA0 0xBF (v / 64 % 64 + 128) (by omega) (by omega) (by omega)
      (by omega)
    simpa using range
  split
  next =>
    have range := @ofNat_between 0x80 0x9F (v / 64 % 64 + 128) (by omega) (by omega) (by omega)
      (by omega)
    simpa using range
  next => exact isContinuation_ofNat (v / 64)

theorem spells_three (least : 2047 < v) (most : v ≤ 65535) (valid : v < 0xD800 ∨ 0xDFFF < v) :
    Spells [UInt8.ofNat (v / 4096 % 16 + 224), UInt8.ofNat (v / 64 % 64 + 128),
      UInt8.ofNat (v % 64 + 128)] v := by
  have value : (UInt8.ofNat (v / 4096 % 16 + 224)).toNat = v / 4096 % 16 + 224 :=
    toNat_ofNat_lt (by omega)
  have range := @ofNat_between 0xE0 0xEF (v / 4096 % 16 + 224) (by omega) (by omega) (by omega)
    (by omega)
  have spelled := Spells.three range.1 range.2 (secondOfThree_ofNat least most valid)
    (isContinuation_ofNat v)
  have number : ((v / 4096 % 16 + 224) % 16 * 64 + v / 64 % 64) * 64 + v % 64 = v := by omega
  rwa [low_ofNat, low_ofNat, value, number] at spelled

theorem secondOfFour_ofNat (least : 65535 < v) (most : v < 0x110000) :
    secondOfFour (UInt8.ofNat (v / 262144 % 8 + 240)) (UInt8.ofNat (v / 4096 % 64 + 128)) := by
  have first := @ofNat_beq (v / 262144 % 8 + 240) 0xF0 (by omega) (by omega)
  have last := @ofNat_beq (v / 262144 % 8 + 240) 0xF4 (by omega) (by omega)
  simp only [UInt8.reduceOfNat] at first last
  simp only [secondOfFour, first, last, decide_eq_true_eq]
  split
  next =>
    have range := @ofNat_between 0x90 0xBF (v / 4096 % 64 + 128) (by omega) (by omega) (by omega)
      (by omega)
    simpa using range
  split
  next =>
    have range := @ofNat_between 0x80 0x8F (v / 4096 % 64 + 128) (by omega) (by omega) (by omega)
      (by omega)
    simpa using range
  next => exact isContinuation_ofNat (v / 4096)

theorem spells_four (least : 65535 < v) (most : v < 0x110000) :
    Spells [UInt8.ofNat (v / 262144 % 8 + 240), UInt8.ofNat (v / 4096 % 64 + 128),
      UInt8.ofNat (v / 64 % 64 + 128), UInt8.ofNat (v % 64 + 128)] v := by
  have value : (UInt8.ofNat (v / 262144 % 8 + 240)).toNat = v / 262144 % 8 + 240 :=
    toNat_ofNat_lt (by omega)
  have range := @ofNat_between 0xF0 0xF4 (v / 262144 % 8 + 240) (by omega) (by omega) (by omega)
    (by omega)
  have spelled := Spells.four range.1 range.2 (secondOfFour_ofNat least most)
    (isContinuation_ofNat (v / 64)) (isContinuation_ofNat v)
  have number : (((v / 262144 % 8 + 240) % 8 * 64 + v / 4096 % 64) * 64 + v / 64 % 64) * 64 +
      v % 64 = v := by omega
  rwa [low_ofNat, low_ofNat, low_ofNat, value, number] at spelled

theorem spells_utf8EncodeChar (c : Char) : Spells (String.utf8EncodeChar c) c.toNat := by
  have valid := toNat_valid c
  have same : c.val.toNat = c.toNat := rfl
  rw [String.utf8EncodeChar]
  simp only [same]
  split
  next small =>
    have value : (UInt8.ofNat c.toNat).toNat = c.toNat := toNat_ofNat_lt (by omega)
    have spelled := @Spells.one (UInt8.ofNat c.toNat)
      (by simp only [UInt8.lt_iff_toNat_lt, value, UInt8.reduceToNat]; omega)
    rwa [value] at spelled
  split
  next => exact spells_two (by omega) (by omega)
  split
  next => exact spells_three (by omega) (by omega) (by omega)
  next => exact spells_four (by omega) (by omega)

theorem eq_ofNat {a : UInt8} {k : Nat} (value : a.toNat = k) : a = UInt8.ofNat k := by
  rw [← value, UInt8.ofNat_toNat]

theorem isContinuation_iff {b : UInt8} : isContinuation b ↔ 128 ≤ b.toNat ∧ b.toNat ≤ 191 := by
  simp [isContinuation, UInt8.le_iff_toNat_le]

theorem toNat_of_secondOfThree {a b : UInt8} (second : secondOfThree a b) :
    (128 ≤ b.toNat ∧ b.toNat ≤ 191) ∧ (a.toNat = 224 → 160 ≤ b.toNat) ∧
      (a.toNat = 237 → b.toNat ≤ 159) := by
  simp only [secondOfThree, beq_iff_eq, ← UInt8.toNat_inj, UInt8.reduceToNat] at second
  split at second
  next first =>
    have range : 160 ≤ b.toNat ∧ b.toNat ≤ 191 := by simpa [UInt8.le_iff_toNat_le] using second
    omega
  split at second
  next last =>
    have range : 128 ≤ b.toNat ∧ b.toNat ≤ 159 := by simpa [UInt8.le_iff_toNat_le] using second
    omega
  next => exact ⟨isContinuation_iff.mp second, by omega, by omega⟩

theorem toNat_of_secondOfFour {a b : UInt8} (second : secondOfFour a b) :
    (128 ≤ b.toNat ∧ b.toNat ≤ 191) ∧ (a.toNat = 240 → 144 ≤ b.toNat) ∧
      (a.toNat = 244 → b.toNat ≤ 143) := by
  simp only [secondOfFour, beq_iff_eq, ← UInt8.toNat_inj, UInt8.reduceToNat] at second
  split at second
  next first =>
    have range : 144 ≤ b.toNat ∧ b.toNat ≤ 191 := by simpa [UInt8.le_iff_toNat_le] using second
    omega
  split at second
  next last =>
    have range : 128 ≤ b.toNat ∧ b.toNat ≤ 143 := by simpa [UInt8.le_iff_toNat_le] using second
    omega
  next => exact ⟨isContinuation_iff.mp second, by omega, by omega⟩

theorem val_ofNat_toNat {n : Nat} (valid : n < 0xD800 ∨ 0xDFFF < n ∧ n < 0x110000) :
    (Char.ofNat n).val.toNat = n := by
  have number := Char.toNat_ofNat n
  rwa [if_pos valid] at number

/-- A character's bytes are the only ones that say it. -/
theorem Spells.eq_utf8EncodeChar (spells : Spells bytes n) :
    bytes = String.utf8EncodeChar (Char.ofNat n) := by
  rw [String.utf8EncodeChar]
  cases spells with
  | @one a small =>
    have bound : a.toNat < 128 := by simpa [UInt8.lt_iff_toNat_lt] using small
    simp only [val_ofNat_toNat (.inl (by omega : a.toNat < 0xD800))]
    rw [if_pos (by omega), UInt8.ofNat_toNat]
  | @two a b least most next =>
    have first : 194 ≤ a.toNat ∧ a.toNat ≤ 223 := by
      simpa [UInt8.le_iff_toNat_le] using And.intro least most
    have second := isContinuation_iff.mp next
    simp only [low, val_ofNat_toNat (.inl (by omega : a.toNat % 32 * 64 + b.toNat % 64 < 0xD800))]
    rw [if_neg (by omega), if_pos (by omega)]
    simp only [List.cons.injEq, and_true]
    exact ⟨eq_ofNat (by omega), eq_ofNat (by omega)⟩
  | @three a b c least most next last =>
    have first : 224 ≤ a.toNat ∧ a.toNat ≤ 239 := by
      simpa [UInt8.le_iff_toNat_le] using And.intro least most
    have second := toNat_of_secondOfThree next
    have third := isContinuation_iff.mp last
    rw [low, low]
    generalize number : (a.toNat % 16 * 64 + b.toNat % 64) * 64 + c.toNat % 64 = v
    simp only [val_ofNat_toNat (by omega : v < 0xD800 ∨ 0xDFFF < v ∧ v < 0x110000)]
    rw [if_neg (by omega), if_neg (by omega), if_pos (by omega)]
    simp only [List.cons.injEq, and_true]
    exact ⟨eq_ofNat (by omega), eq_ofNat (by omega), eq_ofNat (by omega)⟩
  | @four a b c d least most next third last =>
    have first : 240 ≤ a.toNat ∧ a.toNat ≤ 244 := by
      simpa [UInt8.le_iff_toNat_le] using And.intro least most
    have second := toNat_of_secondOfFour next
    have third := isContinuation_iff.mp third
    have last := isContinuation_iff.mp last
    rw [low, low, low]
    generalize number : ((a.toNat % 8 * 64 + b.toNat % 64) * 64 + c.toNat % 64) * 64 +
      d.toNat % 64 = v
    simp only [val_ofNat_toNat (by omega : v < 0xD800 ∨ 0xDFFF < v ∧ v < 0x110000)]
    rw [if_neg (by omega), if_neg (by omega), if_neg (by omega)]
    simp only [List.cons.injEq, and_true]
    exact ⟨eq_ofNat (by omega), eq_ofNat (by omega), eq_ofNat (by omega), eq_ofNat (by omega)⟩

theorem front_utf8EncodeChar (c : Char) (rest : List UInt8) :
    front (String.utf8EncodeChar c ++ rest) = .char c rest := by
  rw [(spells_utf8EncodeChar c).front, Char.ofNat_toNat]

theorem eq_append_of_front {c : Char} (read : front bytes = .char c rest) :
    bytes = String.utf8EncodeChar c ++ rest := by
  obtain ⟨own, n, rfl, spells, rfl⟩ := spells_of_front read
  rw [spells.eq_utf8EncodeChar]

theorem toList_loop (bytes : ByteArray) (i : Nat) (before : List UInt8) :
    ByteArray.toList.loop bytes i before = before.reverse ++ bytes.data.toList.drop i := by
  fun_induction ByteArray.toList.loop bytes i before with
  | case1 i before inside ih =>
    have inside : i < bytes.data.toList.length := by simpa using inside
    rw [ih, List.drop_eq_getElem_cons inside]
    simp_all [ByteArray.get!]
  | case2 i before outside =>
    rw [List.drop_eq_nil_of_le (by simpa using outside), List.append_nil]

theorem encode_eq (text : String) : encode text = text.toList.flatMap String.utf8EncodeChar := by
  rw [encode, String.toUTF8_eq_toByteArray, ByteArray.toList, toList_loop]
  conv => lhs; rw [← String.ofList_toList (s := text)]
  exact List.toList_data_toByteArray

@[simp] theorem encode_append (a b : String) : encode (a ++ b) = encode a ++ encode b := by
  simp [encode_eq]

theorem decodeFrom_flatMap (chars : List Char) {fuel total : Nat} (enough : chars.length < fuel)
    (before : List Char) :
    decodeFrom fuel total (chars.flatMap String.utf8EncodeChar) before =
      .ok (before.reverse ++ chars) := by
  induction chars generalizing fuel before with
  | nil =>
    obtain ⟨fuel, rfl⟩ := Nat.exists_eq_add_one.mpr enough
    simp [decodeFrom, front]
  | cons c chars ih =>
    obtain ⟨fuel, rfl⟩ := Nat.exists_eq_add_one.mpr (Nat.zero_lt_of_lt enough)
    rw [List.length_cons, Nat.add_lt_add_iff_right] at enough
    rw [List.flatMap_cons, decodeFrom, front_utf8EncodeChar]
    simp only [ih enough, List.reverse_cons, List.append_assoc, List.singleton_append]

theorem length_le_encode (chars : List Char) :
    chars.length ≤ (chars.flatMap String.utf8EncodeChar).length := by
  induction chars with
  | nil => simp
  | cons c chars ih =>
    have positive : 0 < (String.utf8EncodeChar c).length := by simp [Char.utf8Size_pos]
    rw [List.flatMap_cons, List.length_append, List.length_cons]
    omega

/-- A text is read back from its bytes. -/
theorem decode_encode (text : String) : decode (encode text) = .ok text := by
  have enough := Nat.lt_succ_of_le (length_le_encode text.toList)
  rw [decode, encode_eq, decodeFrom_flatMap _ enough]
  simp [Except.map]

theorem encode_injective : Function.Injective encode := by
  intro a b same
  have read := decode_encode a
  rw [same, decode_encode] at read
  exact (Except.ok.inj read).symm

theorem suffix_of_front_broken {length : Nat} (broken : front bytes = .broken length rest) :
    rest <:+ bytes ∧ rest.length < bytes.length := by
  unfold front at broken
  repeat' split at broken
  all_goals first
    | contradiction
    | obtain ⟨-, rfl⟩ := Front.broken.inj broken
      exact ⟨by simp [List.suffix_cons_iff], by simp⟩

theorem eq_nil_of_front_done (read : front bytes = .done) : bytes = [] := by
  unfold front at read
  repeat' split at read
  all_goals first | rfl | contradiction

/-- What stands for bytes that are no character. -/
def replacement : Char := Char.ofNat 0xFFFD

theorem length_lt_of_front {c : Char} (read : front bytes = .char c rest) :
    rest.length < bytes.length := by
  have positive : 0 < (String.utf8EncodeChar c).length := by simp [Char.utf8Size_pos]
  rw [eq_append_of_front read, List.length_append]
  omega

/-- Without a replacement in the text, nothing but its characters was in the bytes. -/
theorem flatMap_decodeLoosely {fuel : Nat} {bytes : List UInt8} (enough : bytes.length < fuel)
    (whole : replacement ∉ decodeLoosely fuel bytes) :
    (decodeLoosely fuel bytes).flatMap String.utf8EncodeChar = bytes := by
  induction fuel generalizing bytes with
  | zero => contradiction
  | succ fuel ih =>
    rw [decodeLoosely] at whole ⊢
    cases read : front bytes with
    | done => simp [eq_nil_of_front_done read]
    | char c rest =>
      have shorter := length_lt_of_front read
      simp only [read, List.mem_cons, not_or] at whole
      simp only [List.flatMap_cons, ih (by omega) whole.2]
      exact (eq_append_of_front read).symm
    | broken length rest => simp [read, replacement] at whole
    | cut => simp [read, replacement] at whole

/-- The bytes of every other character of the text are there. -/
theorem infix_of_mem_decodeLoosely {fuel : Nat} {bytes : List UInt8} {c : Char}
    (among : c ∈ decodeLoosely fuel bytes) (proper : c ≠ replacement) :
    String.utf8EncodeChar c <:+: bytes := by
  induction fuel generalizing bytes with
  | zero => contradiction
  | succ fuel ih =>
    rw [decodeLoosely] at among
    cases read : front bytes with
    | done => simp [read] at among
    | char d rest =>
      rw [eq_append_of_front read]
      simp only [read, List.mem_cons] at among
      obtain rfl | later := among
      · exact (List.prefix_append _ _).isInfix
      · exact (ih later).trans (List.suffix_append _ _).isInfix
    | broken length rest =>
      simp only [read, List.mem_cons] at among
      exact (ih (among.resolve_left proper)).trans (suffix_of_front_broken read).1.isInfix
    | cut => exact absurd (by simpa [read, replacement] using among) proper

/-- A text without a replacement is that of one list of bytes only. -/
theorem eq_encode_of_lossy {text : String} (loose : lossy bytes = text)
    (whole : replacement ∉ text.toList) : bytes = encode text := by
  subst loose
  rw [lossy, String.toList_ofList] at whole
  rw [encode_eq, lossy, String.toList_ofList, flatMap_decodeLoosely (by omega) whole]

theorem decodeLoosely_flatMap (chars : List Char) {fuel : Nat} (enough : chars.length < fuel) :
    decodeLoosely fuel (chars.flatMap String.utf8EncodeChar) = chars := by
  induction chars generalizing fuel with
  | nil =>
    obtain ⟨fuel, rfl⟩ := Nat.exists_eq_add_one.mpr enough
    simp [decodeLoosely, front]
  | cons c chars ih =>
    obtain ⟨fuel, rfl⟩ := Nat.exists_eq_add_one.mpr (Nat.zero_lt_of_lt enough)
    rw [List.length_cons, Nat.add_lt_add_iff_right] at enough
    rw [List.flatMap_cons, decodeLoosely, front_utf8EncodeChar]
    simp only [ih enough]

theorem lossy_encode (text : String) : lossy (encode text) = text := by
  have enough := Nat.lt_succ_of_le (length_le_encode text.toList)
  rw [lossy, encode_eq, decodeLoosely_flatMap _ enough, String.ofList_toList]

/-- A byte below 128 is a character of its own. -/
theorem mem_utf8EncodeChar_ascii {b : UInt8} {c : Char} (small : b < 0x80)
    (among : b ∈ String.utf8EncodeChar c) : c = Char.ofNat b.toNat := by
  have bound : b.toNat < 128 := by simpa [UInt8.lt_iff_toNat_lt] using small
  have spelled := spells_utf8EncodeChar c
  rw [← Char.ofNat_toNat c]
  generalize c.toNat = n, String.utf8EncodeChar c = bytes at *
  cases spelled with
  | one => rw [List.mem_singleton.mp among]
  | two least most next =>
    have second := isContinuation_iff.mp next
    simp only [UInt8.le_iff_toNat_le, UInt8.reduceToNat] at least
    simp only [List.mem_cons, List.not_mem_nil, or_false] at among
    obtain rfl | rfl := among <;> omega
  | three least most next last =>
    have second := toNat_of_secondOfThree next
    have third := isContinuation_iff.mp last
    simp only [UInt8.le_iff_toNat_le, UInt8.reduceToNat] at least
    simp only [List.mem_cons, List.not_mem_nil, or_false] at among
    obtain rfl | rfl | rfl := among <;> omega
  | four least most next third last =>
    have second := toNat_of_secondOfFour next
    have third := isContinuation_iff.mp third
    have fourth := isContinuation_iff.mp last
    simp only [UInt8.le_iff_toNat_le, UInt8.reduceToNat] at least
    simp only [List.mem_cons, List.not_mem_nil, or_false] at among
    obtain rfl | rfl | rfl | rfl := among <;> omega

end WorkflowBundle.Utf8
