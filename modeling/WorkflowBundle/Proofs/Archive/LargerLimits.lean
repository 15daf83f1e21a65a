import WorkflowBundle.Proofs.Archive.Selection

/-! Archives under larger limits. What is kept of a member does not depend on the limits that let
it pass, so larger ones let pass the same entries. The exception is the largest size of an entry
that there is: contents are read up to one byte beyond that size, a number that 64 bits do not
hold, so then the program breaks off at the first member that it would take. -/
namespace WorkflowBundle

/-- Each limit of the one is at most that of the other. -/
instance : LE Limits where
  le small large := small.maxEntries ≤ large.maxEntries ∧
    small.maxEntryBytes ≤ large.maxEntryBytes ∧ small.maxTotalBytes ≤ large.maxTotalBytes

instance (small large : Limits) : Decidable (small ≤ large) :=
  inferInstanceAs (Decidable (_ ∧ _ ∧ _))

namespace Archive

variable {limits limits' : Limits} {ignore : List NamePattern} {members : List Tar.Member}
  {m : Tar.Member} {name : String} {held next : Kept} {data : List UInt8}

namespace Kept

/-- Under larger limits the same contents are read, if it can be said up to where. -/
theorem Takes.of_larger (takes : held.Takes limits name m data) (larger : limits ≤ limits')
    (readable : Readable limits') : held.Takes limits' name m data := by
  obtain ⟨fresh, few, -, read, ⟨length, fits⟩, small⟩ := takes
  obtain ⟨entries, entryBytes, totalBytes⟩ := larger
  rw [UInt64.le_iff_toNat_le] at entries entryBytes totalBytes
  have all := (ByteStream.read?_eq_some_iff (length.trans_le fits)).mp read
  have fits' : m.size ≤ limits'.maxEntryBytes.toNat := fits.trans entryBytes
  have again := (ByteStream.read?_eq_some_iff (length.trans_le fits')).mpr all
  exact ⟨fresh, by omega, readable, again, ⟨length, fits'⟩, by omega⟩

theorem Takes.take_of_not_readable (takes : held.Takes limits name m data)
    (larger : limits ≤ limits') (last : ¬Readable limits') :
    held.take limits' name m = .error .overflow := by
  obtain ⟨fresh, few, -, -, ⟨-, fits⟩, -⟩ := takes
  obtain ⟨entries, entryBytes, -⟩ := larger
  rw [UInt64.le_iff_toNat_le] at entries entryBytes
  have bound : addSizes limits'.maxEntryBytes.toNat 1 = .error .overflow := if_neg last
  unfold take
  rw [if_neg (by simpa using fresh), if_neg (by omega), if_neg (by omega), bound]
  rfl

theorem Takes.take_larger (takes : held.Takes limits name m data) (larger : limits ≤ limits') :
    held.take limits' name m =
      if Readable limits' then .ok ⟨⟨name, data⟩ :: held.entries, held.bytes + data.length⟩
      else .error .overflow := by
  split
  next readable => exact take_eq_ok_iff_takes.mpr ⟨data, takes.of_larger larger readable, rfl⟩
  next last => exact takes.take_of_not_readable larger last

end Kept

/-- A member either changes nothing, whatever the limits, or is taken under some name. -/
theorem Kept.add_cases (added : held.add limits ignore m = .ok next) :
    (next = held ∧ ∀ limits', held.add limits' ignore m = .ok held) ∨
    ∃ name, held.take limits name m = .ok next ∧
      ∀ limits', held.add limits' ignore m = held.take limits' name m := by
  unfold add at *
  cases read : safeComponents m.path with
  | error fault => simp [read, bind, Except.bind] at added
  | ok parts =>
    simp only [read, bind, Except.bind] at added ⊢
    split at added
    next skipped => exact .inl ⟨(Except.ok.inj added).symm, fun _ => if_pos skipped⟩
    next chosen => exact .inr ⟨_, added, fun _ => if_neg chosen⟩

theorem foldlM_add_larger (larger : limits ≤ limits')
    (run : members.foldlM (Kept.add limits ignore) held = .ok next) : ∃ new,
      next.entries = new ++ held.entries ∧
      members.foldlM (Kept.add limits' ignore) held =
        if Readable limits' ∨ new = [] then .ok next else .error .overflow := by
  induction members generalizing held with
  | nil =>
    obtain rfl := Except.ok.inj run
    exact ⟨[], rfl, (if_pos (.inr rfl)).symm⟩
  | cons m members ih =>
    rw [List.foldlM_cons, Except.bind_eq_ok_iff] at run
    obtain ⟨reached, first, rest⟩ := run
    obtain ⟨new, entries, after⟩ := ih rest
    obtain ⟨rfl, skipped⟩ | ⟨name, taken, same⟩ := Kept.add_cases first
    · exact ⟨new, entries, by rw [List.foldlM_cons, skipped]; exact after⟩
    · obtain ⟨data, takes, rfl⟩ := Kept.take_eq_ok_iff_takes.mp taken
      refine ⟨new ++ [⟨name, data⟩], by simpa using entries, ?_⟩
      rw [List.foldlM_cons, same, takes.take_larger larger]
      by_cases readable : Readable limits'
      · simpa [readable, bind, Except.bind] using after
      · simp [readable, bind, Except.bind]

namespace Kept

/-- The size is that of the entries, and within the limit. -/
structure Tallied (limits : Limits) (held : Kept) : Prop where
  bytes_eq : held.bytes = (held.entries.map fun e => e.data.length).sum
  small : held.bytes ≤ limits.maxTotalBytes.toNat

theorem Takes.tallied (takes : held.Takes limits name m data) (tallied : held.Tallied limits) :
    Tallied limits ⟨⟨name, data⟩ :: held.entries, held.bytes + data.length⟩ where
  bytes_eq := by simp [tallied.bytes_eq, Nat.add_comm]
  small := takes.small

end Kept

theorem tallied_of_foldlM_add (tallied : held.Tallied limits)
    (run : members.foldlM (Kept.add limits ignore) held = .ok next) : next.Tallied limits := by
  induction members generalizing held with
  | nil =>
    obtain rfl := Except.ok.inj run
    exact tallied
  | cons m members ih =>
    rw [List.foldlM_cons, Except.bind_eq_ok_iff] at run
    obtain ⟨reached, first, rest⟩ := run
    obtain ⟨rfl, -⟩ | ⟨name, taken, -⟩ := Kept.add_cases first
    · exact ih tallied rest
    · obtain ⟨data, takes, rfl⟩ := Kept.take_eq_ok_iff_takes.mp taken
      exact ih (takes.tallied tallied) rest

variable {listing : Tar.Listing} {entries : List Entry}

theorem select_eq_ok_iff :
    select limits ignore listing = .ok entries ↔ ∃ held,
      listing.members.foldlM (Kept.add limits ignore) {} = .ok held ∧
        listing.sound ∧ entries = held.entries.reverse := by
  rw [select, Except.bind_eq_ok_iff]
  refine exists_congr fun held => and_congr_right fun _ => ?_
  by_cases ends : listing.sound
  · simp [ends, pure, Except.pure, eq_comm]
  · simp [ends, throw, throwThe, MonadExceptOf.throw]

theorem select_eq_of_larger (larger : limits ≤ limits')
    (taken : select limits ignore listing = .ok entries) : select limits' ignore listing =
      if Readable limits' ∨ entries = [] then .ok entries else .error .overflow := by
  obtain ⟨held, run, ends, rfl⟩ := select_eq_ok_iff.mp taken
  obtain ⟨new, same, again⟩ := foldlM_add_larger larger run
  rw [List.append_nil] at same
  have empty : held.entries.reverse = [] ↔ new = [] := by rw [same, List.reverse_eq_nil_iff]
  rw [select, again, if_congr (or_congr_right empty) rfl rfl]
  simp only [ends, if_true]
  split <;> rfl

theorem sum_lt_of_select (taken : select limits ignore listing = .ok entries) :
    (entries.map fun e => e.data.length).sum < UInt64.size := by
  obtain ⟨held, run, -, rfl⟩ := select_eq_ok_iff.mp taken
  have tallied : held.Tallied limits := tallied_of_foldlM_add ⟨rfl, Nat.zero_le _⟩ run
  rw [List.map_reverse, List.sum_reverse, ← tallied.bytes_eq]
  exact Nat.lt_of_le_of_lt tallied.small limits.maxTotalBytes.toNat_lt

/-- Entries that are taken within some limits are taken within larger ones, up to the largest
size of an entry that can still be told from what is beyond it. With the very largest size the
program breaks off as soon as there is an entry to take. The sizes of what is taken never add up
to more than 64 bits hold. -/
theorem select_larger (larger : limits ≤ limits')
    (taken : select limits ignore listing = .ok entries) :
    (Readable limits' → select limits' ignore listing = .ok entries) ∧
    (¬Readable limits' → select limits' ignore listing =
      match entries with
      | [] => .ok []
      | _ :: _ => .error .overflow) ∧
    (entries.map fun e => e.data.length).sum < UInt64.size := by
  have same := select_eq_of_larger larger taken
  refine ⟨fun readable => ?_, fun last => ?_, sum_lt_of_select taken⟩
  · rwa [if_pos (.inl readable)] at same
  · cases entries with
    | nil => rwa [if_pos (.inr rfl)] at same
    | cons e rest => rwa [if_neg (by simp [last])] at same

namespace Sample

/-- The limits of which no larger ones can be set. -/
def largest : Limits := ⟨18446744073709551615, 18446744073709551615, 18446744073709551615⟩

def files : Tar.Listing := ⟨[file "./b.json" [], file "dir//a.json" [0x5B, 0x5D]], true⟩

end Sample

/-- The same files within scant limits, the usual ones and the largest ones. -/
theorem select_larger_files : (⟨2, 2, 4⟩ : Limits) ≤ {} ∧ (⟨2, 2, 4⟩ : Limits) ≤ Sample.largest ∧
    select {} [] Sample.files = .ok [⟨"b.json", []⟩, ⟨"dir/a.json", [0x5B, 0x5D]⟩] ∧
    select Sample.largest [] Sample.files = .error .overflow := by
  have larger : (⟨2, 2, 4⟩ : Limits) ≤ {} := by decide
  have largest : (⟨2, 2, 4⟩ : Limits) ≤ Sample.largest := by decide
  have taken : select ⟨2, 2, 4⟩ [] Sample.files =
    .ok [⟨"b.json", []⟩, ⟨"dir/a.json", [0x5B, 0x5D]⟩] := by cbv
  exact ⟨larger, largest, (select_larger larger taken).1 (by decide),
    (select_larger largest taken).2.1 (by decide)⟩

/-- A file of two bytes, under settings that both pass the check. -/
theorem largest_limits_overflow : ¬∀ (limits limits' : Limits) (ignore : List String)
    (patterns : List NamePattern) (listing : Tar.Listing) (entries : List Entry),
    ({ limits, ignore } : Config).check = .ok () →
    ({ limits := limits', ignore } : Config).check = .ok () →
    ({ ignore } : Config).ignorePatterns = .ok patterns → limits ≤ limits' →
    select limits patterns listing = .ok entries →
    select limits' patterns listing = .ok entries := by
  intro kept
  have taken : select ⟨1, 2, 2⟩ [] ⟨[Sample.file "a.json" [0x7B, 0x7D]], true⟩ =
    .ok [⟨"a.json", [0x7B, 0x7D]⟩] := by cbv
  have broken : select Sample.largest [] ⟨[Sample.file "a.json" [0x7B, 0x7D]], true⟩ =
    .error .overflow := by cbv
  have again := kept ⟨1, 2, 2⟩ Sample.largest [] [] _ _ rfl rfl rfl (by decide) taken
  rw [broken] at again
  contradiction

end Archive

end WorkflowBundle
