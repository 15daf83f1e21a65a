import WorkflowBundle.Proofs.Archive.Paths
import WorkflowBundle.Proofs.Entity

/-! Which archives are taken into memory, and what is taken from them. One member is refused or
taken for what it is and for what was kept before it; over a whole archive that leaves a
condition on its members alone. -/
namespace WorkflowBundle

/-- Reading one byte beyond what was expected tells whether there is more. -/
theorem ByteStream.read?_eq_some_iff {s : ByteStream} {data : List UInt8} {n : Nat}
    (fits : data.length ≤ n) : s.read? (n + 1) = some data ↔ s.sound ∧ s.bytes = data := by
  simp only [read?, Option.ite_none_right_eq_some, Bool.or_eq_true, beq_iff_eq,
    Option.some.injEq]
  constructor
  · rintro ⟨ends, rfl⟩
    rw [List.length_take] at fits ends
    exact ⟨ends.resolve_right (by omega), (List.take_of_length_le (by omega)).symm⟩
  · rintro ⟨sound, rfl⟩
    exact ⟨.inl sound, List.take_of_length_le (by omega)⟩

namespace Archive

variable {limits : Limits} {ignore : List NamePattern} {members : List Tar.Member}
  {m : Tar.Member}

/-- The last part of a name. -/
def fileName (name : String) : String := String.ofList ((name.toList.splitOn '/').getLastD [])

/-- Files are kept unless a pattern covers their name, or its last part. -/
def keeps (ignore : List NamePattern) (m : Tar.Member) : Bool :=
  m.kind = .file && ignore.all fun p =>
    !p.covers (nameOf m.path) && !p.covers (fileName (nameOf m.path))

def kept (ignore : List NamePattern) (members : List Tar.Member) : List Tar.Member :=
  members.filter (keeps ignore)

def entryOf (m : Tar.Member) : Entry := ⟨nameOf m.path, m.content.bytes⟩

/-- Everything that is asked of the members of an archive. -/
structure Acceptable (limits : Limits) (ignore : List NamePattern) (members : List Tar.Member) :
    Prop where
  contained : ∀ m ∈ members, Contained m.path
  distinct : ((kept ignore members).map fun m => nameOf m.path).Nodup
  few : (kept ignore members).length ≤ limits.maxEntries.toNat
  whole : ∀ m ∈ kept ignore members,
    m.content.bytes.length = m.size ∧ m.size ≤ limits.maxEntryBytes.toNat
  small : ((kept ignore members).map Tar.Member.size).sum ≤ limits.maxTotalBytes.toNat

/-- One byte beyond the largest size of an entry is a number of 64 bits. -/
def Readable (limits : Limits) : Prop := limits.maxEntryBytes.toNat + 1 < UInt64.size

instance (limits : Limits) : Decidable (Readable limits) := Nat.decLt _ _

theorem addSizes_of_lt {a b : Nat} (fits : a + b < UInt64.size) : addSizes a b = .ok (a + b) :=
  if_pos fits

theorem addSizes_eq_ok_iff {a b sum : Nat} :
    addSizes a b = .ok sum ↔ a + b < UInt64.size ∧ sum = a + b := by
  unfold addSizes
  split
  next fits => simp [fits, eq_comm]
  next large => simp [large]

namespace Kept

/-- What is held after the members. -/
def after (ignore : List NamePattern) (members : List Tar.Member) : Kept :=
  ⟨((kept ignore members).map entryOf).reverse,
    ((kept ignore members).map Tar.Member.size).sum⟩

/-- The member is whole, and there is room for it beside what was kept. -/
structure Admits (limits : Limits) (held : Kept) (m : Tar.Member) : Prop where
  fresh : ∀ e ∈ held.entries, e.name ≠ nameOf m.path
  few : held.entries.length < limits.maxEntries.toNat
  whole : m.content.bytes.length = m.size ∧ m.size ≤ limits.maxEntryBytes.toNat
  small : held.bytes + m.size ≤ limits.maxTotalBytes.toNat

/-- The member is taken for an entry with that name and these contents. -/
structure Takes (limits : Limits) (held : Kept) (name : String) (m : Tar.Member)
    (data : List UInt8) : Prop where
  fresh : ∀ e ∈ held.entries, e.name ≠ name
  few : held.entries.length < limits.maxEntries.toNat
  readable : Readable limits
  read : m.content.read? (limits.maxEntryBytes.toNat + 1) = some data
  whole : data.length = m.size ∧ m.size ≤ limits.maxEntryBytes.toNat
  small : held.bytes + data.length ≤ limits.maxTotalBytes.toNat

/-- What one member does when a name below the root was found for it. -/
theorem take_eq_ok_iff_takes {held next : Kept} {name : String} :
    held.take limits name m = .ok next ↔ ∃ data, held.Takes limits name m data ∧
      next = ⟨⟨name, data⟩ :: held.entries, held.bytes + data.length⟩ := by
  constructor
  · intro taken
    -- each check was passed, and neither sum left 64 bits
    unfold take at taken
    split at taken
    · contradiction
    next fresh =>
    split at taken
    · contradiction
    next few =>
    split at taken
    · contradiction
    next fits =>
    obtain ⟨bound, sum, taken⟩ := Except.bind_eq_ok_iff.mp taken
    obtain ⟨readable, rfl⟩ := addSizes_eq_ok_iff.mp sum
    split at taken
    · contradiction
    next data read =>
    split at taken
    · contradiction
    next same =>
    obtain ⟨bytes, sum, taken⟩ := Except.bind_eq_ok_iff.mp taken
    obtain ⟨-, rfl⟩ := addSizes_eq_ok_iff.mp sum
    split at taken
    · contradiction
    next small =>
    exact ⟨data, ⟨by simpa using fresh, by omega, readable, read, by omega, by omega⟩,
      (Except.ok.inj taken).symm⟩
  · rintro ⟨data, ⟨fresh, few, readable, read, ⟨length, fits⟩, small⟩, rfl⟩
    have sum : held.bytes + data.length < UInt64.size :=
      Nat.lt_of_le_of_lt small limits.maxTotalBytes.toNat_lt
    unfold take
    rw [if_neg (by simpa using fresh), if_neg (by omega), if_neg (by omega),
      addSizes_of_lt readable]
    simp only [bind, Except.bind, read]
    rw [if_neg (by omega), addSizes_of_lt sum]
    exact if_neg (by omega)

theorem take_eq_ok_iff {held next : Kept} (sound : m.content.sound)
    (readable : Readable limits) : held.take limits (nameOf m.path) m = .ok next ↔
      held.Admits limits m ∧ next = ⟨entryOf m :: held.entries, held.bytes + m.size⟩ := by
  rw [take_eq_ok_iff_takes]
  constructor
  · rintro ⟨data, ⟨fresh, few, -, read, ⟨length, fits⟩, small⟩, rfl⟩
    obtain ⟨-, rfl⟩ := (ByteStream.read?_eq_some_iff (length.trans_le fits)).mp read
    exact ⟨⟨fresh, few, ⟨length, fits⟩, by omega⟩, by rw [length]; rfl⟩
  · rintro ⟨⟨fresh, few, ⟨length, fits⟩, small⟩, rfl⟩
    have read := (ByteStream.read?_eq_some_iff (length.trans_le fits)).mpr ⟨sound, rfl⟩
    exact ⟨_, ⟨fresh, few, readable, read, ⟨length, fits⟩, by omega⟩, by rw [length]; rfl⟩

end Kept

theorem fileName_nameOf (contained : Contained m.path) :
    fileName (nameOf m.path) = ((components m.path).map Utf8.lossy).getLastD "" := by
  rw [fileName, splitOn_nameOf contained, List.getLastD_eq_getLast?, List.getLastD_eq_getLast?,
    List.getLast?_map, List.getLast?_map]
  cases (components m.path).getLast? <;> simp

theorem keeps_eq (contained : Contained m.path) : keeps ignore m =
    !(m.kind ≠ .file || isIgnored ignore ((components m.path).map Utf8.lossy)) := by
  rw [keeps, isIgnored, fileName_nameOf contained]
  simp [nameOf, List.all_eq_not_any_not]

/-- What one member does. -/
theorem Kept.add_eq_ok_iff {held next : Kept} (sound : m.content.sound)
    (readable : Readable limits) :
    held.add limits ignore m = .ok next ↔ Contained m.path ∧
      if keeps ignore m then
        held.Admits limits m ∧ next = ⟨entryOf m :: held.entries, held.bytes + m.size⟩
      else next = held := by
  by_cases contained : Contained m.path
  · rw [add, safeComponents_eq_ok_iff.mpr ⟨contained, rfl⟩, keeps_eq contained]
    simp only [contained, true_and, bind, Except.bind, Bool.not_eq_true']
    split
    next skipped =>
      simp only [skipped, pure, Except.pure, Except.ok.injEq, reduceCtorEq, if_false]
      exact eq_comm
    next taken =>
      rw [Bool.not_eq_true] at taken
      rw [taken, if_pos rfl]
      exact Kept.take_eq_ok_iff sound readable
  · cases read : safeComponents m.path with
    | ok parts => exact absurd (safeComponents_eq_ok_iff.mp read).1 contained
    | error fault => simp [add, read, contained, bind, Except.bind]

theorem kept_append_kept (taken : keeps ignore m) :
    kept ignore (members ++ [m]) = kept ignore members ++ [m] := by
  simp [kept, List.filter_append, taken]

theorem kept_append_skipped (skipped : ¬keeps ignore m) :
    kept ignore (members ++ [m]) = kept ignore members := by
  simp [kept, List.filter_append, skipped]

theorem Kept.mem_entries_after {e : Entry} :
    e ∈ (Kept.after ignore members).entries ↔ ∃ m ∈ kept ignore members, entryOf m = e := by
  simp [Kept.after]

/-- A member at the end asks for itself only. -/
theorem acceptable_append_singleton : Acceptable limits ignore (members ++ [m]) ↔
    Acceptable limits ignore members ∧ Contained m.path ∧
      (keeps ignore m → (Kept.after ignore members).Admits limits m) := by
  by_cases taken : keeps ignore m
  · constructor
    · rintro ⟨contained, distinct, few, whole, small⟩
      simp only [kept_append_kept taken] at distinct few whole small
      simp only [List.map_append, List.map_singleton, List.sum_append, List.sum_singleton]
        at distinct small
      simp only [List.length_append, List.length_singleton, List.forall_mem_append,
        List.forall_mem_singleton] at contained few whole
      obtain ⟨apart, -, fresh⟩ := List.nodup_append.mp distinct
      refine ⟨⟨contained.1, apart, by omega, whole.1, by omega⟩, contained.2, fun _ => ?_⟩
      refine ⟨?_, by simpa [Kept.after] using few, whole.2, small⟩
      simp only [Kept.mem_entries_after]
      rintro _ ⟨other, among, rfl⟩
      exact fresh _ (List.mem_map_of_mem among) _ List.mem_cons_self
    · rintro ⟨⟨contained, distinct, few, whole, small⟩, stays, admits⟩
      have admits := admits taken
      have fresh : ∀ other ∈ kept ignore members, nameOf other.path ≠ nameOf m.path :=
        fun other among => admits.fresh _ (Kept.mem_entries_after.mpr ⟨other, among, rfl⟩)
      have room := admits.few
      have sum := admits.small
      simp only [Kept.after, List.length_reverse, List.length_map] at room sum
      constructor
      · exact List.forall_mem_append.mpr ⟨contained, List.forall_mem_singleton.mpr stays⟩
      all_goals rw [kept_append_kept taken]
      · rw [List.map_append, List.nodup_append]
        refine ⟨distinct, List.nodup_singleton _, ?_⟩
        simpa using fresh
      · rw [List.length_append, List.length_singleton]
        omega
      · exact List.forall_mem_append.mpr ⟨whole, List.forall_mem_singleton.mpr admits.whole⟩
      · simpa using sum
  · simp only [taken, Bool.false_eq_true, false_imp_iff, and_true]
    constructor
    · rintro ⟨contained, distinct, few, whole, small⟩
      simp only [kept_append_skipped taken] at distinct few whole small
      simp only [List.forall_mem_append, List.forall_mem_singleton] at contained
      exact ⟨⟨contained.1, distinct, few, whole, small⟩, contained.2⟩
    · rintro ⟨⟨contained, distinct, few, whole, small⟩, stays⟩
      constructor
      · exact List.forall_mem_append.mpr ⟨contained, List.forall_mem_singleton.mpr stays⟩
      all_goals rwa [kept_append_skipped taken]

theorem Kept.after_append_singleton : Kept.after ignore (members ++ [m]) =
    if keeps ignore m then ⟨entryOf m :: (Kept.after ignore members).entries,
      (Kept.after ignore members).bytes + m.size⟩
    else Kept.after ignore members := by
  split
  next taken => simp [Kept.after, kept_append_kept taken]
  next skipped => simp [Kept.after, kept_append_skipped skipped]

/-- What all members do. -/
theorem foldlM_add {next : Kept} (sound : ∀ m ∈ members, m.content.sound)
    (readable : Readable limits) :
    members.foldlM (Kept.add limits ignore) {} = .ok next ↔
      Acceptable limits ignore members ∧ next = Kept.after ignore members := by
  induction members using List.reverseRecOn generalizing next with
  | nil =>
    have acceptable : Acceptable limits ignore [] := by constructor <;> simp [kept]
    simp only [List.foldlM_nil, pure, Except.pure, Except.ok.injEq, acceptable, true_and]
    exact eq_comm
  | append_singleton members m ih =>
    rw [List.forall_mem_append, List.forall_mem_singleton] at sound
    rw [List.foldlM_append, acceptable_append_singleton, Kept.after_append_singleton]
    rw [Except.bind_eq_ok_iff]
    simp only [ih sound.1, List.foldlM_cons, List.foldlM_nil, bind_pure,
      Kept.add_eq_ok_iff sound.2 readable, and_assoc, exists_and_left, exists_eq_left]
    by_cases taken : keeps ignore m
    · simp only [taken, if_true, true_imp_iff]
    · simp only [taken, Bool.false_eq_true, if_false, false_imp_iff, true_and]

/-- An archive is taken in exactly if all its members stay inside, and what is kept is whole,
within the limits and of different names. The entries are then what is kept, in the order of the
archive. No part of a name leads elsewhere, and the path that a name spells has that name. -/
theorem select_spec (listing : Tar.Listing) (ignore : List NamePattern) (limits : Limits)
    (sound : listing.sound ∧ ∀ m ∈ listing.members, m.content.sound)
    (bounded : limits.maxEntryBytes.toNat < UInt64.size - 1) :
    (∀ entries, select limits ignore listing = .ok entries ↔
      Acceptable limits ignore listing.members ∧
        entries = (kept ignore listing.members).map entryOf) ∧
    (∀ entries, select limits ignore listing = .ok entries → ∀ e ∈ entries,
      (∀ part ∈ e.name.toList.splitOn '/', part ≠ [] ∧ part ≠ ['.'] ∧ part ≠ ['.', '.']) ∧
      (safeComponents (Utf8.encode e.name)).map
        (fun parts => "/".intercalate (parts.map Utf8.lossy)) = .ok e.name) ∧
    ∀ data, data.take 2 = Gzip.magic → Tar.list (Gzip.decompress data) = listing →
      unpack limits ignore data = select limits ignore listing := by
  have run (entries : List Entry) : select limits ignore listing = .ok entries ↔
      Acceptable limits ignore listing.members ∧
        entries = (kept ignore listing.members).map entryOf := by
    have readable : Readable limits := Nat.add_lt_of_lt_sub bounded
    simp only [select, Except.bind_eq_ok_iff, foldlM_add sound.2 readable, sound.1, if_true, pure,
      Except.pure, and_assoc, exists_and_left, exists_eq_left, Except.ok.injEq]
    simp [Kept.after, eq_comm]
  refine ⟨run, ?_, ?_⟩
  · intro entries taken e among
    obtain ⟨acceptable, rfl⟩ := (run entries).mp taken
    obtain ⟨m, chosen, rfl⟩ := List.mem_map.mp among
    have contained := acceptable.contained m (List.mem_of_mem_filter chosen)
    refine ⟨fun part within => ?_, safeComponents_encode_nameOf contained⟩
    rw [entryOf, splitOn_nameOf contained] at within
    obtain ⟨piece, among, rfl⟩ := List.mem_map.mp within
    obtain ⟨filled, moving, below⟩ := lossy_ne contained among
    exact ⟨String.toList_inj.ne.mpr filled, String.toList_inj.ne.mpr moving,
      String.toList_inj.ne.mpr below⟩
  · rintro data magic rfl
    rw [unpack, if_pos (by simp [magic])]

namespace Sample

def file (path : String) (data : List UInt8) : Tar.Member :=
  ⟨path.toList.map fun c => c.toNat.toUInt8, .file, data.length, ⟨data, true⟩⟩

/-- A file in a folder, a file beside it under a longer spelling of its path, and a file that is
not wanted and would not fit. -/
def listing : Tar.Listing where
  members := [file "./b.json" [0x7B, 0x7D],
    { file "dir/" [] with kind := .directory },
    file "dir/README.md" [0x68, 0x69, 0x21],
    file "dir//./a.json" [0x5B, 0x5D]]
  sound := true

/-- Everything below `README`, by its first letters. -/
def unwanted : List NamePattern := [⟨[.char 'R', .char 'E', .anyText]⟩]

end Sample

theorem select_listing :
    select ⟨2, 2, 4⟩ Sample.unwanted Sample.listing =
      .ok [⟨"b.json", [0x7B, 0x7D]⟩, ⟨"dir/a.json", [0x5B, 0x5D]⟩] := by
  have chosen : kept Sample.unwanted Sample.listing.members =
      [Sample.file "./b.json" [0x7B, 0x7D], Sample.file "dir//./a.json" [0x5B, 0x5D]] := by cbv
  have names : (kept Sample.unwanted Sample.listing.members).map (fun m => nameOf m.path) =
      ["b.json", "dir/a.json"] := by cbv
  refine ((select_spec Sample.listing Sample.unwanted ⟨2, 2, 4⟩ (by decide) (by decide)).1 _).mpr
    ⟨⟨by decide +kernel, ?_, ?_, ?_, ?_⟩, by cbv⟩
  · rw [names]
    decide
  all_goals
    rw [chosen]
    decide

end Archive

end WorkflowBundle
