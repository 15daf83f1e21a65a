import WorkflowBundle.Proofs.Index

/-! What indexing makes of any records whose entries differ. Of several records of one identifier
the one with the smallest entry is kept and every other one is reported against it; then every
reference of a kept record to what no record declares is reported. -/
namespace WorkflowBundle

/-- Pairs in the order of their first components, then of their second ones. -/
def lexicographic [Ord α] [Ord β] : α × β → α × β → Ordering :=
  compareLex (compareOn (·.1)) (compareOn (·.2))

namespace Record

variable {records : List Record} {a b r : Record} {id : EntityId}

theorem inOrder_iff : inOrder a b ↔ a.entry ≤ b.entry := by
  have swap : compare b.entry a.entry = (compare a.entry b.entry).swap := Std.OrientedCmp.eq_swap
  have lt : compare b.entry a.entry = .lt ↔ b.entry < a.entry := compareOfLessAndEq_eq_lt
  rw [inOrder, ← String.not_lt, ← lt, swap]
  cases compare a.entry b.entry <;> decide

/-- No record of the same identifier has a smaller entry. -/
def IsFirst (records : List Record) (r : Record) : Prop :=
  r ∈ records ∧ ∀ s ∈ records, s.id = r.id → r.entry ≤ s.entry

/-- In the order of entries the first record of an identifier is the one that is found. -/
theorem find?_id_eq_some_iff (sorted : records.Pairwise fun a b => a.entry < b.entry) :
    records.find? (·.id == id) = some r ↔ r.id = id ∧ r.IsFirst records := by
  induction records with
  | nil => simp [IsFirst]
  | cons s rest ih =>
    obtain ⟨above, sorted⟩ := List.pairwise_cons.mp sorted
    by_cases own : s.id = id
    · rw [List.find?_cons_of_pos (by simpa using own), Option.some.injEq]
      constructor
      · rintro rfl
        refine ⟨own, List.mem_cons_self, fun t member _ => ?_⟩
        rcases List.mem_cons.mp member with rfl | member
        · exact String.le_refl _
        · exact Std.le_of_lt (above t member)
      · rintro ⟨same, member, least⟩
        rcases List.mem_cons.mp member with rfl | later
        · rfl
        · have le := least s List.mem_cons_self (own.trans same.symm)
          exact absurd (above r later) (String.not_lt.mpr le)
    · rw [List.find?_cons_of_neg (by simpa using own), ih sorted]
      refine and_congr_right fun same => and_congr ?_ ?_
      · have differ : r ≠ s := by
          rintro rfl
          exact own same
        simp [differ]
      · have other : s.id ≠ r.id := same ▸ own
        simp [other]

theorem distinct_of_nodup (distinct : (records.map Record.entry).Nodup) :
    Ranking.Distinct inOrder records := by
  have apart := List.pairwise_map.mp (List.nodup_iff_pairwise_ne.mp distinct)
  refine apart.imp fun differ => ?_
  rw [← Bool.not_eq_true, tie_inOrder]
  exact differ

theorem pairwise_mergeSort (distinct : (records.map Record.entry).Nodup) :
    (records.mergeSort inOrder).Pairwise fun a b => a.entry < b.entry := by
  have perm := (List.mergeSort_perm records inOrder).map Record.entry
  have apart := List.pairwise_map.mp (perm.nodup_iff.mpr distinct)
  refine (ranking.pairwise_mergeSort records).imp₂ (fun a b le differ => ?_) apart
  exact Std.lt_of_le_of_ne (inOrder_iff.mp le) differ

end Record

namespace Index

variable {index : Index} {records : List Record} {first r : Record} {id missing : EntityId}

/-- What there is to report about the records: those that are not kept, each behind the kept one of
its identifier, and the references of kept ones to what no record declares, each behind the
identifier of the one that refers. -/
structure Accounts (records : List Record) (index : Index) (repeats : List (Record × Record))
    (dangling : List (EntityId × EntityId)) : Prop where
  declared : ∀ id, index.declares id ↔ ∃ r ∈ records, r.id = id
  kept : ∀ id r, index.records.get? id = some r ↔ r.id = id ∧ r.IsFirst records
  repeats_iff : ∀ first r, (first, r) ∈ repeats ↔
    r ∈ records ∧ index.records.get? r.id = some first ∧ first ≠ r
  repeats_ordered : repeats.Pairwise fun a b => a.2.entry < b.2.entry
  dangling_iff : ∀ id missing, (id, missing) ∈ dangling ↔
    (∃ r, index.records.get? id = some r ∧ r.entity.RefersTo missing) ∧
      ∀ s ∈ records, s.id ≠ missing
  dangling_ordered : dangling.Pairwise fun a b => lexicographic a b = .lt

/-- The index gives for an identifier what it had before, or else the first record. -/
theorem get?_addAll : (addAll records index).1.records.get? id =
    (index.records.get? id).or (records.find? (·.id == id)) := by
  induction records generalizing index with
  | nil => simp [addAll]
  | cons r records ih =>
    cases found : index.records.get? r.id with
    | none =>
      rw [addAll_cons_new found, ih]
      by_cases own : r.id = id
      · subst own
        simp [found]
      · rw [get?_insert_of_ne (Ne.symm own), List.find?_cons_of_neg (by simpa using own)]
    | some kept =>
      rw [addAll_cons_old found, ih]
      by_cases own : r.id = id
      · subst own
        simp [found]
      · rw [List.find?_cons_of_neg (by simpa using own)]

/-- The defects are about the records that the index does not get to keep. -/
theorem exists_repeats (nodup : records.Nodup)
    (apart : ∀ r ∈ records, index.records.get? r.id ≠ some r) :
    ∃ repeats : List (Record × Record),
      (addAll records index).2 =
        repeats.map (fun p => .duplicateEntity p.2.id p.1.entry p.2.entry) ∧
      (repeats.map Prod.snd).Sublist records ∧
      ∀ first r, (first, r) ∈ repeats ↔
        r ∈ records ∧ (addAll records index).1.records.get? r.id = some first ∧ first ≠ r := by
  induction records generalizing index with
  | nil => exact ⟨[], rfl, .slnil, by simp⟩
  | cons r records ih =>
    obtain ⟨new, nodup⟩ := List.nodup_cons.mp nodup
    have rest : ∀ s ∈ records, index.records.get? s.id ≠ some s :=
      fun s member => apart s (List.mem_cons_of_mem _ member)
    cases found : index.records.get? r.id with
    | none =>
      have apart' : ∀ s ∈ records, (index.insert r).records.get? s.id ≠ some s := by
        intro s member
        by_cases own : s.id = r.id
        · rw [own, get?_insert_self, ne_eq, Option.some.injEq]
          rintro rfl
          exact new member
        · rw [get?_insert_of_ne own]
          exact rest s member
      obtain ⟨repeats, same, sublist, listed⟩ := ih nodup apart'
      have own : (addAll records (index.insert r)).1.records.get? r.id = some r := by
        simp [get?_addAll]
      rw [addAll_cons_new found]
      refine ⟨repeats, same, sublist.cons r, fun first s => ?_⟩
      rw [listed, List.mem_cons, or_and_right, iff_or_self]
      rintro ⟨rfl, kept, differ⟩
      exact absurd (Option.some.inj (kept.symm.trans own)) differ
    | some kept =>
      obtain ⟨repeats, same, sublist, listed⟩ := ih nodup rest
      have own : (addAll records index).1.records.get? r.id = some kept := by
        simp [get?_addAll, found]
      have differ : kept ≠ r := by
        rintro rfl
        exact apart _ List.mem_cons_self found
      rw [addAll_cons_old found]
      refine ⟨(kept, r) :: repeats, by simp [same], sublist.cons_cons r, fun first s => ?_⟩
      simp only [List.mem_cons, Prod.mk.injEq, listed, or_and_right]
      refine or_congr_left ?_
      constructor
      · rintro ⟨rfl, rfl⟩
        exact ⟨rfl, own, differ⟩
      · rintro ⟨rfl, kept', -⟩
        exact ⟨Option.some.inj (kept'.symm.trans own), rfl⟩

theorem declares_build_iff : (build records).1.declares id ↔ ∃ r ∈ records, r.id = id := by
  simp [declares, SortedMap.contains, build_fst, get?_addAll]

/-- The references of the records in the index that lead nowhere. -/
def dangling (index : Index) : List (EntityId × EntityId) :=
  index.records.entries.flatMap fun e =>
    (e.2.entity.references.filter fun r => !index.declares r).map (e.1, ·)

theorem flatMap_unresolved :
    (index.records.entries.flatMap fun e => index.unresolved e.1 e.2.entity) =
      index.dangling.map fun p => .unresolvedReference p.1 p.2 := by
  simp [dangling, unresolved, List.map_flatMap, Function.comp_def]

theorem mem_dangling_iff : (id, missing) ∈ index.dangling ↔
    (∃ r, index.records.get? id = some r ∧ r.entity.RefersTo missing) ∧
      index.declares missing = false := by
  simp only [dangling, List.mem_flatMap, List.mem_map, List.mem_filter, Bool.not_eq_true',
    Entity.mem_references_iff, SortedMap.get?_eq_some_iff, Prod.exists, Prod.mk.injEq]
  constructor
  · rintro ⟨_, r, member, _, ⟨refers, absent⟩, rfl, rfl⟩
    exact ⟨⟨r, member, refers⟩, absent⟩
  · rintro ⟨⟨r, member, refers⟩, absent⟩
    exact ⟨id, r, member, missing, ⟨refers, absent⟩, rfl, rfl⟩

theorem pairwise_dangling : index.dangling.Pairwise fun a b => lexicographic a b = .lt := by
  refine List.pairwise_flatMap.mpr ⟨fun e _ => ?_, ?_⟩
  · have increasing : e.2.entity.references.Pairwise fun a b => compare a b = .lt :=
      List.pairwise_map.mpr (SortedMap.increasing _)
    refine List.pairwise_map.mpr ((increasing.filter _).imp fun lt => ?_)
    simpa [lexicographic, compareLex, compareOn] using lt
  · refine index.records.increasing.imp fun lt => ?_
    simp only [List.mem_map, forall_exists_index, and_imp]
    rintro _ _ _ rfl _ _ _ rfl
    simp [lexicographic, compareLex, compareOn, lt]

/-- Records whose entries differ are indexed alike in whatever order they come. -/
theorem build_eq_of_perm {others : List Record} (distinct : (records.map Record.entry).Nodup)
    (perm : records.Perm others) : build records = build others :=
  build_congr (Record.ranking.mergeSort_perm (Record.distinct_of_nodup distinct) perm)

theorem accounts_build (distinct : (records.map Record.entry).Nodup) :
    ∃ repeats dangling, Accounts records (build records).1 repeats dangling ∧
      (build records).2 =
        repeats.map (fun p => .duplicateEntity p.2.id p.1.entry p.2.entry) ++
          dangling.map fun p => .unresolvedReference p.1 p.2 := by
  have sorted := Record.pairwise_mergeSort distinct
  have nodup : (records.mergeSort Record.inOrder).Nodup :=
    sorted.imp fun {a b} lt (same : a = b) => String.lt_irrefl _ (same ▸ lt)
  obtain ⟨repeats, same, sublist, listed⟩ := @exists_repeats {} _ nodup (by simp)
  refine ⟨repeats, (build records).1.dangling, ⟨fun id => declares_build_iff,
    fun id r => ?_, fun first r => ?_, ?_, fun id missing => ?_, pairwise_dangling⟩, ?_⟩
  · simp only [build_fst, get?_addAll, SortedMap.get?_empty, Option.none_or,
      Record.find?_id_eq_some_iff sorted, Record.IsFirst, List.mem_mergeSort]
  · rw [listed, List.mem_mergeSort, build_fst]
  · have ordered := sorted.sublist sublist
    rwa [List.pairwise_map] at ordered
  · rw [mem_dangling_iff, ← Bool.not_eq_true, declares_build_iff]
    simp
  · rw [build_snd, same, flatMap_unresolved]

/-- Of every identifier the record with the smallest entry is indexed. Reported are exactly its
other records, in the order of their entries, and then the references of indexed records to what no
record declares, in the order of their identifiers. The order in which the records come does not
matter. -/
theorem build_accounted (distinct : (records.map Record.entry).Nodup) :
    (∃ repeats dangling, Accounts records (build records).1 repeats dangling ∧
      (build records).2 =
        repeats.map (fun p => .duplicateEntity p.2.id p.1.entry p.2.entry) ++
          dangling.map fun p => .unresolvedReference p.1 p.2) ∧
    ∀ others, records.Perm others → build records = build others :=
  ⟨accounts_build distinct, fun _ => build_eq_of_perm distinct⟩

namespace Sample

def task (name : String) : EntityId := ⟨.task, "p", "d", name, "1"⟩

def workflow (name : String) : EntityId := ⟨.workflow, "p", "d", name, "1"⟩

/-- A workflow that calls a task in both arms of a branch. -/
def caller (name called : String) : Entity :=
  .workflow {
    id := workflow name
    interface := ⟨.empty, .empty⟩
    nodes := [.branch ⟨"n", [], []⟩
      (.comparison (.literal (.boolean true)) .eq (.literal (.boolean true)))
      (.call ⟨"a", [], []⟩ .task (task called)) (.call ⟨"b", [], []⟩ .task (task called))] }

def callee (name : String) : Entity := .task { id := task name, interface := ⟨.empty, .empty⟩ }

/-- Two records of one workflow and two of one task. Of the workflow only the record with the
greater entry refers to what is declared. -/
def repeated : List Record :=
  [⟨"e", callee "t"⟩, ⟨"d", caller "v" "s"⟩, ⟨"c", caller "w" "t"⟩, ⟨"b", callee "t"⟩,
    ⟨"a", caller "w" "u"⟩]

end Sample

theorem build_accounted_repeated : (Sample.repeated.map Record.entry).Nodup ∧
    (∃ repeats dangling, Accounts Sample.repeated (build Sample.repeated).1 repeats dangling ∧
      (build Sample.repeated).2 =
        repeats.map (fun p => .duplicateEntity p.2.id p.1.entry p.2.entry) ++
          dangling.map fun p => .unresolvedReference p.1 p.2) ∧
    (build Sample.repeated).2 =
      [.duplicateEntity (Sample.workflow "w") "a" "c", .duplicateEntity (Sample.task "t") "b" "e",
        .unresolvedReference (Sample.workflow "v") (Sample.task "s"),
        .unresolvedReference (Sample.workflow "w") (Sample.task "u")] := by
  have distinct : (Sample.repeated.map Record.entry).Nodup := by decide
  obtain ⟨accounted, alike⟩ := build_accounted distinct
  have sorted : Sample.repeated.reverse.mergeSort Record.inOrder = Sample.repeated.reverse :=
    List.mergeSort_of_pairwise (by decide)
  refine ⟨distinct, accounted, ?_⟩
  rw [alike _ (List.reverse_perm _).symm, build_snd, build_fst, sorted]
  rfl

end Index

end WorkflowBundle
