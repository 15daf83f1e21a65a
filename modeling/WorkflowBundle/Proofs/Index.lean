import WorkflowBundle.Proofs.Entity
import WorkflowBundle.Proofs.StableSort

/-! The index of a bundle: every record is listed under its own identifier, and what is not
listed has been reported. -/
namespace WorkflowBundle

namespace Record

def id (r : Record) : EntityId := r.entity.id

def inOrder (a b : Record) : Bool := (compare a.entry b.entry).isLE

theorem ranking : Ranking inOrder :=
  Ranking.of_cmp (compareOn fun r : Record => r.entry)

theorem tie_inOrder {a b : Record} : Ranking.tie inOrder a b ↔ a.entry = b.entry := by
  refine (Ranking.tie_iff_eq (compareOn fun r : Record => r.entry)).trans ?_
  exact ⟨Std.LawfulEqOrd.eq_of_compare, fun same => by simp [compareOn, same]⟩

end Record

namespace Index

variable {index : Index} {records : List Record} {id : EntityId} {e : Entity}

/-- Every record stands under its own identifier, and its identifiers fit its kind. -/
structure Coherent (index : Index) : Prop where
  keyed : ∀ id r, index.records.get? id = some r → r.id = id
  identified : ∀ id r, index.records.get? id = some r → r.entity.Identified

def insert (index : Index) (r : Record) : Index := ⟨index.records.insert r.id r⟩

@[simp] theorem get?_insert_self {r : Record} : (index.insert r).records.get? r.id = some r :=
  SortedMap.get?_insert_self

theorem get?_insert_of_ne {r : Record} (h : id ≠ r.id) :
    (index.insert r).records.get? id = index.records.get? id := SortedMap.get?_insert_of_ne h

theorem insert_comm {r s : Record} (h : r.id ≠ s.id) :
    (index.insert r).insert s = (index.insert s).insert r :=
  congrArg Index.mk (SortedMap.insert_comm h)

theorem entries_insert {r : Record} (new : index.records.get? r.id = none) :
    ∃ before after, index.records.entries = before ++ after ∧
      (index.insert r).records.entries = before ++ (r.id, r) :: after :=
  SortedMap.insert_split r new

theorem Coherent.empty : Coherent {} := ⟨fun _ _ h => by simp at h, fun _ _ h => by simp at h⟩

theorem Coherent.insert (coherent : index.Coherent) {r : Record} (identified : r.entity.Identified) :
    (index.insert r).Coherent := by
  constructor <;> intro id s h <;> by_cases same : id = r.id
  · subst same
    rw [get?_insert_self, Option.some.injEq] at h
    exact h ▸ rfl
  · exact coherent.keyed id s (by rwa [get?_insert_of_ne same] at h)
  · subst same
    rw [get?_insert_self, Option.some.injEq] at h
    exact h ▸ identified
  · exact coherent.identified id s (by rwa [get?_insert_of_ne same] at h)

/-- Taking in a record: it becomes the one of its identifier, or there is one already. -/
theorem addAll_cons_new {r : Record} (new : index.records.get? r.id = none) :
    addAll (r :: records) index = addAll records (index.insert r) := by
  simp only [addAll]
  split
  next kept => rw [Record.id, kept] at new; contradiction
  next => rfl

theorem addAll_cons_old {r kept : Record} (old : index.records.get? r.id = some kept) :
    addAll (r :: records) index = ((addAll records index).1,
      .duplicateEntity r.id kept.entry r.entry :: (addAll records index).2) := by
  simp only [addAll]
  split
  next other found =>
    obtain rfl := Option.some.inj (found.symm.trans old)
    rfl
  next none => rw [Record.id, none] at old; contradiction

theorem addAll_coherent (coherent : index.Coherent)
    (identified : ∀ r ∈ records, r.entity.Identified) : (addAll records index).1.Coherent := by
  induction records generalizing index with
  | nil => exact coherent
  | cons r records ih =>
    have rest : ∀ r ∈ records, r.entity.Identified := fun s hs => identified s (by simp [hs])
    cases found : index.records.get? r.id with
    | none =>
      rw [addAll_cons_new found]
      exact ih (coherent.insert (identified r (by simp))) rest
    | some kept =>
      rw [addAll_cons_old found]
      exact ih coherent rest

/-- Without a duplicate every record is listed, and nothing else is. -/
theorem addAll_perm (none : (addAll records index).2 = []) :
    (addAll records index).1.records.entries.Perm
      (records.map (fun r => (r.id, r)) ++ index.records.entries) := by
  induction records generalizing index with
  | nil => exact .refl _
  | cons r records ih =>
    cases found : index.records.get? r.id with
    | none =>
      rw [addAll_cons_new found] at none ⊢
      obtain ⟨before, after, eq, inserted⟩ := entries_insert found
      refine (ih none).trans ?_
      rw [inserted, eq]
      refine (List.Perm.append_left _ List.perm_middle).trans ?_
      exact List.perm_middle
    | some kept =>
      rw [addAll_cons_old found] at none
      contradiction

/-- Nothing is listed but what has been taken in. -/
theorem mem_of_get?_addAll {r : Record}
    (h : (addAll records index).1.records.get? id = some r) :
    r ∈ records ∨ index.records.get? id = some r := by
  induction records generalizing index with
  | nil => exact .inr h
  | cons s records ih =>
    cases found : index.records.get? s.id with
    | none =>
      rw [addAll_cons_new found] at h
      rcases ih h with member | inserted
      · exact .inl (List.mem_cons_of_mem _ member)
      · by_cases same : id = s.id
        · rw [same, get?_insert_self, Option.some.injEq] at inserted
          exact .inl (by simp [inserted])
        · exact .inr (by rwa [get?_insert_of_ne same] at inserted)
    | some kept =>
      rw [addAll_cons_old found] at h
      exact (ih h).imp_left (List.mem_cons_of_mem _)

/-- A record of another identifier makes no difference to those that are taken in after it. -/
theorem addAll_insert {r : Record} (apart : ∀ s ∈ records, s.id ≠ r.id) :
    addAll records (index.insert r) =
      ((addAll records index).1.insert r, (addAll records index).2) := by
  induction records generalizing index with
  | nil => rfl
  | cons s records ih =>
    have differ := apart s (by simp)
    have rest : ∀ s ∈ records, s.id ≠ r.id := fun t ht => apart t (by simp [ht])
    have looked : (index.insert r).records.get? s.id = index.records.get? s.id :=
      get?_insert_of_ne differ
    cases found : index.records.get? s.id with
    | none =>
      rw [addAll_cons_new found, addAll_cons_new (looked.trans found), ← ih rest,
        insert_comm differ.symm]
    | some kept => rw [addAll_cons_old found, addAll_cons_old (looked.trans found), ih rest]

/-- The same wherever among the records the other one stands. -/
theorem addAll_middle {r : Record} {before after : List Record}
    (apart : ∀ s ∈ before ++ after, s.id ≠ r.id) (new : index.records.get? r.id = none) :
    addAll (before ++ r :: after) index =
      ((addAll (before ++ after) index).1.insert r, (addAll (before ++ after) index).2) := by
  induction before generalizing index with
  | nil =>
    rw [List.nil_append, addAll_cons_new new]
    exact addAll_insert apart
  | cons s before ih =>
    have differ := apart s (by simp)
    have rest : ∀ s ∈ before ++ after, s.id ≠ r.id := fun t ht => apart t (by simp_all)
    rw [List.cons_append, List.cons_append]
    cases found : index.records.get? s.id with
    | none =>
      have new' : (index.insert s).records.get? r.id = none := by
        rwa [get?_insert_of_ne differ.symm]
      rw [addAll_cons_new found, addAll_cons_new found, ih rest new']
    | some kept => rw [addAll_cons_old found, addAll_cons_old found, ih rest new]

/-- A duplicate is reported about the identifier of one of the records. -/
theorem entity?_of_mem_addAll {d : Defect} (h : d ∈ (addAll records index).2) :
    ∃ r ∈ records, d.entity? = some r.id := by
  induction records generalizing index with
  | nil => simp [addAll] at h
  | cons r records ih =>
    cases found : index.records.get? r.id with
    | none =>
      rw [addAll_cons_new found] at h
      obtain ⟨s, hs, eq⟩ := ih h
      exact ⟨s, by simp [hs], eq⟩
    | some kept =>
      rw [addAll_cons_old found] at h
      rcases List.mem_cons.mp h with rfl | h
      · exact ⟨r, by simp, rfl⟩
      · obtain ⟨s, hs, eq⟩ := ih h
        exact ⟨s, by simp [hs], eq⟩

theorem build_fst : (build records).1 = (addAll (records.mergeSort Record.inOrder) {}).1 := rfl

theorem build_snd : (build records).2 = (addAll (records.mergeSort Record.inOrder) {}).2 ++
    (build records).1.records.entries.flatMap
      fun e => (build records).1.unresolved e.1 e.2.entity := rfl

/-- Of the records nothing counts but their sort. -/
theorem build_congr {others : List Record}
    (same : records.mergeSort Record.inOrder = others.mergeSort Record.inOrder) :
    build records = build others := by
  have first : (build records).1 = (build others).1 := by rw [build_fst, build_fst, same]
  refine Prod.ext first ?_
  rw [build_snd, build_snd, first, same]

theorem build_coherent (identified : ∀ r ∈ records, r.entity.Identified) :
    (build records).1.Coherent :=
  addAll_coherent .empty fun r hr => identified r (List.mem_mergeSort.mp hr)

/-- With nothing reported the index lists exactly the records, each under its identifier. -/
theorem build_perm (none : (build records).2 = []) :
    (build records).1.records.entries.Perm (records.map fun r => (r.id, r)) := by
  rw [build_snd, List.append_eq_nil_iff] at none
  refine (addAll_perm none.1).trans ?_
  simpa [SortedMap.empty] using (List.mergeSort_perm records Record.inOrder).map _

theorem get?_eq_some_iff : index.get? id = some e ↔
    ∃ r, index.records.get? id = some r ∧ r.entity = e := by
  simp [get?]

theorem declares_iff : index.declares id ↔ ∃ e, index.get? id = some e := by
  simp [declares, SortedMap.contains_iff, get?]

theorem mem_ids_iff : id ∈ index.ids ↔ ∃ e, index.get? id = some e := by
  rw [ids, ← SortedMap.contains_iff_mem_keys, ← declares_iff]
  rfl

namespace Coherent

variable (coherent : index.Coherent)
include coherent

theorem id_eq (h : index.get? id = some e) : e.id = id := by
  obtain ⟨r, found, rfl⟩ := get?_eq_some_iff.mp h
  exact coherent.keyed id r found

theorem identified_of_get? (h : index.get? id = some e) : e.Identified := by
  obtain ⟨r, found, rfl⟩ := get?_eq_some_iff.mp h
  exact coherent.identified id r found

theorem mem_entities_iff : e ∈ index.entities ↔ index.get? e.id = some e := by
  simp only [entities, SortedMap.values, List.map_map, List.mem_map, Function.comp,
    get?_eq_some_iff]
  constructor
  · rintro ⟨⟨id, r⟩, member, rfl⟩
    have found := SortedMap.get?_eq_some_iff.mpr member
    exact ⟨r, coherent.keyed id r found ▸ found, rfl⟩
  · rintro ⟨r, found, rfl⟩
    exact ⟨_, SortedMap.get?_eq_some_iff.mp found, rfl⟩

theorem map_id_entities : index.entities.map Entity.id = index.ids := by
  simp only [entities, SortedMap.values, ids, SortedMap.keys, List.map_map]
  refine List.map_congr_left ?_
  rintro ⟨id, r⟩ member
  exact coherent.keyed id r (SortedMap.get?_eq_some_iff.mpr member)

theorem nodup_ids_entities : (index.entities.map Entity.id).Nodup :=
  coherent.map_id_entities ▸ SortedMap.nodup_keys _

end Coherent

/-- With nothing reported everything that is referred to is declared. -/
theorem declares_of_build (none : (build records).2 = []) (h : (build records).1.get? id = some e)
    {reference : EntityId} (refers : e.RefersTo reference) :
    ∃ target, (build records).1.get? reference = some target := by
  obtain ⟨r, found, rfl⟩ := get?_eq_some_iff.mp h
  rw [build_snd, List.append_eq_nil_iff, List.flatMap_eq_nil_iff] at none
  have all := none.2 _ (SortedMap.get?_eq_some_iff.mp found)
  simp only [unresolved, List.map_eq_nil_iff, List.filter_eq_nil_iff, Bool.not_eq_true',
    Bool.not_eq_false] at all
  exact declares_iff.mp (all reference (Entity.mem_references_iff.mpr refers))

end Index

end WorkflowBundle
