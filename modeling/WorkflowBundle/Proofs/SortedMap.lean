import Mathlib.Data.List.Basic
import WorkflowBundle.SortedMap

/-! Laws of sorted maps. A map is the same as what it gives for every key, so operations are
described by what they do to lookups, and by where a new entry lands in the traversal. -/
namespace WorkflowBundle

namespace Entries

variable {κ : Type u} {β : Type v} [Ord κ]

theorem insert_last [Std.TransOrd κ] {entries : Entries κ β} {key : κ} {value : β}
    (last : ∀ e ∈ entries, compare e.1 key = .lt) :
    entries.insert key value = entries ++ [(key, value)] := by
  induction entries with
  | nil => rfl
  | cons head rest ih =>
    obtain ⟨other, kept⟩ := head
    rw [List.forall_mem_cons] at last
    have after : compare key other = .gt := Std.OrientedCmp.gt_iff_lt.mpr last.1
    rw [insert, after]
    simp only [ih last.2, List.cons_append]

/-- Entries in key order go to their places one behind the other. -/
theorem foldl_insert [Std.TransOrd κ] {before entries : Entries κ β}
    (increasing : (before ++ entries).Increasing) :
    entries.foldl (fun m e => m.insert e.1 e.2) before = before ++ entries := by
  induction entries generalizing before with
  | nil => simp
  | cons e rest ih =>
    have last : ∀ other ∈ before, compare other.1 e.1 = .lt :=
      fun other among => (List.pairwise_append.mp increasing).2.2 other among e List.mem_cons_self
    rw [List.foldl_cons, insert_last last, ih]
    · simp
    · simpa using increasing

variable [Std.LawfulEqOrd κ]

theorem Increasing.nodup {entries : Entries κ β} (h : entries.Increasing) : entries.Nodup := by
  refine List.Pairwise.imp ?_ h
  rintro a b lt rfl
  simp at lt

theorem Increasing.nodup_keys {entries : Entries κ β} (h : entries.Increasing) :
    (entries.map (·.1)).Nodup := by
  refine List.pairwise_map.mpr (List.Pairwise.imp ?_ h)
  intro a b lt same
  simp [same] at lt

theorem get?_eq_some_iff {entries : Entries κ β} (h : entries.Increasing) {key : κ} {value : β} :
    entries.get? key = some value ↔ (key, value) ∈ entries := by
  induction entries with
  | nil => simp [get?]
  | cons head rest ih =>
    obtain ⟨other, kept⟩ := head
    obtain ⟨above, tail⟩ := List.pairwise_cons.mp h
    by_cases same : key = other
    · subst same
      have absent : (key, value) ∉ rest := fun member => by simpa using above _ member
      simp [get?, absent, eq_comm]
    · have differ : compare key other ≠ .eq := fun eq => same (Std.LawfulEqOrd.eq_of_compare eq)
      simp [get?, differ, ih tail, same]

/-- Two increasing lists with the same entries are one list. -/
theorem Increasing.ext [Std.TransOrd κ] {xs ys : Entries κ β} (hx : xs.Increasing) (hy : ys.Increasing)
    (same : ∀ e, e ∈ xs ↔ e ∈ ys) : xs = ys := by
  have perm := (List.perm_ext_iff_of_nodup hx.nodup hy.nodup).mpr same
  refine List.Perm.eq_of_pairwise (fun a b _ _ lt gt => ?_) hx hy perm
  simp [Std.OrientedCmp.gt_of_lt gt] at lt

theorem insert_split (key : κ) (value : β) {entries : Entries κ β}
    (absent : ∀ e ∈ entries, e.1 ≠ key) :
    ∃ before after, entries = before ++ after ∧
      entries.insert key value = before ++ (key, value) :: after := by
  induction entries with
  | nil => exact ⟨[], [], rfl, rfl⟩
  | cons head rest ih =>
    obtain ⟨other, kept⟩ := head
    unfold Entries.insert
    split
    next => exact ⟨[], _, rfl, rfl⟩
    next eq =>
      have same := Std.LawfulEqOrd.eq_of_compare eq
      exact absurd same.symm (absent (other, kept) (by simp))
    next =>
      obtain ⟨before, after, eq, inserted⟩ := ih fun e he => absent e (by simp [he])
      exact ⟨(other, kept) :: before, after, by simp [eq], by simp [inserted]⟩

end Entries

namespace SortedMap

variable {κ : Type u} {β : Type v} {γ : Type w} [Ord κ]
variable {m n : SortedMap κ β} {key other : κ} {value : β}

theorem contains_iff : m.contains key ↔ ∃ value, m.get? key = some value := by
  simp [contains, Option.isSome_iff_exists]

/-- A function that keeps every key changes what is seen of the entries one by one. -/
theorem map_entries_filterMap {δ : Type x} {f : κ → β → Option γ} {before : κ × β → δ}
    {after : κ × γ → δ}
    (kept : ∀ e ∈ m.entries, ∃ value, f e.1 e.2 = some value ∧ after (e.1, value) = before e) :
    (m.filterMap f).entries.map after = m.entries.map before := by
  simp only [filterMap, List.map_filterMap]
  rw [← List.filterMap_eq_map']
  refine List.filterMap_congr fun e he => ?_
  obtain ⟨value, eq, same⟩ := kept e he
  simp [eq, same]

theorem entries_foldl_insert [Std.TransOrd κ] {entries : Entries κ β} (m : SortedMap κ β) :
    (entries.foldl (fun m e => m.insert e.1 e.2) m).entries =
      entries.foldl (fun m e => Entries.insert e.1 e.2 m) m.entries := by
  induction entries generalizing m with
  | nil => rfl
  | cons e rest ih => exact ih (m.insert e.1 e.2)

theorem entries_ofList [Std.TransOrd κ] {entries : Entries κ β} (increasing : entries.Increasing) :
    (SortedMap.ofList entries).entries = entries := by
  rw [ofList, entries_foldl_insert]
  exact @Entries.foldl_insert _ _ _ _ [] entries increasing

theorem mem_of_mem_foldl_insert [Std.TransOrd κ] {entries : List (κ × β)} {e : κ × β}
    (among : e ∈ (entries.foldl (fun m e => m.insert e.1 e.2) m).entries) :
    e ∈ m.entries ∨ e ∈ entries := by
  induction entries generalizing m with
  | nil => exact .inl among
  | cons head rest ih =>
    rcases ih among with old | later
    · rcases Entries.mem_insert old with rfl | old
      · exact .inr List.mem_cons_self
      · exact .inl old
    · exact .inr (List.mem_cons_of_mem _ later)

theorem mem_of_mem_ofList [Std.TransOrd κ] {entries : List (κ × β)} {e : κ × β}
    (among : e ∈ (ofList entries).entries) : e ∈ entries := by
  rcases mem_of_mem_foldl_insert among with none | listed
  · contradiction
  · exact listed

/-- A map is what its entries make, put into their places anew. -/
theorem ofList_entries [Std.TransOrd κ] (m : SortedMap κ β) : SortedMap.ofList m.entries = m :=
  SortedMap.ext (entries_ofList m.increasing)

variable [Std.LawfulEqOrd κ]

theorem get?_eq_some_iff : m.get? key = some value ↔ (key, value) ∈ m.entries :=
  Entries.get?_eq_some_iff m.increasing

theorem get?_eq_none_iff : m.get? key = none ↔ key ∉ m.keys := by
  simp only [Option.eq_none_iff_forall_ne_some, ne_eq, get?_eq_some_iff, keys, List.mem_map]
  constructor
  · rintro h ⟨e, he, rfl⟩
    exact h e.2 he
  · exact fun h value he => h ⟨_, he, rfl⟩

theorem contains_iff_mem_keys : m.contains key ↔ key ∈ m.keys := by
  rw [contains, Option.isSome_iff_ne_none, ne_eq, get?_eq_none_iff]
  exact Classical.not_not

theorem nodup_keys (m : SortedMap κ β) : m.keys.Nodup := m.increasing.nodup_keys

theorem get?_map (f : β → γ) : (m.map f).get? key = (m.get? key).map f := by
  refine Option.ext fun value => ?_
  rw [get?_eq_some_iff]
  simp only [map, List.mem_map, Prod.mk.injEq, Option.map_eq_some_iff, get?_eq_some_iff]
  constructor
  · rintro ⟨e, he, rfl, rfl⟩
    exact ⟨e.2, he, rfl⟩
  · rintro ⟨v, hv, rfl⟩
    exact ⟨_, hv, rfl, rfl⟩

theorem get?_filterMap (f : κ → β → Option γ) :
    (m.filterMap f).get? key = (m.get? key).bind (f key) := by
  refine Option.ext fun value => ?_
  rw [get?_eq_some_iff]
  simp only [filterMap, List.mem_filterMap, Option.map_eq_some_iff, Prod.mk.injEq,
    Option.bind_eq_some_iff, get?_eq_some_iff]
  constructor
  · rintro ⟨e, he, v, hv, rfl, rfl⟩
    exact ⟨e.2, he, hv⟩
  · rintro ⟨v, hv, hf⟩
    exact ⟨_, hv, value, hf, rfl, rfl⟩

theorem get?_erase_self : (m.erase key).get? key = none := by
  simp [get?_eq_none_iff, keys, erase]

theorem get?_erase_of_ne (h : other ≠ key) : (m.erase key).get? other = m.get? other := by
  have differ : compare key other ≠ .eq := fun eq => h (Std.LawfulEqOrd.eq_of_compare eq).symm
  refine Option.ext fun value => ?_
  simp [get?_eq_some_iff, erase, differ]

variable [Std.TransOrd κ]

theorem ext_get? (same : ∀ key, m.get? key = n.get? key) : m = n := by
  refine SortedMap.ext (m.increasing.ext n.increasing fun (key, value) => ?_)
  rw [← get?_eq_some_iff, ← get?_eq_some_iff, same]

/-- A map without values is what its keys are. -/
theorem ext_keys {m n : SortedMap κ Unit} (same : ∀ key, key ∈ m.keys ↔ key ∈ n.keys) : m = n := by
  have listed : ∀ (m : SortedMap κ Unit) key, m.get? key = some () ↔ key ∈ m.keys := by
    intro m key
    rw [← contains_iff_mem_keys, contains_iff]
    exact ⟨fun found => ⟨(), found⟩, fun ⟨(), found⟩ => found⟩
  apply ext_get?
  intro key
  apply Option.ext
  rintro ⟨⟩
  rw [listed, listed, same]

@[simp] theorem get?_insert_self : (m.insert key value).get? key = some value := by
  simp [get?_insert]

theorem get?_insert_of_ne (h : other ≠ key) : (m.insert key value).get? other = m.get? other := by
  rw [get?_insert, if_neg fun eq => h (Std.LawfulEqOrd.eq_of_compare eq)]

theorem contains_insert_of_ne (h : other ≠ key) :
    (m.insert key value).contains other = m.contains other := by
  simp [contains, get?_insert_of_ne h]

theorem insert_comm {first second : β} (h : key ≠ other) :
    (m.insert key first).insert other second = (m.insert other second).insert key first := by
  refine ext_get? fun k => ?_
  by_cases hk : k = key
  · subst hk
    rw [get?_insert_of_ne h, get?_insert_self, get?_insert_self]
  · by_cases ho : k = other
    · subst ho
      rw [get?_insert_self, get?_insert_of_ne hk, get?_insert_self]
    · rw [get?_insert_of_ne ho, get?_insert_of_ne hk, get?_insert_of_ne hk, get?_insert_of_ne ho]

/-- A new key comes in at one place of the traversal; the rest stays as it is. -/
theorem insert_split (value : β) (absent : m.get? key = none) :
    ∃ before after, m.entries = before ++ after ∧
      (m.insert key value).entries = before ++ (key, value) :: after := by
  refine Entries.insert_split key value fun e he same => ?_
  rw [get?_eq_none_iff] at absent
  exact absent (List.mem_map.mpr ⟨e, he, same⟩)

theorem mem_keys_ofList {entries : List (κ × β)} :
    key ∈ (ofList entries).keys ↔ ∃ value, (key, value) ∈ entries := by
  have general : ∀ m : SortedMap κ β,
      key ∈ (entries.foldl (fun m e => m.insert e.1 e.2) m).keys ↔
        key ∈ m.keys ∨ ∃ value, (key, value) ∈ entries := by
    induction entries with
    | nil => simp
    | cons e entries ih =>
      intro m
      have inserted : key ∈ (m.insert e.1 e.2).keys ↔ key = e.1 ∨ key ∈ m.keys := by
        simp only [← contains_iff_mem_keys]
        by_cases same : key = e.1
        · subst same
          simp [contains]
        · simp [contains_insert_of_ne same, same]
      rw [List.foldl_cons, ih, inserted]
      constructor
      · rintro ((rfl | kept) | ⟨value, member⟩)
        · exact .inr ⟨e.2, by simp⟩
        · exact .inl kept
        · exact .inr ⟨value, by simp [member]⟩
      · rintro (kept | ⟨value, member⟩)
        · exact .inl (.inr kept)
        · rcases List.mem_cons.mp member with rfl | member
          · exact .inl (.inl rfl)
          · exact .inr ⟨value, member⟩
  rw [ofList, general]
  simp [empty, keys]

end SortedMap

end WorkflowBundle
