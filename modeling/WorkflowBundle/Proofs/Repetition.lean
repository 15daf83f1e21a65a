import Mathlib.Data.List.Perm.Subperm

/-! Lists without repeated elements: leaving out repetitions gives one, and gives back the
list itself when nothing is repeated. -/
namespace WorkflowBundle

theorem eraseDupsBy_of_pairwise {same : α → α → Bool} {list : List α}
    (h : list.Pairwise fun a b => same b a = false) : list.eraseDupsBy same = list := by
  induction list with
  | nil => rfl
  | cons a list ih =>
    obtain ⟨apart, rest⟩ := List.pairwise_cons.mp h
    rw [List.eraseDupsBy_cons, List.filter_eq_self.mpr (by simpa using apart), ih rest]

theorem eraseDups_of_nodup [BEq α] [LawfulBEq α] {list : List α} (distinct : list.Nodup) :
    list.eraseDups = list := by
  apply eraseDupsBy_of_pairwise
  exact (List.nodup_iff_pairwise_ne.mp distinct).imp fun differ =>
    beq_eq_false_iff_ne.mpr (Ne.symm differ)

theorem eraseDupsBy_subset (same : α → α → Bool) (list : List α) :
    list.eraseDupsBy same ⊆ list := by
  match list with
  | [] => simp
  | a :: list =>
    rw [List.eraseDupsBy_cons]
    have rest := eraseDupsBy_subset same (list.filter fun b => same b a = false)
    exact List.cons_subset_cons a (List.Subset.trans rest (List.filter_subset_self list))
  termination_by list.length
  decreasing_by exact Nat.lt_add_one_of_le (List.length_filter_le _ _)

theorem nodup_eraseDups [BEq α] [LawfulBEq α] (list : List α) : list.eraseDups.Nodup := by
  match list with
  | [] => simp
  | a :: list =>
    rw [List.eraseDups_cons]
    have shorter : (list.filter fun b => !b == a).length < list.length + 1 :=
      Nat.lt_add_one_of_le (List.length_filter_le _ list)
    refine List.nodup_cons.mpr ⟨by simp, nodup_eraseDups _⟩
  termination_by list.length

/-- A list without repetition in which every element of another one stands is at least as
long; if it is no longer, it has no other elements. -/
theorem mem_of_nodup_of_length_le {list bound : List α} (nodup : list.Nodup)
    (inside : list ⊆ bound) (long : bound.length ≤ list.length) : bound ⊆ list :=
  ((List.subperm_of_subset nodup inside).perm_of_length_le long).symm.subset

/-- In whatever order the elements come, of those that pass the test one or none is found. -/
theorem filter_eq_of_perm {test : α → Bool} {xs ys : List α} (perm : xs.Perm ys)
    (few : (xs.filter test).length ≤ 1) : xs.filter test = ys.filter test := by
  have same := perm.filter test
  match eq : xs.filter test with
  | [] => rw [eq] at same; exact same.nil_eq
  | [a] => rw [eq] at same; exact List.singleton_perm.mp same
  | a :: b :: rest => rw [eq] at few; simp at few

theorem find?_eq_of_perm {test : α → Bool} {xs ys : List α} (perm : xs.Perm ys)
    (few : (xs.filter test).length ≤ 1) : xs.find? test = ys.find? test := by
  rw [← List.head?_filter, ← List.head?_filter, filter_eq_of_perm perm few]

end WorkflowBundle
