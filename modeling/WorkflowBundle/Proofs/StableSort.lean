import Mathlib.Data.List.Basic
import WorkflowBundle.Proofs.Repetition

/-! Laws of the stable sort. What a stable sort gives is fixed by the elements of each rank in
their order, so it does not see how elements of different ranks were mixed, and leaving
elements out before or after makes no difference. -/
namespace WorkflowBundle

/-- A reflexive, transitive and total test, by which lists can be sorted. -/
structure Ranking (le : α → α → Bool) : Prop where
  trans : ∀ a b c, le a b → le b c → le a c
  total : ∀ a b, le a b || le b a

namespace Ranking

variable {α : Type u} {le : α → α → Bool}

/-- Neither element goes before the other. -/
def tie (le : α → α → Bool) (a b : α) : Bool := le a b && le b a

theorem of_cmp (cmp : α → α → Ordering) [Std.TransCmp cmp] :
    Ranking fun a b => (cmp a b).isLE where
  trans _ _ _ := Std.TransCmp.isLE_trans
  total a b := by
    have swap : cmp b a = (cmp a b).swap := Std.OrientedCmp.eq_swap
    rw [swap]
    cases cmp a b <;> rfl

theorem tie_iff_eq (cmp : α → α → Ordering) [Std.OrientedCmp cmp] {a b : α} :
    tie (fun a b => (cmp a b).isLE) a b ↔ cmp a b = .eq := by
  have swap : cmp b a = (cmp a b).swap := Std.OrientedCmp.eq_swap
  rw [tie, swap]
  cases cmp a b <;> decide

theorem refl (ranking : Ranking le) (a : α) : le a a := by
  simpa using ranking.total a a

theorem tie_refl (ranking : Ranking le) (a : α) : tie le a a := by
  simp [tie, ranking.refl a]

theorem tie_congr (ranking : Ranking le) {a b c : α} (h : tie le a b) :
    tie le a c = tie le b c := by
  obtain ⟨ab, ba⟩ := Bool.and_eq_true_iff.mp h
  rw [Bool.eq_iff_iff]
  simp only [tie, Bool.and_eq_true]
  constructor
  · rintro ⟨ac, ca⟩
    exact ⟨ranking.trans _ _ _ ba ac, ranking.trans _ _ _ ca ab⟩
  · rintro ⟨bc, cb⟩
    exact ⟨ranking.trans _ _ _ ab bc, ranking.trans _ _ _ cb ba⟩

theorem mem_of_ties (ranking : Ranking le) {xs ys : List α} {a : α}
    (same : xs.filter (tie le a) = ys.filter (tie le a)) (member : a ∈ xs) : a ∈ ys := by
  have kept := List.mem_filter.mpr ⟨member, ranking.tie_refl a⟩
  rw [same] at kept
  exact (List.mem_filter.mp kept).1

theorem head_le (ranking : Ranking le) {a b : α} {xs : List α} (least : ∀ b ∈ xs, le a b)
    (member : b ∈ a :: xs) : le a b := by
  rcases List.mem_cons.mp member with rfl | rest
  · exact ranking.refl _
  · exact least b rest

/-- Sorted lists that agree on the elements of each rank are equal. -/
theorem eq_of_ties (ranking : Ranking le) {xs ys : List α} (hx : xs.Pairwise (le · ·))
    (hy : ys.Pairwise (le · ·)) (same : ∀ a, xs.filter (tie le a) = ys.filter (tie le a)) :
    xs = ys := by
  induction xs generalizing ys with
  | nil =>
    cases ys with
    | nil => rfl
    | cons y ys => simpa [ranking.tie_refl y] using same y
  | cons x xs ih =>
    cases ys with
    | nil => simpa [ranking.tie_refl x] using same x
    | cons y ys =>
      obtain ⟨xLeast, restX⟩ := List.pairwise_cons.mp hx
      obtain ⟨yLeast, restY⟩ := List.pairwise_cons.mp hy
      -- Each head is in the other list, so neither goes before the other.
      have xy := ranking.head_le xLeast (ranking.mem_of_ties (same y).symm List.mem_cons_self)
      have yx := ranking.head_le yLeast (ranking.mem_of_ties (same x) List.mem_cons_self)
      have tied : tie le x y := by simp [tie, xy, yx]
      have heads := same x
      simp only [List.filter_cons, ranking.tie_refl x, tied, if_true, List.cons.injEq] at heads
      obtain ⟨rfl, -⟩ := heads
      congr 1
      refine ih restX restY fun a => ?_
      have rest := same a
      by_cases h : tie le a x <;> simpa [List.filter_cons, h] using rest

theorem exists_least (ranking : Ranking le) {xs : List α} (some : xs ≠ []) :
    ∃ a ∈ xs, ∀ b ∈ xs, le a b := by
  induction xs with
  | nil => contradiction
  | cons x xs ih =>
    by_cases last : xs = []
    · exact ⟨x, by simp, by simp [last, ranking.refl]⟩
    · obtain ⟨a, ha, least⟩ := ih last
      rcases Bool.or_eq_true_iff.mp (ranking.total x a) with xa | ax
      · refine ⟨x, by simp, fun b hb => ?_⟩
        rcases List.mem_cons.mp hb with rfl | hb
        · exact ranking.refl _
        · exact ranking.trans _ _ _ xa (least b hb)
      · exact ⟨a, by simp [ha], by simpa [ax] using least⟩

theorem pairwise_mergeSort (ranking : Ranking le) (xs : List α) :
    (xs.mergeSort le).Pairwise (le · ·) :=
  List.pairwise_mergeSort ranking.trans ranking.total xs

/-- Elements of one rank keep their order. -/
theorem filter_tie_mergeSort (ranking : Ranking le) (xs : List α) (a : α) :
    (xs.mergeSort le).filter (tie le a) = xs.filter (tie le a) := by
  have tied : (xs.filter (tie le a)).Pairwise (le · ·) := by
    refine List.Pairwise.imp_of_mem ?_ (List.pairwise_of_forall (R := fun _ _ => True) (by simp))
    intro b c hb hc _
    have ab := (List.mem_filter.mp hb).2
    have ac := (List.mem_filter.mp hc).2
    simp only [tie, Bool.and_eq_true] at ab ac
    exact ranking.trans _ _ _ ab.2 ac.1
  have sub := List.sublist_mergeSort ranking.trans ranking.total tied List.filter_sublist
  have kept := sub.filter (tie le a)
  rw [List.filter_filter] at kept
  simp only [Bool.and_self] at kept
  refine (kept.eq_of_length ?_).symm
  exact ((List.mergeSort_perm xs le).filter _).length_eq.symm

/-- Sorting does not see how elements of different rank are mixed. -/
theorem mergeSort_congr (ranking : Ranking le) {xs ys : List α}
    (same : ∀ a, xs.filter (tie le a) = ys.filter (tie le a)) :
    xs.mergeSort le = ys.mergeSort le := by
  refine ranking.eq_of_ties (ranking.pairwise_mergeSort xs) (ranking.pairwise_mergeSort ys) ?_
  intro a
  rw [ranking.filter_tie_mergeSort, ranking.filter_tie_mergeSort, same a]

/-- Leaving elements out of a sorted list is the same as leaving them out first. -/
theorem filter_mergeSort (ranking : Ranking le) (xs : List α) (p : α → Bool) :
    (xs.mergeSort le).filter p = (xs.filter p).mergeSort le := by
  refine ranking.eq_of_ties ((ranking.pairwise_mergeSort xs).sublist List.filter_sublist)
    (ranking.pairwise_mergeSort _) fun a => ?_
  calc ((xs.mergeSort le).filter p).filter (tie le a)
      = ((xs.mergeSort le).filter (tie le a)).filter p := by
        simp only [List.filter_filter, Bool.and_comm]
    _ = (xs.filter (tie le a)).filter p := by rw [ranking.filter_tie_mergeSort]
    _ = (xs.filter p).filter (tie le a) := by simp only [List.filter_filter, Bool.and_comm]
    _ = ((xs.filter p).mergeSort le).filter (tie le a) := by rw [ranking.filter_tie_mergeSort]

/-- An element that can be told apart comes in at one place of the sorted list. -/
theorem mergeSort_insert (ranking : Ranking le) {xs ys : List α} (a : α) (p : α → Bool)
    (new : p a = false) (old : ∀ b ∈ xs ++ ys, p b = true) :
    ∃ before after, (xs ++ a :: ys).mergeSort le = before ++ a :: after ∧
      (xs ++ ys).mergeSort le = before ++ after := by
  have member : a ∈ (xs ++ a :: ys).mergeSort le := List.mem_mergeSort.mpr (by simp)
  obtain ⟨before, after, sorted⟩ := List.append_of_mem member
  refine ⟨before, after, sorted, ?_⟩
  have perm : (before ++ after).Perm (xs ++ ys) := by
    have perm := List.mergeSort_perm (xs ++ a :: ys) le
    rw [sorted] at perm
    exact (List.perm_middle.symm.trans (perm.trans List.perm_middle)).cons_inv
  have kept : ∀ b ∈ before ++ after, p b = true := fun b hb => old b (perm.subset hb)
  have filtered := ranking.filter_mergeSort (xs ++ a :: ys) p
  rw [sorted, List.filter_append, List.filter_cons_of_neg (by simp [new]), ← List.filter_append,
    List.filter_eq_self.mpr kept, List.filter_append, List.filter_cons_of_neg (by simp [new]),
    ← List.filter_append, List.filter_eq_self.mpr old] at filtered
  exact filtered.symm

/-- No two elements of the list have the same rank. -/
def Distinct (le : α → α → Bool) (xs : List α) : Prop :=
  xs.Pairwise fun a b => tie le a b = false

theorem Distinct.length_filter (ranking : Ranking le) {xs : List α} (h : Distinct le xs) (a : α) :
    (xs.filter (tie le a)).length ≤ 1 := by
  have apart := List.Pairwise.sublist (List.filter_sublist (p := tie le a)) h
  match eq : xs.filter (tie le a) with
  | [] => simp
  | [_] => simp
  | b :: c :: rest =>
    rw [eq] at apart
    have members : ∀ d ∈ b :: c :: rest, tie le a d := by
      rw [← eq]
      exact fun d hd => (List.mem_filter.mp hd).2
    have bc := List.rel_of_pairwise_cons apart (List.mem_cons_self ..)
    rw [← ranking.tie_congr (members b (by simp)), members c (by simp)] at bc
    contradiction

/-- Elements of different ranks may come in any order. -/
theorem filter_tie_perm (ranking : Ranking le) {xs ys : List α} (h : Distinct le xs)
    (perm : xs.Perm ys) (a : α) : xs.filter (tie le a) = ys.filter (tie le a) :=
  filter_eq_of_perm perm (h.length_filter ranking a)

theorem mergeSort_perm (ranking : Ranking le) {xs ys : List α} (h : Distinct le xs)
    (perm : xs.Perm ys) : xs.mergeSort le = ys.mergeSort le :=
  ranking.mergeSort_congr (ranking.filter_tie_perm h perm)

end Ranking

end WorkflowBundle
