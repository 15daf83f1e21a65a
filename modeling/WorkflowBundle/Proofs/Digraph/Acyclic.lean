import WorkflowBundle.Proofs.Digraph.Reach

/-! Graphs without closed walks. The depth-first order of such a graph leads forward: a vertex
is done after all that it leads to, because a successor that still waits would close a walk. -/
namespace WorkflowBundle.Digraph

variable {α : Type u} {g : Digraph α} {v w : Nat}

def Acyclic (g : Digraph α) : Prop := ∀ v, ¬g.Leads v v

/-- The successors of each vertex stand behind it. -/
def Settled (g : Digraph α) : List Nat → Prop
  | [] => True
  | v :: rest => (∀ w ∈ g.successors v, w ∈ rest) ∧ g.Settled rest

theorem Settled.mem {list : List Nat} (settled : g.Settled list) (member : v ∈ list)
    (edge : (v, w) ∈ g.edges) : w ∈ list := by
  induction list with
  | nil => contradiction
  | cons u rest ih =>
    obtain ⟨first, settled⟩ := settled
    rcases List.mem_cons.mp member with rfl | member
    · exact List.mem_cons_of_mem _ (first w (mem_successors.mpr edge))
    · exact List.mem_cons_of_mem _ (ih settled member)

theorem Settled.idxOf_lt {list : List Nat} (settled : g.Settled list) (nodup : list.Nodup)
    (member : v ∈ list) (edge : (v, w) ∈ g.edges) : list.idxOf v < list.idxOf w := by
  induction list with
  | nil => contradiction
  | cons u rest ih =>
    obtain ⟨first, settled⟩ := settled
    obtain ⟨apart, nodup⟩ := List.nodup_cons.mp nodup
    have differ : ∀ x ∈ rest, (u == x) = false := fun x hx =>
      beq_eq_false_iff_ne.mpr fun same => apart (same ▸ hx)
    rcases List.mem_cons.mp member with rfl | member
    · have behind := first w (mem_successors.mpr edge)
      simp [List.idxOf_cons, differ w behind]
    · have lt := ih settled nodup member
      have behind := settled.mem member edge
      simp only [List.idxOf_cons, differ v member, differ w behind, cond_false]
      omega

namespace Search

/-- A state in which the given vertices can be visited one after the other: each vertex that
waits leads to them, and there is fuel for the vertices not yet met. -/
structure Ready (g : Digraph α) (fuel : Nat) (s : Search) (targets : List Nat) : Prop where
  valid : s.Valid g
  nodup : s.met.Nodup
  settled : g.Settled s.done
  leads : ∀ u ∈ s.met, u ∉ s.done → ∀ v ∈ targets, g.Leads u v
  enough : g.labels.length ≤ fuel + s.met.length

variable {fuel : Nat} {s s' : Search} {targets : List Nat}

/-- A vertex to visit that has been met is done, for it would lead to itself. -/
theorem Ready.done_of_met (ready : Ready g fuel s targets) (acyclic : g.Acyclic)
    (target : v ∈ targets) (met : v ∈ s.met) : v ∈ s.done := by
  by_contra waits
  exact acyclic v (ready.leads v met waits v target)

theorem Extends.done (ext : s.Extends s') (valid : s.Valid g) (h : v ∈ s.done) : v ∈ s'.done := by
  by_contra waits
  exact (ext.waiting v (ext.met v (valid.done_met v h)) waits).2 h

theorem Extends.length_met (ext : s.Extends s') (nodup : s.met.Nodup) :
    s.met.length ≤ s'.met.length :=
  (List.subperm_of_subset nodup ext.met).length_le

/-- A vertex that is met leaves its successors to be visited. -/
theorem Ready.meet (ready : Ready g (fuel + 1) s [v]) (range : v < g.labels.length)
    (new : v ∉ s.met) : Ready g fuel { s with met := v :: s.met } (g.successors v) := by
  refine ⟨ready.valid.meet range, List.nodup_cons.mpr ⟨new, ready.nodup⟩, ready.settled,
    fun u met waits w hw => ?_, ?_⟩
  · have edge := mem_successors.mp hw
    rcases List.mem_cons.mp met with rfl | met
    · exact .single edge
    · exact (ready.leads u met waits v (by simp)).tail edge
  · have := ready.enough
    simp only [List.length_cons]
    omega

/-- If a visit settles its vertex, visits one after the other settle theirs. -/
theorem Ready.foldl {step : Search → Nat → Search} (range : ∀ v ∈ targets, v < g.labels.length)
    (one : ∀ v s, v < g.labels.length → Ready g fuel s [v] →
      (Ready g fuel (step s v) [] ∧ s.Extends (step s v)) ∧ v ∈ (step s v).done)
    (ready : Ready g fuel s targets) :
    (Ready g fuel (targets.foldl step s) [] ∧ s.Extends (targets.foldl step s)) ∧
      ∀ v ∈ targets, v ∈ (targets.foldl step s).done := by
  induction targets generalizing s with
  | nil => exact ⟨⟨ready, .refl s⟩, by simp⟩
  | cons v targets ih =>
    have alone : Ready g fuel s [v] :=
      { ready with leads u met waits w hw := ready.leads u met waits w (by simp_all) }
    obtain ⟨⟨after, first⟩, done⟩ := one v s (range v (by simp)) alone
    have next : Ready g fuel (step s v) targets := by
      refine { after with leads := fun u met waits w hw => ?_ }
      obtain ⟨met, waits⟩ := first.waiting u met waits
      exact ready.leads u met waits w (List.mem_cons_of_mem _ hw)
    obtain ⟨⟨ready', rest⟩, all⟩ := ih (fun w hw => range w (by simp [hw])) next
    refine ⟨⟨ready', first.trans rest⟩, fun w hw => ?_⟩
    rcases List.mem_cons.mp hw with rfl | hw
    · exact rest.done after.valid done
    · exact all w hw

end Search

open Search in
/-- In a graph without closed walks a visit leaves its vertex done, behind it all that it leads
to. -/
theorem visit_settled (closed : g.InRange) (acyclic : g.Acyclic) (fuel v : Nat) (s : Search)
    (range : v < g.labels.length) (ready : Ready g fuel s [v]) :
    (Ready g fuel (g.visit fuel v s) [] ∧ s.Extends (g.visit fuel v s)) ∧
      v ∈ (g.visit fuel v s).done := by
  induction fuel generalizing v s with
  | zero =>
    have inside : s.met ⊆ g.vertices := fun w hw => mem_vertices.mpr (ready.valid.range w hw)
    have all := mem_of_nodup_of_length_le ready.nodup inside
      (by simpa [vertices] using ready.enough)
    have met := all (mem_vertices.mpr range)
    exact ⟨⟨{ ready with leads := by simp }, .refl s⟩,
      ready.done_of_met acyclic (by simp) met⟩
  | succ fuel ih =>
    obtain ⟨⟨valid', ext'⟩, -⟩ := visit_extends closed (fuel + 1) v s range ready.valid
    unfold visit at valid' ext' ⊢
    split
    next old =>
      have met : v ∈ s.met := by simpa using old
      exact ⟨⟨{ ready with leads := by simp }, .refl s⟩,
        ready.done_of_met acyclic (by simp) met⟩
    next new =>
      rw [if_neg new] at valid' ext'
      simp only [List.contains_eq_mem, decide_eq_true_eq] at new
      have inside : ∀ w ∈ g.successors v, w < g.labels.length :=
        fun w hw => (closed _ (mem_successors.mp hw)).2
      obtain ⟨⟨ready', ext⟩, all⟩ :=
        (ready.meet range new).foldl inside fun w t hw ht => ih w t hw ht
      refine ⟨⟨⟨valid', ready'.nodup, ⟨all, ready'.settled⟩, by simp, ?_⟩, ext'⟩, by simp⟩
      have := ext'.length_met ready.nodup
      have := ready.enough
      omega

/-- A graph without closed walks has an order. -/
theorem exists_order?_of_acyclic (closed : g.InRange) (acyclic : g.Acyclic) :
    ∃ order, g.order? = some order := by
  have start : Search.Ready g g.labels.length {} g.vertices :=
    ⟨⟨by simp, by simp, by simp⟩, by simp, trivial, by simp, by simp⟩
  obtain ⟨⟨ready, -⟩, -⟩ := start.foldl (fun v => mem_vertices.mp)
    fun v s hv hs => visit_settled closed acyclic _ v s hv hs
  have forward : g.isForward g.latestFirst = true := by
    simp only [isForward, List.all_eq_true, decide_eq_true_eq]
    intro e he
    have member : e.1 ∈ g.latestFirst := by
      rw [(latestFirst_perm closed).mem_iff, mem_vertices]
      exact (closed e he).1
    exact Settled.idxOf_lt ready.settled ready.valid.nodup member he
  exact ⟨g.latestFirst, by simp [order?, forward]⟩

end WorkflowBundle.Digraph
