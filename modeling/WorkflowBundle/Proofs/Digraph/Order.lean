import Mathlib.Data.List.Basic
import WorkflowBundle.Digraph

/-! The depth-first order of a graph. It lists every vertex once, whatever the edges are; that
all edges lead forward is then checked, so an order that comes out is one of the whole graph. -/
namespace WorkflowBundle

/-- The first value stands somewhere before an occurrence of the second. -/
def Precedes (list : List α) (a b : α) : Prop :=
  ∃ before after, list = before ++ b :: after ∧ a ∈ before

namespace Precedes

theorem of_idxOf_lt [BEq α] [LawfulBEq α] {list : List α} {a b : α} (member : b ∈ list)
    (lt : list.idxOf a < list.idxOf b) : Precedes list a b := by
  obtain ⟨before, after, rfl, fresh⟩ := List.eq_append_cons_of_mem member
  refine ⟨before, after, rfl, ?_⟩
  rw [List.idxOf_append, List.idxOf_append, if_neg fresh] at lt
  by_contra absent
  simp only [if_neg absent, List.idxOf_cons_self] at lt
  omega

theorem filter {p : α → Bool} {list : List α} {a b : α} (h : Precedes list a b) (ha : p a)
    (hb : p b) : Precedes (list.filter p) a b := by
  obtain ⟨before, after, rfl, member⟩ := h
  refine ⟨before.filter p, after.filter p, by simp [hb], ?_⟩
  exact List.mem_filter.mpr ⟨member, ha⟩

theorem filterMap {f : α → Option β} {list : List α} {a b : α} {x y : β} (h : Precedes list a b)
    (ha : f a = some x) (hb : f b = some y) : Precedes (list.filterMap f) x y := by
  obtain ⟨before, after, rfl, member⟩ := h
  refine ⟨before.filterMap f, after.filterMap f, by simp [hb], ?_⟩
  exact List.mem_filterMap.mpr ⟨a, member, ha⟩

end Precedes

/-- The indices of the front part of a list, taken in turn, give the front part. -/
theorem filterMap_getElem?_range (front back : List α) :
    (List.range front.length).filterMap ((front ++ back)[·]?) = front := by
  induction front with
  | nil => rfl
  | cons first front ih =>
    rw [List.length_cons, List.range_succ_eq_map, List.cons_append,
      List.filterMap_cons_some List.getElem?_cons_zero, List.filterMap_map]
    exact congrArg (first :: ·) ih

namespace Digraph

variable {α : Type u} {g : Digraph α}

/-- Every edge joins two vertices of the graph. -/
def InRange (g : Digraph α) : Prop :=
  ∀ e ∈ g.edges, e.1 < g.labels.length ∧ e.2 < g.labels.length

theorem mem_successors {v w : Nat} : w ∈ g.successors v ↔ (v, w) ∈ g.edges := by
  simp only [successors, List.mem_filterMap, Option.ite_none_right_eq_some, Option.some.injEq]
  constructor
  · rintro ⟨e, he, rfl, rfl⟩
    exact he
  · exact fun h => ⟨_, h, rfl, rfl⟩

@[simp] theorem mem_vertices {v : Nat} : v ∈ g.vertices ↔ v < g.labels.length := by
  simp [vertices]

theorem mem_edges_ofEdges {labels : List α} {edges : List (Nat × Nat)} {e : Nat × Nat} :
    e ∈ (ofEdges labels edges).edges ↔ e ∈ edges := by
  simp [ofEdges, List.mem_eraseDups]

namespace Search

/-- No vertex is done twice, and only vertices of the graph are met. -/
structure Valid (g : Digraph α) (s : Search) : Prop where
  nodup : s.done.Nodup
  done_met : ∀ v ∈ s.done, v ∈ s.met
  range : ∀ v ∈ s.met, v < g.labels.length

theorem Valid.meet {s : Search} (valid : s.Valid g) {v : Nat} (range : v < g.labels.length) :
    Search.Valid g { s with met := v :: s.met } where
  nodup := valid.nodup
  done_met w h := List.mem_cons_of_mem _ (valid.done_met w h)
  range := by simpa using ⟨range, valid.range⟩

/-- A later state of a search in which exactly the same vertices wait for their successors. -/
structure Extends (s s' : Search) : Prop where
  met : ∀ v ∈ s.met, v ∈ s'.met
  waiting : ∀ v, v ∈ s'.met → v ∉ s'.done → v ∈ s.met ∧ v ∉ s.done
  kept : ∀ v ∈ s.met, v ∉ s.done → v ∉ s'.done

theorem Extends.refl (s : Search) : s.Extends s :=
  ⟨fun _ h => h, fun _ met waits => ⟨met, waits⟩, fun _ _ waits => waits⟩

theorem Extends.trans {a b c : Search} (ab : a.Extends b) (bc : b.Extends c) : a.Extends c where
  met v h := bc.met v (ab.met v h)
  waiting v met waits := by
    obtain ⟨met, waits⟩ := bc.waiting v met waits
    exact ab.waiting v met waits
  kept v met waits := bc.kept v (ab.met v met) (ab.kept v met waits)

/-- What each step of a search keeps, the steps together keep. -/
theorem foldl_extends {step : Search → Nat → Search}
    (one : ∀ v s, v < g.labels.length → s.Valid g → (step s v).Valid g ∧ s.Extends (step s v))
    (vs : List Nat) (range : ∀ v ∈ vs, v < g.labels.length) (s : Search) (valid : s.Valid g) :
    (vs.foldl step s).Valid g ∧ s.Extends (vs.foldl step s) := by
  induction vs generalizing s with
  | nil => exact ⟨valid, .refl s⟩
  | cons v vs ih =>
    obtain ⟨valid, first⟩ := one v s (range v (by simp)) valid
    obtain ⟨valid, rest⟩ := ih (fun w hw => range w (by simp [hw])) _ valid
    exact ⟨valid, first.trans rest⟩

end Search

/-- A visit leaves no vertex waiting that was not waiting before. With fuel for one vertex it
meets the one that it starts from. -/
theorem visit_extends (closed : g.InRange) (fuel v : Nat) (s : Search)
    (range : v < g.labels.length) (valid : s.Valid g) :
    ((g.visit fuel v s).Valid g ∧ s.Extends (g.visit fuel v s)) ∧
      (0 < fuel → v ∈ (g.visit fuel v s).met) := by
  induction fuel generalizing v s with
  | zero => exact ⟨⟨valid, .refl s⟩, fun h => absurd h (Nat.lt_irrefl 0)⟩
  | succ fuel ih =>
    unfold visit
    split
    next old => exact ⟨⟨valid, .refl s⟩, fun _ => by simpa using old⟩
    next new =>
      simp only [List.contains_eq_mem, decide_eq_true_eq] at new
      have inside : ∀ w ∈ g.successors v, w < g.labels.length :=
        fun w hw => (closed _ (mem_successors.mp hw)).2
      obtain ⟨valid', ext⟩ := Search.foldl_extends (fun w t hw ht => (ih w t hw ht).1)
        (g.successors v) inside _ (valid.meet range)
      have undone : v ∉ s.done := fun h => new (valid.done_met v h)
      have waits := ext.kept v (List.mem_cons_self ..) undone
      have met := ext.met v (List.mem_cons_self ..)
      refine ⟨⟨⟨List.nodup_cons.mpr ⟨waits, valid'.nodup⟩, ?_, valid'.range⟩, ?_, ?_, ?_⟩,
        fun _ => met⟩
      · intro w hw
        rcases List.mem_cons.mp hw with rfl | hw
        · exact met
        · exact valid'.done_met w hw
      · exact fun w hw => ext.met w (List.mem_cons_of_mem _ hw)
      · intro w hw waits
        simp only [List.mem_cons, not_or] at waits
        obtain ⟨before, undone⟩ := ext.waiting w hw waits.2
        exact ⟨(List.mem_cons.mp before).resolve_left waits.1, undone⟩
      · intro w hw undone
        simp only [List.mem_cons, not_or]
        refine ⟨?_, ext.kept w (List.mem_cons_of_mem _ hw) undone⟩
        rintro rfl
        exact new hw

theorem met_of_mem (closed : g.InRange) (vs : List Nat) (range : ∀ v ∈ vs, v < g.labels.length)
    (s : Search) (valid : s.Valid g) :
    ∀ v ∈ vs, v ∈ (vs.foldl (fun s v => g.visit g.labels.length v s) s).met := by
  induction vs generalizing s with
  | nil => simp
  | cons w vs ih =>
    have inside : ∀ v ∈ vs, v < g.labels.length := fun v hv => range v (by simp [hv])
    have first := range w (by simp)
    obtain ⟨⟨valid', _⟩, met⟩ := visit_extends closed g.labels.length w s first valid
    intro v hv
    rcases List.mem_cons.mp hv with rfl | hv
    · have rest := Search.foldl_extends
        (fun u t hu ht => (visit_extends closed g.labels.length u t hu ht).1) vs inside _ valid'
      exact rest.2.met v (met (by omega))
    · exact ih inside _ valid' v hv

/-- Every vertex is listed once. -/
theorem latestFirst_perm (closed : g.InRange) : g.latestFirst.Perm g.vertices := by
  have range : ∀ v ∈ g.vertices, v < g.labels.length := fun v => mem_vertices.mp
  have start : Search.Valid g {} := ⟨by simp, by simp, by simp⟩
  obtain ⟨valid, ext⟩ := Search.foldl_extends
    (fun v s hv hs => (visit_extends closed g.labels.length v s hv hs).1) g.vertices range _ start
  refine (List.perm_ext_iff_of_nodup valid.nodup List.nodup_range).mpr fun v => ?_
  constructor
  · exact fun h => mem_vertices.mpr (valid.range v (valid.done_met v h))
  · intro h
    by_contra undone
    have waiting := ext.waiting v (met_of_mem closed g.vertices range _ start v h) undone
    simp at waiting

variable {order : List Nat}

theorem order?_perm (closed : g.InRange) (h : g.order? = some order) :
    order.Perm g.vertices := by
  simp only [order?, Option.ite_none_right_eq_some, Option.some.injEq] at h
  exact h.2 ▸ latestFirst_perm closed

theorem order?_forward (h : g.order? = some order) :
    ∀ e ∈ g.edges, order.idxOf e.1 < order.idxOf e.2 := by
  simp only [order?, Option.ite_none_right_eq_some, Option.some.injEq] at h
  obtain ⟨forward, rfl⟩ := h
  simpa [isForward] using forward

theorem labelAll_vertices (g : Digraph α) : g.labelAll g.vertices = g.labels := by
  have all := filterMap_getElem?_range g.labels []
  rwa [List.append_nil] at all

/-- The labels of an order are those of the graph. -/
theorem labelAll_order?_perm (closed : g.InRange) (h : g.order? = some order) :
    (g.labelAll order).Perm g.labels := by
  have perm := (order?_perm closed h).filterMap (g.labels[·]?)
  rwa [← labelAll, ← labelAll, labelAll_vertices] at perm

/-- Along an edge of an ordered graph the source comes first. -/
theorem labelAll_order?_precedes (closed : g.InRange) (h : g.order? = some order) {v w : Nat}
    {a b : α} (edge : (v, w) ∈ g.edges) (ha : g.labels[v]? = some a) (hb : g.labels[w]? = some b) :
    Precedes (g.labelAll order) a b := by
  have member : w ∈ order := by
    rw [(order?_perm closed h).mem_iff, mem_vertices]
    exact (closed _ edge).2
  exact (Precedes.of_idxOf_lt member (order?_forward h _ edge)).filterMap ha hb

end Digraph

end WorkflowBundle
