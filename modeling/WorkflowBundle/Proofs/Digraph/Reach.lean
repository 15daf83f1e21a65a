import WorkflowBundle.Digraph.Cycle
import WorkflowBundle.Proofs.Digraph.Order
import WorkflowBundle.Proofs.Repetition

/-! What the search for cycles reaches: exactly the ends of walks. A graph that can be ordered
has no closed walk, so no cycle is found in it. -/
namespace WorkflowBundle.Digraph

variable {α : Type u} {g : Digraph α} {v w : Nat}

/-- A walk of one edge or more leads from the first vertex to the second. -/
abbrev Leads (g : Digraph α) : Nat → Nat → Prop :=
  Relation.TransGen fun v w => (v, w) ∈ g.edges

theorem Leads.target_lt (closed : g.InRange) (walk : g.Leads v w) : w < g.labels.length := by
  cases walk with
  | single edge => exact (closed _ edge).2
  | tail _ edge => exact (closed _ edge).2

/-- Along a walk of an ordered graph the position grows. -/
theorem Leads.idxOf_lt {order : List Nat} (h : g.order? = some order) (walk : g.Leads v w) :
    order.idxOf v < order.idxOf w := by
  induction walk with
  | single edge => exact order?_forward h _ edge
  | tail _ edge ih => exact Nat.lt_trans ih (order?_forward h _ edge)

/-- State of the search from a vertex: whatever has been met is reached, and only the vertices
met in the latest round may have successors that are not met. -/
structure Frontier (g : Digraph α) (v : Nat) (met latest : List Nat) : Prop where
  first : ∀ w ∈ g.successors v, w ∈ met
  sound : ∀ w ∈ met, g.Leads v w
  recent : ∀ w ∈ latest, w ∈ met
  explored : ∀ w ∈ met, w ∉ latest → ∀ x ∈ g.successors w, x ∈ met
  nodup : met.Nodup

def fresh (g : Digraph α) (met latest : List Nat) : List Nat :=
  ((latest.flatMap g.successors).filter fun w => !met.contains w).eraseDups

theorem mem_fresh {met latest : List Nat} :
    w ∈ g.fresh met latest ↔ (∃ x ∈ latest, w ∈ g.successors x) ∧ w ∉ met := by
  simp [fresh]

theorem Frontier.round {met latest : List Nat} (front : Frontier g v met latest) :
    Frontier g v (met ++ g.fresh met latest) (g.fresh met latest) where
  first w h := List.mem_append_left _ (front.first w h)
  sound w h := by
    rcases List.mem_append.mp h with h | h
    · exact front.sound w h
    · obtain ⟨⟨x, hx, step⟩, -⟩ := mem_fresh.mp h
      exact (front.sound x (front.recent x hx)).tail (mem_successors.mp step)
  recent w h := List.mem_append_right _ h
  explored w h old x step := by
    have seen := (List.mem_append.mp h).resolve_right old
    by_cases recent : w ∈ latest
    · by_cases known : x ∈ met
      · exact List.mem_append_left _ known
      · exact List.mem_append_right _ (mem_fresh.mpr ⟨⟨w, recent, step⟩, known⟩)
    · exact List.mem_append_left _ (front.explored w seen recent x step)
  nodup := by
    refine List.nodup_append.mpr ⟨front.nodup, nodup_eraseDups _, ?_⟩
    rintro w known _ new rfl
    exact (mem_fresh.mp new).2 known

/-- A set of vertices that holds the successors of the first and of its members holds all that
the first leads to. -/
theorem Leads.mem_of_explored {met : List Nat} (first : ∀ w ∈ g.successors v, w ∈ met)
    (explored : ∀ w ∈ met, ∀ x ∈ g.successors w, x ∈ met) (walk : g.Leads v w) : w ∈ met := by
  induction walk with
  | single edge => exact first _ (mem_successors.mpr edge)
  | tail _ edge ih => exact explored _ ih _ (mem_successors.mpr edge)

/-- Every round but the last meets a vertex, so there are rounds enough when they and the
vertices met together are as many as the vertices. -/
theorem mem_spread (closed : g.InRange) (rounds : Nat) {met latest : List Nat}
    (front : Frontier g v met latest) (enough : g.labels.length ≤ rounds + met.length) :
    w ∈ g.spread rounds met latest ↔ g.Leads v w := by
  induction rounds generalizing met latest with
  | zero =>
    have inside : met ⊆ g.vertices := fun x hx =>
      mem_vertices.mpr ((front.sound x hx).target_lt closed)
    have all := mem_of_nodup_of_length_le front.nodup inside (by simpa [vertices] using enough)
    exact ⟨front.sound w, fun walk => all (mem_vertices.mpr (walk.target_lt closed))⟩
  | succ rounds ih =>
    have round := front.round
    unfold spread
    rw [← fresh]
    split
    next none =>
      refine ⟨front.sound w, fun walk => walk.mem_of_explored front.first fun x hx y step => ?_⟩
      by_cases recent : x ∈ latest
      · by_contra unknown
        have new : y ∈ g.fresh met latest := mem_fresh.mpr ⟨⟨x, recent, step⟩, unknown⟩
        simp [none] at new
      · exact front.explored x hx recent y step
    next some =>
      refine ih round ?_
      have := List.length_pos_iff.mpr some
      rw [List.length_append]
      omega

theorem mem_reached (closed : g.InRange) : w ∈ g.reached v ↔ g.Leads v w := by
  refine mem_spread closed _ ⟨?_, ?_, fun _ h => h, ?_, nodup_eraseDups _⟩ (Nat.le_add_right ..)
  · exact fun w h => List.mem_eraseDups.mpr h
  · exact fun w h => .single (mem_successors.mp (List.mem_eraseDups.mp h))
  · exact fun w h new => absurd h new

theorem getD_reachability (h : v < g.labels.length) :
    g.reachability.getD v [] = g.reached v := by
  simp [reachability, vertices, h]

/-- Vertices on closed walks with a vertex. -/
theorem mem_cyclicComponent (closed : g.InRange) (hv : v < g.labels.length) :
    w ∈ g.cyclicComponent g.reachability v ↔ g.Leads v w ∧ g.Leads w v := by
  simp only [cyclicComponent, List.mem_filter, mem_vertices, getD_reachability hv,
    List.contains_eq_mem, decide_eq_true_eq, mem_reached closed]
  constructor
  · rintro ⟨⟨hw, out⟩, back⟩
    rw [getD_reachability hw, mem_reached closed] at back
    exact ⟨out, back⟩
  · rintro ⟨out, back⟩
    have hw := out.target_lt closed
    exact ⟨⟨hw, out⟩, by rwa [getD_reachability hw, mem_reached closed]⟩

open Classical in
theorem cyclicComponent_eq_filter (closed : g.InRange) (hv : v < g.labels.length) :
    g.cyclicComponent g.reachability v =
      g.vertices.filter fun w => decide (g.Leads v w ∧ g.Leads w v) := by
  rw [cyclicComponent, List.filter_filter]
  refine List.filter_congr fun w hw => ?_
  have member := mem_cyclicComponent (w := w) closed hv
  simp only [cyclicComponent, List.mem_filter, hw, true_and] at member
  rw [Bool.eq_iff_iff, decide_eq_true_iff, ← member, Bool.and_eq_true, and_comm]

/-- The cycle that stands for the component of a vertex, if that is the vertex to start from. -/
def cycleAt? [Ord α] (g : Digraph α) (v : Nat) : Option (List Nat) :=
  let component := g.cyclicComponent g.reachability v
  if component.contains v && g.isSmallest v component then g.cycleThrough? v component else none

theorem cycles_eq [Ord α] (g : Digraph α) :
    g.cycles = ((g.vertices.filterMap g.cycleAt?).map g.labelAll).mergeSort
      fun a b => (compare a b).isLE := rfl

/-- No cycle is found in a graph that can be ordered. -/
theorem cycles_eq_nil [Ord α] (closed : g.InRange) {order : List Nat} (h : g.order? = some order) :
    g.cycles = [] := by
  have none : g.vertices.filterMap g.cycleAt? = [] := by
    refine List.filterMap_eq_nil_iff.mpr fun v hv => ?_
    have alone : v ∉ g.cyclicComponent g.reachability v := by
      intro member
      have walk := ((mem_cyclicComponent closed (mem_vertices.mp hv)).mp member).1
      exact absurd (walk.idxOf_lt h) (Nat.lt_irrefl _)
    simp [cycleAt?, alone]
  simp [cycles_eq, none]

end WorkflowBundle.Digraph
