import WorkflowBundle.Proofs.Digraph.Acyclic
import WorkflowBundle.Proofs.StableSort

/-! The search for cycles misses none: a graph in which no cycle is found has no closed walk,
so it can be ordered. -/
namespace WorkflowBundle.Digraph

variable {α : Type u} {g : Digraph α} {v w : Nat}

/-- State of the search for a way back: what has been met is still to be continued, or its
successors in the component have been met too, and the start is not among them. -/
structure Searching (g : Digraph α) (start : Nat) (component : List Nat)
    (queue : List (List Nat)) (met : List Nat) : Prop where
  explored : ∀ u, u = start ∨ u ∈ met → (∃ path ∈ queue, path.headD start = u) ∨
    ∀ w ∈ component, w ∈ g.successors u → w ∈ met
  away : start ∉ met

namespace Searching

variable {start : Nat} {component met : List Nat} {path : List Nat} {queue : List (List Nat)}

def next (g : Digraph α) (start : Nat) (component path : List Nat) : List Nat :=
  component.filter ((g.successors (path.headD start)).contains ·)

theorem mem_next : w ∈ next g start component path ↔
    w ∈ component ∧ w ∈ g.successors (path.headD start) := by
  simp [next]

theorem step (searching : Searching g start component (path :: queue) met)
    (onward : start ∉ next g start component path) :
    let fresh := (next g start component path).filter (!met.contains ·)
    Searching g start component (queue ++ fresh.map (· :: path)) (met ++ fresh) where
  explored u hu := by
    have known : u = start ∨ u ∈ met →
        (∃ extended ∈ queue ++ ((next g start component path).filter (!met.contains ·)).map
          (· :: path), extended.headD start = u) ∨
        ∀ w ∈ component, w ∈ g.successors u →
          w ∈ met ++ (next g start component path).filter (!met.contains ·) := by
      intro hu
      rcases searching.explored u hu with ⟨waiting, member, rfl⟩ | closed
      · rcases List.mem_cons.mp member with rfl | member
        · refine .inr fun w hw follows => ?_
          by_cases old : w ∈ met
          · simp [old]
          · simp [old, mem_next.mpr ⟨hw, follows⟩]
        · exact .inl ⟨waiting, by simp [member], rfl⟩
      · exact .inr fun w hw follows => List.mem_append_left _ (closed w hw follows)
    rcases hu with rfl | hu
    · exact known (.inl rfl)
    · rcases List.mem_append.mp hu with old | new
      · exact known (.inr old)
      · exact .inl ⟨u :: path, List.mem_append_right _ (List.mem_map_of_mem new), rfl⟩
  away := by
    simp only [List.mem_append, List.mem_filter, not_or, not_and]
    exact ⟨searching.away, fun inside => absurd inside onward⟩

theorem wayBack_cons (fuel : Nat) : g.wayBack start component (fuel + 1) (path :: queue) met =
    if (next g start component path).contains start then some (start :: path).reverse
    else
      let fresh := (next g start component path).filter (!met.contains ·)
      g.wayBack start component fuel (queue ++ fresh.map (· :: path)) (met ++ fresh) := rfl

/-- With an empty queue the start would have been met, if it lies on a closed walk. -/
theorem queue_ne_nil (searching : Searching g start component queue met)
    (whole : ∀ w, g.Leads start w → g.Leads w start → w ∈ component)
    (walk : g.Leads start start) : queue ≠ [] := by
  rintro rfl
  have closed : ∀ u, u = start ∨ u ∈ met → ∀ w ∈ component, w ∈ g.successors u → w ∈ met :=
    fun u hu => (searching.explored u hu).resolve_left (by simp)
  have all : ∀ u, g.Leads start u → g.Leads u start → u ∈ met := by
    intro u out
    induction out with
    | single edge =>
      exact fun back => closed _ (.inl rfl) _ (whole _ (.single edge) back)
        (mem_successors.mpr edge)
    | tail out edge ih =>
      intro back
      have before := ih (.head edge back)
      exact closed _ (.inr before) _ (whole _ (out.tail edge) back) (mem_successors.mpr edge)
  exact searching.away (all start walk walk)

/-- Each round takes one path off the queue and puts one on it for each vertex it meets. -/
theorem enough_step {fuel : Nat}
    (enough : (path :: queue).length + (component.filter (!met.contains ·)).length ≤ fuel + 1) :
    let fresh := (next g start component path).filter (!met.contains ·)
    (queue ++ fresh.map (· :: path)).length +
      (component.filter (!(met ++ fresh).contains ·)).length ≤ fuel := by
  intro fresh
  have split := List.length_eq_length_filter_add (l := component.filter (!met.contains ·))
    ((g.successors (path.headD start)).contains ·)
  have met' : fresh = (component.filter (!met.contains ·)).filter
      ((g.successors (path.headD start)).contains ·) := by
    simp only [fresh, next, List.filter_filter]
    exact List.filter_congr fun w _ => Bool.and_comm ..
  have left : component.filter (!(met ++ fresh).contains ·) =
      (component.filter (!met.contains ·)).filter
        (!(g.successors (path.headD start)).contains ·) := by
    rw [List.filter_filter]
    refine List.filter_congr fun w hw => ?_
    rw [Bool.eq_iff_iff]
    simp only [fresh, next, List.contains_eq_mem, List.mem_append, List.mem_filter, hw, true_and,
      Bool.not_eq_true', decide_eq_false_iff_not, Bool.and_eq_true, decide_eq_true_eq]
    tauto
  rw [left, List.length_append, List.length_map, met']
  simp only [List.length_cons] at enough
  omega

theorem exists_wayBack (searching : Searching g start component queue met)
    (whole : ∀ w, g.Leads start w → g.Leads w start → w ∈ component)
    (walk : g.Leads start start) (fuel : Nat)
    (enough : queue.length + (component.filter (!met.contains ·)).length ≤ fuel) :
    ∃ cycle, g.wayBack start component fuel queue met = some cycle := by
  induction fuel generalizing queue met with
  | zero =>
    have := List.length_pos_iff.mpr (searching.queue_ne_nil whole walk)
    omega
  | succ fuel ih =>
    cases queue with
    | nil => exact absurd rfl (searching.queue_ne_nil whole walk)
    | cons path queue =>
      rw [wayBack_cons]
      split
      case isTrue => exact ⟨_, rfl⟩
      case isFalse onward =>
        rw [List.contains_eq_mem, decide_eq_true_eq] at onward
        exact ih (searching.step onward) (enough_step enough)

end Searching

/-- The smallest vertex of a component has a cycle that stands for the component. -/
theorem exists_cycleAt? [Ord α] [Std.TransOrd α] (closed : g.InRange) (walk : g.Leads v v) :
    ∃ w, (g.Leads v w ∧ g.Leads w v) ∧ ∃ cycle, g.cycleAt? w = some cycle := by
  let component := g.cyclicComponent g.reachability v
  have hv := walk.target_lt closed
  have own : v ∈ component := (mem_cyclicComponent closed hv).mpr ⟨walk, walk⟩
  have ranking := Ranking.of_cmp
    (compareLex (compareOn fun w : Nat => g.labels[w]?) (compareOn fun w => w))
  obtain ⟨w, member, least⟩ := ranking.exists_least (List.ne_nil_of_mem own)
  obtain ⟨out, back⟩ := (mem_cyclicComponent closed hv).mp member
  have hw := out.target_lt closed
  have same : g.cyclicComponent g.reachability w = component := by
    rw [cyclicComponent_eq_filter closed hw]
    refine (List.filter_congr fun u _ => ?_).trans (cyclicComponent_eq_filter closed hv).symm
    refine decide_eq_decide.mpr (and_congr ?_ ?_)
    · exact ⟨out.trans, back.trans⟩
    · exact ⟨fun h => h.trans back, fun h => h.trans out⟩
  have smallest : g.isSmallest w component = true := by
    simp only [isSmallest, List.all_eq_true]
    intro u hu
    have le := least u hu
    simp only [compareLex, compareOn] at le
    split
    next => rfl
    next eq => simpa [eq, Nat.isLE_compare] using le
    next gt => simp [gt] at le
  have start : Searching g w component [[w]] [] := ⟨by simp, by simp⟩
  obtain ⟨cycle, found⟩ := start.exists_wayBack
    (fun u hu hu' => (mem_cyclicComponent closed hv).mpr ⟨out.trans hu, hu'.trans back⟩)
    (back.trans out) (component.length + 1) (by simp; omega)
  refine ⟨w, ⟨out, back⟩, cycle, ?_⟩
  rw [cycleAt?, same]
  simpa [member, smallest, cycleThrough?] using found

/-- A graph in which no cycle is found can be ordered. -/
theorem exists_order?_of_cycles [Ord α] [Std.TransOrd α] (closed : g.InRange)
    (none : g.cycles = []) : ∃ order, g.order? = some order := by
  refine exists_order?_of_acyclic closed fun v walk => ?_
  obtain ⟨w, ⟨out, -⟩, cycle, found⟩ := exists_cycleAt? closed walk
  have hw := out.target_lt closed
  have listed : g.labelAll cycle ∈ g.cycles := by
    rw [cycles_eq, List.mem_mergeSort]
    exact List.mem_map_of_mem (List.mem_filterMap.mpr ⟨w, mem_vertices.mpr hw, found⟩)
  simp [none] at listed

end WorkflowBundle.Digraph
