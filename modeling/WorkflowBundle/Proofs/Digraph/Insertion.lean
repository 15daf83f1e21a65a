import WorkflowBundle.Proofs.Digraph.Reach
import WorkflowBundle.Proofs.StableSort

/-! A vertex that leads to no other vertex lies on no cycle but its own. When one is inserted,
the numbers of the vertices after it move up by one and everything the search for cycles does
moves along; apart from a loop at the new vertex the same cycles come out. -/
namespace WorkflowBundle.Digraph

variable {α : Type u}

/-- Number of a vertex after a new one has been given the number `place`. -/
def shift (place v : Nat) : Nat := if v < place then v else v + 1

section Shift

variable {place v w : Nat}

theorem shift_ne : shift place v ≠ place := by
  unfold shift; split <;> omega

@[simp] theorem shift_inj : shift place v = shift place w ↔ v = w := by
  unfold shift; split <;> split <;> omega

@[simp] theorem shift_le_shift : shift place v ≤ shift place w ↔ v ≤ w := by
  unfold shift; split <;> split <;> omega

theorem exists_shift (h : v ≠ place) : ∃ w, v = shift place w := by
  by_cases before : v < place
  · exact ⟨v, by simp [shift, before]⟩
  · exact ⟨v - 1, by unfold shift; split <;> omega⟩

@[simp] theorem contains_map_shift (list : List Nat) :
    (list.map (shift place)).contains (shift place v) = list.contains v := by
  rw [Bool.eq_iff_iff]
  simp

/-- Where a value stands in a list after a new one has come in. -/
theorem idxOf_insert [BEq α] [LawfulBEq α] {a b : α} (before after : List α) (h : b ≠ a) :
    (before ++ a :: after).idxOf b = shift before.length ((before ++ after).idxOf b) := by
  rw [List.idxOf_append, List.idxOf_append]
  by_cases early : b ∈ before
  · rw [if_pos early, if_pos early, shift, if_pos (List.idxOf_lt_length_of_mem early)]
  · rw [if_neg early, if_neg early, shift, if_neg (by omega), List.idxOf_cons_ne _ (Ne.symm h)]
    omega

theorem idxOf_new [BEq α] [LawfulBEq α] {a : α} {before : List α} (after : List α)
    (absent : a ∉ before) : (before ++ a :: after).idxOf a = before.length := by
  rw [List.idxOf_append, if_neg absent, List.idxOf_cons_self]
  omega

end Shift

/-- The second graph is the first one with a new vertex that leads to no other. -/
structure AddsSink (g g' : Digraph α) (before after : List α) (a : α) : Prop where
  labels : g.labels = before ++ after
  labels' : g'.labels = before ++ a :: after
  edges : ∀ v w, (shift before.length v, shift before.length w) ∈ g'.edges ↔ (v, w) ∈ g.edges
  sink : ∀ w, (before.length, w) ∈ g'.edges → w = before.length

namespace AddsSink

variable {g g' : Digraph α} {before after : List α} {a : α} {v w : Nat}

theorem getElem?_shift (added : AddsSink g g' before after a) :
    g'.labels[shift before.length v]? = g.labels[v]? := by
  rw [added.labels, added.labels']
  unfold shift
  split
  next h => rw [List.getElem?_append_left h, List.getElem?_append_left h]
  next h =>
    rw [List.getElem?_append_right (by omega), List.getElem?_append_right (by omega),
      Nat.sub_add_comm (by omega), List.getElem?_cons_succ]

theorem getElem?_new (added : AddsSink g g' before after a) :
    g'.labels[before.length]? = some a := by
  simp [added.labels']

theorem labelAll_map (added : AddsSink g g' before after a) (path : List Nat) :
    g'.labelAll (path.map (shift before.length)) = g.labelAll path := by
  simp only [labelAll, List.filterMap_map]
  exact List.filterMap_congr fun v _ => added.getElem?_shift

theorem vertices_split (added : AddsSink g g' before after a) :
    ∃ xs ys, g.vertices = xs ++ ys ∧ g'.vertices =
      xs.map (shift before.length) ++ before.length :: ys.map (shift before.length) := by
  refine ⟨List.range before.length, (List.range after.length).map (before.length + ·), ?_, ?_⟩
  · rw [vertices, added.labels, List.length_append, List.range_add]
  · rw [vertices, added.labels', List.length_append, List.length_cons, List.range_add,
      List.range_succ_eq_map]
    have low : (List.range before.length).map (shift before.length) = List.range before.length := by
      refine (List.map_congr_left fun v hv => ?_).trans (List.map_id _)
      simp [shift, List.mem_range.mp hv]
    have high : ((List.range after.length).map (before.length + ·)).map (shift before.length) =
        ((List.range after.length).map Nat.succ).map (before.length + ·) := by
      simp only [List.map_map]
      refine List.map_congr_left fun v _ => ?_
      simp only [Function.comp, shift]
      split <;> omega
    rw [low, high]
    rfl

/-- Filters of the vertices that agree on the old ones and refuse the new one. -/
theorem filter_vertices (added : AddsSink g g' before after a) {p p' : Nat → Bool}
    (same : ∀ v, p' (shift before.length v) = p v) (new : p' before.length = false) :
    g'.vertices.filter p' = (g.vertices.filter p).map (shift before.length) := by
  obtain ⟨xs, ys, eq, eq'⟩ := added.vertices_split
  have comp : p' ∘ shift before.length = p := funext same
  simp [eq, eq', List.filter_append, List.filter_map, comp, new]

/-- Walks from the new vertex stay there. -/
theorem leads_new (added : AddsSink g g' before after a) (walk : g'.Leads before.length w) :
    w = before.length := by
  induction walk with
  | single edge => exact added.sink _ edge
  | tail _ edge ih => exact added.sink _ (ih ▸ edge)

theorem leads_shift_iff (added : AddsSink g g' before after a) :
    g'.Leads (shift before.length v) (shift before.length w) ↔ g.Leads v w := by
  constructor
  · intro walk
    have general : ∀ u, g'.Leads (shift before.length v) u →
        u = before.length ∨ ∃ w, u = shift before.length w ∧ g.Leads v w := by
      intro u walk
      induction walk with
      | @single u edge =>
        by_cases new : u = before.length
        · exact .inl new
        · obtain ⟨w, rfl⟩ := exists_shift new
          exact .inr ⟨w, rfl, .single ((added.edges _ _).mp edge)⟩
      | @tail u x _ edge ih =>
        rcases ih with rfl | ⟨w, rfl, walk⟩
        · exact .inl (added.sink _ edge)
        · by_cases new : x = before.length
          · exact .inl new
          · obtain ⟨y, rfl⟩ := exists_shift new
            exact .inr ⟨y, rfl, walk.tail ((added.edges _ _).mp edge)⟩
    rcases general _ walk with new | ⟨u, same, walk⟩
    · exact absurd new shift_ne
    · rwa [shift_inj.mp same]
  · intro walk
    induction walk with
    | single edge => exact .single ((added.edges _ _).mpr edge)
    | tail _ edge ih => exact ih.tail ((added.edges _ _).mpr edge)

theorem shift_lt_iff (added : AddsSink g g' before after a) :
    shift before.length v < g'.labels.length ↔ v < g.labels.length := by
  simp only [added.labels, added.labels', List.length_append, List.length_cons, shift]
  split <;> omega

/-- The edges of the new graph stay in range when those of the old one and those that enter the
new vertex do. -/
theorem inRange (added : AddsSink g g' before after a) (closed : g'.InRange) : g.InRange := by
  intro e he
  obtain ⟨source, target⟩ := closed _ ((added.edges e.1 e.2).mpr he)
  exact ⟨added.shift_lt_iff.mp source, added.shift_lt_iff.mp target⟩

theorem cyclicComponent_shift (added : AddsSink g g' before after a) (closed : g'.InRange)
    (hv : v < g.labels.length) :
    g'.cyclicComponent g'.reachability (shift before.length v) =
      (g.cyclicComponent g.reachability v).map (shift before.length) := by
  rw [cyclicComponent_eq_filter closed (added.shift_lt_iff.mpr hv),
    cyclicComponent_eq_filter (added.inRange closed) hv]
  refine added.filter_vertices (fun w => ?_) ?_
  · exact decide_eq_decide.mpr (and_congr added.leads_shift_iff added.leads_shift_iff)
  · simp only [decide_eq_false_iff_not, not_and]
    exact fun _ back => absurd (added.leads_new back) shift_ne

theorem isSmallest_shift [Ord α] (added : AddsSink g g' before after a) (component : List Nat) :
    g'.isSmallest (shift before.length v) (component.map (shift before.length)) =
      g.isSmallest v component := by
  simp only [isSmallest, List.all_map, Function.comp_def, added.getElem?_shift, shift_le_shift]

/-- The search for a way back runs in step in both graphs. -/
theorem wayBack_shift (added : AddsSink g g' before after a) (start : Nat) (component : List Nat)
    (fuel : Nat) (queue : List (List Nat)) (met : List Nat) :
    g'.wayBack (shift before.length start) (component.map (shift before.length)) fuel
        (queue.map (List.map (shift before.length))) (met.map (shift before.length)) =
      (g.wayBack start component fuel queue met).map (List.map (shift before.length)) := by
  induction fuel generalizing queue met with
  | zero => simp [wayBack]
  | succ fuel ih =>
    cases queue with
    | nil => simp [wayBack]
    | cons path queue =>
      have next : (component.map (shift before.length)).filter
            ((g'.successors ((path.map (shift before.length)).headD
              (shift before.length start))).contains ·) =
          (component.filter ((g.successors (path.headD start)).contains ·)).map
            (shift before.length) := by
        rw [List.headD_map, List.filter_map]
        congr 1
        refine List.filter_congr fun w _ => ?_
        rw [Function.comp, Bool.eq_iff_iff]
        simp only [List.contains_eq_mem, decide_eq_true_eq, mem_successors, added.edges]
      have fresh : ∀ next : List Nat,
          (next.map (shift before.length)).filter (!(met.map (shift before.length)).contains ·) =
            (next.filter (!met.contains ·)).map (shift before.length) := by
        intro next
        rw [List.filter_map]
        simp only [Function.comp_def, contains_map_shift]
      simp only [List.map_cons, wayBack, next, contains_map_shift, fresh]
      split
      · simp
      · rw [← ih]
        simp only [List.map_append, List.map_map]
        rfl

theorem cycleAt?_shift [Ord α] (added : AddsSink g g' before after a) (closed : g'.InRange)
    (hv : v < g.labels.length) :
    g'.cycleAt? (shift before.length v) =
      (g.cycleAt? v).map (List.map (shift before.length)) := by
  simp only [cycleAt?, added.cyclicComponent_shift closed hv, contains_map_shift,
    added.isSmallest_shift, cycleThrough?, List.length_map]
  split
  · exact added.wayBack_shift v _ _ [[v]] []
  · rfl

end AddsSink

theorem head?_wayBack {g : Digraph α} {start : Nat} {component : List Nat} (fuel : Nat)
    {queue : List (List Nat)} {met cycle : List Nat}
    (from_start : ∀ path ∈ queue, path.getLast? = some start)
    (h : g.wayBack start component fuel queue met = some cycle) : cycle.head? = some start := by
  induction fuel generalizing queue met with
  | zero => simp [wayBack] at h
  | succ fuel ih =>
    cases queue with
    | nil => simp [wayBack] at h
    | cons path queue =>
      have last := from_start path (by simp)
      simp only [wayBack] at h
      split at h
      · obtain rfl := Option.some.inj h
        rw [List.head?_reverse, List.getLast?_cons, last]
        rfl
      · refine ih (fun extended he => ?_) h
        rcases List.mem_append.mp he with he | he
        · exact from_start _ (by simp [he])
        · obtain ⟨w, _, rfl⟩ := List.mem_map.mp he
          rw [List.getLast?_cons, last]
          rfl

theorem head?_cycleAt? [Ord α] {g : Digraph α} {v : Nat} {cycle : List Nat}
    (h : g.cycleAt? v = some cycle) : cycle.head? = some v := by
  simp only [cycleAt?, Option.ite_none_right_eq_some] at h
  exact head?_wayBack _ (by simp) h.2

theorem head?_labelAll {g : Digraph α} {path : List Nat} {v : Nat} {label : α}
    (head : path.head? = some v) (h : g.labels[v]? = some label) :
    (g.labelAll path).head? = some label := by
  obtain ⟨rest, rfl⟩ := List.head?_eq_some_iff.mp head
  simp [labelAll, h]

/-- Whatever is found at old vertices begins at one of them. -/
theorem AddsSink.filter_found [Ord α] [BEq α] [LawfulBEq α] {g g' : Digraph α}
    {before after : List α} {a : α} (added : AddsSink g g' before after a) (closed : g'.InRange)
    (new : a ∉ g.labels) {vs : List Nat} (old : vs ⊆ g.vertices) :
    (((vs.map (shift before.length)).filterMap g'.cycleAt?).map g'.labelAll).filter
        (fun cycle => cycle.head? != some a) = (vs.filterMap g.cycleAt?).map g.labelAll := by
  have moved : ((vs.map (shift before.length)).filterMap g'.cycleAt?).map g'.labelAll =
      (vs.filterMap g.cycleAt?).map g.labelAll := by
    rw [List.filterMap_map, List.map_filterMap, List.map_filterMap]
    refine List.filterMap_congr fun v hv => ?_
    rw [Function.comp, added.cycleAt?_shift closed (mem_vertices.mp (old hv)), Option.map_map]
    exact Option.map_congr fun path _ => added.labelAll_map path
  rw [moved, List.filter_eq_self]
  intro cycle hc
  obtain ⟨path, hp, rfl⟩ := List.mem_map.mp hc
  obtain ⟨v, hv, found⟩ := List.mem_filterMap.mp hp
  have label := List.getElem?_eq_getElem (mem_vertices.mp (old hv))
  rw [head?_labelAll (head?_cycleAt? found) label, bne_iff_ne, ne_eq, Option.some.injEq]
  exact fun same => new (same ▸ List.getElem_mem _)

/-- But for those at the new vertex, the cycles are the same. -/
theorem AddsSink.filter_cycles [Ord α] [Std.TransOrd α] [BEq α] [LawfulBEq α]
    {g g' : Digraph α} {before after : List α} {a : α} (added : AddsSink g g' before after a)
    (closed : g'.InRange) (new : a ∉ g.labels) :
    g'.cycles.filter (fun cycle => cycle.head? != some a) = g.cycles := by
  obtain ⟨xs, ys, eq, eq'⟩ := added.vertices_split
  have loop : (([before.length].filterMap g'.cycleAt?).map g'.labelAll).filter
      (fun cycle => cycle.head? != some a) = [] := by
    cases found : g'.cycleAt? before.length with
    | none => simp [found]
    | some path =>
      have head := head?_labelAll (head?_cycleAt? found) added.getElem?_new
      simp [found, head]
  have first := added.filter_found closed new (show xs ⊆ g.vertices by simp [eq])
  have last := added.filter_found closed new (show ys ⊆ g.vertices by simp [eq])
  rw [cycles_eq, (Ranking.of_cmp compare).filter_mergeSort, cycles_eq, eq, eq']
  congr 1
  rw [← List.singleton_append, List.filterMap_append, List.filterMap_append, List.map_append,
    List.map_append, List.filter_append, List.filter_append, first, loop, last,
    List.filterMap_append, List.map_append, List.nil_append]

end WorkflowBundle.Digraph
