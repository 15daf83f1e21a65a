import WorkflowBundle.Proofs.Digraph.ShortestCycle

/-! What is reported of the cycles of a graph: one shortest cycle for each strongly connected
component that has any, from a vertex of smallest label. -/
namespace WorkflowBundle.Digraph

variable {α : Type u} {g : Digraph α} {u v w : Nat} {cycle : List Nat}

/-- The vertices lie in one strongly connected component: there are walks, of no edge or more, from
each to the other. -/
def Connected (g : Digraph α) (v w : Nat) : Prop :=
  Relation.ReflTransGen (fun v w => (v, w) ∈ g.edges) v w ∧
    Relation.ReflTransGen (fun v w => (v, w) ∈ g.edges) w v

/-- The component of the vertex has a cycle: it has several vertices, or the only one a loop. -/
def OnCycle (g : Digraph α) (v : Nat) : Prop :=
  (∃ w, w ≠ v ∧ g.Connected v w) ∨ (v, v) ∈ g.edges

theorem Connected.symm (connected : g.Connected v w) : g.Connected w v :=
  ⟨connected.2, connected.1⟩

theorem Connected.trans (first : g.Connected u v) (second : g.Connected v w) : g.Connected u w :=
  ⟨first.1.trans second.1, second.2.trans first.2⟩

theorem onCycle_iff : g.OnCycle v ↔ g.Leads v v := by
  constructor
  · rintro (⟨w, differ, out, back⟩ | loop)
    · rcases Relation.reflTransGen_iff_eq_or_transGen.mp out with same | walk
      · exact absurd same differ
      · exact walk.trans_left back
    · exact .single loop
  · intro walk
    obtain ⟨w, edge, back⟩ := Relation.TransGen.head'_iff.mp walk
    by_cases loop : w = v
    · exact .inr (loop ▸ edge)
    · exact .inl ⟨w, loop, .single edge, back⟩

/-- Components with a cycle are made of the vertices of closed walks. -/
theorem connected_iff (walk : g.Leads v v) :
    g.Connected v w ↔ g.Leads v w ∧ g.Leads w v := by
  constructor
  · rintro ⟨out, back⟩
    exact ⟨walk.trans_left out, Relation.TransGen.trans_right back walk⟩
  · rintro ⟨out, back⟩
    exact ⟨out.to_reflTransGen, back.to_reflTransGen⟩

/-- The cycle stands for the component of the vertex. It is a shortest walk from the vertex, which
has a smallest label of the component, back to it; it stays in the component and meets no vertex
twice. -/
structure Represents [Ord α] (g : Digraph α) (v : Nat) (cycle : List Nat) : Prop where
  onCycle : g.OnCycle v
  least : ∀ w a b, g.Connected v w → g.labels[v]? = some a → g.labels[w]? = some b →
    (compare a b).isLE
  closed : g.ClosedWalk v cycle
  simple : cycle.tail.Nodup
  inside : ∀ w ∈ cycle, w < g.labels.length ∧ g.Connected v w
  shortest : ∀ other, g.ClosedWalk v other → cycle.length ≤ other.length

/-- The list holds, in order, the labels of one cycle for each component that has any. -/
structure Reports [Ord α] (g : Digraph α) (cycles : List (List α)) (found : List (List Nat)) :
    Prop where
  labels : cycles.Perm (found.map g.labelAll)
  sorted : cycles.Pairwise fun a b => (compare a b).isLE
  represents : ∀ cycle ∈ found, ∃ v, g.Represents v cycle
  complete : ∀ v, g.OnCycle v → ∃ cycle ∈ found, ∃ w ∈ cycle, g.Connected v w
  apart : found.Pairwise fun a b => ∀ v ∈ a, ∀ w ∈ b, ¬g.Connected v w

section Ordered

variable [Ord α]

theorem cycleAt?_eq_some_iff : g.cycleAt? v = some cycle ↔
    v ∈ g.cyclicComponent g.reachability v ∧
      g.isSmallest v (g.cyclicComponent g.reachability v) = true ∧
      g.cycleThrough? v (g.cyclicComponent g.reachability v) = some cycle := by
  simp [cycleAt?, and_assoc]

theorem isLE_of_isSmallest {component : List Nat} (smallest : g.isSmallest v component = true)
    (member : w ∈ component) : (compare g.labels[v]? g.labels[w]?).isLE ∧
      (compare g.labels[v]? g.labels[w]? = .eq → v ≤ w) := by
  have le := List.all_eq_true.mp smallest w member
  split at le
  next lt => simp [lt]
  next eq => simpa [eq] using le
  next => contradiction

/-- A component has one smallest vertex. -/
theorem eq_of_isSmallest [Std.OrientedOrd α] {component other : List Nat}
    (smallest : g.isSmallest v component = true) (member : w ∈ component)
    (smallest' : g.isSmallest w other = true) (member' : v ∈ other) : v = w := by
  obtain ⟨le, below⟩ := isLE_of_isSmallest smallest member
  obtain ⟨le', below'⟩ := isLE_of_isSmallest smallest' member'
  have tied : compare g.labels[v]? g.labels[w]? = .eq := Std.OrientedCmp.isLE_antisymm le le'
  exact Nat.le_antisymm (below tied) (below' (Std.OrientedCmp.eq_symm tied))

theorem represents_of_cycleAt? (closed : g.InRange) (found : g.cycleAt? v = some cycle) :
    g.Represents v cycle := by
  obtain ⟨own, smallest, through⟩ := cycleAt?_eq_some_iff.mp found
  have range : v < g.labels.length :=
    mem_vertices.mp (List.mem_filter.mp (List.mem_filter.mp own).1).1
  have member := fun w => mem_cyclicComponent (w := w) closed range
  have walk := ((member v).mp own).1
  obtain ⟨path, trail, nodup, back, rfl, shortest⟩ :=
    (Layered.initial g v (g.cyclicComponent g.reachability v)).of_wayBack own _ through
  have around := trail.closedWalk back
  refine ⟨onCycle_iff.mpr walk, ?_, around, ?_, ?_, ?_⟩
  · intro w a b connected label label'
    have le := (isLE_of_isSmallest smallest ((member w).mpr ((connected_iff walk).mp connected))).1
    rwa [label, label'] at le
  · obtain ⟨inner, same⟩ := trail.exists_inner
    have perm : (inner.reverse ++ [v]).Perm path :=
      same ▸ (List.reverse_perm inner).append_right [v]
    simpa [same] using perm.nodup_iff.mpr nodup
  · intro w met
    have leads := around.leads met
    exact ⟨leads.1.target_lt closed, (connected_iff walk).mpr leads⟩
  · intro other back'
    obtain ⟨path', trail', back', size⟩ :=
      Trail.of_closedWalk back' fun w out home => (member w).mpr ⟨out, home⟩
    have := shortest path' trail' back'
    simp only [List.length_reverse, List.length_cons]
    omega

theorem Represents.connected (represents : g.Represents v cycle) (member : u ∈ cycle) :
    g.Connected v u := (represents.inside u member).2

/-- Cycles found at different vertices are cycles of different components. -/
theorem apart_of_cycleAt? [Std.OrientedOrd α] (closed : g.InRange) (differ : v ≠ w)
    {other : List Nat} (found : g.cycleAt? v = some cycle) (found' : g.cycleAt? w = some other) :
    ∀ x ∈ cycle, ∀ y ∈ other, ¬g.Connected x y := by
  intro x hx y hy connected
  have represents := represents_of_cycleAt? closed found
  have represents' := represents_of_cycleAt? closed found'
  have same : g.Connected v w :=
    ((represents.connected hx).trans connected).trans (represents'.connected hy).symm
  obtain ⟨out, back⟩ := (connected_iff (onCycle_iff.mp represents.onCycle)).mp same
  obtain ⟨-, smallest, -⟩ := cycleAt?_eq_some_iff.mp found
  obtain ⟨-, smallest', -⟩ := cycleAt?_eq_some_iff.mp found'
  exact differ (eq_of_isSmallest smallest
    ((mem_cyclicComponent closed (back.target_lt closed)).mpr ⟨out, back⟩) smallest'
    ((mem_cyclicComponent closed (out.target_lt closed)).mpr ⟨back, out⟩))

/-- The search reports each component with a cycle by one cycle, and nothing else. -/
theorem reports_cycles [Std.TransOrd α] (closed : g.InRange) :
    g.Reports g.cycles (g.vertices.filterMap g.cycleAt?) where
  labels := List.mergeSort_perm _ _
  sorted := (Ranking.of_cmp compare).pairwise_mergeSort _
  represents cycle member := by
    obtain ⟨v, -, found⟩ := List.mem_filterMap.mp member
    exact ⟨v, represents_of_cycleAt? closed found⟩
  complete v onCycle := by
    have walk := onCycle_iff.mp onCycle
    obtain ⟨w, leads, cycle, found⟩ := exists_cycleAt? closed walk
    obtain ⟨inner, rfl⟩ := (represents_of_cycleAt? closed found).closed.ends
    refine ⟨_, List.mem_filterMap.mpr ⟨w, ?_, found⟩, w, by simp, (connected_iff walk).mpr leads⟩
    exact mem_vertices.mpr (leads.1.target_lt closed)
  apart := by
    refine List.Pairwise.filterMap g.cycleAt? (fun v w differ a found b found' => ?_)
      (List.nodup_iff_pairwise_ne.mp List.nodup_range)
    exact apart_of_cycleAt? closed differ found found'

/-- No cycle is found exactly where the graph can be ordered. -/
theorem cycles_eq_nil_iff [Std.TransOrd α] (closed : g.InRange) :
    g.cycles = [] ↔ ∃ order, g.order? = some order := by
  constructor
  · exact exists_order?_of_cycles closed
  · rintro ⟨order, ordered⟩
    exact cycles_eq_nil closed ordered

/-- The result is made of an order of the graph, which then has no closed walk, or it reports the
cycles, of which there is one at least. -/
structure Decides (g : Digraph α) (arrange : List Nat → β) (result : Except (List (List α)) β) :
    Prop where
  ok : ∀ arranged, result = .ok arranged →
    g.Acyclic ∧ ∃ order, g.order? = some order ∧ arranged = arrange order
  error : ∀ cycles, result = .error cycles → cycles ≠ [] ∧ ∃ found, g.Reports cycles found

theorem decides_match [Std.TransOrd α] (closed : g.InRange) (arrange : List Nat → β) :
    g.Decides arrange (match g.order? with
      | some order => .ok (arrange order)
      | none => .error g.cycles) := by
  cases result : g.order? with
  | some order =>
    refine ⟨fun arranged same => ?_, fun cycles same => by contradiction⟩
    refine ⟨fun v walk => ?_, order, result, (Except.ok.inj same).symm⟩
    exact Nat.lt_irrefl _ (walk.idxOf_lt result)
  | none =>
    refine ⟨fun arranged same => by contradiction, fun cycles same => ?_⟩
    obtain rfl := Except.error.inj same
    refine ⟨fun empty => ?_, _, reports_cycles closed⟩
    obtain ⟨order, ordered⟩ := (cycles_eq_nil_iff closed).mp empty
    simp [ordered] at result

end Ordered

end WorkflowBundle.Digraph
