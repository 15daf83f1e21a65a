import WorkflowBundle.Proofs.Digraph.CycleSearch
import WorkflowBundle.Proofs.Workflow.Structure

/-! The edges of a workflow graph. Nothing enters the start and nothing leaves the finish, so the
anchors that tie steps to them lie on no closed walk: whether the steps can be put in an order
hangs on the dependencies alone. -/
namespace WorkflowBundle

namespace Vertices

variable {v : Vertices} {links : List Link} {l : Link} {step : Nat}

/-- The link ties a step to the start or to the finish. -/
def Ties (v : Vertices) (links : List Link) (l : Link) : Prop :=
  ∃ i < v.steps.length, l ∈ v.stepAnchors links (i + 1)

theorem mem_stepAnchors : l ∈ v.stepAnchors links step ↔
    (l = ⟨start, step, none, none⟩ ∧ ∀ k ∈ links, k.target ≠ step) ∨
      (l = ⟨step, v.finish, none, none⟩ ∧ ∀ k ∈ links, k.source ≠ step) := by
  have guarded : ∀ (any : Bool) (a : Link), l ∈ (if any then [] else [a]) ↔ l = a ∧ any = false := by
    intro any a
    cases any <;> simp
  simp only [stepAnchors, List.mem_append, guarded, List.any_eq_false, beq_iff_eq, ne_eq]

/-- The start is tied to the finish when nothing else enters the finish. -/
theorem mem_anchors : l ∈ v.anchors links ↔ v.Ties links l ∨ l = ⟨start, v.finish, none, none⟩ ∧
    ∀ k, k ∈ links ∨ v.Ties links k → k.target ≠ v.finish := by
  have ties : ∀ k, k ∈ (List.range v.steps.length).flatMap
      (fun i => v.stepAnchors links (i + 1)) ↔ v.Ties links k := by
    simp [Ties]
  simp only [anchors]
  split
  next entered =>
    obtain ⟨k, listed, last⟩ := List.any_eq_true.mp entered
    rw [List.mem_append, ties] at listed
    rw [ties, iff_self_or]
    rintro ⟨-, free⟩
    exact absurd (beq_iff_eq.mp last) (free k listed)
  next free =>
    rw [Bool.not_eq_true, List.any_eq_false] at free
    rw [List.mem_append, ties, List.mem_singleton]
    refine or_congr_right (and_iff_left fun k listed => ?_).symm
    simpa using free k (List.mem_append.mpr (listed.imp_right (ties k).mpr))

end Vertices

namespace Workflow

variable {w : Workflow} {id : String} {v u : Nat}

theorem mem_vertices_steps : id ∈ w.vertices.steps ↔ ∃ node ∈ w.nodes, node.isStep ∧ node.id = id := by
  simp only [vertices, List.mem_eraseDups, List.mem_map, List.mem_filter, and_assoc]

theorem ofStep_lt_finish {node : Node} (member : node ∈ w.nodes) (step : node.isStep) :
    w.vertices.ofStep node.id < w.vertices.finish := by
  have listed : node.id ∈ w.vertices.steps := mem_vertices_steps.mpr ⟨node, member, step, rfl⟩
  exact Nat.succ_lt_succ (List.idxOf_lt_length_of_mem listed)

/-- An edge that leaves no finish and enters no start. -/
structure Inner (w : Workflow) (source target : Nat) : Prop where
  source_lt : source < w.vertices.finish
  target_pos : Vertices.start < target
  target_le : target ≤ w.vertices.finish

/-- A dependency is an edge from the first vertex to the second. -/
def Linked (w : Workflow) (v u : Nat) : Prop := ∃ l ∈ w.links, l.source = v ∧ l.target = u

theorem lt_finish_of_provider {number : Nat} (provided : w.provider w.vertices id = .vertex number) :
    number < w.vertices.finish := by
  unfold provider at provided
  split at provided
  · obtain rfl := Provider.vertex.inj provided
    exact Nat.succ_pos _
  · split at provided
    · contradiction
    · split at provided
      next listed =>
        obtain rfl := Provider.vertex.inj provided
        exact Nat.succ_lt_succ (List.idxOf_lt_length_of_mem (by simpa using listed))
      next => contradiction

theorem bounds_of_consumer {c : Consumer} (consumer : c ∈ w.consumers w.vertices) :
    Vertices.start < c.vertex ∧ c.vertex ≤ w.vertices.finish := by
  rcases List.mem_append.mp consumer with ofNode | outputs
  · obtain ⟨node, member, made⟩ := List.mem_filterMap.mp ofNode
    unfold consumer? at made
    split at made
    · contradiction
    next notStart =>
      obtain rfl := Option.some.inj made
      by_cases finish : node.isFinish
      · simp [finish, Vertices.start, Vertices.finish]
      · have lt := ofStep_lt_finish member (by simp [Node.isStep, notStart, finish])
        simp only [finish]
        exact ⟨Nat.succ_pos _, Nat.le_of_lt lt⟩
  · obtain rfl := List.mem_singleton.mp outputs
    exact ⟨Nat.succ_pos _, Nat.le_refl _⟩

theorem mem_links {l : Link} : l ∈ w.links ↔
    ∃ c ∈ w.consumers w.vertices, ∃ d ∈ c.dependencies, w.link w.vertices c d = .ok l := by
  unfold links linkResults
  rw [List.mem_filterMap]
  constructor
  · rintro ⟨result, listed, ok⟩
    obtain ⟨c, consumer, linked⟩ := List.mem_flatMap.mp listed
    obtain ⟨d, needed, rfl⟩ := List.mem_map.mp linked
    refine ⟨c, consumer, d, needed, ?_⟩
    cases result : w.link w.vertices c d with
    | ok found => simpa [result] using ok
    | error fault => simp [result] at ok
  · rintro ⟨c, consumer, d, needed, linked⟩
    refine ⟨.ok l, List.mem_flatMap.mpr ⟨c, consumer, ?_⟩, rfl⟩
    exact linked ▸ List.mem_map_of_mem needed

theorem linkFaults_eq_nil_iff :
    w.linkFaults = [] ↔ ∀ result ∈ w.linkResults, ∃ l, result = .ok l := by
  have none_iff : ∀ faults, firstFaults faults [] = [] ↔ faults = [] :=
    fun faults => ⟨eq_nil_of_firstFaults, fun none => none ▸ rfl⟩
  rw [linkFaults, none_iff, List.filterMap_eq_nil_iff]
  refine forall₂_congr fun result _ => ?_
  cases result <;> simp

theorem Linked.inner (linked : w.Linked v u) : w.Inner v u := by
  obtain ⟨l, listed, rfl, rfl⟩ := linked
  obtain ⟨c, consumer, d, -, ok⟩ := mem_links.mp listed
  obtain ⟨pos, le⟩ := bounds_of_consumer consumer
  unfold link at ok
  split at ok
  · contradiction
  · split at ok
    next provided =>
      obtain rfl := Except.ok.inj ok
      exact ⟨lt_finish_of_provider provided, pos, le⟩
    next => contradiction
    next => contradiction

/-- An anchor comes from the start or goes to the finish. -/
theorem of_mem_anchors {links : List Link} {l : Link} (anchor : l ∈ w.vertices.anchors links) :
    w.Inner l.source l.target ∧ (l.source = Vertices.start ∨ l.target = w.vertices.finish) := by
  rcases Vertices.mem_anchors.mp anchor with ⟨i, range, tie⟩ | ⟨rfl, -⟩
  · have lt : i + 1 < w.vertices.finish := Nat.succ_lt_succ range
    rcases Vertices.mem_stepAnchors.mp tie with ⟨rfl, -⟩ | ⟨rfl, -⟩
    · exact ⟨⟨Nat.succ_pos _, Nat.succ_pos _, Nat.le_of_lt lt⟩, .inl rfl⟩
    · exact ⟨⟨lt, Nat.succ_pos _, Nat.le_refl _⟩, .inr rfl⟩
  · exact ⟨⟨Nat.succ_pos _, Nat.succ_pos _, Nat.le_refl _⟩, .inl rfl⟩

theorem mem_graph_edges : (v, u) ∈ w.graph.edges ↔ ∃ l ∈ w.allLinks, l.source = v ∧ l.target = u := by
  rw [graph, Digraph.mem_edges_ofEdges, List.mem_map]
  simp only [Prod.mk.injEq]

theorem Linked.mem_edges (linked : w.Linked v u) : (v, u) ∈ w.graph.edges := by
  obtain ⟨l, listed, same⟩ := linked
  exact mem_graph_edges.mpr ⟨l, List.mem_append_left _ listed, same⟩

theorem of_mem_edges (edge : (v, u) ∈ w.graph.edges) :
    w.Inner v u ∧ (v = Vertices.start ∨ u = w.vertices.finish ∨ w.Linked v u) := by
  obtain ⟨l, listed, rfl, rfl⟩ := mem_graph_edges.mp edge
  rcases List.mem_append.mp listed with link | anchor
  · have linked : w.Linked l.source l.target := ⟨l, link, rfl, rfl⟩
    exact ⟨linked.inner, .inr (.inr linked)⟩
  · obtain ⟨inner, start | finish⟩ := of_mem_anchors anchor
    · exact ⟨inner, .inl start⟩
    · exact ⟨inner, .inr (.inl finish)⟩

theorem graph_inRange (w : Workflow) : w.graph.InRange := by
  intro e edge
  obtain ⟨inner, -⟩ := of_mem_edges edge
  have size : w.graph.labels.length = w.vertices.finish + 1 := by
    simp [graph, Digraph.ofEdges, Vertices.names, Vertices.finish]
  rw [size]
  exact ⟨Nat.lt_succ_of_lt inner.source_lt, Nat.lt_succ_of_le inner.target_le⟩

/-- A walk that neither comes from the start nor goes to the finish is one of dependencies. -/
theorem linked_of_leads (walk : w.graph.Leads v u) : v < w.vertices.finish ∧ Vertices.start < u ∧
    (v = Vertices.start ∨ u = w.vertices.finish ∨ Relation.TransGen w.Linked v u) := by
  induction walk with
  | single edge =>
    obtain ⟨inner, start | finish | linked⟩ := of_mem_edges edge
    · exact ⟨inner.source_lt, inner.target_pos, .inl start⟩
    · exact ⟨inner.source_lt, inner.target_pos, .inr (.inl finish)⟩
    · exact ⟨inner.source_lt, inner.target_pos, .inr (.inr (.single linked))⟩
  | tail _ edge ih =>
    obtain ⟨lt, pos, before⟩ := ih
    obtain ⟨inner, next⟩ := of_mem_edges edge
    refine ⟨lt, inner.target_pos, ?_⟩
    rcases before with start | finish | walk
    · exact .inl start
    · exact absurd (finish ▸ inner.source_lt) (Nat.lt_irrefl _)
    · rcases next with start | finish | linked
      · exact absurd (start ▸ pos) (Nat.lt_irrefl _)
      · exact .inr (.inl finish)
      · exact .inr (.inr (walk.tail linked))

/-- The steps can be put in an order when no step depends on itself, directly or through others. -/
theorem exists_nodeOrder_iff :
    (∃ order, w.nodeOrder = .ok order) ↔ ∀ v, ¬Relation.TransGen w.Linked v v := by
  unfold nodeOrder
  constructor
  · rintro ⟨order, ordered⟩ v walk
    dsimp only at ordered
    split at ordered
    next found =>
      have leads : w.graph.Leads v v := Relation.TransGen.mono (fun _ _ => Linked.mem_edges) v v walk
      exact Nat.lt_irrefl _ (leads.idxOf_lt found)
    next => contradiction
  · intro acyclic
    have closed : w.graph.Acyclic := by
      intro v walk
      obtain ⟨lt, pos, start | finish | linked⟩ := linked_of_leads walk
      · exact Nat.lt_irrefl _ (start ▸ pos)
      · exact Nat.lt_irrefl _ (finish ▸ lt)
      · exact acyclic v linked
    obtain ⟨order, found⟩ := Digraph.exists_order?_of_acyclic w.graph_inRange closed
    simp only [found]
    exact ⟨_, rfl⟩

/-- Where there is no order, there is a cycle to report. -/
theorem exists_nodeOrder_of_cycles (none : ∀ cycles, w.nodeOrder = .error cycles → cycles = []) :
    ∃ order, w.nodeOrder = .ok order := by
  cases result : w.nodeOrder with
  | ok order => exact ⟨order, rfl⟩
  | error cycles =>
    have empty := none cycles result
    unfold nodeOrder at result
    dsimp only at result
    split at result
    · contradiction
    next found =>
      rw [← Except.error.inj result] at empty
      obtain ⟨order, ordered⟩ := Digraph.exists_order?_of_cycles w.graph_inRange empty
      simp [ordered] at found

end Workflow

theorem Scope.exists_nodeOrder_of_defects {s : Scope} (empty : s.defects = []) :
    ∃ order, s.workflow.nodeOrder = .ok order := by
  refine Workflow.exists_nodeOrder_of_cycles fun cycles cyclic => ?_
  simp only [defects, cyclic, List.append_eq_nil_iff, List.map_eq_nil_iff] at empty
  exact empty.1.2

end WorkflowBundle
