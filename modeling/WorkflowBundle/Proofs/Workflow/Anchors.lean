import WorkflowBundle.Proofs.Workflow.Links

/-! What anchors are for. With them every step is entered and left, so in a workflow graph that has
an order every vertex is reached from the start and leads to the finish. -/
namespace WorkflowBundle

/-- Everything is reached from the root if all but the root is entered from something of lower
rank. -/
theorem reflTransGen_of_rank {r : α → α → Prop} {root : α} (inside : α → Prop) (rank : α → Nat)
    (entered : ∀ v, inside v → v = root ∨ ∃ u, inside u ∧ r u v ∧ rank u < rank v) {v : α}
    (member : inside v) : Relation.ReflTransGen r root v := by
  induction size : rank v using Nat.strongRecOn generalizing v with
  | ind n ih =>
    rcases entered v member with rfl | ⟨u, member', step, lt⟩
    · exact .refl
    · exact (ih (rank u) (size ▸ lt) member' rfl).tail step

namespace Workflow

variable {w : Workflow} {v : Nat} {order : List Nat}

theorem mem_allLinks {l : Link} : l ∈ w.allLinks ↔ (l ∈ w.links ∨ w.vertices.Ties w.links l) ∨
    l = ⟨Vertices.start, w.vertices.finish, none, none⟩ ∧
      ∀ k, k ∈ w.links ∨ w.vertices.Ties w.links k → k.target ≠ w.vertices.finish := by
  rw [allLinks, List.mem_append, Vertices.mem_anchors, or_assoc]

theorem inner_of_allLinks {l : Link} (listed : l ∈ w.allLinks) : w.Inner l.source l.target :=
  (of_mem_edges (mem_graph_edges.mpr ⟨l, listed, rfl, rfl⟩)).1

theorem mem_edges_of_tie {l : Link} (tie : w.vertices.Ties w.links l) :
    (l.source, l.target) ∈ w.graph.edges :=
  mem_graph_edges.mpr ⟨l, mem_allLinks.mpr (.inl (.inr tie)), rfl, rfl⟩

theorem exists_between (pos : Vertices.start < v) (lt : v < w.vertices.finish) :
    ∃ i < w.vertices.steps.length, v = i + 1 := by
  obtain ⟨i, rfl⟩ := Nat.exists_eq_add_one_of_ne_zero (Nat.ne_of_gt pos)
  exact ⟨i, Nat.lt_of_succ_lt_succ lt, rfl⟩

/-- All vertices but the start are entered. -/
theorem exists_edge_to (pos : Vertices.start < v) (le : v ≤ w.vertices.finish) :
    ∃ u, (u, v) ∈ w.graph.edges := by
  by_cases linked : ∃ l ∈ w.links, l.target = v
  · obtain ⟨l, listed, same⟩ := linked
    have linked : w.Linked l.source v := ⟨l, listed, rfl, same⟩
    exact ⟨l.source, linked.mem_edges⟩
  · rcases Nat.lt_or_eq_of_le le with lt | rfl
    · obtain ⟨i, range, rfl⟩ := exists_between pos lt
      have tie : w.vertices.Ties w.links ⟨Vertices.start, i + 1, none, none⟩ :=
        ⟨i, range, Vertices.mem_stepAnchors.mpr
          (.inl ⟨rfl, fun l listed same => linked ⟨l, listed, same⟩⟩)⟩
      exact ⟨_, mem_edges_of_tie tie⟩
    · by_cases tied : ∃ l, w.vertices.Ties w.links l ∧ l.target = w.vertices.finish
      · obtain ⟨l, tie, same⟩ := tied
        exact ⟨l.source, same ▸ mem_edges_of_tie tie⟩
      · have free : ∀ l, l ∈ w.links ∨ w.vertices.Ties w.links l →
            l.target ≠ w.vertices.finish := by
          rintro l (listed | tie) same
          · exact linked ⟨l, listed, same⟩
          · exact tied ⟨l, tie, same⟩
        exact ⟨_, mem_graph_edges.mpr ⟨_, mem_allLinks.mpr (.inr ⟨rfl, free⟩), rfl, rfl⟩⟩

/-- All steps are left. -/
theorem exists_edge_from (pos : Vertices.start < v) (lt : v < w.vertices.finish) :
    ∃ u, (v, u) ∈ w.graph.edges := by
  by_cases linked : ∃ l ∈ w.links, l.source = v
  · obtain ⟨l, listed, same⟩ := linked
    have linked : w.Linked v l.target := ⟨l, listed, same, rfl⟩
    exact ⟨l.target, linked.mem_edges⟩
  · obtain ⟨i, range, rfl⟩ := exists_between pos lt
    have tie : w.vertices.Ties w.links ⟨i + 1, w.vertices.finish, none, none⟩ :=
      ⟨i, range, Vertices.mem_stepAnchors.mpr
        (.inr ⟨rfl, fun l listed same => linked ⟨l, listed, same⟩⟩)⟩
    exact ⟨_, mem_edges_of_tie tie⟩

theorem reached_from_start (ordered : w.graph.order? = some order) (le : v ≤ w.vertices.finish) :
    Relation.ReflTransGen (fun v u => (v, u) ∈ w.graph.edges) Vertices.start v := by
  apply reflTransGen_of_rank (· ≤ w.vertices.finish) order.idxOf _ le
  intro v le
  rcases Nat.eq_zero_or_pos v with start | pos
  · exact .inl start
  · obtain ⟨u, edge⟩ := exists_edge_to pos le
    have inner := (of_mem_edges edge).1
    exact .inr ⟨u, Nat.le_of_lt inner.source_lt, edge, Digraph.order?_forward ordered _ edge⟩

theorem leads_to_finish (ordered : w.graph.order? = some order) (le : v ≤ w.vertices.finish) :
    Relation.ReflTransGen (fun v u => (v, u) ∈ w.graph.edges) v w.vertices.finish := by
  rcases Nat.eq_zero_or_pos v with rfl | pos
  · exact reached_from_start ordered (Nat.le_refl _)
  -- backwards the finish is the root, and ranks are counted from the end of the order
  apply Relation.reflTransGen_swap.mp
  apply reflTransGen_of_rank (fun v => Vertices.start < v ∧ v ≤ w.vertices.finish)
    (fun v => order.length - order.idxOf v) _ ⟨pos, le⟩
  rintro v ⟨pos, le⟩
  rcases Nat.lt_or_eq_of_le le with lt | finish
  · obtain ⟨u, edge⟩ := exists_edge_from pos lt
    have inner := (of_mem_edges edge).1
    have forward := Digraph.order?_forward ordered _ edge
    have last : order.idxOf u ≤ order.length := List.idxOf_le_length
    refine .inr ⟨u, ⟨inner.target_pos, inner.target_le⟩, edge, ?_⟩
    simp only at forward
    omega
  · exact .inl finish

end Workflow

end WorkflowBundle
