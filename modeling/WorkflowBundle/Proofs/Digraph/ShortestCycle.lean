import Mathlib.Data.List.Chain
import WorkflowBundle.Proofs.Digraph.CycleSearch

/-! The cycle found through a vertex is a shortest one. Walks from the start are taken up in
order of their length, and each vertex is met by a shortest walk to it, so when the search comes
back to the start no shorter way back has been passed over. -/
namespace WorkflowBundle.Digraph

variable {α : Type u} {g : Digraph α} {u v w : Nat}

/-- A walk from a vertex back to it along one edge or more, with all vertices that it meets. -/
structure ClosedWalk (g : Digraph α) (v : Nat) (cycle : List Nat) : Prop where
  ends : ∃ inner, cycle = v :: inner ++ [v]
  edges : cycle.IsChain fun u w => (u, w) ∈ g.edges

/-- All vertices of a closed walk lead to each other. -/
theorem ClosedWalk.leads {cycle : List Nat} (closed : g.ClosedWalk v cycle) (member : u ∈ cycle) :
    g.Leads v u ∧ g.Leads u v := by
  obtain ⟨⟨inner, rfl⟩, chain⟩ := closed
  have walks : (v :: inner ++ [v]).Pairwise g.Leads :=
    List.isChain_iff_pairwise.mp (chain.imp fun _ _ edge => .single edge)
  have out : ∀ u ∈ inner ++ [v], g.Leads v u := (List.pairwise_cons.mp walks).1
  have back : ∀ u ∈ v :: inner, g.Leads u v :=
    fun u early => (List.pairwise_append.mp walks).2.2 u early v (List.mem_singleton_self v)
  have around := out v (List.mem_append_right _ (List.mem_singleton_self v))
  by_cases same : u = v
  · subst same
    exact ⟨around, around⟩
  · have inside : u ∈ inner := by simpa [same] using member
    exact ⟨out u (List.mem_append_left _ inside), back u (List.mem_cons_of_mem _ inside)⟩

/-- A walk from the start inside a component, listed from its end. -/
inductive Trail (g : Digraph α) (start : Nat) (component : List Nat) : List Nat → Prop where
  | start : Trail g start component [start]
  | step {path : List Nat} {w : Nat} : Trail g start component path →
      (path.headD start, w) ∈ g.edges → w ∈ component → Trail g start component (w :: path)

namespace Trail

variable {start : Nat} {component path inner : List Nat}

theorem isChain (trail : Trail g start component path) :
    path.IsChain fun w u => (u, w) ∈ g.edges := by
  induction trail with
  | start => exact .singleton start
  | @step path w trail edge _ ih =>
    refine ih.cons fun u head => ?_
    rwa [List.headD_eq_head?_getD, head] at edge

theorem exists_inner (trail : Trail g start component path) :
    ∃ inner, path = inner ++ [start] := by
  induction trail with
  | start => exact ⟨[], rfl⟩
  | @step path w _ _ _ ih =>
    obtain ⟨inner, rfl⟩ := ih
    exact ⟨w :: inner, rfl⟩

/-- A trail whose end leads back to the start is a closed walk. -/
theorem closedWalk (trail : Trail g start component path)
    (back : (path.headD start, start) ∈ g.edges) : g.ClosedWalk start (start :: path).reverse := by
  obtain ⟨inner, same⟩ := trail.exists_inner
  refine ⟨⟨inner.reverse, by simp [same]⟩, List.isChain_reverse.mpr ?_⟩
  refine trail.isChain.cons fun u head => ?_
  rwa [List.headD_eq_head?_getD, head] at back

theorem of_isChain (chain : (start :: inner).IsChain fun u w => (u, w) ∈ g.edges)
    (inside : ∀ u ∈ inner, u ∈ component) : Trail g start component (start :: inner).reverse := by
  induction inner using List.reverseRecOn with
  | nil => exact .start
  | append_singleton inner w ih =>
    rw [← List.cons_append] at chain ⊢
    obtain ⟨early, -, last⟩ := List.isChain_append.mp chain
    rw [List.reverse_concat]
    refine (ih early fun u hu => inside u (List.mem_append_left _ hu)).step ?_ (inside w (by simp))
    rw [List.headD_eq_head?_getD, List.head?_reverse]
    cases found : (start :: inner).getLast? with
    | none => simp at found
    | some u => exact last u found w rfl

/-- A closed walk is a trail that comes back. -/
theorem of_closedWalk {cycle : List Nat} (closed : g.ClosedWalk start cycle)
    (whole : ∀ w, g.Leads start w → g.Leads w start → w ∈ component) :
    ∃ path, Trail g start component path ∧ (path.headD start, start) ∈ g.edges ∧
      cycle.length = path.length + 1 := by
  have leads := fun u => closed.leads (u := u)
  obtain ⟨⟨inner, rfl⟩, chain⟩ := closed
  obtain ⟨early, -, last⟩ := List.isChain_append.mp chain
  refine ⟨(start :: inner).reverse, of_isChain early fun u hu => ?_, ?_, by simp⟩
  · obtain ⟨out, back⟩ := leads u (by simp [hu])
    exact whole u out back
  · rw [List.headD_eq_head?_getD, List.head?_reverse]
    cases found : (start :: inner).getLast? with
    | none => simp at found
    | some u => exact last u found start rfl

end Trail

/-- State of the search for a way back in which the paths that wait are shortest trails without
repetition, the shorter ones first, and no two differ by more than one edge. -/
structure Layered (g : Digraph α) (start : Nat) (component : List Nat) (queue : List (List Nat))
    (met : List Nat) : Prop extends Searching g start component queue met where
  trails : ∀ path ∈ queue, Trail g start component path
  simple : ∀ path ∈ queue, path.Nodup
  known : ∀ path ∈ queue, ∀ u ∈ path, u = start ∨ u ∈ met
  shortest : ∀ path ∈ queue, ∀ other, Trail g start component other →
    other.headD start = path.headD start → path.length ≤ other.length
  ordered : queue.Pairwise (·.length ≤ ·.length)
  even : ∀ path ∈ queue, ∀ other ∈ queue, other.length ≤ path.length + 1

namespace Layered

open Searching

variable {start : Nat} {component met path other : List Nat} {queue : List (List Nat)}

theorem initial (g : Digraph α) (start : Nat) (component : List Nat) :
    Layered g start component [[start]] [] where
  explored := by simp
  away := List.not_mem_nil
  trails path member := List.mem_singleton.mp member ▸ .start
  simple path member := by simp [List.mem_singleton.mp member]
  known path member u hu := by
    rw [List.mem_singleton.mp member] at hu
    exact .inl (List.mem_singleton.mp hu)
  shortest path member other trail _ := by
    obtain ⟨inner, rfl⟩ := trail.exists_inner
    simp [List.mem_singleton.mp member]
  ordered := List.pairwise_singleton ..
  even path member other member' := by
    rw [List.mem_singleton.mp member, List.mem_singleton.mp member']
    exact Nat.le_succ _

/-- The end of a trail is done with, if it has been met and all that waits is longer. -/
theorem closed_of_met (layered : Layered g start component queue met)
    (trail : Trail g start component other) (shorter : ∀ path ∈ queue, other.length < path.length)
    (found : other.headD start = start ∨ other.headD start ∈ met) (inside : w ∈ component)
    (edge : (other.headD start, w) ∈ g.edges) : w ∈ met := by
  rcases layered.explored _ found with ⟨path, waits, same⟩ | closed
  · have longer := shorter path waits
    have := layered.shortest path waits other trail same.symm
    omega
  · exact closed w inside (mem_successors.mpr edge)

/-- Vertices at the end of trails no longer than what waits have been met. -/
theorem met_of_trail (layered : Layered g start component queue met)
    (trail : Trail g start component other) (short : ∀ path ∈ queue, other.length ≤ path.length) :
    other.headD start = start ∨ other.headD start ∈ met := by
  induction trail with
  | start => exact .inl rfl
  | @step path w trail edge inside ih =>
    have shorter : ∀ waiting ∈ queue, path.length < waiting.length := fun waiting member =>
      short waiting member
    have before := ih fun waiting member => Nat.le_of_lt (shorter waiting member)
    exact .inr (layered.closed_of_met trail shorter before inside edge)

theorem length_le (layered : Layered g start component (path :: queue) met)
    (member : other ∈ path :: queue) : path.length ≤ other.length := by
  rcases List.mem_cons.mp member with rfl | member
  · exact Nat.le_refl _
  · exact (List.pairwise_cons.mp layered.ordered).1 other member

/-- While the first path in the queue does not lead back, the paths that go on from it come last. -/
theorem step (layered : Layered g start component (path :: queue) met)
    (onward : start ∉ next g start component path) :
    let fresh := (next g start component path).filter (!met.contains ·)
    Layered g start component (queue ++ fresh.map (· :: path)) (met ++ fresh) := by
  intro fresh
  have first : path ∈ path :: queue := List.mem_cons_self
  have later : ∀ old ∈ queue, old ∈ path :: queue := fun old => List.mem_cons_of_mem path
  have fresh_next : ∀ w ∈ fresh, (w ∈ component ∧ (path.headD start, w) ∈ g.edges) ∧ w ∉ met := by
    intro w hw
    obtain ⟨next, new⟩ := List.mem_filter.mp hw
    obtain ⟨inside, follows⟩ := mem_next.mp next
    exact ⟨⟨inside, mem_successors.mp follows⟩, by simpa using new⟩
  have ne_start : ∀ w ∈ fresh, w ≠ start := fun w hw same =>
    onward (same ▸ (List.mem_filter.mp hw).1)
  have cases : ∀ p ∈ queue ++ fresh.map (· :: path), p ∈ queue ∨ ∃ w ∈ fresh, p = w :: path := by
    intro p hp
    rcases List.mem_append.mp hp with old | new
    · exact .inl old
    · obtain ⟨w, hw, rfl⟩ := List.mem_map.mp new
      exact .inr ⟨w, hw, rfl⟩
  have bounds : ∀ p ∈ queue ++ fresh.map (· :: path),
      path.length ≤ p.length ∧ p.length ≤ path.length + 1 := by
    intro p hp
    rcases cases p hp with old | ⟨w, -, rfl⟩
    · exact ⟨layered.length_le (later p old), layered.even path first p (later p old)⟩
    · exact ⟨Nat.le_succ _, Nat.le_refl _⟩
  refine ⟨layered.toSearching.step onward, ?_, ?_, ?_, ?_, ?_, ?_⟩
  · intro p hp
    rcases cases p hp with old | ⟨w, hw, rfl⟩
    · exact layered.trails p (later p old)
    · obtain ⟨⟨inside, edge⟩, -⟩ := fresh_next w hw
      exact (layered.trails path first).step edge inside
  · intro p hp
    rcases cases p hp with old | ⟨w, hw, rfl⟩
    · exact layered.simple p (later p old)
    · refine List.nodup_cons.mpr ⟨fun again => ?_, layered.simple path first⟩
      rcases layered.known path first w again with same | old
      · exact ne_start w hw same
      · exact (fresh_next w hw).2 old
  · intro p hp x hx
    rcases cases p hp with old | ⟨w, hw, rfl⟩
    · exact (layered.known p (later p old) x hx).imp id (List.mem_append_left _)
    · rcases List.mem_cons.mp hx with rfl | hx
      · exact .inr (List.mem_append_right _ hw)
      · exact (layered.known path first x hx).imp id (List.mem_append_left _)
  · intro p hp longer trail same
    rcases cases p hp with old | ⟨w, hw, rfl⟩
    · exact layered.shortest p (later p old) longer trail same
    · -- A shorter trail to a vertex would have met it before.
      by_contra shorter
      have short : ∀ waiting ∈ path :: queue, longer.length ≤ waiting.length := by
        intro waiting member
        have := layered.length_le member
        simp only [List.length_cons] at shorter
        omega
      have end_eq : longer.headD start = w := same
      rcases layered.met_of_trail trail short with back | old
      · exact ne_start w hw (end_eq.symm.trans back)
      · exact (fresh_next w hw).2 (end_eq ▸ old)
  · refine List.pairwise_append.mpr ⟨(List.pairwise_cons.mp layered.ordered).2, ?_, ?_⟩
    · exact List.pairwise_map.mpr (List.pairwise_of_forall fun _ _ => Nat.le_refl _)
    · intro p old q new
      obtain ⟨w, -, rfl⟩ := List.mem_map.mp new
      exact layered.even path first p (later p old)
  · intro p hp q hq
    have := bounds p hp
    have := bounds q hq
    omega

/-- A trail that leads back to the start is at least as long as the first that waits. -/
theorem le_of_back (layered : Layered g start component (path :: queue) met)
    (own : start ∈ component) (trail : Trail g start component other)
    (back : (other.headD start, start) ∈ g.edges) : path.length ≤ other.length := by
  by_contra shorter
  have short : ∀ waiting ∈ path :: queue, other.length < waiting.length := fun waiting member =>
    Nat.lt_of_lt_of_le (Nat.lt_of_not_le shorter) (layered.length_le member)
  have found := layered.met_of_trail trail fun waiting member =>
    Nat.le_of_lt (short waiting member)
  exact layered.away (layered.closed_of_met trail short found own back)

/-- What the search finds comes from a shortest trail that leads back to the start. -/
theorem of_wayBack (layered : Layered g start component queue met) (own : start ∈ component)
    (fuel : Nat) {cycle : List Nat} (found : g.wayBack start component fuel queue met = some cycle) :
    ∃ path, Trail g start component path ∧ path.Nodup ∧ (path.headD start, start) ∈ g.edges ∧
      cycle = (start :: path).reverse ∧ ∀ other, Trail g start component other →
        (other.headD start, start) ∈ g.edges → path.length ≤ other.length := by
  induction fuel generalizing queue met with
  | zero => simp [wayBack] at found
  | succ fuel ih =>
    cases queue with
    | nil => simp [wayBack] at found
    | cons path queue =>
      have first : path ∈ path :: queue := List.mem_cons_self
      rw [wayBack_cons] at found
      split at found
      case isTrue back =>
        have back : (path.headD start, start) ∈ g.edges := by
          rw [List.contains_eq_mem, decide_eq_true_eq] at back
          exact mem_successors.mp (mem_next.mp back).2
        refine ⟨path, layered.trails path first, layered.simple path first, back,
          (Option.some.inj found).symm, fun other trail back' => ?_⟩
        exact layered.le_of_back own trail back'
      case isFalse onward =>
        rw [List.contains_eq_mem, decide_eq_true_eq] at onward
        exact ih (layered.step onward) found

end Layered

end WorkflowBundle.Digraph
