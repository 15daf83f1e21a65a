import WorkflowBundle.Proofs.Workflow.Links
import WorkflowBundle.Proofs.Workflow.Sources

/-! Workflows whose nodes are well laid out, and their graphs. Every edge of such a graph comes
from the start, goes to the finish or joins two steps one of which needs the other, so a closed
walk in it would be a circle of steps that need each other. -/
namespace WorkflowBundle

/-- Id of the node that the value is an output of. -/
def Origin.producer? : Origin → Option String
  | nodeOutput id _ => some id
  | workflowInput _ | literal _ => none

theorem Origin.exists_output {origin : Origin} {id : String} (taken : origin.producer? = some id) :
    ∃ output, origin = .nodeOutput id output := by
  cases origin with
  | nodeOutput producer output =>
    obtain rfl := Option.some.inj taken
    exact ⟨output, rfl⟩
  | workflowInput name => contradiction
  | literal value => contradiction

/-- A binding needs the node that its value is an output of, or the start. -/
theorem Dependency.of_ofBinding? {owner input : String} {origin : Origin} {d : Dependency}
    (needed : ofBinding? owner input origin = some d) :
    d.owner = owner ∧ (d.producer = Workflow.startId ∨ origin.producer? = some d.producer) := by
  cases origin with
  | workflowInput name =>
    obtain rfl := Option.some.inj needed
    exact ⟨rfl, .inl rfl⟩
  | nodeOutput id output =>
    obtain rfl := Option.some.inj needed
    exact ⟨rfl, .inr rfl⟩
  | literal value => contradiction

/-- Ids of the nodes that the node itself takes outputs of or runs after. -/
def Node.needed (node : Node) : List String :=
  node.inputs.filterMap (·.origin.producer?) ++ node.runsAfter

namespace Workflow

variable {w : Workflow} {node other inner : Node} {id : String}

/-- The id stands for the start, or for a step at top level. -/
def CanGive (w : Workflow) (id : String) : Prop :=
  w.namesStart id ∨ ∃ node ∈ w.nodes, node.isStep ∧ node.id = id

instance (w : Workflow) (id : String) : Decidable (w.CanGive id) :=
  inferInstanceAs (Decidable (_ ∨ ∃ node ∈ w.nodes, _))

/-- Of two nodes at top level the first is needed by the second, or by an arm of it. -/
def Before (w : Workflow) (node other : Node) : Prop :=
  node ∈ w.nodes ∧ other ∈ w.nodes ∧ ∃ inner ∈ other.flatten, node.id ∈ inner.needed

theorem mem_of_before (walk : Relation.TransGen w.Before node other) :
    node ∈ w.nodes ∧ other ∈ w.nodes := by
  induction walk with
  | single before => exact ⟨before.1, before.2.1⟩
  | tail _ before ih => exact ⟨ih.1, before.2.1⟩

theorem rank_lt_of_before {rank : Node → Nat} (ranked : ∀ node ∈ w.nodes, ∀ other ∈ w.nodes,
    ∀ inner ∈ other.flatten, node.id ∈ inner.needed → rank node < rank other)
    (walk : Relation.TransGen w.Before node other) : rank node < rank other := by
  have step : ∀ node other, w.Before node other → rank node < rank other := by
    rintro node other ⟨member, member', inner, inside, needed⟩
    exact ranked node member other member' inner inside needed
  induction walk with
  | single before => exact step _ _ before
  | tail _ before ih => exact Nat.lt_trans ih (step _ _ before)

/-- Nodes do not need each other in a circle if they can be ranked. -/
theorem not_before_self {rank : Node → Nat} (ranked : ∀ node ∈ w.nodes, ∀ other ∈ w.nodes,
    ∀ inner ∈ other.flatten, node.id ∈ inner.needed → rank node < rank other) (node : Node) :
    ¬Relation.TransGen w.Before node node := by
  intro walk
  exact Nat.lt_irrefl _ (rank_lt_of_before ranked walk)

structure WellLaid (w : Workflow) : Prop where
  /-- No id stands twice, at whatever depth. -/
  ids : (w.allNodes.map Node.id).Nodup
  reserved : ∀ n ∈ w.allNodes, (n.id = startId → n.isStart) ∧ (n.id = finishId → n.isFinish)
  starts : (w.nodes.filter Node.isStart).length ≤ 1
  finishes : (w.nodes.filter Node.isFinish).length ≤ 1
  /-- Starts and finishes are at top level. -/
  arms : ∀ head condition a b, .branch head condition a b ∈ w.nodes →
    ∀ inner ∈ a.flatten ++ b.flatten, inner.isStep
  bare : ∀ node ∈ w.nodes, node.isStart → node.inputs = [] ∧ node.runsAfter = []
  /-- What a node or an arm in it needs can be had, and is neither of the two. -/
  sources : ∀ node ∈ w.nodes, ∀ inner ∈ node.flatten, ∀ id ∈ inner.needed,
    w.CanGive id ∧ id ≠ inner.id ∧ id ≠ node.id
  outputs : ∀ id ∈ w.outputs.filterMap (·.origin.producer?), w.CanGive id
  acyclic : ∀ node, ¬Relation.TransGen w.Before node node

theorem of_mem_ownDependencies {label : String → String} {d : Dependency}
    (needed : d ∈ node.ownDependencies label) :
    d.owner = node.id ∧ (d.producer = startId ∨ d.producer ∈ node.needed) := by
  rcases Node.mem_ownDependencies_iff.mp needed with ⟨b, bound, taken⟩ | ⟨id, after, rfl⟩
  · obtain ⟨owner, start | other⟩ := Dependency.of_ofBinding? taken
    · exact ⟨owner, .inl start⟩
    · exact ⟨owner, .inr (List.mem_append_left _ (List.mem_filterMap.mpr ⟨b, bound, other⟩))⟩
  · exact ⟨rfl, .inr (List.mem_append_right _ after)⟩

/-- What a node needs, it or an arm in it takes from the workflow inputs or from another node. -/
theorem of_mem_dependencies {label : String → String} {d : Dependency}
    (needed : d ∈ node.dependencies label) : ∃ inner ∈ node.flatten, d.owner = inner.id ∧
      (d.producer = startId ∨ d.producer ∈ inner.needed) := by
  rcases Node.mem_dependencies_iff.mp needed with own | ⟨arm, inside, own⟩
  · exact ⟨node, node.self_mem_flatten, of_mem_ownDependencies own⟩
  · exact ⟨arm, Node.mem_flatten_of_arms inside, of_mem_ownDependencies own⟩

/-- An edge that comes from the start, goes to the finish, or joins a step to one that needs it. -/
def Joins (w : Workflow) (source target : Nat) : Prop :=
  source = Vertices.start ∨ target = w.vertices.finish ∨ ∃ node other, w.Before node other ∧
    node.isStep ∧ other.isStep ∧ source = w.vertices.ofStep node.id ∧
      target = w.vertices.ofStep other.id

theorem Sound.provider_of_isStep (sound : w.Sound) (member : node ∈ w.nodes) (step : node.isStep) :
    w.provider w.vertices node.id = .vertex (w.vertices.ofStep node.id) := by
  have listed : w.vertices.steps.contains node.id := by
    simpa using mem_vertices_steps.mpr ⟨node, member, step, rfl⟩
  rw [provider, sound.namesStart_of_isStep member step, if_neg Bool.false_ne_true,
    sound.namesFinish_of_isStep member step, if_neg Bool.false_ne_true, if_pos listed]

namespace WellLaid

variable (laid : w.WellLaid)
include laid

theorem sound : w.Sound := ⟨laid.ids, laid.reserved, laid.finishes⟩

theorem structureFaults_eq_nil : w.structureFaults = [] := by
  have ids : idFaults w.allNodes [] [] = [] :=
    idFaults_eq_nil laid.ids (fun _ _ => List.not_mem_nil) laid.reserved
  simp only [structureFaults, ids, List.drop_eq_nil_iff.mpr laid.starts,
    List.drop_eq_nil_iff.mpr laid.finishes, List.map_nil, List.append_nil]

theorem isStep_of_mem_flatten (member : node ∈ w.nodes) (step : node.isStep)
    (inside : inner ∈ node.flatten) : inner.isStep := by
  cases node with
  | branch head condition a b =>
    rcases List.mem_cons.mp inside with rfl | inside
    · rfl
    · exact laid.arms head condition a b member inner inside
  | call | start | finish =>
    rw [List.mem_singleton.mp inside]
    exact step

theorem ne_startId (listed : inner ∈ w.allNodes) (step : inner.isStep) : inner.id ≠ startId := by
  intro named
  have start := (laid.reserved inner listed).1 named
  simp [Node.isStep, start] at step

theorem eq_of_ofStep (member : node ∈ w.nodes) (step : node.isStep) (member' : other ∈ w.nodes)
    (same : w.vertices.ofStep node.id = w.vertices.ofStep other.id) :
    node = other := by
  have listed : node.id ∈ w.vertices.steps := mem_vertices_steps.mpr ⟨node, member, step, rfl⟩
  have ids : node.id = other.id := (List.idxOf_inj listed).mp (Nat.succ.inj same)
  exact laid.sound.eq_of_id member member' ids

theorem provider_eq (given : w.CanGive id) : ∃ source, w.provider w.vertices id = .vertex source ∧
    (source = Vertices.start ∨ ∃ node ∈ w.nodes, node.isStep ∧ node.id = id ∧
      source = w.vertices.ofStep node.id) := by
  by_cases start : w.namesStart id
  · exact ⟨Vertices.start, by rw [provider, if_pos start], .inl rfl⟩
  · obtain ⟨node, member, step, rfl⟩ := given.resolve_left start
    exact ⟨_, laid.sound.provider_of_isStep member step, .inr ⟨node, member, step, rfl, rfl⟩⟩

theorem canGive_of_dependencies (member : node ∈ w.nodes) {label : String → String} {d : Dependency}
    (needed : d ∈ node.dependencies label) : w.CanGive d.producer := by
  obtain ⟨inner, inside, -, input | other⟩ := of_mem_dependencies needed
  · exact .inl (by rw [input]; rfl)
  · exact (laid.sources node member inner inside _ other).1

/-- A step does not need itself, nor does an arm in it need the arm or the step. -/
theorem ne_of_dependencies (member : node ∈ w.nodes) (step : node.isStep) {label : String → String}
    {d : Dependency} (needed : d ∈ node.dependencies label) :
    d.producer ≠ d.owner ∧ d.producer ≠ node.id := by
  obtain ⟨inner, inside, owner, input | other⟩ := of_mem_dependencies needed
  · have step' := laid.isStep_of_mem_flatten member step inside
    rw [owner, input]
    exact ⟨(laid.ne_startId (mem_allNodes_of_mem member inside) step').symm,
      (laid.ne_startId (mem_allNodes_of_mem member node.self_mem_flatten) step).symm⟩
  · rw [owner]
    exact (laid.sources node member inner inside _ other).2

/-- Each need of a node at top level gives an edge. -/
theorem link_node (member : node ∈ w.nodes) {c : Consumer}
    (consumer : consumer? w.vertices node = some c) {d : Dependency} (needed : d ∈ c.dependencies) :
    ∃ l, w.link w.vertices c d = .ok l ∧ w.Joins l.source l.target := by
  unfold consumer? at consumer
  split at consumer
  · contradiction
  next notStart =>
    obtain rfl := Option.some.inj consumer
    obtain ⟨source, provided, origin⟩ :=
      laid.provider_eq (laid.canGive_of_dependencies member needed)
    by_cases finish : node.isFinish
    · refine ⟨⟨source, w.vertices.finish, d.output, d.input⟩, ?_, .inr (.inl rfl)⟩
      simp [link, finish, provided]
    · have step : node.isStep := by simp [Node.isStep, notStart, finish]
      obtain ⟨apart, apart'⟩ := laid.ne_of_dependencies member step needed
      refine ⟨⟨source, w.vertices.ofStep node.id, d.output, d.input⟩, ?_, ?_⟩
      · simp [link, finish, provided, apart, apart']
      · rcases origin with start | ⟨producer, member', step', same, rfl⟩
        · exact .inl start
        · obtain ⟨inner, inside, -, input | other⟩ := of_mem_dependencies needed
          · have top := mem_allNodes_of_mem member' producer.self_mem_flatten
            exact absurd (same.trans input) (laid.ne_startId top step')
          · exact .inr (.inr ⟨producer, node, ⟨member', member, inner, inside, same ▸ other⟩, step',
              step, rfl, rfl⟩)

theorem link_outputs {d : Dependency} (needed : d ∈ (w.outputConsumer w.vertices).dependencies) :
    ∃ l, w.link w.vertices (w.outputConsumer w.vertices) d = .ok l ∧ w.Joins l.source l.target := by
  have given : w.CanGive d.producer := by
    obtain ⟨b, bound, taken⟩ := List.mem_filterMap.mp needed
    obtain ⟨-, start | other⟩ := Dependency.of_ofBinding? taken
    · exact .inl (by rw [start]; rfl)
    · exact laid.outputs _ (List.mem_filterMap.mpr ⟨b, bound, other⟩)
  obtain ⟨source, provided, -⟩ := laid.provider_eq given
  refine ⟨⟨source, w.vertices.finish, d.output, d.input⟩, ?_, .inr (.inl rfl)⟩
  simp [link, outputConsumer, provided]

/-- Everything that is needed gives an edge. -/
theorem linkResults_ok {result : Except LinkFault Link} (listed : result ∈ w.linkResults) :
    ∃ l, result = .ok l ∧ w.Joins l.source l.target := by
  obtain ⟨c, consumer, linked⟩ := List.mem_flatMap.mp listed
  obtain ⟨d, needed, rfl⟩ := List.mem_map.mp linked
  rcases List.mem_append.mp consumer with ofNode | outputs
  · obtain ⟨node, member, ofNode⟩ := List.mem_filterMap.mp ofNode
    exact laid.link_node member ofNode needed
  · obtain rfl := List.mem_singleton.mp outputs
    exact laid.link_outputs needed

theorem linkFaults_eq_nil : w.linkFaults = [] := by
  refine linkFaults_eq_nil_iff.mpr fun result listed => ?_
  obtain ⟨l, ok, -⟩ := laid.linkResults_ok listed
  exact ⟨l, ok⟩

theorem joins_of_linked {v u : Nat} (linked : w.Linked v u) : w.Joins v u := by
  obtain ⟨l, listed, rfl, rfl⟩ := linked
  obtain ⟨result, listed, ok⟩ := List.mem_filterMap.mp listed
  obtain ⟨l', rfl, joins⟩ := laid.linkResults_ok listed
  obtain rfl := Option.some.inj ok
  exact joins

/-- A walk that neither comes from the start nor goes to the finish leads from a step to one that
needs it, and so on. -/
theorem before_of_linked {v u : Nat} (walk : Relation.TransGen w.Linked v u) :
    v < w.vertices.finish ∧ Vertices.start < u ∧ (v = Vertices.start ∨ u = w.vertices.finish ∨
      ∃ node other, Relation.TransGen w.Before node other ∧ node.isStep ∧ other.isStep ∧
        v = w.vertices.ofStep node.id ∧ u = w.vertices.ofStep other.id) := by
  induction walk with
  | single linked =>
    refine ⟨linked.inner.source_lt, linked.inner.target_pos, ?_⟩
    rcases laid.joins_of_linked linked with start | finish | ⟨node, other, before, found⟩
    · exact .inl start
    · exact .inr (.inl finish)
    · exact .inr (.inr ⟨node, other, .single before, found⟩)
  | tail walk linked ih =>
    obtain ⟨lt, pos, steps⟩ := ih
    refine ⟨lt, linked.inner.target_pos, ?_⟩
    rcases steps with start | finish | ⟨node, other, walk, step, step', from_node, to_other⟩
    · exact .inl start
    · exact absurd (finish ▸ linked.inner.source_lt) (Nat.lt_irrefl _)
    · rcases laid.joins_of_linked linked with
        start | finish | ⟨again, last, before, -, step_last, from_again, to_last⟩
      · exact absurd (start ▸ pos) (Nat.lt_irrefl _)
      · exact .inr (.inl finish)
      · obtain rfl := laid.eq_of_ofStep (mem_of_before walk).2 step' before.1
          (to_other.symm.trans from_again)
        exact .inr (.inr ⟨node, last, walk.tail before, step, step_last, from_node, to_last⟩)

theorem not_linked_self (v : Nat) : ¬Relation.TransGen w.Linked v v := by
  intro walk
  obtain ⟨lt, pos, start | finish | ⟨node, other, walk, step, -, from_node, to_other⟩⟩ :=
    laid.before_of_linked walk
  · exact absurd (start ▸ pos) (Nat.lt_irrefl _)
  · exact absurd (finish ▸ lt) (Nat.lt_irrefl _)
  · obtain ⟨member, member'⟩ := mem_of_before walk
    obtain rfl := laid.eq_of_ofStep member step member' (from_node.symm.trans to_other)
    exact laid.acyclic node walk

/-- The steps of a well laid out workflow have an order in which they can run. -/
theorem exists_nodeOrder : ∃ order, w.nodeOrder = .ok order :=
  exists_nodeOrder_iff.mpr laid.not_linked_self

end WellLaid

end Workflow

end WorkflowBundle
