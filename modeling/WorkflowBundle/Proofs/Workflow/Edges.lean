import WorkflowBundle.Proofs.Workflow.Anchors
import WorkflowBundle.Proofs.Workflow.Arms
import WorkflowBundle.Proofs.Workflow.ExecutionOrder

/-! The edges that come out with an accepted workflow: those that its bindings and its lists of
nodes to wait for ask for, and besides only the ties to the start and the finish that are missing.
So every node at top level lies on a path from the start to the finish. -/
namespace WorkflowBundle

/-- A path of edges, of none or more, leads from one vertex to the other. -/
def Edge.Path (edges : List Edge) : String → String → Prop :=
  Relation.ReflTransGen fun source target => ∃ e ∈ edges, e.source = source ∧ e.target = target

/-- The vertex of a node at top level. -/
def Node.vertexName : Node → String
  | start _ => Workflow.startId
  | finish _ => Workflow.finishId
  | call head _ _ | branch head _ _ _ => head.id

namespace Workflow

variable {w : Workflow} {node : Node} {e : Edge} {d : Dependency} {l : Link}

/-- The vertex that the id of a producer means. The start has two ids where its node is declared. -/
def producerName (w : Workflow) (id : String) : String := if w.namesStart id then startId else id

/-- The vertex that a bound value comes from and its name there; literals come from nowhere. -/
def supplier? (w : Workflow) : Origin → Option (String × String)
  | .workflowInput name => some (startId, name)
  | .nodeOutput id output => some (w.producerName id, output)
  | .literal _ => none

/-- The workflow asks for the edge. What an arm asks for enters the node at top level around it, and
an input of the arm keeps the id of the arm that owns it. -/
inductive Declares (w : Workflow) : Edge → Prop where
  | input {node : Node} {b : Binding} {source output : String} : node ∈ w.nodes → b ∈ node.inputs →
      w.supplier? b.origin = some (source, output) →
      Declares w ⟨source, node.vertexName, some output, some b.parameter⟩
  | armInput {node arm : Node} {b : Binding} {source output : String} : node ∈ w.nodes →
      arm ∈ node.arms → b ∈ arm.inputs → w.supplier? b.origin = some (source, output) →
      Declares w ⟨source, node.vertexName, some output, some (arm.id ++ "." ++ b.parameter)⟩
  | runsAfter {node inner : Node} {id : String} : node ∈ w.nodes → inner ∈ node.flatten →
      id ∈ inner.runsAfter → Declares w ⟨w.producerName id, node.vertexName, none, none⟩
  | output {b : Binding} {source output : String} : b ∈ w.outputs →
      w.supplier? b.origin = some (source, output) →
      Declares w ⟨source, finishId, some output, some b.parameter⟩

/-- The edge ties a step that no declared edge enters to the start, or one that none leaves to the
finish. -/
inductive Ties (w : Workflow) : Edge → Prop where
  | entry {node : Node} : node ∈ w.nodes → node.isStep → (∀ e, w.Declares e → e.target ≠ node.id) →
      Ties w ⟨startId, node.id, none, none⟩
  | exit {node : Node} : node ∈ w.nodes → node.isStep → (∀ e, w.Declares e → e.source ≠ node.id) →
      Ties w ⟨node.id, finishId, none, none⟩

/-- The edge is declared or a tie, or leads from the start to the finish as the only one into it. -/
inductive Draws (w : Workflow) : Edge → Prop where
  | declared {e : Edge} : w.Declares e → Draws w e
  | tie {e : Edge} : w.Ties e → Draws w e
  | through : (∀ e, w.Declares e ∨ w.Ties e → e.target ≠ finishId) →
      Draws w ⟨startId, finishId, none, none⟩

/-- The edge into a vertex that passes on what is needed there. -/
def edgeTo (w : Workflow) (target : String) (d : Dependency) : Edge :=
  ⟨w.producerName d.producer, target, d.output, d.input⟩

/-- The edge that a link stands for. -/
def edgeOf (w : Workflow) (l : Link) : Edge :=
  ⟨w.vertices.name l.source, w.vertices.name l.target, l.output, l.input⟩

theorem mem_edges_iff : e ∈ w.edges ↔ ∃ l ∈ w.allLinks, w.edgeOf l = e := by
  simp [edges, SortedMap.mem_keys_ofList, edgeOf]

/-- What a binding needs draws an edge from the vertex that the value comes from. -/
theorem exists_edgeTo_iff (owner : String) {input target : String} {origin : Origin} :
    (∃ d, Dependency.ofBinding? owner input origin = some d ∧ w.edgeTo target d = e) ↔
      ∃ source output, w.supplier? origin = some (source, output) ∧
        ⟨source, target, some output, some input⟩ = e := by
  cases origin with
  | workflowInput name =>
    have reserved : w.producerName startId = startId := by simp [producerName, namesStart]
    simp [Dependency.ofBinding?, supplier?, edgeTo, reserved]
  | nodeOutput id output => simp [Dependency.ofBinding?, supplier?, edgeTo]
  | literal value => simp [Dependency.ofBinding?, supplier?]

theorem exists_ownDependency_iff {label : String → String} {target : String} :
    (∃ d ∈ node.ownDependencies label, w.edgeTo target d = e) ↔
      (∃ b ∈ node.inputs, ∃ source output, w.supplier? b.origin = some (source, output) ∧
        ⟨source, target, some output, some (label b.parameter)⟩ = e) ∨
        ∃ id ∈ node.runsAfter, ⟨w.producerName id, target, none, none⟩ = e := by
  simp only [Node.mem_ownDependencies_iff, ← exists_edgeTo_iff node.id]
  constructor
  · rintro ⟨d, ⟨b, bound, taken⟩ | ⟨id, after, rfl⟩, same⟩
    · exact .inl ⟨b, bound, d, taken, same⟩
    · exact .inr ⟨id, after, same⟩
  · rintro (⟨b, bound, d, taken, same⟩ | ⟨id, after, same⟩)
    · exact ⟨d, .inl ⟨b, bound, taken⟩, same⟩
    · exact ⟨_, .inr ⟨id, after, rfl⟩, same⟩

theorem exists_dependency_iff {label : String → String} {target : String} :
    (∃ d ∈ node.dependencies label, w.edgeTo target d = e) ↔
      (∃ d ∈ node.ownDependencies label, w.edgeTo target d = e) ∨
        ∃ arm ∈ node.arms, ∃ d ∈ arm.ownDependencies (Node.armLabel arm.id),
          w.edgeTo target d = e := by
  simp only [Node.mem_dependencies_iff]
  constructor
  · rintro ⟨d, own | ⟨arm, inside, own⟩, same⟩
    · exact .inl ⟨d, own, same⟩
    · exact .inr ⟨arm, inside, d, own, same⟩
  · rintro (⟨d, own, same⟩ | ⟨arm, inside, d, own, same⟩)
    · exact ⟨d, .inl own, same⟩
    · exact ⟨d, .inr ⟨arm, inside, own⟩, same⟩

/-- Declared edges are those of the needs of the nodes at top level and of the outputs. -/
theorem declares_iff : w.Declares e ↔
    (∃ node ∈ w.nodes, ∃ d ∈ node.dependencies fun input => input,
      w.edgeTo node.vertexName d = e) ∨
      ∃ d ∈ (w.outputConsumer w.vertices).dependencies, w.edgeTo finishId d = e := by
  simp only [exists_dependency_iff, exists_ownDependency_iff, outputConsumer, List.mem_filterMap]
  constructor
  · intro declared
    cases declared with
    | input member bound supplied =>
      exact .inl ⟨_, member, .inl (.inl ⟨_, bound, _, _, supplied, rfl⟩)⟩
    | armInput member inside bound supplied =>
      exact .inl ⟨_, member, .inr ⟨_, inside, .inl ⟨_, bound, _, _, supplied, rfl⟩⟩⟩
    | runsAfter member inside after =>
      rw [Node.flatten_eq_cons_arms] at inside
      rcases List.mem_cons.mp inside with rfl | inside
      · exact .inl ⟨_, member, .inl (.inr ⟨_, after, rfl⟩)⟩
      · exact .inl ⟨_, member, .inr ⟨_, inside, .inr ⟨_, after, rfl⟩⟩⟩
    | @output b source output bound supplied =>
      obtain ⟨d, taken, same⟩ := (exists_edgeTo_iff finishId).mpr ⟨source, output, supplied, rfl⟩
      exact .inr ⟨d, ⟨b, bound, taken⟩, same⟩
  · rintro (⟨node, member, own | ⟨arm, inside, own⟩⟩ | ⟨d, ⟨b, bound, taken⟩, same⟩)
    · rcases own with ⟨b, bound, source, output, supplied, rfl⟩ | ⟨id, after, rfl⟩
      · exact .input member bound supplied
      · exact .runsAfter member node.self_mem_flatten after
    · rcases own with ⟨b, bound, source, output, supplied, rfl⟩ | ⟨id, after, rfl⟩
      · exact .armInput member inside bound supplied
      · exact .runsAfter member (Node.mem_flatten_of_arms inside) after
    · obtain ⟨source, output, supplied, rfl⟩ := (exists_edgeTo_iff finishId).mp ⟨d, taken, same⟩
      exact .output bound supplied

theorem dependencies_of_bare {label : String → String} (start : node.isStart)
    (bare : node.inputs = [] ∧ node.runsAfter = []) : node.dependencies label = [] := by
  cases node with
  | start head =>
    obtain ⟨inputs, runsAfter⟩ := bare
    simp [Node.dependencies, Node.ownDependencies, inputs, runsAfter]
  | call | branch | finish => contradiction

/-- The vertex that a consumer is goes by the name of its node. -/
theorem name_of_consumer {c : Consumer} (member : node ∈ w.nodes)
    (consumer : consumer? w.vertices node = some c) :
    w.vertices.name c.vertex = node.vertexName ∧ c.dependencies = node.dependencies fun i => i := by
  cases node with
  | start head => contradiction
  | finish head =>
    obtain rfl := Option.some.inj consumer
    exact ⟨Vertices.name_finish _, rfl⟩
  | call | branch =>
    obtain rfl := Option.some.inj consumer
    exact ⟨Vertices.name_ofStep (mem_vertices_steps.mpr ⟨_, member, rfl, rfl⟩), rfl⟩

theorem exists_vertex (member : node ∈ w.nodes) (step : node.isStep) :
    ∃ i < w.vertices.steps.length, w.vertices.name (i + 1) = node.id := by
  have listed : node.id ∈ w.vertices.steps := mem_vertices_steps.mpr ⟨node, member, step, rfl⟩
  exact ⟨_, List.idxOf_lt_length_of_mem listed, Vertices.name_ofStep listed⟩

theorem exists_step {i : Nat} (range : i < w.vertices.steps.length) :
    ∃ node ∈ w.nodes, node.isStep ∧ w.vertices.name (i + 1) = node.id := by
  obtain ⟨node, member, step, same⟩ := mem_vertices_steps.mp (List.getElem_mem range)
  refine ⟨node, member, step, ?_⟩
  simp [Vertices.name, Vertices.names, List.getD_eq_getElem?_getD,
    List.getElem?_append_left range, range, same]

namespace Wired

variable (wired : w.Wired)
include wired

theorem edgeOf_link {c : Consumer} (consumer : c ∈ w.consumers w.vertices)
    (needed : d ∈ c.dependencies) : ∃ l, w.link w.vertices c d = .ok l ∧
      w.edgeOf l = w.edgeTo (w.vertices.name c.vertex) d := by
  obtain ⟨source, provided, ok⟩ := wired.link_eq consumer needed
  refine ⟨_, ok, ?_⟩
  rw [edgeOf, edgeTo, producerName, name_of_provider provided]

theorem exists_link_iff : (∃ l ∈ w.links, w.edgeOf l = e) ↔ ∃ c ∈ w.consumers w.vertices,
    ∃ d ∈ c.dependencies, w.edgeTo (w.vertices.name c.vertex) d = e := by
  constructor
  · rintro ⟨l, listed, rfl⟩
    obtain ⟨c, consumer, d, needed, ok⟩ := mem_links.mp listed
    obtain ⟨l', ok', same⟩ := wired.edgeOf_link consumer needed
    obtain rfl := Except.ok.inj (ok'.symm.trans ok)
    exact ⟨c, consumer, d, needed, same.symm⟩
  · rintro ⟨c, consumer, d, needed, rfl⟩
    obtain ⟨l, ok, same⟩ := wired.edgeOf_link consumer needed
    exact ⟨l, mem_links.mpr ⟨c, consumer, d, needed, ok⟩, same⟩

theorem declares_iff_consumer : w.Declares e ↔ ∃ c ∈ w.consumers w.vertices,
    ∃ d ∈ c.dependencies, w.edgeTo (w.vertices.name c.vertex) d = e := by
  have outputs : w.vertices.name (w.outputConsumer w.vertices).vertex = finishId :=
    Vertices.name_finish _
  rw [declares_iff]
  constructor
  · rintro (⟨node, member, d, needed, same⟩ | ⟨d, needed, same⟩)
    · have notStart : ¬node.isStart := fun start => by
        rw [dependencies_of_bare start (wired.bare node member start)] at needed
        contradiction
      obtain ⟨c, consumer⟩ : ∃ c, consumer? w.vertices node = some c := by
        simp [consumer?, notStart]
      obtain ⟨name, dependencies⟩ := name_of_consumer member consumer
      refine ⟨c, List.mem_append_left _ (List.mem_filterMap.mpr ⟨node, member, consumer⟩), ?_⟩
      rw [name, dependencies]
      exact ⟨d, needed, same⟩
    · exact ⟨_, List.mem_append_right _ List.mem_cons_self, d, needed, outputs ▸ same⟩
  · rintro ⟨c, consumer, d, needed, same⟩
    rcases List.mem_append.mp consumer with ofNode | last
    · obtain ⟨node, member, ofNode⟩ := List.mem_filterMap.mp ofNode
      obtain ⟨name, dependencies⟩ := name_of_consumer member ofNode
      rw [name] at same
      rw [dependencies] at needed
      exact .inl ⟨node, member, d, needed, same⟩
    · obtain rfl := List.mem_singleton.mp last
      exact .inr ⟨d, needed, outputs ▸ same⟩

/-- The edges of the dependencies are those that the workflow declares. -/
theorem declares_iff_link : w.Declares e ↔ ∃ l ∈ w.links, w.edgeOf l = e :=
  wired.declares_iff_consumer.trans wired.exists_link_iff.symm

/-- Whether an edge enters or leaves a vertex can be told by the name of the vertex. -/
theorem target_eq_iff {l : Link} (inner : w.Inner l.source l.target) {v : Nat}
    (le : v ≤ w.vertices.finish) :
    (w.edgeOf l).target = w.vertices.name v ↔ l.target = v :=
  ⟨wired.name_inj inner.target_le le, fun same => congrArg w.vertices.name same⟩

theorem source_eq_iff {l : Link} (inner : w.Inner l.source l.target) {v : Nat}
    (le : v ≤ w.vertices.finish) :
    (w.edgeOf l).source = w.vertices.name v ↔ l.source = v :=
  ⟨wired.name_inj (Nat.le_of_lt inner.source_lt) le, fun same => congrArg w.vertices.name same⟩

theorem forall_declares_iff {p : Edge → Prop} :
    (∀ e, w.Declares e → p e) ↔ ∀ l ∈ w.links, p (w.edgeOf l) := by
  simp only [wired.declares_iff_link, forall_exists_index, and_imp, forall_apply_eq_imp_iff₂]

theorem not_entered_iff {v : Nat} (le : v ≤ w.vertices.finish) :
    (∀ e, w.Declares e → e.target ≠ w.vertices.name v) ↔ ∀ l ∈ w.links, l.target ≠ v := by
  rw [wired.forall_declares_iff]
  refine forall₂_congr fun l listed => not_congr ?_
  exact wired.target_eq_iff (Linked.inner ⟨l, listed, rfl, rfl⟩) le

theorem not_left_iff {v : Nat} (le : v ≤ w.vertices.finish) :
    (∀ e, w.Declares e → e.source ≠ w.vertices.name v) ↔ ∀ l ∈ w.links, l.source ≠ v := by
  rw [wired.forall_declares_iff]
  refine forall₂_congr fun l listed => not_congr ?_
  exact wired.source_eq_iff (Linked.inner ⟨l, listed, rfl, rfl⟩) le

/-- The ties of the steps are the anchors of their vertices. -/
theorem ties_iff_link : w.Ties e ↔ ∃ l, w.vertices.Ties w.links l ∧ w.edgeOf l = e := by
  have le : ∀ i < w.vertices.steps.length, i + 1 ≤ w.vertices.finish := fun i range =>
    Nat.le_of_lt (Nat.succ_lt_succ range)
  constructor
  · intro tie
    cases tie with
    | entry member step free =>
      obtain ⟨i, range, name⟩ := exists_vertex member step
      rw [← name] at free ⊢
      have free := (wired.not_entered_iff (le i range)).mp free
      exact ⟨_, ⟨i, range, Vertices.mem_stepAnchors.mpr (.inl ⟨rfl, free⟩)⟩, rfl⟩
    | exit member step free =>
      obtain ⟨i, range, name⟩ := exists_vertex member step
      rw [← name] at free ⊢
      have free := (wired.not_left_iff (le i range)).mp free
      refine ⟨_, ⟨i, range, Vertices.mem_stepAnchors.mpr (.inr ⟨rfl, free⟩)⟩, ?_⟩
      rw [edgeOf, Vertices.name_finish]
  · rintro ⟨l, ⟨i, range, tie⟩, rfl⟩
    obtain ⟨node, member, step, name⟩ := exists_step range
    rcases Vertices.mem_stepAnchors.mp tie with ⟨rfl, free⟩ | ⟨rfl, free⟩
    · have free := (wired.not_entered_iff (le i range)).mpr free
      rw [name] at free
      rw [edgeOf, name]
      exact .entry member step free
    · have free := (wired.not_left_iff (le i range)).mpr free
      rw [name] at free
      rw [edgeOf, name, Vertices.name_finish]
      exact .exit member step free

theorem declares_or_ties_iff : w.Declares e ∨ w.Ties e ↔
    ∃ l, (l ∈ w.links ∨ w.vertices.Ties w.links l) ∧ w.edgeOf l = e := by
  simp only [wired.declares_iff_link, wired.ties_iff_link, or_and_right, exists_or]

theorem finish_free_iff : (∀ e, w.Declares e ∨ w.Ties e → e.target ≠ finishId) ↔
    ∀ l, l ∈ w.links ∨ w.vertices.Ties w.links l → l.target ≠ w.vertices.finish := by
  simp only [wired.declares_or_ties_iff, forall_exists_index, and_imp, forall_apply_eq_imp_iff₂]
  refine forall₂_congr fun l listed => not_congr ?_
  have inner := inner_of_allLinks (mem_allLinks.mpr (.inl listed))
  rw [← wired.target_eq_iff inner (Nat.le_refl _), Vertices.name_finish]

theorem mem_edges : e ∈ w.edges ↔ w.Draws e := by
  have through : w.edgeOf ⟨Vertices.start, w.vertices.finish, none, none⟩ =
      ⟨startId, finishId, none, none⟩ := by rw [edgeOf, Vertices.name_start, Vertices.name_finish]
  simp only [mem_edges_iff, mem_allLinks]
  constructor
  · rintro ⟨l, (link | tie) | ⟨rfl, free⟩, rfl⟩
    · exact .declared (wired.declares_iff_link.mpr ⟨l, link, rfl⟩)
    · exact .tie (wired.ties_iff_link.mpr ⟨l, tie, rfl⟩)
    · exact through ▸ .through (wired.finish_free_iff.mpr free)
  · intro drawn
    cases drawn with
    | declared declared =>
      obtain ⟨l, link, same⟩ := wired.declares_iff_link.mp declared
      exact ⟨l, .inl (.inl link), same⟩
    | tie tie =>
      obtain ⟨l, tie, same⟩ := wired.ties_iff_link.mp tie
      exact ⟨l, .inl (.inr tie), same⟩
    | through free => exact ⟨_, .inr ⟨rfl, wired.finish_free_iff.mp free⟩, through⟩

end Wired

/-- Every node at top level has its vertex in the graph. -/
theorem exists_vertexName (member : node ∈ w.nodes) :
    ∃ v ≤ w.vertices.finish, w.vertices.name v = node.vertexName := by
  cases node with
  | start head => exact ⟨_, Nat.zero_le _, Vertices.name_start _⟩
  | finish head => exact ⟨_, Nat.le_refl _, Vertices.name_finish _⟩
  | call | branch =>
    obtain ⟨i, range, name⟩ := exists_vertex member rfl
    exact ⟨_, Nat.le_of_lt (Nat.succ_lt_succ range), name⟩

/-- A walk through the graph is a path of the edges by names. -/
theorem path_of_walk {v u : Nat}
    (walk : Relation.ReflTransGen (fun v u => (v, u) ∈ w.graph.edges) v u) :
    Edge.Path w.edges (w.vertices.name v) (w.vertices.name u) := by
  refine walk.lift w.vertices.name fun v u edge => ?_
  obtain ⟨l, listed, rfl, rfl⟩ := mem_graph_edges.mp edge
  exact ⟨w.edgeOf l, mem_edges_iff.mpr ⟨l, listed, rfl⟩, rfl, rfl⟩

theorem path_through {order : List Nat} (ordered : w.graph.order? = some order)
    (member : node ∈ w.nodes) : Edge.Path w.edges startId node.vertexName ∧
      Edge.Path w.edges node.vertexName finishId := by
  obtain ⟨v, le, name⟩ := exists_vertexName member
  have reached := path_of_walk (reached_from_start ordered le)
  have leads := path_of_walk (leads_to_finish ordered le)
  rw [name, Vertices.name_start] at reached
  rw [name, Vertices.name_finish] at leads
  exact ⟨reached, leads⟩

theorem Wired.ends_of_mem_edges (wired : w.Wired) (member : e ∈ w.edges) :
    e.target ≠ startId ∧ e.source ≠ finishId := by
  obtain ⟨l, listed, rfl⟩ := mem_edges_iff.mp member
  have inner := inner_of_allLinks listed
  constructor
  · intro same
    have start := (wired.target_eq_iff inner (Nat.zero_le _)).mp same
    exact Nat.ne_of_gt inner.target_pos start
  · intro same
    rw [← Vertices.name_finish w.vertices] at same
    exact Nat.ne_of_lt inner.source_lt ((wired.source_eq_iff inner (Nat.le_refl _)).mp same)

end Workflow

/-- The edges of an accepted workflow are those that it declares, the ties of steps that these do
not enter or leave, and one from start to finish where nothing else enters the finish. None enters
the start or leaves the finish, and every node at top level lies on a path between the two. -/
theorem Scope.edges_of_check {s : Scope} {checked : CheckedWorkflow}
    (accepted : s.check = .ok checked) :
    checked.edges.Nodup ∧ (∀ e, e ∈ checked.edges ↔ s.workflow.Draws e) ∧
      (∀ e ∈ checked.edges, e.target ≠ Workflow.startId ∧ e.source ≠ Workflow.finishId) ∧
      ∀ node ∈ s.workflow.nodes,
        Edge.Path checked.edges Workflow.startId node.vertexName ∧
          Edge.Path checked.edges node.vertexName Workflow.finishId := by
  have wired := wired_of_check accepted
  obtain ⟨ok, same⟩ := nodeOrder_eq_of_check accepted
  obtain ⟨-, order, ordered, -⟩ := s.workflow.decides_nodeOrder.ok _ ok
  rw [same]
  refine ⟨SortedMap.nodup_keys _, fun e => wired.mem_edges, fun e => wired.ends_of_mem_edges, ?_⟩
  intro node member
  exact Workflow.path_through ordered member

open Sample in
/-- The declared start is called `begin`, and an arm in an arm of `g` takes a value from it. -/
theorem Scope.edges_of_check_routed : ∃ checked, routed.check = .ok checked ∧
    checked.edges.Nodup ∧ (∀ e, e ∈ checked.edges ↔ routed.workflow.Draws e) ∧
      ⟨"start-node", "g", some "x", some "c.x"⟩ ∈ checked.edges ∧
      (∀ e ∈ checked.edges, e.target ≠ "start-node" ∧ e.source ≠ "end-node") ∧
      choice ∈ routed.workflow.nodes ∧ Edge.Path checked.edges "start-node" "g" ∧
        Edge.Path checked.edges "g" "end-node" := by
  have faultless := routed_wellFormed.defects_eq_nil routed_resolved routed_unfixed
  have accepted := check_eq_ok_iff.mpr ⟨faultless, rfl⟩
  obtain ⟨nodup, drawn, ends, paths⟩ := edges_of_check accepted
  have declared : routed.workflow.Draws ⟨"start-node", "g", some "x", some "c.x"⟩ := by
    let arm : Node := .call ⟨"c", [⟨"x", .nodeOutput "begin" "x"⟩], ["n"]⟩ .workflow (callee "k")
    have inside : arm ∈ choice.arms := by simp [arm, choice, Node.arms, Node.flatten]
    exact .declared (.armInput choice_mem inside List.mem_cons_self rfl)
  exact ⟨_, accepted, nodup, drawn, (drawn _).mpr declared, ends, choice_mem,
    paths choice choice_mem⟩

/-- Nothing enters the step `f` and nothing leaves the step `r`. -/
example : Sample.mixed.workflow.edges = [⟨"f", "r", some "v", some "v"⟩,
    ⟨"r", "end-node", none, none⟩, ⟨"start-node", "f", none, none⟩] := by cbv

end WorkflowBundle
