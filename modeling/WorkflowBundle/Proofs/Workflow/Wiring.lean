import WorkflowBundle.Proofs.Workflow.Layout

/-! Workflows in which everything that is needed can be had, as those are that pass the checks. Every
need gives an edge, and the names of the vertices tell them apart. -/
namespace WorkflowBundle

namespace Node

variable {node inner : Node} {id : String}

theorem exists_ownDependency (needed : id ∈ node.needed) (label : String → String) :
    ∃ d ∈ node.ownDependencies label, d.producer = id := by
  rcases List.mem_append.mp needed with taken | after
  · obtain ⟨b, bound, taken⟩ := List.mem_filterMap.mp taken
    cases origin : b.origin with
    | nodeOutput producer output =>
      rw [origin] at taken
      obtain rfl := Option.some.inj taken
      exact mem_ownDependencies bound origin label
    | workflowInput name => simp [origin, Origin.producer?] at taken
    | literal value => simp [origin, Origin.producer?] at taken
  · exact ⟨⟨node.id, id, none, none⟩, mem_ownDependencies_iff.mpr (.inr ⟨id, after, rfl⟩), rfl⟩

/-- What a node in an arm needs, the node at top level needs in its name. -/
theorem exists_dependency_of_needed (inside : inner ∈ node.flatten) (needed : id ∈ inner.needed)
    (label : String → String) :
    ∃ d ∈ node.dependencies label, d.owner = inner.id ∧ d.producer = id := by
  apply exists_dependency inside
  intro label
  obtain ⟨d, own, same⟩ := exists_ownDependency needed label
  exact ⟨d, own, (Workflow.of_mem_ownDependencies own).1, same⟩

end Node

namespace Vertices

variable {v : Vertices} {id : String}

@[simp] theorem name_start (v : Vertices) : v.name start = Workflow.startId := rfl

@[simp] theorem name_finish (v : Vertices) : v.name v.finish = Workflow.finishId := by
  simp [name, names, finish]

theorem name_ofStep (listed : id ∈ v.steps) : v.name (v.ofStep id) = id := by
  have lt := List.idxOf_lt_length_of_mem listed
  simp [name, names, ofStep, List.getD_eq_getElem?_getD, List.getElem?_append_left lt, lt]

theorem getElem?_names {number : Nat} (range : number ≤ v.finish) :
    v.names[number]? = some (v.name number) := by
  have lt : number < v.names.length := by simpa [names, finish] using Nat.lt_succ_of_le range
  simp [name, List.getD_eq_getElem?_getD, lt]

theorem getElem?_names_ofStep (listed : id ∈ v.steps) : v.names[v.ofStep id]? = some id := by
  have range : v.ofStep id ≤ v.finish :=
    Nat.succ_le_succ (Nat.le_of_lt (List.idxOf_lt_length_of_mem listed))
  rw [getElem?_names range, name_ofStep listed]

end Vertices

namespace Workflow

variable {w : Workflow} {node other : Node} {v u : Nat}

/-- A workflow without faults in its structure and in what its nodes need. -/
structure Wired (w : Workflow) : Prop where
  sound : w.Sound
  bare : ∀ node ∈ w.nodes, node.isStart → node.inputs = [] ∧ node.runsAfter = []
  linked : w.linkFaults = []

theorem name_of_provider {id : String} {number : Nat}
    (provided : w.provider w.vertices id = .vertex number) :
    w.vertices.name number = if w.namesStart id then startId else id := by
  unfold provider at provided
  split at provided
  next start =>
    obtain rfl := Provider.vertex.inj provided
    rw [if_pos start, Vertices.name_start]
  next notStart =>
    rw [if_neg notStart]
    split at provided
    · contradiction
    · split at provided
      next listed =>
        obtain rfl := Provider.vertex.inj provided
        exact Vertices.name_ofStep (by simpa using listed)
      next => contradiction

namespace Wired

variable (wired : w.Wired)
include wired

/-- Whatever a consumer needs gives an edge to it from the provider. -/
theorem link_eq {c : Consumer} (consumer : c ∈ w.consumers w.vertices) {d : Dependency}
    (needed : d ∈ c.dependencies) : ∃ source, w.provider w.vertices d.producer = .vertex source ∧
      w.link w.vertices c d = .ok ⟨source, c.vertex, d.output, d.input⟩ := by
  have listed : w.link w.vertices c d ∈ w.linkResults :=
    List.mem_flatMap.mpr ⟨c, consumer, List.mem_map_of_mem needed⟩
  obtain ⟨l, ok⟩ := linkFaults_eq_nil_iff.mp wired.linked _ listed
  unfold link at ok ⊢
  split at ok
  · contradiction
  next allowed =>
    rw [if_neg allowed]
    split at ok
    next source provided => exact ⟨source, provided, rfl⟩
    next => contradiction
    next => contradiction

theorem names_nodup : w.vertices.names.Nodup := by
  have reserved : ∀ id ∈ w.vertices.steps, id ≠ startId ∧ id ≠ finishId := by
    intro id listed
    obtain ⟨node, member, step, rfl⟩ := mem_vertices_steps.mp listed
    obtain ⟨start, finish⟩ :=
      wired.sound.reserved node (mem_allNodes_of_mem member node.self_mem_flatten)
    simp only [Node.isStep, Bool.and_eq_true, Bool.not_eq_true'] at step
    exact ⟨fun same => by simp [start same] at step, fun same => by simp [finish same] at step⟩
  have steps : w.vertices.steps.Nodup := nodup_eraseDups _
  have first : startId ∉ w.vertices.steps ++ [finishId] := by
    intro listed
    rcases List.mem_append.mp listed with step | finish
    · exact (reserved startId step).1 rfl
    · exact absurd (List.mem_singleton.mp finish) (by decide)
  refine List.nodup_cons.mpr ⟨first, List.nodup_append.mpr ⟨steps, by simp, ?_⟩⟩
  intro id listed other last same
  exact (reserved id listed).2 (same.trans (List.mem_singleton.mp last))

/-- No two vertices have one name. -/
theorem name_inj (hv : v ≤ w.vertices.finish) (hu : u ≤ w.vertices.finish)
    (same : w.vertices.name v = w.vertices.name u) : v = u := by
  have found := Vertices.getElem?_names hv
  have found' := Vertices.getElem?_names hu
  rw [same] at found
  have lt := (List.getElem?_eq_some_iff.mp found).1
  exact (List.getElem?_inj lt wired.names_nodup).mp (found.trans found'.symm)

end Wired

end Workflow

namespace Scope

variable {s : Scope} {checked : CheckedWorkflow}

theorem bare_of_nodeFaults {node : Node} (start : node.isStart)
    (faultless : s.nodeFaults false node = []) : node.inputs = [] ∧ node.runsAfter = [] := by
  cases node with
  | start head =>
    simp only [nodeFaults, Bool.false_eq_true, if_false, ite_eq_left_iff, reduceCtorEq, imp_false,
      not_not, Bool.and_eq_true, List.isEmpty_iff] at faultless
    exact faultless
  | call | branch | finish => contradiction

theorem Clean.wired (clean : s.Clean) : s.workflow.Wired :=
  ⟨clean.sound, fun node member start => bare_of_nodeFaults start (clean.nodes node member),
    clean.linked⟩

theorem wired_of_check (accepted : s.check = .ok checked) : s.workflow.Wired :=
  (clean_of_defects (check_eq_ok_iff.mp accepted).1).wired

/-- An accepted workflow has an order, and the one that comes out with it. -/
theorem nodeOrder_eq_of_check (accepted : s.check = .ok checked) :
    s.workflow.nodeOrder = .ok checked.nodeOrder ∧ checked.edges = s.workflow.edges := by
  obtain ⟨empty, rfl⟩ := check_eq_ok_iff.mp accepted
  obtain ⟨order, ordered⟩ := exists_nodeOrder_of_defects empty
  rw [ordered]
  exact ⟨rfl, rfl⟩

end Scope

end WorkflowBundle
