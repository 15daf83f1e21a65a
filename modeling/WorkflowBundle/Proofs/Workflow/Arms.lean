import Mathlib.Data.List.Permutation
import WorkflowBundle.Proofs.DataType.Compatibility
import WorkflowBundle.Proofs.Workflow.Sources

/-! What reads an output of a branch, seen from the calls at the ends of its arms. The checks
compare a reader with the first arm and the second arm with the first. That says something about
reader and second arm where the type in the middle stands for itself alone. -/
namespace WorkflowBundle

/-- The calls that a node comes down to: itself, or those at the ends of its arms. -/
def Node.leaves : Node → List Node
  | branch _ _ a b => a.leaves ++ b.leaves
  | node => [node]

namespace Scope

variable {s : Scope} {node leaf a b : Node} {output : String} {type expected : DataType}

/-- The node produces the output at the type. -/
def Gives (s : Scope) (node : Node) (output : String) (type : DataType) : Prop :=
  ∃ outputs, s.outputs? node = some outputs ∧ outputs.get? output = some type

/-- A declared input of a call, at whatever depth, or a declared output of the workflow takes its
value from the output of a node. -/
inductive Reads (s : Scope) (id output : String) : DataType → Prop where
  | call {head : NodeHead} {kind : ResourceType} {reference : EntityId} {i : Interface}
      {b : Binding} {p : Parameter} : .call head kind reference ∈ s.workflow.allNodes →
      s.interfaces.get? reference = some i → b ∈ head.inputs → b.origin = .nodeOutput id output →
      i.inputs.get? b.parameter = some p → Reads s id output p.dataType
  | output {b : Binding} {type : DataType} :
      b ∈ s.workflow.outputs ++ (s.workflow.nodes.filter Node.isFinish).flatMap Node.inputs →
      b.origin = .nodeOutput id output → s.workflow.interface.outputs.get? b.parameter = some type →
      Reads s id output type

/-- Whatever reads an output of a branch at top level could read it from each leaf instead. -/
def ArmSafe (s : Scope) : Prop :=
  ∀ head condition a b, .branch head condition a b ∈ s.workflow.nodes → ∀ output expected,
    s.Reads head.id output expected → ∀ leaf ∈ (Node.branch head condition a b).leaves,
      ∃ type, s.Gives leaf output type ∧ type.isCompatible s.rule expected

theorem get?_of_gives {head : NodeHead} {kind : ResourceType} {reference : EntityId} {i : Interface}
    (found : s.interfaces.get? reference = some i)
    (gives : s.Gives (.call head kind reference) output type) : i.outputs.get? output = some type := by
  obtain ⟨outputs, produced, listed⟩ := gives
  rw [outputs?, found] at produced
  obtain rfl := Option.some.inj produced
  exact listed

/-- In every branch that has the leaf in its second arm the first arm gives the output at a
definite type. -/
def DefiniteBeside (s : Scope) (node leaf : Node) (output : String) : Prop :=
  ∀ head condition a b, .branch head condition a b ∈ node.flatten → leaf ∈ b.leaves →
    ∀ type, s.Gives a output type → type.isDefinite s.rule

theorem DefiniteBeside.whenTrue {head : NodeHead} {condition : Condition}
    (definite : s.DefiniteBeside (.branch head condition a b) leaf output) :
    s.DefiniteBeside a leaf output :=
  fun h c x y inside => definite h c x y (Node.flatten_whenTrue_subset inside)

theorem DefiniteBeside.whenFalse {head : NodeHead} {condition : Condition}
    (definite : s.DefiniteBeside (.branch head condition a b) leaf output) :
    s.DefiniteBeside b leaf output :=
  fun h c x y inside => definite h c x y (Node.flatten_whenFalse_subset inside)

/-- Each leaf gives every output of the node; at a type that fits where that of the node does, if
the types that stand between the two are definite. -/
theorem gives_of_leaf (callable : s.Callable node) (agree : s.ArmsAgree node)
    (gives : s.Gives node output type) (inside : leaf ∈ node.leaves) :
    ∃ own, s.Gives leaf output own ∧ (s.DefiniteBeside node leaf output → ∀ expected,
      type.isCompatible s.rule expected → own.isCompatible s.rule expected) := by
  induction node generalizing type with
  | branch head condition a b iha ihb =>
    rcases List.mem_append.mp inside with first | second
    · obtain ⟨own, given, fits⟩ := iha callable.whenTrue agree.whenTrue gives first
      exact ⟨own, given, fun definite => fits definite.whenTrue⟩
    · obtain ⟨produced, known, listed⟩ := gives
      have known : s.outputs? a = some produced := known
      obtain ⟨other, known'⟩ := callable.whenFalse.exists_outputs
      have same := agree head condition a b (Node.self_mem_flatten _) produced other known known'
      -- The second arm has the output too, at a type that may differ from `type`.
      have declared : output ∈ other.keys := by
        rw [← same.names]
        exact SortedMap.contains_iff_mem_keys.mp (SortedMap.contains_iff.mpr ⟨type, listed⟩)
      obtain ⟨otherType, listed'⟩ :=
        SortedMap.contains_iff.mp (SortedMap.contains_iff_mem_keys.mpr declared)
      have back := (same.types output type otherType listed listed').2
      obtain ⟨own, given, fits⟩ :=
        ihb callable.whenFalse agree.whenFalse ⟨other, known', listed'⟩ second
      refine ⟨own, given, fun definite expected compatible => ?_⟩
      have middle : type.isDefinite s.rule :=
        definite head condition a b (Node.self_mem_flatten _) second type ⟨produced, known, listed⟩
      exact fits definite.whenFalse expected (DataType.isCompatible_trans middle back compatible)
  | call head kind reference =>
    obtain rfl := List.mem_singleton.mp inside
    exact ⟨type, gives, fun _ _ compatible => compatible⟩
  | start head | finish head =>
    have step := callable.steps _ (Node.self_mem_flatten _)
    contradiction

/-- A binding without fault to an output of a step at top level fits the type of that output. -/
theorem Known.gives_of_bindingFaults (known : s.Known) (member : node ∈ s.workflow.nodes)
    (step : node.isStep) {types : SortedMap String DataType}
    {fixed : Option (EntityId × SortedMap String Literal)} {bindings : List Binding}
    (empty : s.bindingFaults types fixed bindings [] = []) {b : Binding} (bound : b ∈ bindings)
    (taken : b.origin = .nodeOutput node.id output) (declared : types.get? b.parameter = some expected) :
    ∃ type, s.Gives node output type ∧ type.isCompatible s.rule expected := by
  obtain ⟨-, -, faultless⟩ := of_bindingFaults empty
  obtain ⟨_, declared', valued⟩ := declared_of_bindingFault? (faultless b bound)
  obtain rfl := Option.some.inj (declared.symm.trans declared')
  have fits := fits_of_originFault? (by simp [taken]) valued
  rw [taken] at fits
  obtain ⟨outputs, produced⟩ := (known.callable node member step).exists_outputs
  obtain ⟨type, listed, compatible⟩ := fits.exists_output known.sound member
    ((known.exposes_eq member step).trans produced) (known.sound.namesStart_of_isStep member step)
    (known.sound.namesFinish_of_isStep member step)
  exact ⟨type, ⟨outputs, produced, listed⟩, compatible⟩

/-- What reads an output of a step at top level asks for a type that fits. -/
theorem Clean.gives_of_reads (clean : s.Clean) (known : s.Known) (member : node ∈ s.workflow.nodes)
    (step : node.isStep) (reads : s.Reads node.id output expected) :
    ∃ type, s.Gives node output type ∧ type.isCompatible s.rule expected := by
  cases reads with
  | @call head kind reference i b p call found bound taken declared =>
    obtain ⟨outer, top, inside⟩ := List.mem_flatMap.mp call
    obtain ⟨inArm, checked⟩ := nodeFaults_of_flatten inside (clean.nodes outer top)
    simp only [nodeFaults, found, List.map_eq_nil_iff, callFaults, List.append_eq_nil_iff] at checked
    refine known.gives_of_bindingFaults member step checked.1 bound taken ?_
    rw [Interface.inputTypes, SortedMap.get?_map, declared]
    rfl
  | output bound taken declared =>
    have empty := clean.outputs
    simp only [outputFaults, List.map_eq_nil_iff, List.append_eq_nil_iff] at empty
    rw [← clean.sound.outputBindings_eq] at bound
    exact known.gives_of_bindingFaults member step empty.1 bound taken declared

/-- Accepted with everything resolved, though an arm does not fit what reads the branch. -/
def Overlooked (s : Scope) : Prop :=
  (∃ checked, s.check = .ok checked) ∧ s.Resolved ∧ ¬s.ArmSafe

end Scope

namespace Sample

/-- The branch of `forked`. -/
def fork : Node :=
  .branch ⟨"f", [], []⟩ always (.call ⟨"x", [], []⟩ .workflow (callee "a"))
    (.branch ⟨"g", [], []⟩ always (.call ⟨"y", [], []⟩ .workflow (callee "b"))
      (.call ⟨"z", [], []⟩ .workflow (callee "c")))

/-- A branch that gives `v` at the first three types, the last two in a branch in its second arm,
and a call that takes `v` at the expected type. -/
def forked (rule : UnionRule) (first second third expected : DataType) : Scope where
  workflow := {
    id := callee "w"
    interface := {}
    nodes := [fork, .call ⟨"r", [⟨"v", .nodeOutput "f" "v"⟩], []⟩ .workflow (callee "d")] }
  index := {}
  interfaces := .ofList [(callee "a", ⟨.empty, .ofList [("v", first)]⟩),
    (callee "b", ⟨.empty, .ofList [("v", second)]⟩), (callee "c", ⟨.empty, .ofList [("v", third)]⟩),
    (callee "d", ⟨.ofList [("v", ⟨expected, true, none⟩)], .empty⟩)]
  rule

section Forked

variable {rule : UnionRule} {first second third expected type : DataType}

theorem forked_resolved : (forked rule first second third expected).Resolved := by
  rw [Scope.resolved_iff]
  cbv

theorem forked_reads : (forked rule first second third expected).Reads "f" "v" expected := by
  have found : (forked rule first second third expected).interfaces.get? (callee "d") =
      some ⟨.ofList [("v", ⟨expected, true, none⟩)], .empty⟩ := by cbv
  have call : .call ⟨"r", [⟨"v", .nodeOutput "f" "v"⟩], []⟩ .workflow (callee "d") ∈
      (forked rule first second third expected).workflow.allNodes := by
    simp [Workflow.allNodes, forked, fork, Node.flatten]
  have declared : (SortedMap.ofList [("v", ({ dataType := expected } : Parameter))]).get? "v" =
      some { dataType := expected } := by cbv
  exact .call call found (.head _) rfl declared

/-- A call gives `v` at the type that the interface of what it calls declares. -/
theorem eq_of_gives {s : Scope} {head : NodeHead} {kind : ResourceType} {reference : EntityId}
    {declared : DataType}
    (found : s.interfaces.get? reference = some ⟨.empty, .ofList [("v", declared)]⟩)
    (gives : s.Gives (.call head kind reference) "v" type) : type = declared := by
  have single : (SortedMap.ofList [("v", declared)]).get? "v" = some declared := by cbv
  exact Option.some.inj ((Scope.get?_of_gives found gives).symm.trans single)

theorem get?_forked_b : (forked rule first second third expected).interfaces.get? (callee "b") =
    some ⟨.empty, .ofList [("v", second)]⟩ := by cbv

theorem forked_definiteBeside (definite : first.isDefinite rule) (definite' : second.isDefinite rule)
    (leaf : Node) : (forked rule first second third expected).DefiniteBeside fork leaf "v" := by
  intro head condition a b inside _ type gives
  simp only [fork, Node.flatten, List.singleton_append, List.mem_cons, Node.branch.injEq,
    reduceCtorEq, List.not_mem_nil, or_false, false_or] at inside
  rcases inside with ⟨-, -, rfl, -⟩ | ⟨-, -, rfl, -⟩
  · have found : (forked rule first second third expected).interfaces.get? (callee "a") =
        some ⟨.empty, .ofList [("v", first)]⟩ := by cbv
    exact eq_of_gives found gives ▸ definite
  · exact eq_of_gives get?_forked_b gives ▸ definite'

theorem forked_overlooked (faultless : (forked rule first second third expected).defects = [])
    (clash : ¬second.isCompatible rule expected) :
    (forked rule first second third expected).Overlooked := by
  refine ⟨⟨_, Scope.check_eq_ok_iff.mpr ⟨faultless, rfl⟩⟩, forked_resolved, fun safe => ?_⟩
  obtain ⟨own, gives, compatible⟩ :=
    safe _ _ _ _ (.head _) "v" expected forked_reads _ (.tail _ (.head _))
  exact clash (eq_of_gives get?_forked_b gives ▸ compatible)

end Forked

/-- Arms that give the same union with its members in different orders. -/
def mixed : Scope :=
  forked .allMembers (.union [.simple .integer, .struct]) (.union [.struct, .simple .integer])
    (.union [.simple .integer, .struct]) (.union [.simple .float, .struct, .simple .integer])

end Sample

/-- In an accepted workflow each leaf of a step at top level has the outputs that are read from
the step, and it can be read in its place if the types that stand between are definite. -/
theorem Scope.leaf_isCompatible_of_check {s : Scope} {node leaf : Node} {output : String}
    {expected : DataType} {checked : CheckedWorkflow} (accepted : s.check = .ok checked)
    (resolved : s.Resolved) (member : node ∈ s.workflow.nodes) (step : node.isStep)
    (reads : s.Reads node.id output expected) (inside : leaf ∈ node.leaves) :
    ∃ own, s.Gives leaf output own ∧
      (s.DefiniteBeside node leaf output → own.isCompatible s.rule expected) := by
  have clean := clean_of_defects (check_eq_ok_iff.mp accepted).1
  have known := clean.known resolved
  obtain ⟨type, gives, compatible⟩ := clean.gives_of_reads known member step reads
  obtain ⟨own, given, fits⟩ := gives_of_leaf (known.callable node member step)
    (known.agree node member step) gives inside
  exact ⟨own, given, fun definite => fits definite expected compatible⟩

theorem leaf_isCompatible_of_check_mixed :
    ∃ own, Sample.mixed.Gives (.call ⟨"z", [], []⟩ .workflow (Sample.callee "c")) "v" own ∧
      own.isCompatible .allMembers (.union [.simple .float, .struct, .simple .integer]) := by
  have faultless : Sample.mixed.defects = [] := by rfl
  obtain ⟨own, given, fits⟩ := Scope.leaf_isCompatible_of_check
    (Scope.check_eq_ok_iff.mpr ⟨faultless, rfl⟩) Sample.forked_resolved (.head _) rfl
    Sample.forked_reads (.tail _ (.tail _ (.head _)))
  exact ⟨own, given, fits (Sample.forked_definiteBeside (by decide) (by decide) _)⟩

/-- Types that stand for several others hide from a reader what the second arm gives. -/
theorem overlooked_beside_indefinite :
    (Sample.forked .allMembers (.blob "" .single) (.blob "csv" .single) (.blob "csv" .single)
      (.blob "parquet" .single)).Overlooked ∧
    (Sample.forked .allMembers (.generic "T") (.simple .integer) (.simple .integer)
      (.simple .string)).Overlooked ∧
    (Sample.forked .allMembers (.schema []) (.schema [⟨"x", .integer⟩]) (.schema [⟨"x", .integer⟩])
      (.schema [⟨"y", .integer⟩])).Overlooked ∧
    (Sample.forked .anyMember (.union [.simple .integer, .simple .string]) (.simple .integer)
      (.simple .integer) (.simple .string)).Overlooked :=
  ⟨Sample.forked_overlooked rfl (by decide), Sample.forked_overlooked rfl (by decide),
    Sample.forked_overlooked rfl (by decide), Sample.forked_overlooked rfl (by decide)⟩

end WorkflowBundle
