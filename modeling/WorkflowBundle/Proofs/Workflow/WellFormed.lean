import WorkflowBundle.Proofs.DataType.Compatibility
import WorkflowBundle.Proofs.Workflow.Conditions
import WorkflowBundle.Proofs.Workflow.Layout

/-! Well formed workflows, put in terms of the interfaces of what they call. The checks find
nothing wrong with them. -/
namespace WorkflowBundle

namespace Scope

variable {s : Scope} {node : Node} {types : SortedMap String DataType} {needed : String → Prop}
variable {fixed : Option (EntityId × SortedMap String Literal)} {bindings : List Binding}

/-- A parameter of the expected type may be given what comes from the origin. -/
def Serves (s : Scope) (expected : DataType) : Origin → Prop
  | .literal value => expected.admits value
  | origin => ∃ type, s.Supplies origin type ∧ type.isCompatible s.rule expected

/-- Bindings that serve declared parameters, none twice and each needed one. -/
structure Served (s : Scope) (types : SortedMap String DataType) (needed : String → Prop)
    (bindings : List Binding) : Prop where
  distinct : (bindings.map Binding.parameter).Nodup
  serves : ∀ b ∈ bindings, ∃ type, types.get? b.parameter = some type ∧ s.Serves type b.origin
  complete : ∀ name, needed name → ∃ b ∈ bindings, b.parameter = name

structure WellFormed (s : Scope) : Prop where
  laid : s.workflow.WellLaid
  calls : ∀ head kind reference i, .call head kind reference ∈ s.workflow.allNodes →
    s.interfaces.get? reference = some i → s.Served i.inputTypes
      (fun name => ∃ p, i.inputs.get? name = some p ∧ p.mustBeBound) head.inputs
  branches : ∀ head condition a b, .branch head condition a b ∈ s.workflow.allNodes →
    (head.inputs.map Binding.parameter).Nodup ∧
      ∀ b ∈ head.inputs, (∃ value, b.origin = .literal value) ∨ ∃ type, s.Supplies b.origin type
  comparisons : s.PrimitiveComparisons
  arms : ∀ node ∈ s.workflow.nodes, s.ArmsAgree node
  outputs : s.Served s.workflow.interface.outputs
    (fun name => ∃ type, s.workflow.interface.outputs.get? name = some type)
    (s.workflow.outputs ++ (s.workflow.nodes.filter Node.isFinish).flatMap Node.inputs)

/-- Interfaces of launch plans do not have the inputs that the plans fix. -/
def Unfixed (s : Scope) : Prop :=
  ∀ head reference plan i, .call head .launchPlan reference ∈ s.workflow.allNodes →
    s.index.launchPlan? reference = some plan → s.interfaces.get? reference = some i →
      ∀ name, plan.fixedInputs.contains name → i.inputs.get? name = none

theorem missing_of_complete {names : List String}
    (complete : ∀ name ∈ names, ∃ b ∈ bindings, b.parameter = name) : missing names bindings = [] := by
  simpa [missing] using complete

/-- A node whose calls and branches are without faults has none, if it is a step throughout. -/
theorem nodeFaults_of_parts {inArm : Bool} (steps : ∀ inner ∈ node.flatten, inner.isStep)
    (calls : ∀ head kind reference i, .call head kind reference ∈ node.flatten →
      s.interfaces.get? reference = some i → s.callFaults head i (s.fixedInputs kind reference) = [])
    (branches : ∀ head condition a b, .branch head condition a b ∈ node.flatten →
      s.branchFaults head condition = []) : s.nodeFaults inArm node = [] := by
  induction node generalizing inArm with
  | call head kind reference =>
    unfold nodeFaults
    split
    next => rfl
    next i found => rw [calls head kind reference i (Node.self_mem_flatten _) found, List.map_nil]
  | branch head condition a b iha ihb =>
    have own := branches head condition a b (Node.self_mem_flatten _)
    have left : a.flatten ⊆ (Node.branch head condition a b).flatten := Node.flatten_whenTrue_subset
    have right : b.flatten ⊆ (Node.branch head condition a b).flatten := Node.flatten_whenFalse_subset
    have first : s.nodeFaults true a = [] := iha (fun inner inside => steps inner (left inside))
      (fun head kind reference i inside => calls head kind reference i (left inside))
      (fun head condition x y inside => branches head condition x y (left inside))
    have second : s.nodeFaults true b = [] := ihb (fun inner inside => steps inner (right inside))
      (fun head kind reference i inside => calls head kind reference i (right inside))
      (fun head condition x y inside => branches head condition x y (right inside))
    simp only [nodeFaults, own, first, second, List.map_nil, List.append_nil]
  | start head | finish head =>
    have step := steps _ (Node.self_mem_flatten _)
    contradiction

namespace Known

variable (known : s.Known)
include known

theorem originFault?_of_serves {b : Binding} {expected : DataType}
    (serves : s.Serves expected b.origin) : s.originFault? b expected = none := by
  rw [originFault?_eq_none_iff]
  cases origin : b.origin with
  | literal value =>
    rw [origin] at serves
    exact .inl ⟨value, rfl, serves⟩
  | workflowInput | nodeOutput =>
    rw [origin] at serves
    obtain ⟨type, supplies, compatible⟩ := serves
    exact .inr ⟨by simp, .inr ⟨type, known.originType_of_supplies supplies, compatible⟩⟩

theorem bindingFaults_of_served (served : s.Served types needed bindings)
    (free : ∀ plan values, fixed = some (plan, values) → ∀ b ∈ bindings,
      values.contains b.parameter = false) : s.bindingFaults types fixed bindings [] = [] := by
  refine bindingFaults_eq_nil_iff.mpr ⟨fun _ _ => List.not_mem_nil, served.distinct, fun b hb => ?_⟩
  obtain ⟨type, declared, serves⟩ := served.serves b hb
  exact bindingFault?_eq_none_iff.mpr ⟨fun plan values same => free plan values same b hb, type,
    declared, known.originFault?_of_serves serves⟩

theorem branchFaults_of_comparisons {head : NodeHead} {condition : Condition}
    (distinct : (head.inputs.map Binding.parameter).Nodup)
    (sources : ∀ b ∈ head.inputs, (∃ value, b.origin = .literal value) ∨
      ∃ type, s.Supplies b.origin type)
    (comparisons : ∀ left op right, (left, op, right) ∈ condition.comparisons →
      ∃ l r, s.Types head.inputs left l ∧ s.Types head.inputs right r ∧
        l.isPrimitive ∧ r.isPrimitive ∧ l.isComparable s.rule r) :
    s.branchFaults head condition = [] := by
  have typed : ∀ b ∈ head.inputs, ∃ type, s.originType b.origin = .ok type := by
    intro b hb
    rcases sources b hb with ⟨value, literal⟩ | ⟨type, supplies⟩
    · exact ⟨value.dataType?, by rw [literal]; rfl⟩
    · exact ⟨some type, known.originType_of_supplies supplies⟩
  have faultless : (s.bindVariables head.inputs []).2 = [] :=
    bindVariables_of_typed distinct (fun _ _ => rfl) typed
  have made := variables_of_bindVariables faultless
  refine branchFaults_eq_nil_iff.mpr ⟨faultless, ?_⟩
  refine conditionFaults_eq_nil_iff.mpr fun left op right listed => ?_
  obtain ⟨l, r, types, types', primitive, primitive', comparable⟩ := comparisons left op right listed
  refine comparison_faultless_iff.mpr ⟨some l, some r, known.operandType_of_types made types,
    known.operandType_of_types made types', fun type other same same' => ?_⟩
  obtain rfl := Option.some.inj same
  obtain rfl := Option.some.inj same'
  exact ⟨primitive, primitive', comparable⟩

end Known

namespace WellFormed

variable (formed : s.WellFormed) (resolved : s.Resolved)
include formed resolved

theorem known : s.Known := by
  have callable : ∀ node ∈ s.workflow.nodes, node.isStep → s.Callable node := fun node member step =>
    resolved.callable member fun inner inside =>
      formed.laid.isStep_of_mem_flatten member step inside
  exact ⟨formed.laid.sound, callable, fun node member _ => formed.arms node member⟩

theorem armFaults_eq_nil (member : node ∈ s.workflow.nodes) : s.armFaults node = [] := by
  have known := formed.known resolved
  cases node with
  | call | branch =>
    exact (exposes_of_armsAgree (known.callable _ member rfl) (formed.arms _ member)).2
  | start | finish => rfl

theorem callFaults_eq_nil (unfixed : s.Unfixed) {head : NodeHead} {kind : ResourceType}
    {reference : EntityId} {i : Interface} (call : .call head kind reference ∈ s.workflow.allNodes)
    (found : s.interfaces.get? reference = some i) :
    s.callFaults head i (s.fixedInputs kind reference) = [] := by
  have served := formed.calls head kind reference i call found
  have free : ∀ plan values, s.fixedInputs kind reference = some (plan, values) →
      ∀ b ∈ head.inputs, values.contains b.parameter = false := by
    intro plan values fixed b hb
    rw [fixedInputs, Option.ite_none_right_eq_some, Option.map_eq_some_iff] at fixed
    obtain ⟨rfl, p, planned, same⟩ := fixed
    obtain ⟨rfl, rfl⟩ := Prod.mk.inj same
    obtain ⟨type, declared, -⟩ := served.serves b hb
    rw [← Bool.not_eq_true]
    intro rebound
    rw [Interface.inputTypes, SortedMap.get?_map,
      unfixed head reference p i call planned found b.parameter rebound] at declared
    contradiction
  have complete : missing i.requiredInputs head.inputs = [] :=
    missing_of_complete fun name required =>
      served.complete name (Interface.mem_requiredInputs.mp required)
  rw [callFaults, (formed.known resolved).bindingFaults_of_served served free, complete]
  rfl

theorem nodeFaults_eq_nil (unfixed : s.Unfixed) (member : node ∈ s.workflow.nodes) :
    s.nodeFaults false node = [] := by
  have step : node.isStep → s.nodeFaults false node = [] := by
    intro step
    refine nodeFaults_of_parts
      (fun inner inside => formed.laid.isStep_of_mem_flatten member step inside)
      (fun head kind reference i inside => formed.callFaults_eq_nil resolved unfixed
        (Workflow.mem_allNodes_of_mem member inside)) fun head condition a b inside => ?_
    have listed := Workflow.mem_allNodes_of_mem member inside
    obtain ⟨distinct, sources⟩ := formed.branches head condition a b listed
    exact (formed.known resolved).branchFaults_of_comparisons distinct sources
      (formed.comparisons head condition a b listed)
  cases node with
  | call | branch => exact step rfl
  | start head =>
    obtain ⟨inputs, runsAfter⟩ := formed.laid.bare _ member rfl
    have inputs : head.inputs = [] := inputs
    have runsAfter : head.runsAfter = [] := runsAfter
    simp [nodeFaults, inputs, runsAfter]
  | finish head => rfl

theorem outputFaults_eq_nil : s.outputFaults = [] := by
  have served := formed.outputs
  rw [← formed.laid.sound.outputBindings_eq] at served
  have complete : missing s.workflow.interface.outputs.keys s.workflow.outputBindings = [] :=
    missing_of_complete fun name declared =>
      served.complete name (SortedMap.contains_iff.mp (SortedMap.contains_iff_mem_keys.mpr declared))
  have free : ∀ plan values, (none : Option (EntityId × SortedMap String Literal)) =
      some (plan, values) → ∀ b ∈ s.workflow.outputBindings, values.contains b.parameter = false := by
    intro _ _ absurd
    contradiction
  simp only [outputFaults, (formed.known resolved).bindingFaults_of_served served free, complete,
    List.append_nil, List.map_nil]

theorem clean (unfixed : s.Unfixed) : s.Clean where
  sound := formed.laid.sound
  linked := formed.laid.linkFaults_eq_nil
  arms _ member := formed.armFaults_eq_nil resolved member
  nodes _ member := formed.nodeFaults_eq_nil resolved unfixed member
  outputs := formed.outputFaults_eq_nil resolved

theorem defects_eq_nil (unfixed : s.Unfixed) : s.defects = [] :=
  (formed.clean resolved unfixed).defects_eq_nil formed.laid.structureFaults_eq_nil
    formed.laid.exists_nodeOrder

end WellFormed

end Scope

namespace Sample

/-- Takes an integer `x` and gives an integer `v`. -/
def unary : Interface :=
  ⟨.ofList [("x", { dataType := .simple .integer })], .ofList [("v", .simple .integer)]⟩

def planId : EntityId := (callee "l").retype .launchPlan

/-- A plan that fixes an input `k`. -/
def fixing : LaunchPlan where
  id := planId
  workflow := callee "k"
  fixedInputs := .ofList [("k", .integer 1)]

/-- A call of the plan that waits for the start. -/
def waiting : Node :=
  .call ⟨"n", [⟨"x", .nodeOutput "begin" "x"⟩], ["start-node"]⟩ .launchPlan planId

/-- A branch in the second arm of a branch. All arms take `x` from somewhere else. -/
def choice : Node :=
  .branch ⟨"g", [⟨"f", .nodeOutput "n" "v"⟩], []⟩
    (.or (.comparison (.input "f") .gt (.literal (.integer 3))) always)
    (.call ⟨"a", [⟨"x", .nodeOutput "n" "v"⟩], []⟩ .workflow (callee "k"))
    (.branch ⟨"h", [⟨"f", .workflowInput "x"⟩], []⟩
      (.comparison (.input "f") .eq (.literal (.integer 5)))
      (.call ⟨"b", [⟨"x", .literal (.integer 2)⟩], ["begin"]⟩ .workflow (callee "k"))
      (.call ⟨"c", [⟨"x", .nodeOutput "begin" "x"⟩], ["n"]⟩ .workflow (callee "k")))

/-- A start and a finish under names of their own, and an input that is handed through. -/
def routed : Scope where
  workflow := {
    id := callee "w"
    interface := ⟨unary.inputs, .ofList [("y", .simple .integer), ("z", .simple .integer)]⟩
    nodes := [.start ⟨"begin", [], []⟩, choice, waiting,
      .finish ⟨"done", [⟨"y", .nodeOutput "g" "v"⟩], ["n"]⟩]
    outputs := [⟨"z", .nodeOutput "start-node" "x"⟩] }
  index := ⟨.ofList [(planId, ⟨"l", .launchPlan fixing⟩)]⟩
  interfaces := .ofList [(callee "k", unary), (planId, unary)]
  rule := .allMembers

theorem routed_resolved : routed.Resolved := by
  rw [Scope.resolved_iff]
  cbv

/-- Everything that is called has the interface `unary`. -/
theorem eq_unary_of_get?_routed {id : EntityId} {i : Interface}
    (found : routed.interfaces.get? id = some i) : i = unary := by
  have entries : routed.interfaces.entries = [(callee "k", unary), (planId, unary)] := by cbv
  have listed := SortedMap.get?_eq_some_iff.mp found
  simp only [entries, List.mem_cons, Prod.mk.injEq, List.not_mem_nil, or_false] at listed
  rcases listed with ⟨-, same⟩ | ⟨-, same⟩
  · exact same
  · exact same

theorem routed_unfixed : routed.Unfixed := by
  intro head reference plan i _ planned found name fixed
  obtain rfl := eq_unary_of_get?_routed found
  have records : routed.index.records.entries = [(planId, ⟨"l", .launchPlan fixing⟩)] := by cbv
  have keys : fixing.fixedInputs.keys = ["k"] := by cbv
  have only : plan = fixing := by
    unfold Index.launchPlan? Index.get? at planned
    split at planned
    next p known =>
      obtain ⟨r, listed, same⟩ := Option.map_eq_some_iff.mp known
      have listed := SortedMap.get?_eq_some_iff.mp listed
      rw [records, List.mem_singleton] at listed
      obtain ⟨-, rfl⟩ := Prod.mk.inj listed
      rw [← Option.some.inj planned]
      exact (Entity.launchPlan.inj same).symm
    next => contradiction
  rw [only, SortedMap.contains_iff_mem_keys, keys, List.mem_singleton] at fixed
  rw [fixed]
  cbv

theorem routed_laid : routed.workflow.WellLaid where
  ids := by decide
  reserved := by decide
  starts := by decide
  finishes := by decide
  arms := by
    intro head condition a b branch
    simp only [routed, choice, waiting, List.mem_cons, reduceCtorEq, List.not_mem_nil, or_false,
      false_or, Node.branch.injEq] at branch
    obtain ⟨-, -, rfl, rfl⟩ := branch
    decide
  bare := by simp [routed, choice, waiting, Node.isStart, Node.inputs, Node.runsAfter, Node.head]
  sources := by decide
  outputs := by decide
  acyclic := by
    have ranked : ∀ node ∈ routed.workflow.nodes, ∀ other ∈ routed.workflow.nodes,
        ∀ inner ∈ other.flatten, node.id ∈ inner.needed →
          ["begin", "n", "g", "done"].idxOf node.id < ["begin", "n", "g", "done"].idxOf other.id := by
      decide
    exact Workflow.not_before_self ranked

theorem supplies_input : routed.Supplies (.workflowInput "x") (.simple .integer) :=
  .workflowInput (p := { dataType := .simple .integer }) (by cbv)

theorem supplies_start {id : String} (named : routed.workflow.namesStart id) :
    routed.Supplies (.nodeOutput id "x") (.simple .integer) :=
  .startOutput (p := { dataType := .simple .integer }) named (by cbv)

theorem routed_callable {node : Node} (member : node ∈ routed.workflow.nodes) (step : node.isStep) :
    routed.Callable node :=
  routed_resolved.callable member fun _ inside =>
    routed_laid.isStep_of_mem_flatten member step inside

theorem outputs?_routed {node : Node} (callable : routed.Callable node) :
    routed.outputs? node = some unary.outputs := by
  induction node with
  | call head kind reference =>
    obtain ⟨i, found⟩ := callable.resolved reference (by simp [Node.references])
    rw [Scope.outputs?, found, eq_unary_of_get?_routed found]
    rfl
  | branch head condition a b iha _ => exact iha callable.whenTrue
  | start head | finish head =>
    have step := callable.steps _ (Node.self_mem_flatten _)
    contradiction

theorem supplies_step {node : Node} (member : node ∈ routed.workflow.nodes) (step : node.isStep) :
    routed.Supplies (.nodeOutput node.id "v") (.simple .integer) := by
  have listed : unary.outputs.get? "v" = some (.simple .integer) := by cbv
  exact .nodeOutput member step (outputs?_routed (routed_callable member step)) listed

theorem choice_mem : choice ∈ routed.workflow.nodes := .tail _ (.head _)

theorem waiting_mem : waiting ∈ routed.workflow.nodes := .tail _ (.tail _ (.head _))

theorem served_unary {origin : Origin} (serves : routed.Serves (.simple .integer) origin) :
    routed.Served unary.inputTypes (fun name => ∃ p, unary.inputs.get? name = some p ∧ p.mustBeBound)
      [⟨"x", origin⟩] where
  distinct := by simp
  serves := by
    intro b bound
    obtain rfl := List.mem_singleton.mp bound
    exact ⟨.simple .integer, by cbv, serves⟩
  complete := by
    rintro name ⟨p, declared, -⟩
    have entries : unary.inputs.entries = [("x", { dataType := .simple .integer })] := by cbv
    have listed := SortedMap.get?_eq_some_iff.mp declared
    rw [entries, List.mem_singleton] at listed
    obtain ⟨rfl, -⟩ := Prod.mk.inj listed
    exact ⟨_, List.mem_singleton_self _, rfl⟩

theorem supplies_of_branch_mem {head : NodeHead} {condition : Condition} {a b : Node}
    (branch : .branch head condition a b ∈ routed.workflow.allNodes) :
    ∃ origin, head.inputs = [⟨"f", origin⟩] ∧ routed.Supplies origin (.simple .integer) ∧
      condition.comparisons ⊆ [(.input "f", .gt, .literal (.integer 3)),
        (.input "f", .eq, .literal (.integer 5)),
        (.literal (.boolean true), .eq, .literal (.boolean true))] := by
  simp only [Workflow.allNodes, routed, choice, waiting, Node.flatten, List.flatMap_cons,
    List.flatMap_nil, List.append_nil, List.nil_append, List.cons_append, List.mem_cons,
    reduceCtorEq, List.not_mem_nil, or_false, false_or, Node.branch.injEq] at branch
  rcases branch with ⟨rfl, rfl, -⟩ | ⟨rfl, rfl, -⟩
  · exact ⟨_, rfl, supplies_step waiting_mem rfl, by simp [Condition.comparisons, always]⟩
  · exact ⟨_, rfl, supplies_input, by simp [Condition.comparisons]⟩

theorem serves_of_call_mem {head : NodeHead} {kind : ResourceType} {reference : EntityId}
    (call : .call head kind reference ∈ routed.workflow.allNodes) :
    ∃ origin, head.inputs = [⟨"x", origin⟩] ∧ routed.Serves (.simple .integer) origin := by
  simp only [Workflow.allNodes, routed, choice, waiting, Node.flatten, List.flatMap_cons,
    List.flatMap_nil, List.append_nil, List.nil_append, List.cons_append, List.mem_cons,
    reduceCtorEq, List.not_mem_nil, or_false, false_or, Node.call.injEq] at call
  rcases call with ⟨rfl, -⟩ | ⟨rfl, -⟩ | ⟨rfl, -⟩ | ⟨rfl, -⟩
  · exact ⟨_, rfl, _, supplies_step waiting_mem rfl, by decide⟩
  · refine ⟨.literal (.integer 2), rfl, ?_⟩
    show DataType.admits _ _ = true
    rfl
  · exact ⟨_, rfl, _, supplies_start (by decide), by decide⟩
  · exact ⟨_, rfl, _, supplies_start (by decide), by decide⟩

/-- All calls have the same outputs, so the arms of a branch do. -/
theorem armsAgree_routed {node : Node} (callable : routed.Callable node) :
    routed.ArmsAgree node := by
  intro head condition a b inside produced other known known'
  have branch := callable.of_flatten_subset (Node.flatten_subset inside)
  obtain rfl := Option.some.inj ((outputs?_routed branch.whenTrue).symm.trans known)
  obtain rfl := Option.some.inj ((outputs?_routed branch.whenFalse).symm.trans known')
  refine ⟨rfl, fun name type otherType listed listed' => ?_⟩
  obtain rfl := Option.some.inj (listed.symm.trans listed')
  exact ⟨DataType.isCompatible_self _, DataType.isCompatible_self _⟩

theorem routed_wellFormed : routed.WellFormed where
  laid := routed_laid
  calls := by
    intro head kind reference i call found
    obtain rfl := eq_unary_of_get?_routed found
    obtain ⟨origin, inputs, serves⟩ := serves_of_call_mem call
    rw [inputs]
    exact served_unary serves
  branches := by
    intro head condition a b branch
    obtain ⟨origin, inputs, supplies, -⟩ := supplies_of_branch_mem branch
    rw [inputs]
    refine ⟨by simp, fun d bound => .inr ?_⟩
    obtain rfl := List.mem_singleton.mp bound
    exact ⟨_, supplies⟩
  comparisons := by
    intro head condition a b branch left op right listed
    obtain ⟨origin, inputs, supplies, inside⟩ := supplies_of_branch_mem branch
    have typed : routed.Types [⟨"f", origin⟩] (.input "f") (.simple .integer) :=
      ⟨_, rfl, supplies⟩
    have listed := inside listed
    simp only [List.mem_cons, Prod.mk.injEq, List.not_mem_nil, or_false] at listed
    rw [inputs]
    rcases listed with ⟨rfl, rfl, rfl⟩ | ⟨rfl, rfl, rfl⟩ | ⟨rfl, rfl, rfl⟩
    · exact ⟨_, .simple .integer, typed, rfl, by decide, by decide, by decide⟩
    · exact ⟨_, .simple .integer, typed, rfl, by decide, by decide, by decide⟩
    · exact ⟨.simple .boolean, .simple .boolean, rfl, rfl, by decide, by decide, by decide⟩
  arms := by
    intro node member
    by_cases step : node.isStep
    · exact armsAgree_routed (routed_callable member step)
    · cases node with
      | call | branch => contradiction
      | start | finish => simp [Scope.ArmsAgree, Node.flatten]
  outputs := by
    have entries : routed.workflow.interface.outputs.entries =
        [("y", .simple .integer), ("z", .simple .integer)] := by cbv
    refine ⟨by decide, fun b bound => ⟨.simple .integer, ?_⟩, ?_⟩
    · have bound : b ∈ [⟨"z", .nodeOutput "start-node" "x"⟩, (⟨"y", .nodeOutput "g" "v"⟩ : Binding)] :=
        bound
      simp only [SortedMap.get?_eq_some_iff, entries]
      simp only [List.mem_cons, List.not_mem_nil, or_false] at bound
      rcases bound with rfl | rfl
      · exact ⟨by simp, _, supplies_start (by decide), by decide⟩
      · exact ⟨by simp, _, supplies_step choice_mem rfl, by decide⟩
    · rintro name ⟨type, declared⟩
      have listed := SortedMap.get?_eq_some_iff.mp declared
      simp only [entries, List.mem_cons, Prod.mk.injEq, List.not_mem_nil, or_false] at listed
      rcases listed with ⟨rfl, -⟩ | ⟨rfl, -⟩
      · exact ⟨⟨"y", .nodeOutput "g" "v"⟩, .tail _ (.head _), rfl⟩
      · exact ⟨⟨"z", .nodeOutput "start-node" "x"⟩, .head _, rfl⟩

end Sample

/-- A well formed workflow is accepted, with an order in which its steps can run. -/
theorem Scope.check_of_wellFormed {s : Scope} (formed : s.WellFormed) (resolved : s.Resolved)
    (unfixed : s.Unfixed) : ∃ order, s.workflow.nodeOrder = .ok order ∧
      s.check = .ok ⟨s.workflow, order, s.workflow.edges⟩ := by
  obtain ⟨order, ordered⟩ := formed.laid.exists_nodeOrder
  refine ⟨order, ordered, check_eq_ok_iff.mpr ⟨formed.defects_eq_nil resolved unfixed, ?_⟩⟩
  rw [ordered]
  rfl

theorem check_of_wellFormed_routed : ∃ order, Sample.routed.workflow.nodeOrder = .ok order ∧
    Sample.routed.check = .ok ⟨Sample.routed.workflow, order, Sample.routed.workflow.edges⟩ :=
  Scope.check_of_wellFormed Sample.routed_wellFormed Sample.routed_resolved Sample.routed_unfixed

end WorkflowBundle
