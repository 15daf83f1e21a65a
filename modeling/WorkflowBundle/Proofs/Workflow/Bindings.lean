import WorkflowBundle.Closure
import WorkflowBundle.Proofs.SortedMap
import WorkflowBundle.Proofs.Workflow.Structure

/-! What the checks of a workflow guarantee about its bindings, put in terms of the members that
its nodes call. The checks pass over a binding in silence where they know too little; without
faults elsewhere nothing is unknown, so nothing is passed over. -/
namespace WorkflowBundle

theorem Interface.mem_requiredInputs {i : Interface} {name : String} :
    name ∈ i.requiredInputs ↔ ∃ p, i.inputs.get? name = some p ∧ p.mustBeBound := by
  simp only [requiredInputs, List.mem_map, List.mem_filter, SortedMap.get?_eq_some_iff]
  constructor
  · rintro ⟨⟨_, p⟩, ⟨member, needed⟩, rfl⟩
    exact ⟨p, member, needed⟩
  · rintro ⟨p, member, needed⟩
    exact ⟨(name, p), ⟨member, needed⟩, rfl⟩

namespace Closure

/-- What callers of a member see. -/
def interface? (c : Closure) (id : EntityId) : Option Interface :=
  (c.members.get? id).map Member.interface

/-- What a node produces: a call what the called member declares, a branch what its first arm
produces. -/
def outputs? (c : Closure) : Node → Option Outputs
  | .call _ _ reference => (c.interface? reference).map (·.outputs)
  | .branch _ _ whenTrue _ => c.outputs? whenTrue
  | .start _ | .finish _ => none

end Closure

/-- A parameter of the expected type may be given the value: a literal of the type, a declared
workflow input, directly or through the start, or an output of a step at top level. -/
inductive Feeds (rule : UnionRule) (c : Closure) (w : Workflow) (expected : DataType) :
    Origin → Prop where
  | literal {value : Literal} : expected.admits value → Feeds rule c w expected (.literal value)
  | workflowInput {name : String} {p : Parameter} : w.interface.inputs.get? name = some p →
      p.dataType.isCompatible rule expected → Feeds rule c w expected (.workflowInput name)
  | startOutput {id name : String} {p : Parameter} : w.namesStart id →
      w.interface.inputs.get? name = some p → p.dataType.isCompatible rule expected →
      Feeds rule c w expected (.nodeOutput id name)
  | nodeOutput {node : Node} {outputs : Outputs} {name : String} {type : DataType} :
      node ∈ w.nodes → node.isStep → c.outputs? node = some outputs →
      outputs.get? name = some type → type.isCompatible rule expected →
      Feeds rule c w expected (.nodeOutput node.id name)

/-- Bindings that give each needed parameter a value, and none twice. -/
structure Bound (rule : UnionRule) (c : Closure) (w : Workflow) (types : SortedMap String DataType)
    (needed : String → Prop) (bindings : List Binding) : Prop where
  distinct : (bindings.map Binding.parameter).Nodup
  fed : ∀ b ∈ bindings, ∃ type, types.get? b.parameter = some type ∧ Feeds rule c w type b.origin
  complete : ∀ name, needed name → ∃ b ∈ bindings, b.parameter = name

namespace Scope

variable {s : Scope} {c : Closure} {types : SortedMap String DataType}
variable {fixed : Option (EntityId × SortedMap String Literal)} {bindings : List Binding}
variable {b : Binding}

structure Clean (s : Scope) : Prop where
  sound : s.workflow.Sound
  linked : s.workflow.linkFaults = []
  arms : ∀ node ∈ s.workflow.nodes, s.armFaults node = []
  nodes : ∀ node ∈ s.workflow.nodes, s.nodeFaults false node = []
  outputs : s.outputFaults = []

theorem clean_of_defects (empty : s.defects = []) : s.Clean := by
  simp only [defects, List.append_eq_nil_iff, List.map_eq_nil_iff] at empty
  obtain ⟨⟨⟨structured, linked⟩, -⟩, faultless⟩ := empty
  have sound := Workflow.sound_of_structureFaults structured
  simp only [faults, List.append_eq_nil_iff, List.flatMap_eq_nil_iff, sound.firstNodes_eq]
    at faultless
  exact ⟨sound, linked, faultless.1.1, faultless.1.2, faultless.2⟩

/-- Nothing else can be wrong with a clean workflow than its structure and the order of its steps. -/
theorem Clean.defects_eq_nil (clean : s.Clean) (structured : s.workflow.structureFaults = [])
    (ordered : ∃ order, s.workflow.nodeOrder = .ok order) : s.defects = [] := by
  obtain ⟨order, ordered⟩ := ordered
  have arms : s.workflow.firstNodes.flatMap s.armFaults = [] := by
    rw [clean.sound.firstNodes_eq]
    exact List.flatMap_eq_nil_iff.mpr clean.arms
  have nodes : s.workflow.nodes.flatMap (s.nodeFaults false) = [] :=
    List.flatMap_eq_nil_iff.mpr clean.nodes
  simp only [defects, faults, structured, clean.linked, ordered, arms, nodes, clean.outputs,
    List.map_nil, List.append_nil]

theorem of_bindingFaults {bound : List String}
    (empty : s.bindingFaults types fixed bindings bound = []) :
    (∀ b ∈ bindings, b.parameter ∉ bound) ∧ (bindings.map Binding.parameter).Nodup ∧
      ∀ b ∈ bindings, s.bindingFault? types fixed b = none := by
  induction bindings generalizing bound with
  | nil => simp
  | cons b bindings ih =>
    unfold bindingFaults at empty
    split at empty
    · contradiction
    next new =>
      obtain ⟨first, rest⟩ := List.append_eq_nil_iff.mp empty
      obtain ⟨apart, distinct, faultless⟩ := ih rest
      refine ⟨?_, List.nodup_cons.mpr ⟨fun again => ?_, distinct⟩, ?_⟩
      · intro d hd
        rcases List.mem_cons.mp hd with rfl | hd
        · simpa using new
        · exact fun h => apart d hd (List.mem_cons_of_mem _ h)
      · obtain ⟨d, hd, same⟩ := List.mem_map.mp again
        exact apart d hd (by simp [same])
      · intro d hd
        rcases List.mem_cons.mp hd with rfl | hd
        · simpa using first
        · exact faultless d hd

/-- Bindings are without faults when each is, and no two are of one name. -/
theorem bindingFaults_eq_nil_iff {bound : List String} :
    s.bindingFaults types fixed bindings bound = [] ↔ (∀ b ∈ bindings, b.parameter ∉ bound) ∧
      (bindings.map Binding.parameter).Nodup ∧
      ∀ b ∈ bindings, s.bindingFault? types fixed b = none := by
  refine ⟨of_bindingFaults, fun faultless => ?_⟩
  induction bindings generalizing bound with
  | nil => rfl
  | cons b bindings ih =>
    obtain ⟨new, distinct, faultless⟩ := faultless
    obtain ⟨apart, distinct⟩ := List.nodup_cons.mp distinct
    rw [bindingFaults, if_neg (by simpa using new b List.mem_cons_self),
      faultless b List.mem_cons_self]
    refine ih ⟨fun d hd => ?_, distinct, fun d hd => faultless d (List.mem_cons_of_mem _ hd)⟩
    rw [List.mem_cons]
    rintro (same | old)
    · exact apart (same ▸ List.mem_map_of_mem hd)
    · exact new d (List.mem_cons_of_mem _ hd) old

theorem exists_of_missing {names : List String} (empty : missing names bindings = []) :
    ∀ name ∈ names, ∃ b ∈ bindings, b.parameter = name := by
  simpa [missing] using empty

/-- Whatever is bound without fault is declared, and its value has been checked. -/
theorem declared_of_bindingFault? (empty : s.bindingFault? types fixed b = none) :
    ∃ type, types.get? b.parameter = some type ∧ s.originFault? b type = none := by
  have declared : bindingFault?.declared s types b = none := by
    unfold bindingFault? at empty
    split at empty
    · split at empty
      · contradiction
      · exact empty
    · exact empty
  unfold bindingFault?.declared at declared
  split at declared
  · contradiction
  next type found => exact ⟨type, found, declared⟩

/-- A binding is without fault when its parameter is declared, is not fixed, and may be given the
value. -/
theorem bindingFault?_eq_none_iff : s.bindingFault? types fixed b = none ↔
    (∀ plan values, fixed = some (plan, values) → values.contains b.parameter = false) ∧
      ∃ type, types.get? b.parameter = some type ∧ s.originFault? b type = none := by
  constructor
  · intro empty
    refine ⟨fun plan values known => ?_, declared_of_bindingFault? empty⟩
    rw [← Bool.not_eq_true]
    intro rebound
    simp [bindingFault?, known, rebound] at empty
  · rintro ⟨free, type, declared, valued⟩
    have ok : bindingFault?.declared s types b = none := by
      rw [bindingFault?.declared, declared]
      exact valued
    cases fixed with
    | none => exact ok
    | some f =>
      obtain ⟨plan, values⟩ := f
      simp only [bindingFault?, free plan values rfl, Bool.false_eq_true, if_false, ok]

theorem isStep_of_nodeFaults {node : Node} (empty : s.nodeFaults true node = []) :
    node.isStep := by
  cases node with
  | call | branch => rfl
  | start head => simp [nodeFaults] at empty
  | finish head => simp [nodeFaults] at empty

/-- A node without faults has none in its arms. -/
theorem nodeFaults_of_flatten {node inner : Node} {inArm : Bool} (inside : inner ∈ node.flatten)
    (empty : s.nodeFaults inArm node = []) : ∃ inArm, s.nodeFaults inArm inner = [] := by
  induction node generalizing inArm with
  | branch head condition a b iha ihb =>
    simp only [Node.flatten, List.mem_cons, List.mem_append] at inside
    rcases inside with rfl | inside | inside
    · exact ⟨inArm, empty⟩
    · simp only [nodeFaults, List.append_eq_nil_iff] at empty
      exact iha inside empty.1.2
    · simp only [nodeFaults, List.append_eq_nil_iff] at empty
      exact ihb inside empty.2
  | call | start | finish =>
    simp only [Node.flatten, List.mem_singleton] at inside
    exact ⟨inArm, inside ▸ empty⟩

/-- A step produces what the members that it calls declare, and that is known. -/
theorem exposes_of_callees {node : Node} {inArm : Bool} (step : node.isStep)
    (known : ∀ id, s.interfaces.get? id = c.interface? id)
    (callees : ∀ inner ∈ node.flatten, ∀ id, inner.reference? = some id →
      ∃ i, c.interface? id = some i)
    (checked : s.nodeFaults inArm node = []) (agree : s.armFaults node = []) :
    ∃ outputs, s.exposes node = some outputs ∧ c.outputs? node = some outputs := by
  induction node generalizing inArm with
  | call head kind reference =>
    obtain ⟨i, found⟩ := callees _ (Node.self_mem_flatten _) reference rfl
    exact ⟨i.outputs, by simp [exposes, known, found], by simp [Closure.outputs?, found]⟩
  | branch head condition a b iha ihb =>
    simp only [nodeFaults, List.append_eq_nil_iff] at checked
    simp only [armFaults, List.append_eq_nil_iff] at agree
    obtain ⟨produced, first, first'⟩ := iha (isStep_of_nodeFaults checked.1.2)
      (fun inner h => callees inner (by simp [Node.flatten, h])) checked.1.2 agree.1.1
    obtain ⟨other, second, -⟩ := ihb (isStep_of_nodeFaults checked.2)
      (fun inner h => callees inner (by simp [Node.flatten, h])) checked.2 agree.1.2
    have fits := agree.2
    simp only [first, second] at fits
    refine ⟨produced, ?_, first'⟩
    cases found : s.armMismatch? a produced b other with
    | none => simp [exposes, first, second, found]
    | some mismatch => simp [found] at fits
  | start | finish => contradiction

/-- The type of what is bound is compatible, if it is known. -/
def Fits (s : Scope) (expected : DataType) (found : Except NodeFault (Option DataType)) : Prop :=
  found = .ok none ∨ ∃ type, found = .ok (some type) ∧ type.isCompatible s.rule expected

theorem fits_of_originFault? {expected : DataType} (bound : ∀ value, b.origin ≠ .literal value)
    (empty : s.originFault? b expected = none) : s.Fits expected (s.originType b.origin) := by
  unfold originFault? at empty
  split at empty
  next value origin => exact absurd origin (bound value)
  next =>
    split at empty
    · contradiction
    next found => exact .inl found
    next type found =>
      refine .inr ⟨type, found, ?_⟩
      by_contra other
      simp [other] at empty

theorem originFault?_eq_none_iff {expected : DataType} : s.originFault? b expected = none ↔
    (∃ value, b.origin = .literal value ∧ expected.admits value) ∨
      (∀ value, b.origin ≠ .literal value) ∧ s.Fits expected (s.originType b.origin) := by
  constructor
  · intro empty
    cases origin : b.origin with
    | literal value =>
      refine .inl ⟨value, rfl, ?_⟩
      by_contra other
      simp [originFault?, origin, other] at empty
    | workflowInput | nodeOutput =>
      have bound : ∀ value, b.origin ≠ .literal value := by simp [origin]
      exact .inr ⟨by simp, origin ▸ fits_of_originFault? bound empty⟩
  · unfold originFault?
    rintro (⟨value, origin, admitted⟩ | ⟨bound, fits⟩)
    · simp [origin, admitted]
    · split
      next value origin => exact absurd origin (bound value)
      next =>
        rcases fits with unknown | ⟨type, found, compatible⟩
        · rw [unknown]
        · simp only [found, compatible, if_true]

theorem Fits.exists_input {name : String} {expected : DataType}
    (fits : s.Fits expected (s.inputType name)) :
    ∃ p, s.workflow.interface.inputs.get? name = some p ∧
      p.dataType.isCompatible s.rule expected := by
  unfold inputType at fits
  split at fits
  next p found =>
    rcases fits with unknown | ⟨type, known, compatible⟩
    · cases unknown
    · cases known
      exact ⟨p, found, compatible⟩
  next => rcases fits with unknown | ⟨type, known, -⟩ <;> contradiction

/-- What is taken from a step at top level is one of its outputs. -/
theorem Fits.exists_output {node : Node} {output : String} {expected : DataType}
    (sound : s.workflow.Sound) (member : node ∈ s.workflow.nodes) {outputs : Outputs}
    (exposed : s.exposes node = some outputs) (notStart : s.workflow.namesStart node.id = false)
    (notFinish : s.workflow.namesFinish node.id = false)
    (fits : s.Fits expected (s.originType (.nodeOutput node.id output))) :
    ∃ type, outputs.get? output = some type ∧ type.isCompatible s.rule expected := by
  simp only [originType, notStart, notFinish, Bool.false_eq_true, if_false,
    sound.node?_eq member, Option.bind_some, exposed] at fits
  split at fits
  next type found =>
    rcases fits with unknown | ⟨other, known, compatible⟩
    · cases unknown
    · cases known
      exact ⟨type, found, compatible⟩
  next => rcases fits with unknown | ⟨type, known, -⟩ <;> contradiction

/-- A value that passes the check feeds its parameter, when what it takes from other nodes can
be had and what these produce is known. -/
theorem feeds_of_originFault? (sound : s.workflow.Sound)
    (produced : ∀ node ∈ s.workflow.nodes, node.isStep → ∃ outputs,
      s.exposes node = some outputs ∧ c.outputs? node = some outputs)
    (provided : ∀ id output, b.origin = .nodeOutput id output → s.workflow.Provides id)
    {expected : DataType} (empty : s.originFault? b expected = none) :
    Feeds s.rule c s.workflow expected b.origin := by
  cases origin : b.origin with
  | literal value =>
    refine .literal ?_
    by_contra other
    simp [originFault?, origin, other] at empty
  | workflowInput name =>
    have fits := fits_of_originFault? (by simp [origin]) empty
    rw [origin] at fits
    obtain ⟨p, found, compatible⟩ := fits.exists_input
    exact .workflowInput found compatible
  | nodeOutput id output =>
    have fits := fits_of_originFault? (by simp [origin]) empty
    rw [origin] at fits
    rcases provided id output origin with start | ⟨notStart, notFinish, node, member, step, rfl⟩
    · rw [originType, if_pos start] at fits
      obtain ⟨p, found, compatible⟩ := fits.exists_input
      exact .startOutput start found compatible
    · obtain ⟨outputs, exposed, known⟩ := produced node member step
      obtain ⟨type, found, compatible⟩ :=
        fits.exists_output sound member exposed notStart notFinish
      exact .nodeOutput member step known found compatible

/-- Bindings without faults are as they should be. -/
theorem bound_of_bindingFaults (sound : s.workflow.Sound)
    (produced : ∀ node ∈ s.workflow.nodes, node.isStep → ∃ outputs,
      s.exposes node = some outputs ∧ c.outputs? node = some outputs)
    (provided : ∀ b ∈ bindings, ∀ id output, b.origin = .nodeOutput id output →
      s.workflow.Provides id)
    {names : List String} (empty : s.bindingFaults types fixed bindings [] = [])
    (all : missing names bindings = []) :
    Bound s.rule c s.workflow types (· ∈ names) bindings := by
  obtain ⟨-, distinct, faultless⟩ := of_bindingFaults empty
  refine ⟨distinct, fun b member => ?_, exists_of_missing all⟩
  obtain ⟨type, declared, valued⟩ := declared_of_bindingFault? (faultless b member)
  exact ⟨type, declared, feeds_of_originFault? sound produced (provided b member) valued⟩

namespace Clean

variable (clean : s.Clean)
include clean

theorem produced (known : ∀ id, s.interfaces.get? id = c.interface? id)
    (callees : ∀ id ∈ s.workflow.references, ∃ i, c.interface? id = some i) {node : Node}
    (member : node ∈ s.workflow.nodes) (step : node.isStep) :
    ∃ outputs, s.exposes node = some outputs ∧ c.outputs? node = some outputs := by
  refine exposes_of_callees step known (fun inner inside id refers => callees id ?_)
    (clean.nodes node member) (clean.arms node member)
  exact Workflow.mem_references_iff.mpr ⟨inner, Workflow.mem_allNodes_of_mem member inside, refers⟩

theorem call_bound (known : ∀ id, s.interfaces.get? id = c.interface? id)
    (callees : ∀ id ∈ s.workflow.references, ∃ i, c.interface? id = some i) {head : NodeHead}
    {kind : ResourceType} {reference : EntityId}
    (call : .call head kind reference ∈ s.workflow.allNodes) {i : Interface}
    (found : c.interface? reference = some i) :
    Bound s.rule c s.workflow i.inputTypes (· ∈ i.requiredInputs) head.inputs := by
  obtain ⟨node, member, inside⟩ := List.mem_flatMap.mp call
  obtain ⟨inArm, checked⟩ := nodeFaults_of_flatten inside (clean.nodes node member)
  simp only [nodeFaults, known, found, List.map_eq_nil_iff, callFaults,
    List.append_eq_nil_iff] at checked
  exact bound_of_bindingFaults clean.sound (fun _ => clean.produced known callees)
    (fun _ bound _ _ => Workflow.provides_of_inputs clean.linked call rfl bound) checked.1 checked.2

theorem outputs_bound (known : ∀ id, s.interfaces.get? id = c.interface? id)
    (callees : ∀ id ∈ s.workflow.references, ∃ i, c.interface? id = some i) :
    Bound s.rule c s.workflow s.workflow.interface.outputs
      (· ∈ s.workflow.interface.outputs.keys)
      (s.workflow.outputs ++ (s.workflow.nodes.filter Node.isFinish).flatMap Node.inputs) := by
  have empty := clean.outputs
  simp only [outputFaults, List.map_eq_nil_iff, List.append_eq_nil_iff,
    clean.sound.outputBindings_eq] at empty
  exact bound_of_bindingFaults clean.sound (fun _ => clean.produced known callees)
    (fun _ bound _ _ => Workflow.provides_of_output clean.linked bound) empty.1 empty.2

end Clean

end Scope

end WorkflowBundle
