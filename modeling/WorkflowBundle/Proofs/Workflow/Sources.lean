import WorkflowBundle.Proofs.Workflow.Bindings

/-! What the origins of bindings give, put in terms of the interfaces of what a workflow calls.
The checks compute the type of an origin; when the steps at top level are known they find one
exactly where this relation has one. -/
namespace WorkflowBundle

/-- Entries of two maps with the same keys meet when the maps are traversed together. -/
theorem mem_zip_values {xs : List (κ × β)} {ys : List (κ × γ)} (nodup : (xs.map (·.1)).Nodup)
    (same : xs.map (·.1) = ys.map (·.1)) {key : κ} {x : β} {y : γ} :
    ((key, x), y) ∈ xs.zip (ys.map (·.2)) ↔ (key, x) ∈ xs ∧ (key, y) ∈ ys := by
  induction xs generalizing ys with
  | nil => simp
  | cons e xs ih =>
    obtain ⟨k, u⟩ := e
    match ys, same with
    | (l, v) :: ys, same =>
      simp only [List.map_cons, List.cons.injEq] at same
      obtain ⟨rfl, same⟩ := same
      obtain ⟨apart, nodup⟩ := List.nodup_cons.mp nodup
      have absent : ∀ z, (k, z) ∉ xs := fun z h => apart (List.mem_map.mpr ⟨_, h, rfl⟩)
      have absent' : ∀ z, (k, z) ∉ ys := fun z h => apart (same ▸ List.mem_map.mpr ⟨_, h, rfl⟩)
      simp only [List.map_cons, List.zip_cons_cons, List.mem_cons, ih nodup same, Prod.mk.injEq]
      constructor
      · rintro (⟨⟨rfl, rfl⟩, rfl⟩ | ⟨hx, hy⟩)
        · simp
        · exact ⟨.inr hx, .inr hy⟩
      · rintro ⟨⟨rfl, rfl⟩ | hx, ⟨eq, rfl⟩ | hy⟩
        · simp
        · exact absurd hy (absent' y)
        · exact absurd (eq ▸ hx) (absent x)
        · exact .inr ⟨hx, hy⟩

namespace Workflow.Sound

variable {w : Workflow} (sound : w.Sound) {node other : Node}
include sound

theorem eq_of_id (member : node ∈ w.nodes) (member' : other ∈ w.nodes) (same : node.id = other.id) :
    node = other := by
  have found := sound.node?_eq member
  rw [same, sound.node?_eq member'] at found
  exact (Option.some.inj found).symm

theorem isStart_of_namesStart (member : node ∈ w.nodes) (named : w.namesStart node.id) :
    node.isStart := by
  simp only [namesStart, Bool.or_eq_true, beq_iff_eq, Option.any_eq_true] at named
  rcases named with reserved | ⟨start, found, same⟩
  · exact (sound.reserved node (mem_allNodes_of_mem member node.self_mem_flatten)).1 reserved
  · rw [← sound.eq_of_id (List.mem_of_find?_eq_some found) member same]
    exact List.find?_some found

theorem namesStart_of_isStep (member : node ∈ w.nodes) (step : node.isStep) :
    w.namesStart node.id = false := by
  rw [← Bool.not_eq_true]
  intro named
  simp [Node.isStep, sound.isStart_of_namesStart member named] at step

theorem namesFinish_of_isStep (member : node ∈ w.nodes) (step : node.isStep) :
    w.namesFinish node.id = false := by
  have notFinish : node.isFinish = false := by
    cases node <;> simp_all [Node.isStep, Node.isFinish]
  rw [← Bool.not_eq_true]
  intro named
  simp only [namesFinish, Bool.or_eq_true, beq_iff_eq, Option.any_eq_true] at named
  rcases named with reserved | ⟨finish, found, same⟩
  · have own := (sound.reserved node (mem_allNodes_of_mem member node.self_mem_flatten)).2 reserved
    simp [notFinish] at own
  · have eq := sound.eq_of_id (List.mem_of_find?_eq_some found) member same
    have isFinish := List.find?_some found
    simp [eq, notFinish] at isFinish

end Workflow.Sound

/-- Outputs of the same names, whose types are compatible both ways. -/
structure Outputs.Agree (rule : UnionRule) (produced other : Outputs) : Prop where
  names : produced.keys = other.keys
  types : ∀ name type otherType, produced.get? name = some type → other.get? name = some otherType →
    type.isCompatible rule otherType ∧ otherType.isCompatible rule type

namespace Scope

variable {s : Scope} {node a b : Node} {origin : Origin} {type : DataType}

/-- Whatever the workflow calls has an interface. -/
def Resolved (s : Scope) : Prop :=
  ∀ id ∈ s.workflow.references, ∃ i, s.interfaces.get? id = some i

theorem resolved_iff : s.Resolved ↔ s.workflow.references.all s.interfaces.contains := by
  simp only [Resolved, List.all_eq_true, SortedMap.contains_iff]

/-- What a node produces: a call what the interface of the called entity declares, a branch what
its first arm produces. -/
def outputs? (s : Scope) : Node → Option Outputs
  | .call _ _ reference => (s.interfaces.get? reference).map (·.outputs)
  | .branch _ _ whenTrue _ => s.outputs? whenTrue
  | .start _ | .finish _ => none

/-- The origin gives values of the type: a declared workflow input, directly or through the start,
an output of a step at top level, or a scalar. -/
inductive Supplies (s : Scope) : Origin → DataType → Prop where
  | workflowInput {name : String} {p : Parameter} : s.workflow.interface.inputs.get? name = some p →
      Supplies s (.workflowInput name) p.dataType
  | startOutput {id name : String} {p : Parameter} : s.workflow.namesStart id →
      s.workflow.interface.inputs.get? name = some p → Supplies s (.nodeOutput id name) p.dataType
  | nodeOutput {node : Node} {outputs : Outputs} {name : String} {type : DataType} :
      node ∈ s.workflow.nodes → node.isStep → s.outputs? node = some outputs →
      outputs.get? name = some type → Supplies s (.nodeOutput node.id name) type
  | literal {value : Literal} {type : DataType} : value.dataType? = some type →
      Supplies s (.literal value) type

theorem armMismatch?_eq_none_iff {produced other : Outputs} :
    s.armMismatch? a produced b other = none ↔ Outputs.Agree s.rule produced other := by
  unfold armMismatch?
  split
  next differ =>
    have apart : produced.keys ≠ other.keys := by simpa using differ
    simpa using fun agree : Outputs.Agree s.rule produced other => apart agree.names
  next alike =>
    have same : produced.keys = other.keys := by simpa using alike
    have zip := @mem_zip_values _ _ _ produced.entries other.entries produced.nodup_keys same
    simp only [List.findSome?_eq_none_iff, ite_eq_left_iff, reduceCtorEq, imp_false, not_not,
      interchangeable, Bool.and_eq_true]
    constructor
    · refine fun all => ⟨same, fun name type otherType h h' => ?_⟩
      exact all _ (zip.mpr ⟨SortedMap.get?_eq_some_iff.mp h, SortedMap.get?_eq_some_iff.mp h'⟩)
    · rintro agree ⟨⟨name, type⟩, otherType⟩ member
      obtain ⟨first, second⟩ := zip.mp member
      exact agree.types name type otherType (SortedMap.get?_eq_some_iff.mpr first)
        (SortedMap.get?_eq_some_iff.mpr second)

/-- The arms of all branches in the node agree. -/
def ArmsAgree (s : Scope) (node : Node) : Prop :=
  ∀ head condition a b, .branch head condition a b ∈ node.flatten →
    ∀ produced other, s.outputs? a = some produced → s.outputs? b = some other →
      Outputs.Agree s.rule produced other

theorem ArmsAgree.whenTrue {head : NodeHead} {condition : Condition}
    (agree : s.ArmsAgree (.branch head condition a b)) : s.ArmsAgree a :=
  fun h c x y inside => agree h c x y (Node.flatten_whenTrue_subset inside)

theorem ArmsAgree.whenFalse {head : NodeHead} {condition : Condition}
    (agree : s.ArmsAgree (.branch head condition a b)) : s.ArmsAgree b :=
  fun h c x y inside => agree h c x y (Node.flatten_whenFalse_subset inside)

/-- A node without start or finish in it, whose calls have interfaces. -/
structure Callable (s : Scope) (node : Node) : Prop where
  steps : ∀ inner ∈ node.flatten, inner.isStep
  resolved : ∀ id ∈ node.references, ∃ i, s.interfaces.get? id = some i

theorem Resolved.callable (resolved : s.Resolved) (member : node ∈ s.workflow.nodes)
    (steps : ∀ inner ∈ node.flatten, inner.isStep) : s.Callable node :=
  ⟨steps, fun id refers => resolved id (List.mem_flatMap.mpr ⟨node, member, refers⟩)⟩

theorem Callable.of_flatten_subset (callable : s.Callable node) (inside : a.flatten ⊆ node.flatten) :
    s.Callable a := by
  refine ⟨fun inner deeper => callable.steps inner (inside deeper), fun id refers => ?_⟩
  obtain ⟨inner, deeper, calls⟩ := Node.mem_references_iff.mp refers
  exact callable.resolved id (Node.mem_references_iff.mpr ⟨inner, inside deeper, calls⟩)

theorem Callable.whenTrue {head : NodeHead} {condition : Condition}
    (callable : s.Callable (.branch head condition a b)) : s.Callable a :=
  callable.of_flatten_subset Node.flatten_whenTrue_subset

theorem Callable.whenFalse {head : NodeHead} {condition : Condition}
    (callable : s.Callable (.branch head condition a b)) : s.Callable b :=
  callable.of_flatten_subset Node.flatten_whenFalse_subset

theorem Callable.exists_outputs (callable : s.Callable node) :
    ∃ outputs, s.outputs? node = some outputs := by
  induction node with
  | call head kind reference =>
    obtain ⟨i, found⟩ := callable.resolved reference (by simp [Node.references])
    exact ⟨i.outputs, by simp [outputs?, found]⟩
  | branch head condition a b iha _ => exact iha callable.whenTrue
  | start head | finish head =>
    have step := callable.steps _ (Node.self_mem_flatten _)
    contradiction

/-- A branch is without fault when its arms agree, and then it exposes what its first arm does. -/
theorem exposes_of_armsAgree (callable : s.Callable node) (agree : s.ArmsAgree node) :
    s.exposes node = s.outputs? node ∧ s.armFaults node = [] := by
  induction node with
  | branch head condition a b iha ihb =>
    obtain ⟨first, faultless⟩ := iha callable.whenTrue agree.whenTrue
    obtain ⟨second, faultless'⟩ := ihb callable.whenFalse agree.whenFalse
    obtain ⟨produced, known⟩ := callable.whenTrue.exists_outputs
    obtain ⟨other, known'⟩ := callable.whenFalse.exists_outputs
    have fits := armMismatch?_eq_none_iff (a := a) (b := b).mpr
      (agree head condition a b (Node.self_mem_flatten _) produced other known known')
    rw [known] at first
    rw [known'] at second
    exact ⟨by simp [exposes, outputs?, first, second, fits, known],
      by simp [armFaults, first, second, fits, faultless, faultless']⟩
  | call head kind reference => exact ⟨rfl, rfl⟩
  | start head | finish head =>
    have step := callable.steps _ (Node.self_mem_flatten _)
    contradiction

theorem armsAgree_of_armFaults (callable : s.Callable node) (empty : s.armFaults node = []) :
    s.ArmsAgree node := by
  induction node with
  | branch head condition a b iha ihb =>
    simp only [armFaults, List.append_eq_nil_iff] at empty
    obtain ⟨⟨faultless, faultless'⟩, fits⟩ := empty
    have agree := iha callable.whenTrue faultless
    have agree' := ihb callable.whenFalse faultless'
    intro head' condition' x y inside produced other known known'
    simp only [Node.flatten, List.mem_cons, List.mem_append] at inside
    rcases inside with same | inside | inside
    · obtain ⟨-, -, rfl, rfl⟩ := Node.branch.inj same
      have first := (exposes_of_armsAgree callable.whenTrue agree).1.trans known
      have second := (exposes_of_armsAgree callable.whenFalse agree').1.trans known'
      simp only [first, second] at fits
      refine armMismatch?_eq_none_iff (a := x) (b := y).mp ?_
      cases found : s.armMismatch? x produced y other with
      | none => rfl
      | some mismatch => simp [found] at fits
    · exact agree head' condition' x y inside produced other known known'
    · exact agree' head' condition' x y inside produced other known known'
  | call | start | finish => simp [ArmsAgree, Node.flatten]

/-- What the steps at top level produce is known. -/
structure Known (s : Scope) : Prop where
  sound : s.workflow.Sound
  callable : ∀ node ∈ s.workflow.nodes, node.isStep → s.Callable node
  agree : ∀ node ∈ s.workflow.nodes, node.isStep → s.ArmsAgree node

namespace Known

variable (known : s.Known)
include known

theorem exposes_eq (member : node ∈ s.workflow.nodes) (step : node.isStep) :
    s.exposes node = s.outputs? node :=
  (exposes_of_armsAgree (known.callable node member step) (known.agree node member step)).1

theorem originType_eq (member : node ∈ s.workflow.nodes) (step : node.isStep) (output : String) :
    ∃ outputs, s.outputs? node = some outputs ∧
      s.originType (.nodeOutput node.id output) = match outputs.get? output with
        | some type => .ok (some type)
        | none => .error (.unknownOutput node.id output) := by
  obtain ⟨outputs, produced⟩ := (known.callable node member step).exists_outputs
  have exposed : (s.workflow.node? node.id).bind s.exposes = some outputs := by
    rw [known.sound.node?_eq member, Option.bind_some, known.exposes_eq member step, produced]
  have notStart := known.sound.namesStart_of_isStep member step
  have notFinish := known.sound.namesFinish_of_isStep member step
  refine ⟨outputs, produced, ?_⟩
  cases listed : outputs.get? output with
  | none => simp [originType, notStart, notFinish, exposed, listed]
  | some type => simp [originType, notStart, notFinish, exposed, listed]

theorem originType_of_supplies (supplies : s.Supplies origin type) :
    s.originType origin = .ok (some type) := by
  cases supplies with
  | workflowInput found => simp [originType, inputType, found]
  | startOutput named found => simp [originType, named, inputType, found]
  | nodeOutput member step produced found =>
    obtain ⟨outputs, produced', eq⟩ := known.originType_eq member step _
    obtain rfl := Option.some.inj (produced.symm.trans produced')
    rw [eq, found]
  | literal typed => simp [originType, typed]

/-- An origin without fault has a type, or it is a literal that is no scalar. -/
theorem supplies_of_originType
    (provided : ∀ id output, origin = .nodeOutput id output → s.workflow.Provides id)
    {found : Option DataType} (ok : s.originType origin = .ok found) :
    (∃ type, found = some type ∧ s.Supplies origin type) ∨
      found = none ∧ ∃ value, origin = .literal value ∧ value.isPrimitive = false := by
  have input : ∀ name, s.inputType name = .ok found →
      ∃ p, found = some p.dataType ∧ s.workflow.interface.inputs.get? name = some p := by
    intro name ok
    unfold inputType at ok
    split at ok
    next p declared => exact ⟨p, (Except.ok.inj ok).symm, declared⟩
    next => contradiction
  cases origin with
  | workflowInput name =>
    obtain ⟨p, rfl, declared⟩ := input name ok
    exact .inl ⟨_, rfl, .workflowInput declared⟩
  | literal value =>
    obtain rfl := Except.ok.inj ok
    cases kind : value.scalarKind? with
    | some k => exact .inl ⟨.simple k, by simp [Literal.dataType?, kind], .literal (by
        simp [Literal.dataType?, kind])⟩
    | none => exact .inr ⟨by simp [Literal.dataType?, kind], value, rfl, by
        simp [Literal.isPrimitive, kind]⟩
  | nodeOutput id output =>
    rcases provided id output rfl with start | ⟨-, -, node, member, step, rfl⟩
    · simp only [originType, start, if_true] at ok
      obtain ⟨p, rfl, declared⟩ := input output ok
      exact .inl ⟨_, rfl, .startOutput start declared⟩
    · obtain ⟨outputs, produced, eq⟩ := known.originType_eq member step output
      rw [eq] at ok
      cases listed : outputs.get? output with
      | none => simp [listed] at ok
      | some type =>
        simp only [listed, Except.ok.injEq] at ok
        exact .inl ⟨type, ok.symm, .nodeOutput member step produced listed⟩

end Known

/-- In a step without faults there is no start or finish, at whatever depth. -/
theorem steps_of_nodeFaults {inArm : Bool} (step : node.isStep)
    (empty : s.nodeFaults inArm node = []) : ∀ inner ∈ node.flatten, inner.isStep := by
  induction node generalizing inArm with
  | branch head condition a b iha ihb =>
    simp only [nodeFaults, List.append_eq_nil_iff] at empty
    intro inner inside
    simp only [Node.flatten, List.mem_cons, List.mem_append] at inside
    rcases inside with rfl | inside | inside
    · rfl
    · exact iha (isStep_of_nodeFaults empty.1.2) empty.1.2 inner inside
    · exact ihb (isStep_of_nodeFaults empty.2) empty.2 inner inside
  | call | start | finish => simpa [Node.flatten] using step

theorem check_eq_ok_iff {checked : CheckedWorkflow} : s.check = .ok checked ↔ s.defects = [] ∧
    ⟨s.workflow, s.workflow.nodeOrder.toOption.getD [], s.workflow.edges⟩ = checked := by
  unfold check
  split
  next empty => simp [empty]
  next found => simpa using fun empty : s.defects = [] => absurd empty found

/-- In a workflow without defects whose calls have interfaces everything at top level is known. -/
theorem Clean.known (clean : s.Clean) (resolved : s.Resolved) : s.Known := by
  have callable : ∀ node ∈ s.workflow.nodes, node.isStep → s.Callable node := fun node member step =>
    resolved.callable member (steps_of_nodeFaults step (clean.nodes node member))
  exact ⟨clean.sound, callable, fun node member step =>
    armsAgree_of_armFaults (callable node member step) (clean.arms node member)⟩

end Scope

namespace Sample

/-- Identifiers in sample workflows. -/
def callee (name : String) : EntityId := ⟨.workflow, "p", "d", name, "1"⟩

def always : Condition :=
  .comparison (.literal (.boolean true)) .eq (.literal (.boolean true))

end Sample

end WorkflowBundle
