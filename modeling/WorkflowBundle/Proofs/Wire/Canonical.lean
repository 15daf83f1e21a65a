import WorkflowBundle.Proofs.Wire.Closures
import WorkflowBundle.Proofs.Wire.Yields

/-! Records and closures are canonical wherever they come from: whatever a document says, its maps
are sorted when they are read, and compiling a bundle puts no others together. -/
namespace WorkflowBundle

namespace Json

theorem canonicalMembers_iff {members : List (String × Json)} :
    CanonicalMembers members ↔ ∀ m ∈ members, m.2.Canonical := by
  induction members with
  | nil => simp [CanonicalMembers]
  | cons m members ih => rw [CanonicalMembers, ih, List.forall_mem_cons]

theorem CanonicalMembers.insert {members : List (String × Json)} (all : CanonicalMembers members)
    (key : String) {j : Json} (canonical : j.Canonical) :
    CanonicalMembers (Entries.insert key j members) := by
  rw [canonicalMembers_iff] at all ⊢
  intro m among
  rcases Entries.mem_insert among with rfl | old
  · exact canonical
  · exact all m old

end Json

namespace Document

mutual

/-- Free data is canonical whatever the document said. -/
theorem canonical_of_toJson : (doc : Document) → {j : Json} → doc.toJson = .ok j → j.Canonical
  | .null, _, run | .bool _, _, run | .int _, _, run | .text _, _, run => by
    obtain rfl := Except.ok.inj run
    trivial
  | .float x, _, run => by
    obtain rfl := Except.ok.inj run
    split
    next finite => exact finite
    next => trivial
  | .list items, _, run => by
    obtain ⟨parts, inner, rfl⟩ := Except.bind_pure_eq_ok run
    exact canonical_of_toJsonItems items inner
  | .table fields, _, run => by
    obtain ⟨members, inner, rfl⟩ := Except.bind_pure_eq_ok run
    exact canonical_of_toJsonFields fields List.Pairwise.nil trivial inner

theorem canonical_of_toJsonItems : (docs : List Document) → {items : List Json} →
    toJsonItems docs = .ok items → Json.CanonicalItems items
  | [], _, run => by
    obtain rfl := Except.ok.inj run
    trivial
  | doc :: docs, _, run => by
    obtain ⟨head, first, run⟩ := Except.bind_eq_ok_iff.mp run
    obtain ⟨tail, rest, rfl⟩ := Except.bind_pure_eq_ok run
    exact ⟨canonical_of_toJson doc first, canonical_of_toJsonItems docs rest⟩

theorem canonical_of_toJsonFields : (fields : List (Document × Document)) →
    {before members : Entries String Json} → before.Increasing → Json.CanonicalMembers before →
    toJsonFields fields before = .ok members →
    members.Increasing ∧ Json.CanonicalMembers members
  | [], _, _, increasing, canonical, run => by
    obtain rfl := Except.ok.inj run
    exact ⟨increasing, canonical⟩
  | (.text key, value) :: fields, _, _, increasing, canonical, run => by
    obtain ⟨member, first, rest⟩ := Except.bind_eq_ok_iff.mp run
    exact canonical_of_toJsonFields fields (increasing.insert key member)
      (canonical.insert key (canonical_of_toJson value first)) rest
  | (.null, _) :: _, _, _, _, _, run | (.bool _, _) :: _, _, _, _, _, run
  | (.int _, _) :: _, _, _, _, _, run | (.float _, _) :: _, _, _, _, _, run
  | (.list _, _) :: _, _, _, _, _, run | (.table _, _) :: _, _, _, _, _, run => by
    contradiction

end

end Document

open Document (Yields)

variable (form : Form)

namespace Literal

theorem canonical_of_readWithin (depth : Nat) : Yields (readWithin form depth) Canonical := by
  induction depth with
  | zero =>
    intro doc value run
    contradiction
  | succ depth ih =>
    intro doc value run
    obtain ⟨⟨name, payload⟩, -, run⟩ := Except.bind_eq_ok_iff.mp run
    dsimp only at run
    split at run
    case h_9 =>
      obtain ⟨items, inner, rfl⟩ := Except.bind_pure_eq_ok run
      exact canonicalItems_iff.mpr (ih.list.payload inner)
    case h_10 =>
      obtain ⟨entries, inner, rfl⟩ := Except.bind_pure_eq_ok run
      exact ⟨entries.increasing, canonicalEntries_iff.mpr (ih.map.payload inner)⟩
    case h_13 =>
      obtain ⟨data, inner, rfl⟩ := Except.bind_pure_eq_ok run
      have each : Yields Document.toJson Json.Canonical := fun doc _ => doc.canonical_of_toJson
      exact each.payload inner
    case h_8 =>
      obtain ⟨_, -, rfl⟩ := Except.bind_pure_eq_ok run
      trivial
    all_goals
      obtain ⟨scalar, -, rfl⟩ := Except.bind_pure_eq_ok run
      trivial

theorem canonical_of_read : Yields (read form) Canonical :=
  fun doc => canonical_of_readWithin form doc.depth doc

end Literal

theorem Parameter.canonical_of_read : Yields (Parameter.read form) Parameter.Canonical := by
  refine Yields.record (Q := fun draft => ∀ value ∈ draft.default, value.Canonical) ?_ (by simp) ?_
  · intro field doc draft next canonical run
    split at run
    case h_3 =>
      obtain ⟨default, inner, rfl⟩ := Except.bind_pure_eq_ok run
      exact (Literal.canonical_of_read form).option _ _ inner
    all_goals
      obtain ⟨other, -, rfl⟩ := Except.bind_pure_eq_ok run
      exact canonical
  · intro draft p canonical run
    obtain ⟨dataType, -, rfl⟩ := Except.bind_pure_eq_ok run
    exact canonical

theorem Interface.canonical_of_read : Yields (Interface.read form) Interface.Canonical := by
  refine Yields.record (Q := Interface.Canonical) ?_ (by intro e among; contradiction) ?_
  · intro field doc draft next canonical run
    split at run
    · obtain ⟨inputs, inner, rfl⟩ := Except.bind_pure_eq_ok run
      exact (Parameter.canonical_of_read form).map _ _ inner
    · obtain ⟨outputs, -, rfl⟩ := Except.bind_pure_eq_ok run
      exact canonical
  · intro draft i canonical run
    obtain rfl := Except.ok.inj run
    exact canonical

namespace Origin

theorem canonical_of_readWorkflowInput : Yields readWorkflowInput Canonical := by
  refine Yields.record (Q := fun _ => True) (fun _ _ _ _ _ _ => trivial) trivial ?_
  intro draft origin _ run
  obtain ⟨name, -, rfl⟩ := Except.bind_pure_eq_ok run
  trivial

theorem canonical_of_readNodeOutput : Yields readNodeOutput Canonical := by
  refine Yields.record (Q := fun _ => True) (fun _ _ _ _ _ _ => trivial) trivial ?_
  intro draft origin _ run
  obtain ⟨node, -, run⟩ := Except.bind_eq_ok_iff.mp run
  obtain ⟨output, -, rfl⟩ := Except.bind_pure_eq_ok run
  trivial

theorem canonical_of_read : Yields (read form) Canonical := by
  intro doc origin run
  obtain ⟨⟨name, payload⟩, -, run⟩ := Except.bind_eq_ok_iff.mp run
  dsimp only at run
  split at run
  · exact canonical_of_readWorkflowInput.named run
  · exact canonical_of_readNodeOutput.named run
  · obtain ⟨value, inner, rfl⟩ := Except.bind_pure_eq_ok run
    exact (Literal.canonical_of_read form).payload inner

end Origin

theorem Binding.canonical_of_read : Yields (Binding.read form) fun b => b.origin.Canonical := by
  refine Yields.record (Q := fun draft => ∀ origin ∈ draft.origin, origin.Canonical) ?_ (by simp) ?_
  · intro field doc draft next canonical run
    split at run
    · obtain ⟨name, -, rfl⟩ := Except.bind_pure_eq_ok run
      exact canonical
    · obtain ⟨origin, inner, rfl⟩ := Except.bind_pure_eq_ok run
      simpa using Origin.canonical_of_read form _ _ inner
  · intro draft b canonical run
    obtain ⟨parameter, -, run⟩ := Except.bind_eq_ok_iff.mp run
    obtain ⟨origin, given, rfl⟩ := Except.bind_pure_eq_ok run
    exact canonical origin (Document.mem_of_required given)

namespace Operand

theorem canonical_of_read : Yields (read form) Canonical := by
  intro doc operand run
  obtain ⟨⟨name, payload⟩, -, run⟩ := Except.bind_eq_ok_iff.mp run
  dsimp only at run
  split at run
  · obtain ⟨name, -, rfl⟩ := Except.bind_pure_eq_ok run
    trivial
  · obtain ⟨value, inner, rfl⟩ := Except.bind_pure_eq_ok run
    exact (Literal.canonical_of_read form).payload inner

end Operand

namespace Condition

theorem canonical_of_readComparison : Yields (readComparison form) Canonical := by
  refine Yields.record (Q := fun draft => (∀ left ∈ draft.left, left.Canonical) ∧
    ∀ right ∈ draft.right, right.Canonical) ?_ (by simp) ?_
  · intro field doc draft next canonical run
    split at run
    · obtain ⟨left, inner, rfl⟩ := Except.bind_pure_eq_ok run
      exact ⟨by simpa using Operand.canonical_of_read form _ _ inner, canonical.2⟩
    · obtain ⟨op, -, rfl⟩ := Except.bind_pure_eq_ok run
      exact canonical
    · obtain ⟨right, inner, rfl⟩ := Except.bind_pure_eq_ok run
      exact ⟨canonical.1, by simpa using Operand.canonical_of_read form _ _ inner⟩
  · intro draft condition canonical run
    obtain ⟨left, first, run⟩ := Except.bind_eq_ok_iff.mp run
    obtain ⟨op, -, run⟩ := Except.bind_eq_ok_iff.mp run
    obtain ⟨right, second, rfl⟩ := Except.bind_pure_eq_ok run
    exact ⟨canonical.1 left (Document.mem_of_required first),
      canonical.2 right (Document.mem_of_required second)⟩

theorem pair_of_readPair {α : Type} {read : Document → Except Fault α} {P : α → Prop}
    (each : Yields read P) {payload : Option Document} {pair : α × α}
    (run : readPair read payload = .ok pair) : P pair.1 ∧ P pair.2 := by
  unfold readPair at run
  split at run
  · obtain ⟨a, first, run⟩ := Except.bind_eq_ok_iff.mp run
    split at run
    · contradiction
    · obtain ⟨b, second, run⟩ := Except.bind_eq_ok_iff.mp run
      split at run
      · obtain rfl := Except.ok.inj run
        exact ⟨each _ _ first, each _ _ second⟩
      · contradiction
  · contradiction

theorem canonical_of_readWithin (depth : Nat) : Yields (readWithin form depth) Canonical := by
  induction depth with
  | zero =>
    intro doc condition run
    contradiction
  | succ depth ih =>
    intro doc condition run
    obtain ⟨⟨name, payload⟩, -, run⟩ := Except.bind_eq_ok_iff.mp run
    dsimp only at run
    split at run
    · exact (canonical_of_readComparison form).named run
    · obtain ⟨pair, inner, rfl⟩ := Except.bind_pure_eq_ok run
      exact pair_of_readPair ih inner
    · obtain ⟨pair, inner, rfl⟩ := Except.bind_pure_eq_ok run
      exact pair_of_readPair ih inner

theorem canonical_of_read : Yields (read form) Canonical :=
  fun doc => canonical_of_readWithin form doc.depth doc

end Condition

namespace Action

/-- The node of the action is canonical when its head is. -/
def Canonical : Action → Prop
  | branch condition a b => condition.Canonical ∧ a.Canonical ∧ b.Canonical
  | call _ _ | start | finish => True

theorem Canonical.ofHead {action : Action} (canonical : action.Canonical) {head : NodeHead}
    (inputs : head.Canonical) : (action.ofHead head).Canonical := by
  cases action with
  | branch => exact ⟨inputs, canonical⟩
  | call | start | finish => exact inputs

variable {readNode : Document → Except Fault Node}

theorem canonical_of_readBranch (each : Yields readNode Node.Canonical) :
    Yields (readBranch readNode) Canonical := by
  refine Yields.record (Q := fun draft => (∀ condition ∈ draft.condition, condition.Canonical) ∧
    (∀ a ∈ draft.whenTrue, a.Canonical) ∧ ∀ b ∈ draft.whenFalse, b.Canonical) ?_ (by simp) ?_
  · intro field doc draft next canonical run
    obtain ⟨condition, whenTrue, whenFalse⟩ := canonical
    split at run
    · obtain ⟨condition, inner, rfl⟩ := Except.bind_pure_eq_ok run
      exact ⟨by simpa using Condition.canonical_of_read .buffered _ _ inner, whenTrue, whenFalse⟩
    · obtain ⟨a, inner, rfl⟩ := Except.bind_pure_eq_ok run
      exact ⟨condition, by simpa using each _ _ inner, whenFalse⟩
    · obtain ⟨b, inner, rfl⟩ := Except.bind_pure_eq_ok run
      exact ⟨condition, whenTrue, by simpa using each _ _ inner⟩
  · intro draft action canonical run
    obtain ⟨condition, given, run⟩ := Except.bind_eq_ok_iff.mp run
    obtain ⟨a, first, run⟩ := Except.bind_eq_ok_iff.mp run
    obtain ⟨b, second, rfl⟩ := Except.bind_pure_eq_ok run
    exact ⟨canonical.1 condition (Document.mem_of_required given),
      canonical.2.1 a (Document.mem_of_required first),
      canonical.2.2 b (Document.mem_of_required second)⟩

theorem canonical_of_read (each : Yields readNode Node.Canonical) :
    Yields (read form readNode) Canonical := by
  intro doc action run
  obtain ⟨⟨name, fields⟩, -, run⟩ := Except.bind_eq_ok_iff.mp run
  dsimp only at run
  split at run
  case h_4 => exact canonical_of_readBranch each _ _ run
  case h_5 | h_6 =>
    obtain rfl := Except.ok.inj run
    trivial
  all_goals
    obtain ⟨reference, -, rfl⟩ := Except.bind_pure_eq_ok run
    trivial

end Action

namespace Node

theorem canonical_of_readWithin (depth : Nat) : Yields (readWithin form depth) Canonical := by
  induction depth generalizing form with
  | zero =>
    intro doc node run
    contradiction
  | succ depth ih =>
    refine Yields.record (Q := fun draft => (∀ action ∈ draft.action, action.Canonical) ∧
      ∀ b ∈ draft.inputs, b.origin.Canonical) ?_ (by simp) ?_
    · intro field doc draft next canonical run
      split at run
      case h_2 =>
        obtain ⟨action, inner, rfl⟩ := Except.bind_pure_eq_ok run
        exact ⟨by simpa using Action.canonical_of_read form (ih .buffered) _ _ inner, canonical.2⟩
      case h_3 =>
        obtain ⟨inputs, inner, rfl⟩ := Except.bind_pure_eq_ok run
        exact ⟨canonical.1, (Binding.canonical_of_read form).list _ _ inner⟩
      all_goals
        obtain ⟨other, -, rfl⟩ := Except.bind_pure_eq_ok run
        exact canonical
    · intro draft node canonical run
      obtain ⟨id, -, run⟩ := Except.bind_eq_ok_iff.mp run
      obtain ⟨action, given, rfl⟩ := Except.bind_pure_eq_ok run
      exact (canonical.1 action (Document.mem_of_required given)).ofHead canonical.2

theorem canonical_of_read : Yields (read form) Canonical :=
  fun doc => canonical_of_readWithin form doc.depth doc

end Node

theorem Workflow.canonical_of_read : Yields (Workflow.read form) Workflow.Canonical := by
  refine Yields.record (Q := fun draft => (∀ i ∈ draft.interface, i.Canonical) ∧
    (∀ node ∈ draft.nodes, node.Canonical) ∧ ∀ b ∈ draft.outputs, b.origin.Canonical) ?_ (by simp) ?_
  · intro field doc draft next canonical run
    obtain ⟨interface, nodes, outputs⟩ := canonical
    split at run
    · obtain ⟨id, -, rfl⟩ := Except.bind_pure_eq_ok run
      exact ⟨interface, nodes, outputs⟩
    · obtain ⟨i, inner, rfl⟩ := Except.bind_pure_eq_ok run
      exact ⟨by simpa using Interface.canonical_of_read form _ _ inner, nodes, outputs⟩
    · obtain ⟨listed, inner, rfl⟩ := Except.bind_pure_eq_ok run
      exact ⟨interface, (Node.canonical_of_read form).list _ _ inner, outputs⟩
    · obtain ⟨listed, inner, rfl⟩ := Except.bind_pure_eq_ok run
      exact ⟨interface, nodes, (Binding.canonical_of_read form).list _ _ inner⟩
  · intro draft w canonical run
    obtain ⟨id, -, run⟩ := Except.bind_eq_ok_iff.mp run
    obtain ⟨i, given, rfl⟩ := Except.bind_pure_eq_ok run
    exact ⟨canonical.1 i (Document.mem_of_required given), canonical.2.1, canonical.2.2⟩

theorem Task.canonical_of_read : Yields (Task.read form) Task.Canonical := by
  refine Yields.record (Q := fun draft => (∀ i ∈ draft.interface, i.Canonical) ∧
    draft.metadata.Canonical) ?_ (by simp [Json.Canonical]) ?_
  · intro field doc draft next canonical run
    split at run
    case h_3 =>
      obtain ⟨i, inner, rfl⟩ := Except.bind_pure_eq_ok run
      exact ⟨by simpa using Interface.canonical_of_read form _ _ inner, canonical.2⟩
    case h_4 =>
      obtain ⟨data, inner, rfl⟩ := Except.bind_pure_eq_ok run
      exact ⟨canonical.1, doc.canonical_of_toJson inner⟩
    all_goals
      obtain ⟨other, -, rfl⟩ := Except.bind_pure_eq_ok run
      exact canonical
  · intro draft t canonical run
    obtain ⟨id, -, run⟩ := Except.bind_eq_ok_iff.mp run
    obtain ⟨i, given, rfl⟩ := Except.bind_pure_eq_ok run
    exact ⟨canonical.1 i (Document.mem_of_required given), canonical.2⟩

theorem LaunchPlan.canonical_of_read : Yields (LaunchPlan.read form) LaunchPlan.Canonical := by
  refine Yields.record (Q := fun draft => (∀ e ∈ draft.fixedInputs.entries, e.2.Canonical) ∧
    ∀ e ∈ draft.defaultInputs.entries, e.2.Canonical) ?_ (by simp [SortedMap.empty]) ?_
  · intro field doc draft next canonical run
    split at run
    case h_3 =>
      obtain ⟨fixed, inner, rfl⟩ := Except.bind_pure_eq_ok run
      exact ⟨(Literal.canonical_of_read form).map _ _ inner, canonical.2⟩
    case h_4 =>
      obtain ⟨default, inner, rfl⟩ := Except.bind_pure_eq_ok run
      exact ⟨canonical.1, (Literal.canonical_of_read form).map _ _ inner⟩
    all_goals
      obtain ⟨other, -, rfl⟩ := Except.bind_pure_eq_ok run
      exact canonical
  · intro draft p canonical run
    obtain ⟨id, -, run⟩ := Except.bind_eq_ok_iff.mp run
    obtain ⟨workflow, -, rfl⟩ := Except.bind_pure_eq_ok run
    exact ⟨canonical.1, canonical.2⟩

namespace Entity

theorem canonical_of_read {outline : Outline} {e : Entity} (run : read outline = .ok e) :
    e.Canonical := by
  obtain ⟨⟨kind, fields⟩, -, run⟩ := Except.bind_eq_ok_iff.mp run
  dsimp only at run
  split at run
  · obtain ⟨t, inner, rfl⟩ := Except.bind_pure_eq_ok run
    exact Task.canonical_of_read .buffered _ _ inner
  · obtain ⟨w, inner, rfl⟩ := Except.bind_pure_eq_ok run
    exact Workflow.canonical_of_read .buffered _ _ inner
  · obtain ⟨p, inner, rfl⟩ := Except.bind_pure_eq_ok run
    exact LaunchPlan.canonical_of_read .buffered _ _ inner

/-- Every record that an entry holds is canonical, however the entry spells it. -/
theorem canonical_of_decode {data : List UInt8} {e : Entity} (run : decode data = .ok e) :
    e.Canonical := by
  obtain ⟨⟨text, source, -, -, inner⟩, -⟩ := decode_eq_ok_iff.mp run
  obtain ⟨made, top, ends⟩ := Except.bind_eq_ok_iff.mp inner
  split at ends
  · contradiction
  · obtain rfl := Except.ok.inj ends
    exact canonical_of_read top

end Entity

theorem CheckedWorkflow.canonical_of_read :
    Yields (CheckedWorkflow.read form) fun w => w.spec.Canonical := by
  refine Yields.record (Q := fun draft => ∀ w ∈ draft.spec, w.Canonical) ?_ (by simp) ?_
  · intro field doc draft next canonical run
    split at run
    case h_1 =>
      obtain ⟨w, inner, rfl⟩ := Except.bind_pure_eq_ok run
      simpa using Workflow.canonical_of_read form _ _ inner
    all_goals
      obtain ⟨other, -, rfl⟩ := Except.bind_pure_eq_ok run
      exact canonical
  · intro draft w canonical run
    obtain ⟨spec, given, run⟩ := Except.bind_eq_ok_iff.mp run
    obtain ⟨nodeOrder, -, run⟩ := Except.bind_eq_ok_iff.mp run
    obtain ⟨edges, -, rfl⟩ := Except.bind_pure_eq_ok run
    exact canonical spec (Document.mem_of_required given)

namespace Member

theorem canonical_of_readTask : Yields readTask Canonical := by
  refine Yields.record (Q := fun draft => ∀ t ∈ draft, t.Canonical) ?_ (by simp) ?_
  · intro field doc draft next _ run
    obtain ⟨t, inner, rfl⟩ := Except.bind_pure_eq_ok run
    simpa using Task.canonical_of_read .buffered _ _ inner
  · intro draft m canonical run
    obtain ⟨t, given, rfl⟩ := Except.bind_pure_eq_ok run
    exact canonical t (Document.mem_of_required given)

theorem canonical_of_readLaunchPlan : Yields readLaunchPlan Canonical := by
  refine Yields.record (Q := fun draft => (∀ p ∈ draft.spec, p.Canonical) ∧
    ∀ i ∈ draft.interface, i.Canonical) ?_ (by simp) ?_
  · intro field doc draft next canonical run
    split at run
    · obtain ⟨p, inner, rfl⟩ := Except.bind_pure_eq_ok run
      exact ⟨by simpa using LaunchPlan.canonical_of_read .buffered _ _ inner, canonical.2⟩
    · obtain ⟨i, inner, rfl⟩ := Except.bind_pure_eq_ok run
      exact ⟨canonical.1, by simpa using Interface.canonical_of_read .buffered _ _ inner⟩
  · intro draft m canonical run
    obtain ⟨p, given, run⟩ := Except.bind_eq_ok_iff.mp run
    obtain ⟨i, left, rfl⟩ := Except.bind_pure_eq_ok run
    exact ⟨canonical.1 p (Document.mem_of_required given),
      canonical.2 i (Document.mem_of_required left)⟩

theorem canonical_of_read : Yields (read form) Canonical := by
  intro doc m run
  obtain ⟨⟨kind, fields⟩, -, run⟩ := Except.bind_eq_ok_iff.mp run
  dsimp only at run
  split at run
  · exact canonical_of_readTask _ _ run
  · obtain ⟨w, inner, rfl⟩ := Except.bind_pure_eq_ok run
    exact CheckedWorkflow.canonical_of_read .buffered _ _ inner
  · exact canonical_of_readLaunchPlan _ _ run

end Member

namespace Closure

/-- Whatever is read as a closure is keyed and canonical. -/
theorem canonical_of_read :
    Yields (read form) fun c => c.Keyed ∧ ∀ e ∈ c.members.entries, e.2.Canonical := by
  refine Yields.record (Q := fun draft => ∀ members ∈ draft.members, ∀ m ∈ members, m.Canonical)
    ?_ (by simp) ?_
  · intro field doc draft next canonical run
    split at run
    · obtain ⟨members, inner, rfl⟩ := Except.bind_pure_eq_ok run
      simpa using (Member.canonical_of_read form).list _ _ inner
    · obtain ⟨order, -, rfl⟩ := Except.bind_pure_eq_ok run
      exact canonical
  · intro draft c canonical run
    obtain ⟨members, given, run⟩ := Except.bind_eq_ok_iff.mp run
    obtain ⟨order, -, rfl⟩ := Except.bind_pure_eq_ok run
    have listed : ∀ e ∈ (SortedMap.ofList (members.map fun m => (m.id, m))).entries,
        ∃ m ∈ members, (m.id, m) = e :=
      fun e among => List.mem_map.mp (SortedMap.mem_of_mem_ofList among)
    constructor
    · intro e among
      obtain ⟨m, -, rfl⟩ := listed e among
      rfl
    · intro e among
      obtain ⟨m, within, rfl⟩ := listed e among
      exact canonical members (Document.mem_of_required given) m within

end Closure

theorem LaunchPlan.exposed_canonical {p : LaunchPlan} (plan : p.Canonical) {i : Interface}
    (interface : i.Canonical) : (p.exposed i).Canonical := by
  intro e among
  obtain ⟨input, declared, kept⟩ := List.mem_filterMap.mp among
  obtain ⟨seen, exposed, rfl⟩ := Option.map_eq_some_iff.mp kept
  unfold exposedInput at exposed
  split at exposed
  · contradiction
  · split at exposed
    next value found =>
      obtain rfl := Option.some.inj exposed
      intro default same
      obtain rfl := Option.some.inj same
      exact plan.defaultInputs _ (SortedMap.get?_eq_some_iff.mp found)
    next =>
      obtain rfl := Option.some.inj exposed
      exact interface input declared

/-- What a bundle compiles to is canonical, the interfaces that its plans expose too. -/
theorem compile_canonical {rule : UnionRule} {entries : List Entry} {c : Closure}
    (h : compile rule entries = .ok c) : ∀ e ∈ c.members.entries, e.2.Canonical := by
  obtain ⟨clean, rfl⟩ := Compilation.compile_eq_ok_iff.mp h
  obtain ⟨entities, decoded, same⟩ := clean.holds
  have entity : ∀ m ∈ (Compilation.ofEntries rule entries).closure.members.entries,
      m.2.entity.Canonical := by
    intro m among
    obtain ⟨e, declared, listed⟩ := List.mem_map.mp (same.mem_iff.mp (List.mem_map_of_mem among))
    obtain ⟨-, rfl⟩ := Prod.mk.inj listed
    obtain ⟨entry, -, read⟩ := List.mem_map.mp (decoded ▸ List.mem_map_of_mem declared)
    exact Entity.canonical_of_decode read
  rintro ⟨id, m⟩ among
  cases m with
  | task | workflow => exact entity _ among
  | launchPlan p exposed =>
    obtain ⟨w, found, narrow⟩ := clean.narrowed id p exposed (SortedMap.get?_eq_some_iff.mpr among)
    have plan : p.Canonical := entity _ among
    have workflow : w.spec.Canonical := entity _ (SortedMap.get?_eq_some_iff.mp found)
    obtain rfl := LaunchPlan.eq_exposed_of_narrow narrow
    exact ⟨plan, LaunchPlan.exposed_canonical plan workflow.interface⟩

end WorkflowBundle
