import WorkflowBundle.Entity.Decode
import WorkflowBundle.Proofs.SortedMap

/-! What records refer to, and what reading a record guarantees about its identifiers. A node
refers to what it calls at whatever depth of branch arms it stands. -/
namespace WorkflowBundle

theorem Except.bind_eq_ok_iff {ε α β : Type _} {x : Except ε α} {f : α → Except ε β} {b : β} :
    (x >>= f) = .ok b ↔ ∃ a, x = .ok a ∧ f a = .ok b := by
  cases x <;> simp [bind, Except.bind]

theorem Except.bind_pure_eq_ok {ε α β : Type} {x : Except ε α} {f : α → β} {b : β}
    (run : (x >>= fun a => pure (f a)) = .ok b) : ∃ a, x = .ok a ∧ b = f a := by
  obtain ⟨a, ok, same⟩ := Except.bind_eq_ok_iff.mp run
  exact ⟨a, ok, (Except.ok.inj same).symm⟩

theorem Except.mapError_eq_ok_iff {ε η α : Type _} {x : Except ε α} {f : ε → η} {a : α} :
    x.mapError f = .ok a ↔ x = .ok a := by
  cases x <;> simp [Except.mapError]

theorem EntityId.referenceFault?_eq_none_iff {site : ReferenceSite} {expected : ResourceType}
    {id : EntityId} : id.referenceFault? site expected = none ↔
      id.fault = none ∧ id.resourceType = expected := by
  unfold referenceFault?
  cases id.fault <;> simp

namespace Node

theorem self_mem_flatten (node : Node) : node ∈ node.flatten := by
  cases node <;> simp [flatten]

theorem flatten_subset {node inner : Node} (inside : inner ∈ node.flatten) :
    inner.flatten ⊆ node.flatten := by
  induction node with
  | branch head condition a b iha ihb =>
    simp only [flatten, List.mem_cons, List.mem_append] at inside
    rcases inside with rfl | first | second
    · exact List.Subset.refl _
    · exact fun n h => List.mem_cons_of_mem _ (List.mem_append_left _ (iha first h))
    · exact fun n h => List.mem_cons_of_mem _ (List.mem_append_right _ (ihb second h))
  | call | start | finish =>
    rw [List.mem_singleton.mp inside]
    exact List.Subset.refl _

theorem flatten_whenTrue_subset {head : NodeHead} {condition : Condition} {a b : Node} :
    a.flatten ⊆ (branch head condition a b).flatten :=
  flatten_subset (List.mem_cons_of_mem _ (List.mem_append_left _ a.self_mem_flatten))

theorem flatten_whenFalse_subset {head : NodeHead} {condition : Condition} {a b : Node} :
    b.flatten ⊆ (branch head condition a b).flatten :=
  flatten_subset (List.mem_cons_of_mem _ (List.mem_append_right _ b.self_mem_flatten))

theorem mem_references_iff {node : Node} {id : EntityId} :
    id ∈ node.references ↔ ∃ inner ∈ node.flatten, inner.reference? = some id := by
  induction node with
  | call head kind reference => simp [references, flatten, reference?, eq_comm]
  | branch head condition a b iha ihb =>
    simp [references, flatten, reference?, iha, ihb, or_and_right, exists_or]
  | start head => simp [references, flatten, reference?]
  | finish head => simp [references, flatten, reference?]

end Node

namespace Workflow

theorem mem_allNodes_of_mem {w : Workflow} {node inner : Node} (member : node ∈ w.nodes)
    (inside : inner ∈ node.flatten) : inner ∈ w.allNodes :=
  List.mem_flatMap.mpr ⟨node, member, inside⟩

theorem mem_references_iff {w : Workflow} {id : EntityId} :
    id ∈ w.references ↔ ∃ node ∈ w.allNodes, node.reference? = some id := by
  simp only [references, allNodes, List.mem_flatMap, Node.mem_references_iff]
  constructor
  · rintro ⟨node, member, inner, inside, refers⟩
    exact ⟨inner, ⟨node, member, inside⟩, refers⟩
  · rintro ⟨inner, ⟨node, member, inside⟩, refers⟩
    exact ⟨node, member, inner, inside, refers⟩

end Workflow

namespace Entity

/-- A workflow refers to what its nodes call, those of branch arms included, and a launch plan
to its workflow. -/
inductive RefersTo : Entity → EntityId → Prop where
  | node {w : Workflow} {node : Node} {id : EntityId} :
      node ∈ w.allNodes → node.reference? = some id → RefersTo (.workflow w) id
  | target {p : LaunchPlan} : RefersTo (.launchPlan p) p.workflow

theorem mem_references_iff {e : Entity} {id : EntityId} : id ∈ e.references ↔ e.RefersTo id := by
  have listed : ∀ ids : List EntityId,
      id ∈ (SortedMap.ofList (ids.map (·, ()))).keys ↔ id ∈ ids := by
    simp [SortedMap.mem_keys_ofList]
  cases e with
  | task t =>
    rw [references, listed]
    exact ⟨fun h => absurd h List.not_mem_nil, fun h => nomatch h⟩
  | workflow w =>
    rw [references, listed, Workflow.mem_references_iff]
    constructor
    · rintro ⟨node, member, refers⟩
      exact .node member refers
    · rintro (⟨member, refers⟩ | _)
      exact ⟨_, member, refers⟩
  | launchPlan p =>
    rw [references, listed, List.mem_singleton]
    constructor
    · rintro rfl
      exact .target
    · rintro (_ | _)
      rfl

/-- The identifiers of a record say what kind of record they name. -/
structure Identified (e : Entity) : Prop where
  own : e.id.resourceType = e.resourceType
  calls : ∀ w, e = .workflow w → ∀ head kind reference,
    Node.call head kind reference ∈ w.allNodes → reference.resourceType = kind
  target : ∀ p, e = .launchPlan p → p.workflow.resourceType = .workflow

theorem identified_of_identifierFault? {e : Entity} (h : e.identifierFault? = none) :
    e.Identified := by
  unfold identifierFault? at h
  split at h
  · contradiction
  · split at h
    next own =>
      refine ⟨own, ?_, ?_⟩
      · rintro w rfl head kind reference member
        exact (EntityId.referenceFault?_eq_none_iff.mp (List.findSome?_eq_none_iff.mp h _ member)).2
      · rintro p rfl
        exact (EntityId.referenceFault?_eq_none_iff.mp h).2
    next => contradiction

/-- The bytes are a text that says what the record is. -/
def Spells (data : List UInt8) (e : Entity) : Prop :=
  ∃ text s, Utf8.decode data = .ok text ∧ source text = .ok s ∧ s.read Entity.read = .ok e

theorem decode_eq_ok_iff {data : List UInt8} {e : Entity} :
    decode data = .ok e ↔ Spells data e ∧ e.identifierFault? = none := by
  simp only [decode, ofText, Spells, Except.bind_eq_ok_iff, Except.mapError_eq_ok_iff]
  constructor
  · rintro ⟨text, decoded, s, said, found, read, checked⟩
    split at checked
    · contradiction
    next passes =>
      obtain rfl := Except.ok.inj checked
      exact ⟨⟨text, s, decoded, said, read⟩, passes⟩
  · rintro ⟨⟨text, s, decoded, said, read⟩, passes⟩
    exact ⟨text, decoded, s, said, e, read, by rw [passes]⟩

/-- Whatever can be read is well identified. -/
theorem identified_of_decode {data : List UInt8} {e : Entity} (h : Entity.decode data = .ok e) :
    e.Identified := identified_of_identifierFault? (decode_eq_ok_iff.mp h).2

end Entity

namespace Entry

def record? (e : Entry) : Option Record := e.decode.toOption

def fault? (e : Entry) : Option Defect :=
  match e.decode with
  | .ok _ => none
  | .error defect => some defect

theorem decodeAll_eq (entries : List Entry) :
    decodeAll entries = (entries.filterMap record?, entries.filterMap fault?) := rfl

variable {e : Entry} {r : Record} {d : Defect}

theorem record?_eq_some_iff :
    e.record? = some r ↔ r.entry = e.name ∧ Entity.decode e.data = .ok r.entity := by
  unfold record? decode
  split
  next entity found =>
    rw [found, Except.ok.injEq, Except.toOption, Option.some.injEq]
    constructor
    · rintro rfl
      exact ⟨rfl, rfl⟩
    · rintro ⟨name, rfl⟩
      rw [← name]
  next fault found => simp [found, Except.toOption]

theorem fault?_eq_some_iff : e.fault? = some d ↔
    ∃ fault, Entity.decode e.data = .error fault ∧ d = .undecodable e.name fault.message := by
  unfold fault? decode
  cases Entity.decode e.data <;> simp [eq_comm]

theorem fault?_eq_none_iff : e.fault? = none ↔ ∃ r, e.record? = some r := by
  unfold fault? record?
  cases e.decode <;> simp [Except.toOption]

theorem identified_of_record? (h : e.record? = some r) : r.entity.Identified :=
  Entity.identified_of_decode (record?_eq_some_iff.mp h).2

end Entry

end WorkflowBundle
