import WorkflowBundle.Proofs.Closure
import WorkflowBundle.Proofs.Workflow.Bindings

/-! Soundness of compilation. In a closure every call at whatever depth of branch arms gets from
its bindings what the called member wants, and every workflow gives what it declares. -/
namespace WorkflowBundle

namespace Closure

/-- A call of a member binds each input at most once, to a value that may be given to it, and
binds all that have to be bound. Inputs that a launch plan fixes are not bound. -/
structure CallFits (c : Closure) (rule : UnionRule) (w : Workflow) (head : NodeHead)
    (kind : ResourceType) (m : Member) : Prop where
  kind : m.entity.resourceType = kind
  bound : Bound rule c w m.interface.inputTypes
    (fun name => ∃ p, m.interface.inputs.get? name = some p ∧ p.mustBeBound) head.inputs
  unfixed : ∀ p exposed, m = .launchPlan p exposed →
    ∀ b ∈ head.inputs, p.fixedInputs.contains b.parameter = false

/-- Calls of all workflows fit members of the closure, and all declared outputs are bound. -/
structure WellBound (c : Closure) (rule : UnionRule) : Prop where
  calls : ∀ id w, c.members.get? id = some (.workflow w) → ∀ head kind reference,
    Node.call head kind reference ∈ w.spec.allNodes →
      ∃ m, c.members.get? reference = some m ∧ c.CallFits rule w.spec head kind m
  outputs : ∀ id w, c.members.get? id = some (.workflow w) →
    Bound rule c w.spec w.spec.interface.outputs
      (fun name => ∃ type, w.spec.interface.outputs.get? name = some type)
      (w.spec.outputs ++ (w.spec.nodes.filter Node.isFinish).flatMap Node.inputs)

end Closure

namespace Compilation.Clean

variable {rule : UnionRule} {entries : List Entry} (clean : Clean rule entries)
include clean

/-- The table that the checks use has what the members expose. -/
theorem get?_interfaces (id : EntityId) : (ofEntries rule entries).interfaces.get? id =
    (ofEntries rule entries).closure.interface? id := by
  cases member : (ofEntries rule entries).closure.members.get? id with
  | some m =>
    rw [Closure.interface?, member]
    exact (clean.of_get?_members member).2
  | none =>
    rw [Closure.interface?, member, Compilation.get?_interfaces]
    cases found : (ofEntries rule entries).index.get? id with
    | none => rfl
    | some e =>
      obtain ⟨m, listed, -⟩ := clean.exists_member found
      rw [member] at listed
      contradiction

theorem exists_callee {id reference : EntityId} {w : Workflow}
    (found : (ofEntries rule entries).index.get? id = some (.workflow w))
    (refers : reference ∈ w.references) :
    ∃ m, (ofEntries rule entries).closure.members.get? reference = some m := by
  obtain ⟨node, member, calls⟩ := Workflow.mem_references_iff.mp refers
  obtain ⟨target, declared⟩ := clean.declares_of_refersTo found (.node member calls)
  obtain ⟨m, listed, -⟩ := clean.exists_member declared
  exact ⟨m, listed⟩

theorem exists_callee_interface {id : EntityId} {w : Workflow}
    (found : (ofEntries rule entries).index.get? id = some (.workflow w)) :
    ∀ reference ∈ w.references,
      ∃ i, (ofEntries rule entries).closure.interface? reference = some i := by
  intro reference refers
  obtain ⟨m, listed⟩ := clean.exists_callee found refers
  exact ⟨m.interface, by rw [Closure.interface?, listed]; rfl⟩

theorem get?_inputTypes_of_fixed {id : EntityId} {p : LaunchPlan} {exposed : Interface}
    (listed : (ofEntries rule entries).closure.members.get? id = some (.launchPlan p exposed))
    {name : String} (fixed : p.fixedInputs.contains name) :
    exposed.inputTypes.get? name = none := by
  obtain ⟨w, -, narrow⟩ := clean.narrowed id p exposed listed
  rw [Interface.inputTypes, SortedMap.get?_map, LaunchPlan.eq_exposed_of_narrow narrow,
    LaunchPlan.get?_exposed_of_fixed fixed]
  rfl

/-- A node calls a member of the kind that it says, and its bindings fit. -/
theorem call_fits {id : EntityId} {w : Workflow}
    (declared : (ofEntries rule entries).index.get? id = some (.workflow w)) {head : NodeHead}
    {kind : ResourceType} {reference : EntityId} (call : .call head kind reference ∈ w.allNodes) :
    ∃ m, (ofEntries rule entries).closure.members.get? reference = some m ∧
      (ofEntries rule entries).closure.CallFits rule w head kind m := by
  have coherent := coherent rule entries
  have checked := Scope.clean_of_defects (clean.scope_defects declared)
  obtain ⟨m, listed⟩ := clean.exists_callee declared
    (Workflow.mem_references_iff.mpr ⟨_, call, rfl⟩)
  have target := (clean.of_get?_members listed).1
  have found : (ofEntries rule entries).closure.interface? reference = some m.interface := by
    rw [Closure.interface?, listed]
    rfl
  have bound := checked.call_bound clean.get?_interfaces
    (clean.exists_callee_interface declared) call found
  refine ⟨m, listed, ?_, ⟨bound.distinct, bound.fed, fun name needed => ?_⟩, ?_⟩
  · rw [← (coherent.identified_of_get? target).own, coherent.id_eq target]
    exact (coherent.identified_of_get? declared).calls w rfl head kind reference call
  · exact bound.complete name (Interface.mem_requiredInputs.mpr needed)
  · rintro p exposed rfl b hb
    obtain ⟨type, declares, -⟩ := bound.fed b hb
    rw [← Bool.not_eq_true]
    intro fixed
    rw [Member.interface, clean.get?_inputTypes_of_fixed listed fixed] at declares
    contradiction

theorem outputs_bound {id : EntityId} {w : Workflow}
    (declared : (ofEntries rule entries).index.get? id = some (.workflow w)) :
    Bound rule (ofEntries rule entries).closure w w.interface.outputs
      (fun name => ∃ type, w.interface.outputs.get? name = some type)
      (w.outputs ++ (w.nodes.filter Node.isFinish).flatMap Node.inputs) := by
  have checked := Scope.clean_of_defects (clean.scope_defects declared)
  have bound := checked.outputs_bound clean.get?_interfaces (clean.exists_callee_interface declared)
  refine ⟨bound.distinct, bound.fed, ?_⟩
  rintro name ⟨type, needed⟩
  refine bound.complete name ?_
  exact SortedMap.contains_iff_mem_keys.mp (SortedMap.contains_iff.mpr ⟨type, needed⟩)

theorem wellBound : (ofEntries rule entries).closure.WellBound rule where
  calls _ _ member _ _ _ call := clean.call_fits (clean.of_get?_members member).1 call
  outputs _ _ member := clean.outputs_bound (clean.of_get?_members member).1

end Compilation.Clean

/-- Whatever compiles is well bound. -/
theorem compile_wellBound {rule : UnionRule} {entries : List Entry} {c : Closure}
    (h : compile rule entries = .ok c) : c.WellBound rule := by
  obtain ⟨clean, rfl⟩ := Compilation.compile_eq_ok_iff.mp h
  exact clean.wellBound

theorem compile_wellBound_sample :
    ∃ c, compile .anyMember Sample.entries = .ok c ∧ c.WellBound .anyMember := by
  obtain ⟨c, ok⟩ := Sample.compiles
  exact ⟨c, ok, compile_wellBound ok⟩

end WorkflowBundle
