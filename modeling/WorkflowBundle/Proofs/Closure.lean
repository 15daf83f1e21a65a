import WorkflowBundle.Proofs.AsciiEntry

/-! What a successful compilation guarantees about its closure as a whole: nothing of the bundle
is lost or made up, plans expose what they leave of their workflows, and everything can be
registered in the given order. -/
namespace WorkflowBundle

namespace Closure

/-- Every entry was read, and the closure has exactly the records that were read, unchanged and
each under its own identifier. -/
def Holds (c : Closure) (entries : List Entry) : Prop :=
  ∃ entities : List Entity,
    entries.map (fun entry => Entity.decode entry.data) = entities.map .ok ∧
      (c.members.entries.map fun m => (m.1, m.2.entity)).Perm (entities.map fun e => (e.id, e))

/-- Each launch plan is over a workflow of the closure and exposes what it leaves of the
interface of that workflow. -/
def Narrowed (c : Closure) : Prop :=
  ∀ id p exposed, c.members.get? id = some (.launchPlan p exposed) →
    ∃ w, c.members.get? p.workflow = some (.workflow w) ∧ p.narrow w.spec.interface = .ok exposed

/-- The order lists each member once and nothing else, and what a member refers to stands before
it. -/
structure Registrable (c : Closure) : Prop where
  once : c.order.Nodup
  complete : c.order.Perm c.members.keys
  first : ∀ id m reference, c.members.get? id = some m → m.entity.RefersTo reference →
    Precedes c.order reference id

end Closure

namespace Compilation.Clean

variable {rule : UnionRule} {entries : List Entry} (clean : Clean rule entries)
include clean

theorem holds : (ofEntries rule entries).closure.Holds entries := by
  refine ⟨(Entry.decodeAll entries).1.map Record.entity, clean.map_decode, ?_⟩
  rw [clean.map_members, List.map_map]
  have perm := (Index.build_perm clean.indexed).map fun e => (e.1, e.2.entity)
  rwa [List.map_map] at perm

theorem narrowed : (ofEntries rule entries).closure.Narrowed := by
  intro id p exposed member
  obtain ⟨declared, interface⟩ := clean.of_get?_members member
  obtain ⟨w, i, found, narrow, listed⟩ := clean.narrow_eq declared
  obtain rfl : exposed = i := Option.some.inj (interface.symm.trans listed)
  obtain ⟨m, known, same, -⟩ := clean.exists_member found
  cases m with
  | task t => contradiction
  | launchPlan q j => contradiction
  | workflow checked =>
    obtain rfl := Entity.workflow.inj same
    exact ⟨checked, known, narrow⟩

theorem registrable : (ofEntries rule entries).closure.Registrable where
  once := clean.order_perm.nodup_iff.mpr (SortedMap.nodup_keys _)
  complete := clean.keys_members ▸ clean.order_perm
  first _ _ _ member refers :=
    clean.precedes_of_refersTo (clean.of_get?_members member).1 refers

end Compilation.Clean

/-- A bundle that compiles is complete, refers to nothing outside it and can be registered. -/
theorem compile_registrable {rule : UnionRule} {entries : List Entry} {c : Closure}
    (h : compile rule entries = .ok c) : c.Holds entries ∧ c.Narrowed ∧ c.Registrable := by
  obtain ⟨clean, rfl⟩ := Compilation.compile_eq_ok_iff.mp h
  exact ⟨clean.holds, clean.narrowed, clean.registrable⟩

theorem compile_registrable_sample : ∃ c, compile .anyMember Sample.entries = .ok c ∧
    c.Holds Sample.entries ∧ c.Narrowed ∧ c.Registrable := by
  obtain ⟨c, ok⟩ := Sample.compiles
  exact ⟨c, ok, compile_registrable ok⟩

end WorkflowBundle
