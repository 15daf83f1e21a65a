import WorkflowBundle.CommandLine
import WorkflowBundle.Proofs.Identification
import WorkflowBundle.Proofs.Wire.Closures

/-! Full identifiers, as they are shown and as workflows are asked for by them. No component of a
well-formed identifier has a slash or an at sign in it, so the ones that are shown are those between
the components, and they can be counted. A colon may stand in any component, but the one behind the
resource type comes first. -/
namespace WorkflowBundle

/-- What stands before the first of a mark, and what behind it, is settled by the whole. -/
theorem append_mark_inj {mark : α} {a b x y : List α} (free : mark ∉ a) (free' : mark ∉ b) :
    a ++ mark :: x = b ++ mark :: y ↔ a = b ∧ x = y := by
  constructor
  · intro same
    -- the longer of the two fronts would have the mark in it
    rcases List.append_eq_append_iff.mp same with ⟨more, rfl, cut⟩ | ⟨more, rfl, cut⟩
    · cases more with
      | nil => simpa using cut
      | cons c more =>
        obtain rfl := (List.cons.inj cut).1
        exact absurd (List.mem_append_right a List.mem_cons_self) free'
    · cases more with
      | nil => simpa [eq_comm] using cut
      | cons c more =>
        obtain rfl := (List.cons.inj cut).1
        exact absurd (List.mem_append_right b List.mem_cons_self) free
  · rintro ⟨rfl, rfl⟩
    rfl

namespace ResourceType

theorem name_injective {a b : ResourceType} (same : a.name = b.name) : a = b := by
  cases a <;> cases b <;> simp_all [name]

/-- The names of resource types have none of the marks in them. -/
theorem notMem_name (t : ResourceType) : ∀ mark ∈ [':', '/', '@'], mark ∉ t.name.toList := by
  cases t <;> simp [name]

end ResourceType

namespace EntityId

variable {a b id : EntityId} {mark : Char}

/-- The character stands in no component. -/
structure Lacks (id : EntityId) (mark : Char) : Prop where
  project : mark ∉ id.project.toList
  domain : mark ∉ id.domain.toList
  name : mark ∉ id.name.toList
  version : mark ∉ id.version.toList

theorem componentFault_eq_none_iff {label value : String} : componentFault label value = none ↔
    value ≠ "" ∧ ∀ c ∈ value.toList, isComponentChar c := by
  unfold componentFault
  split
  next empty => simp [String.isEmpty_iff.mp empty]
  next filled =>
    rw [String.isEmpty_iff] at filled
    split <;> simp_all

theorem fault_eq_none_iff : id.fault = none ↔ ∀ part ∈ id.components,
    part.2 ≠ "" ∧ ∀ c ∈ part.2.toList, isComponentChar c := by
  simp only [fault, List.findSome?_eq_none_iff, componentFault_eq_none_iff]

theorem lacks_of_fault (formed : id.fault = none) (stray : ¬isComponentChar mark) :
    id.Lacks mark := by
  have free : ∀ part ∈ id.components, mark ∉ part.2.toList :=
    fun part among within => stray ((fault_eq_none_iff.mp formed part among).2 mark within)
  simp only [components, List.forall_mem_cons] at free
  obtain ⟨project, domain, name, version, -⟩ := free
  exact ⟨project, domain, name, version⟩

theorem toList_display (id : EntityId) : id.display.toList =
    id.resourceType.name.toList ++ ':' :: (id.project.toList ++ '/' :: (id.domain.toList ++
      '/' :: (id.name.toList ++ '@' :: id.version.toList))) := by
  simp [display, String.toList_append]

/-- Whether a mark stands in a component can be seen from what is shown. -/
theorem lacks_iff_count (separates : mark ∈ [':', '/', '@']) : id.Lacks mark ↔
    id.display.toList.count mark = [':', '/', '/', '@'].count mark := by
  have outside := List.count_eq_zero.mpr (id.resourceType.notMem_name mark separates)
  have counted : id.display.toList.count mark = [':', '/', '/', '@'].count mark +
      (id.project.toList.count mark + id.domain.toList.count mark + id.name.toList.count mark +
        id.version.toList.count mark) := by
    simp only [toList_display, List.count_append, List.count_cons, List.count_nil, outside]
    omega
  rw [counted, Nat.add_eq_left]
  constructor
  · rintro ⟨project, domain, name, version⟩
    simp only [List.count_eq_zero_of_not_mem, project, domain, name, version, not_false_eq_true]
  · intro none
    exact ⟨List.count_eq_zero.mp (by omega), List.count_eq_zero.mp (by omega),
      List.count_eq_zero.mp (by omega), List.count_eq_zero.mp (by omega)⟩

theorem Lacks.of_display (separates : mark ∈ [':', '/', '@']) (lacks : a.Lacks mark)
    (same : a.display = b.display) : b.Lacks mark := by
  rw [lacks_iff_count separates] at lacks ⊢
  rwa [← same]

/-- The components can be told apart once no slash and no at sign stands in any of them. -/
theorem Lacks.eq_of_display (slash : a.Lacks '/') (sign : a.Lacks '@')
    (same : a.display = b.display) : a = b := by
  have slash' : b.Lacks '/' := slash.of_display (by decide) same
  have sign' : b.Lacks '@' := sign.of_display (by decide) same
  have colon (t : ResourceType) : ':' ∉ t.name.toList := t.notMem_name ':' (by decide)
  have shown := congrArg String.toList same
  rw [toList_display, toList_display, append_mark_inj (colon _) (colon _),
    append_mark_inj slash.project slash'.project, append_mark_inj slash.domain slash'.domain,
    append_mark_inj sign.name sign'.name] at shown
  simp only [String.toList_inj] at shown
  obtain ⟨type, project, domain, name, version⟩ := shown
  cases a
  cases b
  obtain rfl := ResourceType.name_injective type
  subst project domain name version
  rfl

theorem Lacks.name_ne_display (slash : a.Lacks '/') (b : EntityId) : a.name ≠ b.display := by
  intro same
  have free := slash.name
  rw [same, toList_display] at free
  simp at free

/-- A well-formed identifier is shown like no other one, be that well formed or not. -/
theorem display_unambiguous (formed : a.fault = none) : a.display = b.display ↔ a = b := by
  have slash : a.Lacks '/' := lacks_of_fault formed (by decide)
  have sign : a.Lacks '@' := lacks_of_fault formed (by decide)
  exact ⟨slash.eq_of_display sign, congrArg display⟩

/-- A colon may move from one component into the next. -/
theorem display_unambiguous_colon :
    (⟨.task, "task:p", "d", "n:1", "2"⟩ : EntityId).fault = none ∧
    (⟨.task, "task:p", "d", "n:1", "2"⟩ : EntityId).display = "task:task:p/d/n:1@2" ∧
    (⟨.task, "task:p", "d", "n:1", "2"⟩ : EntityId).display ≠
      (⟨.task, "task:p", "d", "n", "1:2"⟩ : EntityId).display := by
  have formed : (⟨.task, "task:p", "d", "n:1", "2"⟩ : EntityId).fault = none := by decide
  exact ⟨formed, by decide, (display_unambiguous formed).not.mpr (by decide)⟩

/-- Of ill-formed identifiers several may be shown alike. -/
example : (⟨.task, "p/q", "d", "n", "1"⟩ : EntityId).display =
    (⟨.task, "p", "q/d", "n", "1"⟩ : EntityId).display := by decide

end EntityId

namespace Closure

variable {c : Closure} {id : EntityId} {w : CheckedWorkflow}

theorem Keyed.get?_eq_workflow_iff (keyed : c.Keyed) :
    c.get? id = some (.workflow w) ↔ w ∈ c.workflows ∧ w.spec.id = id := by
  simp only [get?, SortedMap.get?_eq_some_iff, workflows, SortedMap.values, List.mem_filterMap,
    List.mem_map]
  constructor
  · intro listed
    exact ⟨⟨_, ⟨_, listed, rfl⟩, rfl⟩, (keyed _ listed).symm⟩
  · rintro ⟨⟨m, ⟨⟨key, m⟩, listed, rfl⟩, is⟩, rfl⟩
    obtain rfl : key = m.id := keyed _ listed
    cases m with
    | task | launchPlan => contradiction
    | workflow v =>
      obtain rfl := Option.some.inj is
      exact listed

/-- What was read has a well-formed identifier. -/
theorem Holds.formed {entries : List Entry} (holds : c.Holds entries) {m : Member}
    (found : c.get? id = some m) : id.fault = none := by
  obtain ⟨entities, decoded, same⟩ := holds
  have listed : (id, m.entity) ∈ c.members.entries.map fun m => (m.1, m.2.entity) :=
    List.mem_map_of_mem (SortedMap.get?_eq_some_iff.mp found)
  obtain ⟨e, among, own⟩ := List.mem_map.mp (same.mem_iff.mp listed)
  obtain ⟨rfl, -⟩ := Prod.mk.inj own
  obtain ⟨entry, -, read⟩ := List.mem_map.mp (decoded ▸ List.mem_map_of_mem among)
  exact (Entity.identifierFault?_eq_none_iff.mp (Entity.decode_eq_ok_iff.mp read).2).own

end Closure

open CommandLine in
/-- A full identifier finds the workflow that has it. If there is none then nothing is taken in its
place, since no name is like a full identifier. -/
theorem compile_findWorkflow {rule : UnionRule} {entries : List Entry} {c : Closure}
    (compiled : compile rule entries = .ok c) {id : EntityId} (formed : id.fault = none)
    {w : CheckedWorkflow} :
    findWorkflow id.display c = .ok w ↔ c.get? id = some (.workflow w) := by
  have keyed := compile_keyed compiled
  have holds : c.Holds entries := by
    obtain ⟨clean, rfl⟩ := Compilation.compile_eq_ok_iff.mp compiled
    exact clean.holds
  unfold findWorkflow
  split
  next v found =>
    have shown : v.spec.id.display = id.display := by simpa using List.find?_some found
    have slash : id.Lacks '/' := EntityId.lacks_of_fault formed (by decide)
    have sign : id.Lacks '@' := EntityId.lacks_of_fault formed (by decide)
    have own : v.spec.id = id := (slash.eq_of_display sign shown.symm).symm
    rw [keyed.get?_eq_workflow_iff.mpr ⟨List.mem_of_find?_eq_some found, own⟩]
    simp
  next absent =>
    have unnamed : c.workflows.filter (·.spec.id.name == id.display) = [] := by
      refine List.filter_eq_nil_iff.mpr fun v among named => ?_
      have formed := holds.formed (keyed.get?_eq_workflow_iff.mpr ⟨among, rfl⟩)
      exact (EntityId.lacks_of_fault formed (by decide)).name_ne_display id (eq_of_beq named)
    rw [unnamed, keyed.get?_eq_workflow_iff]
    simp only [List.getLast?_nil, reduceCtorEq, false_iff]
    rintro ⟨among, rfl⟩
    exact List.find?_eq_none.mp absent w among (beq_self_eq_true _)

end WorkflowBundle
