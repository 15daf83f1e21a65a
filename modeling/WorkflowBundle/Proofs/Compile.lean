import WorkflowBundle.Proofs.InterfaceTable
import WorkflowBundle.Proofs.RegistrationOrder

/-! What a compilation is made of. A bundle compiles exactly when no stage finds a defect, and
then every stage has handed on everything: each declared entity has an interface and is a
member of the closure. -/
namespace WorkflowBundle

namespace Compilation

variable {rule : UnionRule} {entries : List Entry} {id : EntityId} {e : Entity}

/-- What is known about the bundle of some entries. -/
def ofEntries (rule : UnionRule) (entries : List Entry) : Compilation :=
  let index := (Index.build (Entry.decodeAll entries).1).1
  ⟨index, (InterfaceTable.resolve index).1, rule⟩

def workflowDefects (c : Compilation) : List Defect :=
  c.index.workflows.flatMap fun w => (c.scope w).defects

/-- All that the stages find, stage by stage. -/
def found (rule : UnionRule) (entries : List Entry) : List Defect :=
  (Entry.decodeAll entries).2 ++ (Index.build (Entry.decodeAll entries).1).2 ++
    (InterfaceTable.resolve (ofEntries rule entries).index).2 ++
    (ofEntries rule entries).workflowDefects ++ (ofEntries rule entries).index.cycleDefects

def foundInRecords (rule : UnionRule) (records : List Record) : List Defect :=
  let index := (Index.build records).1
  let c : Compilation := ⟨index, (InterfaceTable.resolve index).1, rule⟩
  (Index.build records).2 ++ (InterfaceTable.resolve index).2 ++ c.workflowDefects ++
    index.cycleDefects

theorem found_eq (rule : UnionRule) (entries : List Entry) : found rule entries =
    (Entry.decodeAll entries).2 ++ foundInRecords rule (Entry.decodeAll entries).1 := by
  simp only [found, foundInRecords, List.append_assoc]
  rfl

theorem compile_eq (rule : UnionRule) (entries : List Entry) : compile rule entries =
    if (found rule entries).isEmpty then .ok (ofEntries rule entries).closure
    else .error (.gather (found rule entries)) := by
  unfold compile
  split
  next records undecodable decoded =>
  split
  next index duplicates built =>
  split
  next interfaces misfits resolved =>
  have known : ofEntries rule entries = ⟨index, interfaces, rule⟩ := by
    simp only [ofEntries, decoded, built, resolved]
  have all : found rule entries = undecodable ++ duplicates ++ misfits ++
      (ofEntries rule entries).workflowDefects ++ index.cycleDefects := by
    simp only [found, known, decoded, built, resolved]
  rw [known, workflowDefects] at all
  dsimp only at all ⊢
  rw [known, ← all]
  cases found rule entries <;> rfl

/-- No stage finds a defect. -/
structure Clean (rule : UnionRule) (entries : List Entry) : Prop where
  decoded : (Entry.decodeAll entries).2 = []
  indexed : (Index.build (Entry.decodeAll entries).1).2 = []
  resolved : (InterfaceTable.resolve (ofEntries rule entries).index).2 = []
  checked : (ofEntries rule entries).workflowDefects = []
  ordered : (ofEntries rule entries).index.cycleDefects = []

theorem found_eq_nil_iff : found rule entries = [] ↔ Clean rule entries := by
  simp only [found, List.append_eq_nil_iff]
  constructor
  · rintro ⟨⟨⟨⟨decoded, indexed⟩, resolved⟩, checked⟩, ordered⟩
    exact ⟨decoded, indexed, resolved, checked, ordered⟩
  · rintro ⟨decoded, indexed, resolved, checked, ordered⟩
    exact ⟨⟨⟨⟨decoded, indexed⟩, resolved⟩, checked⟩, ordered⟩

theorem compile_eq_ok_iff {closure : Closure} : compile rule entries = .ok closure ↔
    Clean rule entries ∧ (ofEntries rule entries).closure = closure := by
  rw [compile_eq, ← found_eq_nil_iff, ← List.isEmpty_iff]
  by_cases none : (found rule entries).isEmpty <;> simp [none]

/-- Entries that all hold records compile when nothing is wrong with these. -/
theorem exists_compile_of_records {records : List Record}
    (decoded : entries.map Entry.record? = records.map some)
    (empty : foundInRecords rule records = []) : ∃ c, compile rule entries = .ok c := by
  have faultless : ∀ e ∈ entries, e.fault? = none := by
    intro e member
    have read : e.record? ∈ records.map some := decoded ▸ List.mem_map_of_mem member
    obtain ⟨r, -, read⟩ := List.mem_map.mp read
    exact Entry.fault?_eq_none_iff.mpr ⟨r, read.symm⟩
  have all : entries.filterMap Entry.record? = records := by
    have joined := congrArg (List.filterMap id) decoded
    simpa [List.filterMap_map] using joined
  have none : found rule entries = [] := by
    rw [found_eq, Entry.decodeAll_eq, all, List.filterMap_eq_nil_iff.mpr faultless]
    exact empty
  exact ⟨_, compile_eq_ok_iff.mpr ⟨found_eq_nil_iff.mp none, rfl⟩⟩

theorem mem_decodeAll {r : Record} :
    r ∈ (Entry.decodeAll entries).1 ↔ ∃ entry ∈ entries, entry.record? = some r := by
  simp [Entry.decodeAll_eq, List.mem_filterMap]

theorem undecodable_of_mem {d : Defect} (h : d ∈ (Entry.decodeAll entries).2) :
    ∃ entry ∈ entries, ∃ reason, d = .undecodable entry.name reason := by
  obtain ⟨entry, member, fault⟩ := List.mem_filterMap.mp h
  obtain ⟨cause, -, rfl⟩ := Entry.fault?_eq_some_iff.mp fault
  exact ⟨entry, member, cause.message, rfl⟩

theorem parts_of_mem_undecodable (d : Defect) (h : d ∈ (Entry.decodeAll entries).2) :
    d.parts = [d] := by
  obtain ⟨entry, -, reason, rfl⟩ := undecodable_of_mem h
  rfl

theorem coherent (rule : UnionRule) (entries : List Entry) :
    (ofEntries rule entries).index.Coherent := by
  refine Index.build_coherent fun r hr => ?_
  obtain ⟨entry, -, decoded⟩ := mem_decodeAll.mp hr
  exact Entry.identified_of_record? decoded

/-- The interface table of a bundle has for each declared identifier what its entity exposes. -/
theorem get?_interfaces (id : EntityId) : (ofEntries rule entries).interfaces.get? id =
    ((ofEntries rule entries).index.get? id).bind (ofEntries rule entries).index.exposed? :=
  (coherent rule entries).get?_resolve id

namespace Clean

variable (clean : Clean rule entries)
include clean

theorem map_decode : entries.map (fun entry => Entity.decode entry.data) =
    ((Entry.decodeAll entries).1.map Record.entity).map .ok := by
  have none := clean.decoded
  simp only [Entry.decodeAll_eq, List.filterMap_eq_nil_iff] at none
  simp only [Entry.decodeAll_eq, List.map_filterMap]
  rw [← List.filterMap_eq_map']
  refine List.filterMap_congr fun entry member => ?_
  obtain ⟨r, decoded⟩ := Entry.fault?_eq_none_iff.mp (none entry member)
  simp [decoded, (Entry.record?_eq_some_iff.mp decoded).2]

theorem declares_of_refersTo (found : (ofEntries rule entries).index.get? id = some e)
    {reference : EntityId} (refers : e.RefersTo reference) :
    ∃ target, (ofEntries rule entries).index.get? reference = some target :=
  Index.declares_of_build clean.indexed found refers

theorem offer_accepted (found : (ofEntries rule entries).index.get? id = some e) {o : Offer}
    (offered : (ofEntries rule entries).index.offer? e = some o) :
    o.accepted? = some o.interface := by
  have none := clean.resolved
  rw [(coherent rule entries).resolve_defects, List.flatMap_eq_nil_iff] at none
  have member : e ∈ (ofEntries rule entries).index.entities := by
    rw [(coherent rule entries).mem_entities_iff, (coherent rule entries).id_eq found, found]
  have empty := none e member
  simp only [Index.interfaceDefects, offered, Option.map_some, Option.getD_some] at empty
  simp [Offer.accepted?, empty]

/-- A plan narrows the interface of the workflow that it refers to. -/
theorem target?_eq {p : LaunchPlan}
    (found : (ofEntries rule entries).index.get? id = some (.launchPlan p)) :
    ∃ w, (ofEntries rule entries).index.get? p.workflow = some (.workflow w) ∧
      (ofEntries rule entries).index.target? p.workflow = some w.interface := by
  have coherent := coherent rule entries
  obtain ⟨target, declared⟩ := clean.declares_of_refersTo found .target
  have own := (coherent.identified_of_get? declared).own
  rw [coherent.id_eq declared, (coherent.identified_of_get? found).target p rfl] at own
  cases target with
  | task t => contradiction
  | launchPlan q => contradiction
  | workflow w =>
    refine ⟨w, declared, ?_⟩
    simp only [Index.target?, declared]
    exact clean.offer_accepted declared rfl

theorem exists_interface (found : (ofEntries rule entries).index.get? id = some e) :
    ∃ o, (ofEntries rule entries).index.offer? e = some o ∧
      (ofEntries rule entries).interfaces.get? id = some o.interface := by
  have offered : ∃ o, (ofEntries rule entries).index.offer? e = some o := by
    cases e with
    | task t => exact ⟨_, rfl⟩
    | workflow w => exact ⟨_, rfl⟩
    | launchPlan p =>
      obtain ⟨w, -, target⟩ := clean.target?_eq found
      exact ⟨.ofPlan p w.interface, by simp [Index.offer?, target]⟩
  obtain ⟨o, offered⟩ := offered
  refine ⟨o, offered, ?_⟩
  rw [get?_interfaces, found]
  simpa [Index.exposed?, offered] using clean.offer_accepted found offered

theorem narrow_eq {p : LaunchPlan}
    (found : (ofEntries rule entries).index.get? id = some (.launchPlan p)) :
    ∃ w i, (ofEntries rule entries).index.get? p.workflow = some (.workflow w) ∧
      p.narrow w.interface = .ok i ∧ (ofEntries rule entries).interfaces.get? id = some i := by
  obtain ⟨w, declared, target⟩ := clean.target?_eq found
  obtain ⟨o, offered, interface⟩ := clean.exists_interface found
  have accepted := clean.offer_accepted found offered
  simp only [Index.offer?, target, Option.map_some, Option.some.injEq] at offered
  subst offered
  have none : (p.defects w.interface).isEmpty := (Option.ite_none_right_eq_some.mp accepted).1
  exact ⟨w, p.exposed w.interface, declared, by rw [LaunchPlan.narrow_eq, if_pos none], interface⟩

theorem scope_defects {w : Workflow}
    (found : (ofEntries rule entries).index.get? id = some (.workflow w)) :
    ((ofEntries rule entries).scope w).defects = [] := by
  have none := clean.checked
  rw [workflowDefects, List.flatMap_eq_nil_iff] at none
  refine none w ((coherent rule entries).mem_workflows_iff.mpr ?_)
  rw [show w.id = id from (coherent rule entries).id_eq found, found]

/-- Everything that is declared becomes a member with the interface that is in the table. -/
theorem member?_eq {r : Record} (found : (ofEntries rule entries).index.records.get? id = some r) :
    ∃ m, (ofEntries rule entries).member? id r = some m ∧ m.entity = r.entity ∧
      (ofEntries rule entries).interfaces.get? id = some m.interface := by
  have declared := Index.get?_eq_some_iff.mpr ⟨r, found, rfl⟩
  obtain ⟨o, offered, interface⟩ := clean.exists_interface declared
  unfold member?
  split
  next t eq =>
    rw [eq] at offered ⊢
    obtain rfl := Option.some.inj offered
    exact ⟨.task t, rfl, rfl, interface⟩
  next w eq =>
    rw [eq] at offered declared ⊢
    obtain rfl := Option.some.inj offered
    refine ⟨.workflow ⟨w, w.nodeOrder.toOption.getD [], w.edges⟩, ?_, rfl, interface⟩
    unfold Scope.check
    rw [clean.scope_defects declared]
    rfl
  next p eq =>
    rw [eq]
    exact ⟨.launchPlan p o.interface, by rw [interface]; rfl, rfl, interface⟩

/-- A member is a declared entity with its interface from the table. -/
theorem of_get?_members {m : Member}
    (h : (ofEntries rule entries).closure.members.get? id = some m) :
    (ofEntries rule entries).index.get? id = some m.entity ∧
      (ofEntries rule entries).interfaces.get? id = some m.interface := by
  rw [closure, SortedMap.get?_filterMap] at h
  obtain ⟨r, found, member⟩ := Option.bind_eq_some_iff.mp h
  obtain ⟨m', member', same, interface⟩ := clean.member?_eq found
  obtain rfl := Option.some.inj (member'.symm.trans member)
  exact ⟨Index.get?_eq_some_iff.mpr ⟨r, found, same.symm⟩, interface⟩

theorem exists_member (found : (ofEntries rule entries).index.get? id = some e) :
    ∃ m, (ofEntries rule entries).closure.members.get? id = some m ∧ m.entity = e ∧
      (ofEntries rule entries).interfaces.get? id = some m.interface := by
  obtain ⟨r, listed, rfl⟩ := Index.get?_eq_some_iff.mp found
  obtain ⟨m, member, same⟩ := clean.member?_eq listed
  refine ⟨m, ?_, same⟩
  rw [closure, SortedMap.get?_filterMap, listed]
  exact member

theorem map_members : (ofEntries rule entries).closure.members.entries.map
      (fun m => (m.1, m.2.entity)) =
    (ofEntries rule entries).index.records.entries.map fun e => (e.1, e.2.entity) := by
  refine SortedMap.map_entries_filterMap fun e listed => ?_
  obtain ⟨m, member, same, -⟩ := clean.member?_eq (SortedMap.get?_eq_some_iff.mpr listed)
  exact ⟨m, member, by rw [same]⟩

theorem keys_members :
    (ofEntries rule entries).closure.members.keys = (ofEntries rule entries).index.ids := by
  have keys := congrArg (List.map Prod.fst) clean.map_members
  rwa [List.map_map, List.map_map] at keys

/-- No member is left out of the order of registration. -/
theorem registrationOrder_eq : (ofEntries rule entries).index.registrationOrder =
    .ok (ofEntries rule entries).closure.order := by
  obtain ⟨order, registered, perm, -⟩ := Index.registrationOrder_of_cycleDefects clean.ordered
  rw [registered, closure, registered]
  refine congrArg Except.ok (List.filter_eq_self.mpr fun id listed => ?_).symm
  obtain ⟨e, found⟩ := Index.mem_ids_iff.mp (perm.mem_iff.mp listed)
  obtain ⟨m, member, -⟩ := clean.exists_member found
  exact SortedMap.contains_iff.mpr ⟨m, member⟩

theorem order_perm :
    (ofEntries rule entries).closure.order.Perm (ofEntries rule entries).index.ids := by
  obtain ⟨order, registered, perm, -⟩ := Index.registrationOrder_of_cycleDefects clean.ordered
  obtain rfl := Except.ok.inj (registered.symm.trans clean.registrationOrder_eq)
  exact perm

theorem precedes_of_refersTo (found : (ofEntries rule entries).index.get? id = some e)
    {reference : EntityId} (refers : e.RefersTo reference) :
    Precedes (ofEntries rule entries).closure.order reference id := by
  obtain ⟨order, registered, -, first⟩ := Index.registrationOrder_of_cycleDefects clean.ordered
  obtain rfl := Except.ok.inj (registered.symm.trans clean.registrationOrder_eq)
  have declared := Index.declares_iff.mpr (clean.declares_of_refersTo found refers)
  exact first id e reference found refers declared

end Clean

end Compilation

end WorkflowBundle
