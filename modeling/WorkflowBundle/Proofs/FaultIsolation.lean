import WorkflowBundle.Proofs.AsciiEntry
import WorkflowBundle.Proofs.Defect
import WorkflowBundle.Proofs.IndexInsertion
import WorkflowBundle.Proofs.Workflow.Locality

/-! Isolation of faults. An entry that cannot be read, or whose record has an identifier that no
other record declares or refers to, adds defects about itself and changes no others: every stage
finds the same about the others as without it, and sorting keeps their order. -/
namespace WorkflowBundle

/-- The entry that the defect says could not be read. -/
def Defect.undecodable? : Defect → Option String
  | .undecodable entry _ => some entry
  | _ => none

theorem Interface.entity?_of_mem_defaultDefects {i : Interface} {id : EntityId} {d : Defect}
    (h : d ∈ i.defaultDefects id) : d.entity? = some id := by
  obtain ⟨⟨name, p⟩, -, fault⟩ := List.mem_filterMap.mp h
  dsimp only at fault
  split at fault
  · split at fault
    · contradiction
    · exact (Option.some.inj fault) ▸ rfl
  · contradiction

theorem Interface.entity?_of_mem_genericDefects {i : Interface} {id : EntityId} {d : Defect}
    (h : d ∈ i.genericDefects id) : d.entity? = some id := by
  obtain ⟨⟨name, type⟩, -, fault⟩ := List.mem_filterMap.mp h
  dsimp only at fault
  split at fault
  · exact (Option.some.inj fault) ▸ rfl
  · contradiction

theorem LaunchPlan.entity?_of_mem_defects {p : LaunchPlan} {i : Interface} {d : Defect}
    (h : d ∈ p.defects i) : d.entity? = some p.id := by
  rcases List.mem_append.mp h with h | h <;>
  · obtain ⟨e, -, fault⟩ := List.mem_filterMap.mp h
    obtain ⟨f, -, rfl⟩ := Option.map_eq_some_iff.mp fault
    rfl

namespace Index

variable {before after : List Record} {r : Record} {index index' : Index} {e : Entity} {d : Defect}

/-- Records under identifiers that are taken. -/
def duplicates (records : List Record) : List Defect :=
  (addAll (records.mergeSort Record.inOrder) {}).2

/-- A record of another entry to whose identifier nothing refers comes in apart from the
others. -/
theorem adds_of_build (identified : ∀ s ∈ before ++ r :: after, s.entity.Identified)
    (fresh : ∀ s ∈ before ++ after, s.entry ≠ r.entry)
    (apart : ∀ s ∈ before ++ after, s.id ≠ r.id ∧ ¬s.entity.RefersTo r.id) :
    Adds (build (before ++ after)).1 (build (before ++ r :: after)).1 r ∧
      duplicates (before ++ r :: after) = duplicates (before ++ after) := by
  obtain ⟨first, last, sorted', sorted⟩ := Record.ranking.mergeSort_insert r
    (fun s => s.entry != r.entry) (by simp) (by simpa using fresh)
  have inside : ∀ s ∈ first ++ last, s ∈ before ++ after := fun s hs => by
    rwa [← sorted, List.mem_mergeSort] at hs
  have merged : addAll (first ++ r :: last) {} =
      ((addAll (first ++ last) {}).1.insert r, (addAll (first ++ last) {}).2) :=
    addAll_middle (fun s hs => (apart s (inside s hs)).1) rfl
  have old : ∀ s ∈ before ++ after, s.entity.Identified :=
    fun s hs => identified s (((List.Sublist.refl _).middle r).subset hs)
  have listed : ∀ id s, (build (before ++ after)).1.records.get? id = some s →
      s ∈ before ++ after := by
    intro id s found
    rw [build_fst, sorted] at found
    rcases mem_of_get?_addAll found with member | none
    · exact inside s member
    · simp at none
  have coherent := build_coherent old
  refine ⟨⟨coherent, build_coherent identified, ?_, ?_, ?_⟩, ?_⟩
  · by_contra taken
    obtain ⟨s, found⟩ := Option.ne_none_iff_exists'.mp taken
    exact (apart s (listed _ s found)).1 (coherent.keyed _ s found)
  · rw [build_fst, build_fst, sorted, sorted', merged]
  · intro id e found refers
    obtain ⟨s, found, rfl⟩ := get?_eq_some_iff.mp found
    exact (apart s (listed id s ‹_›)).2 refers
  · rw [duplicates, duplicates, sorted, sorted', merged]

theorem entity?_of_mem_unresolved {id : EntityId} (h : d ∈ index.unresolved id e) :
    d.entity? = some id := by
  obtain ⟨missing, -, rfl⟩ := List.mem_map.mp h
  rfl

theorem entity?_of_mem_interfaceDefects (h : d ∈ index.interfaceDefects e) :
    d.entity? = some e.id := by
  unfold interfaceDefects at h
  cases e with
  | task t =>
    rcases List.mem_append.mp h with h | h
    · exact Interface.entity?_of_mem_defaultDefects h
    · exact Interface.entity?_of_mem_genericDefects h
  | workflow w => exact Interface.entity?_of_mem_defaultDefects h
  | launchPlan p =>
    cases target : index.target? p.workflow with
    | none => simp [offer?, target] at h
    | some i =>
      simp only [offer?, target, Option.map_some, Option.getD_some] at h
      exact LaunchPlan.entity?_of_mem_defects h

end Index

namespace Compilation

variable {rule : UnionRule} {before after records : List Record} {r : Record}

/-- What the checks of an entity find; only workflows are checked. -/
def entityDefects (c : Compilation) : Entity → List Defect
  | .workflow w => (c.scope w).defects
  | _ => []

theorem workflowDefects_eq (c : Compilation) :
    c.workflowDefects = c.index.entities.flatMap c.entityDefects := by
  unfold workflowDefects Index.workflows
  induction c.index.entities with
  | nil => rfl
  | cons e es ih =>
    cases e with
    | workflow w => rw [List.filterMap_cons, List.flatMap_cons, List.flatMap_cons, ih]; rfl
    | task t => rw [List.filterMap_cons, ih]; rfl
    | launchPlan p => rw [List.filterMap_cons, ih]; rfl

theorem entity?_of_mem_entityDefects {c : Compilation} {e : Entity} {d : Defect}
    (h : d ∈ c.entityDefects e) : d.entity? = some e.id := by
  cases e with
  | workflow w => exact Scope.entity?_of_mem_defects h
  | task | launchPlan => contradiction

def ofRecords (rule : UnionRule) (records : List Record) : Compilation :=
  ⟨(Index.build records).1, (InterfaceTable.resolve (Index.build records).1).1, rule⟩

/-- What is found about records, stage by stage and within a stage entity by entity. -/
theorem foundInRecords_eq (identified : ∀ s ∈ records, s.entity.Identified) :
    let c := ofRecords rule records
    foundInRecords rule records = Index.duplicates records ++
      (c.index.entities.flatMap (fun e => c.index.unresolved e.id e) ++
      (c.index.entities.flatMap c.index.interfaceDefects ++
      (c.index.entities.flatMap c.entityDefects ++ c.index.cycleDefects))) := by
  intro c
  have coherent : c.index.Coherent := Index.build_coherent identified
  have unresolved : c.index.records.entries.flatMap (fun e => c.index.unresolved e.1 e.2.entity) =
      c.index.entities.flatMap fun e => c.index.unresolved e.id e := by
    simp only [Index.entities, SortedMap.values, List.flatMap_map]
    refine List.flatMap_congr ?_
    rintro ⟨id, r⟩ member
    have keyed := coherent.keyed id r (SortedMap.get?_eq_some_iff.mpr member)
    exact congrArg (c.index.unresolved · r.entity) keyed.symm
  rw [← unresolved, ← workflowDefects_eq, ← coherent.resolve_defects]
  simp only [foundInRecords, Index.build_snd, List.append_assoc]
  rfl

/-- Whatever is found about records is about entities. -/
theorem about_of_mem_foundInRecords (identified : ∀ s ∈ records, s.entity.Identified) {d : Defect}
    (h : d ∈ foundInRecords rule records) :
    (∃ id, d.entity? = some id) ∨ ∃ cycle, d = .circularDependency cycle := by
  simp only [foundInRecords_eq identified, List.mem_append, List.mem_flatMap] at h
  rcases h with h | ⟨e, -, h⟩ | ⟨e, -, h⟩ | ⟨e, -, h⟩ | h
  · obtain ⟨s, -, about⟩ := Index.entity?_of_mem_addAll h
    exact .inl ⟨s.id, about⟩
  · exact .inl ⟨e.id, Index.entity?_of_mem_unresolved h⟩
  · exact .inl ⟨e.id, Index.entity?_of_mem_interfaceDefects h⟩
  · exact .inl ⟨e.id, entity?_of_mem_entityDefects h⟩
  · rw [Index.cycleDefects_eq] at h
    obtain ⟨cycle, -, rfl⟩ := List.mem_map.mp h
    exact .inr ⟨cycle, rfl⟩

theorem undecodable?_of_mem_foundInRecords (identified : ∀ s ∈ records, s.entity.Identified)
    {d : Defect} (h : d ∈ foundInRecords rule records) : d.undecodable? = none := by
  rcases about_of_mem_foundInRecords identified h with ⟨id, about⟩ | ⟨cycle, rfl⟩
  · cases d with
    | undecodable entry reason => contradiction
    | _ => rfl
  · rfl

section Adds

variable (adds : Index.Adds (Index.build (before ++ after)).1 (Index.build (before ++ r :: after)).1 r)
include adds

theorem agrees_of_adds {w : Workflow} {id : EntityId}
    (found : (ofRecords rule (before ++ after)).index.get? id = some (.workflow w)) :
    ((ofRecords rule (before ++ after)).scope w).Agrees
      ((ofRecords rule (before ++ r :: after)).scope w) := by
  have known : ∀ reference ∈ w.references, reference ≠ r.id := by
    intro reference refers
    obtain ⟨node, member, calls⟩ := Workflow.mem_references_iff.mp refers
    exact adds.ne_of_refersTo found (.node member calls)
  refine ⟨rfl, rfl, fun reference refers => ?_, fun reference refers => ?_⟩
  · exact adds.get?_resolve (known reference refers)
  · simp only [scope, ofRecords, Index.launchPlan?, adds.get?_of_ne (known reference refers)]

theorem entityDefects_of_adds {e : Entity}
    (member : e ∈ (ofRecords rule (before ++ after)).index.entities) :
    (ofRecords rule (before ++ r :: after)).entityDefects e =
      (ofRecords rule (before ++ after)).entityDefects e := by
  cases e with
  | task | launchPlan => rfl
  | workflow w => exact (agrees_of_adds adds (adds.get?_of_mem member)).defects

/-- But for what is about the new entity, the same is found. -/
theorem filter_foundInRecords (identified : ∀ s ∈ before ++ r :: after, s.entity.Identified)
    (same : Index.duplicates (before ++ r :: after) = Index.duplicates (before ++ after))
    (apart : ∀ s ∈ before ++ after, s.id ≠ r.id) :
    (foundInRecords rule (before ++ r :: after)).filter (·.entity? != some r.id) =
      foundInRecords rule (before ++ after) := by
  have old : ∀ s ∈ before ++ after, s.entity.Identified :=
    fun s hs => identified s (((List.Sublist.refl _).middle r).subset hs)
  rw [foundInRecords_eq identified, foundInRecords_eq old]
  simp only [List.filter_append]
  congr 1
  · rw [same, List.filter_eq_self]
    intro d hd
    obtain ⟨s, hs, about⟩ := Index.entity?_of_mem_addAll hd
    have differ := apart s (List.mem_mergeSort.mp hs)
    simpa [about] using differ
  congr 1
  · exact adds.filter_flatMap (fun e => adds.unresolved) fun _ _ _ => Index.entity?_of_mem_unresolved
  congr 1
  · refine adds.filter_flatMap (fun e member => ?_)
      fun _ _ _ => Index.entity?_of_mem_interfaceDefects
    exact congrArg (fun o => (o.map Offer.defects).getD []) (adds.offer? (adds.get?_of_mem member))
  congr 1
  · exact adds.filter_flatMap (fun e => entityDefects_of_adds adds)
      fun _ _ _ => entity?_of_mem_entityDefects
  · exact adds.filter_cycleDefects

/-- But for the new entity the closure has the same members. -/
theorem erase_members :
    (ofRecords rule (before ++ r :: after)).closure.members.erase r.id =
      (ofRecords rule (before ++ after)).closure.members := by
  refine SortedMap.ext_get? fun id => ?_
  by_cases new : id = r.id
  · rw [new, SortedMap.get?_erase_self, closure, SortedMap.get?_filterMap]
    simp [ofRecords, adds.new]
  · rw [SortedMap.get?_erase_of_ne new, closure, closure, SortedMap.get?_filterMap,
      SortedMap.get?_filterMap]
    have looked : (ofRecords rule (before ++ r :: after)).index.records.get? id =
        (ofRecords rule (before ++ after)).index.records.get? id := by
      simp only [ofRecords, adds.inserted, Index.get?_insert_of_ne new]
    rw [looked]
    refine Option.bind_congr fun s found => ?_
    have declared := Index.get?_eq_some_iff.mpr ⟨s, found, rfl⟩
    unfold member?
    cases entity : s.entity with
    | task t => rfl
    | workflow w =>
      rw [entity] at declared
      simp only [(agrees_of_adds adds declared).check]
    | launchPlan p =>
      simp only [ofRecords, adds.get?_resolve new]

end Adds

end Compilation

/-- The defects of a compilation; none when it succeeds. -/
def reported : Except Defect Closure → List Defect
  | .ok _ => []
  | .error defect => defect.parts

/-- The entry could not be read and the defect says so, or the defect is about the entity that
was read from it. -/
def Entry.owns (e : Entry) (d : Defect) : Bool :=
  d.undecodable? == some e.name || e.record?.any fun r => d.entity? == some r.id

theorem Entry.owns_undecodable (e : Entry) (name reason : String) :
    e.owns (.undecodable name reason) = (name == e.name) := by
  cases read : e.record? <;> simp [owns, read, Defect.undecodable?, Defect.entity?, beq_eq_decide]

theorem Entry.owns_of_record {e : Entry} {d : Defect} (h : d.undecodable? = none) :
    e.owns d = e.record?.any fun r => d.entity? == some r.id := by
  simp [owns, h]

/-- No other entry has the name of the entry, and no other record declares or refers to what is
read from it. -/
structure Entry.Unrelated (e : Entry) (others : List Entry) : Prop where
  fresh : ∀ other ∈ others, other.name ≠ e.name
  apart : ∀ r, e.record? = some r → ∀ other ∈ others, ∀ s, other.record? = some s →
    s.id ≠ r.id ∧ ¬s.entity.RefersTo r.id

namespace Compilation

variable {rule : UnionRule} {entries before after : List Entry} {e : Entry}

theorem identified_of_decodeAll (entries : List Entry) :
    ∀ r ∈ (Entry.decodeAll entries).1, r.entity.Identified := by
  intro r hr
  obtain ⟨entry, -, decoded⟩ := mem_decodeAll.mp hr
  exact Entry.identified_of_record? decoded

theorem parts_of_mem_found (d : Defect) (h : d ∈ found rule entries) : d.parts = [d] := by
  rw [found_eq] at h
  rcases List.mem_append.mp h with h | h
  · exact parts_of_mem_undecodable d h
  · rcases about_of_mem_foundInRecords (identified_of_decodeAll entries) h with ⟨id, about⟩ | ⟨cycle, rfl⟩
    · exact Defect.parts_of_entity? about
    · rfl

theorem reported_compile (rule : UnionRule) (entries : List Entry) :
    reported (compile rule entries) = (found rule entries).mergeSort Defect.inOrder := by
  have gathered : reported (.error (.gather (found rule entries))) =
      (found rule entries).mergeSort Defect.inOrder := by
    rw [Defect.gather, Defect.flatMap_parts parts_of_mem_found]
    rfl
  rw [compile_eq]
  split
  next none => simp [reported, List.isEmpty_iff.mp none]
  next => exact gathered

theorem filter_undecodable (unrelated : e.Unrelated (before ++ after)) :
    (Entry.decodeAll (before ++ e :: after)).2.filter (!e.owns ·) =
      (Entry.decodeAll (before ++ after)).2 := by
  have old : ∀ entries ⊆ before ++ after,
      (Entry.decodeAll entries).2.filter (!e.owns ·) = (Entry.decodeAll entries).2 := by
    intro entries inside
    refine List.filter_eq_self.mpr fun d hd => ?_
    obtain ⟨other, member, reason, rfl⟩ := undecodable_of_mem hd
    simp [Entry.owns_undecodable, unrelated.fresh other (inside member)]
  have new : (Entry.decodeAll [e]).2.filter (!e.owns ·) = [] := by
    refine List.filter_eq_nil_iff.mpr fun d hd => ?_
    obtain ⟨other, member, reason, rfl⟩ := undecodable_of_mem hd
    simp [Entry.owns_undecodable, List.mem_singleton.mp member]
  simp only [Entry.decodeAll_eq] at old new ⊢
  rw [← List.singleton_append, List.filterMap_append, List.filterMap_append, List.filterMap_append,
    List.filter_append, List.filter_append, old before (by simp), old after (by simp), new,
    List.nil_append]

theorem adds_of_unrelated (unrelated : e.Unrelated (before ++ after)) {r : Record}
    (read : e.record? = some r) :
    ∃ xs ys, (Entry.decodeAll (before ++ e :: after)).1 = xs ++ r :: ys ∧
      (Entry.decodeAll (before ++ after)).1 = xs ++ ys ∧ (∀ s ∈ xs ++ ys, s.id ≠ r.id) ∧
      Index.Adds (Index.build (xs ++ ys)).1 (Index.build (xs ++ r :: ys)).1 r ∧
      Index.duplicates (xs ++ r :: ys) = Index.duplicates (xs ++ ys) := by
  have split : (Entry.decodeAll (before ++ e :: after)).1 =
      before.filterMap Entry.record? ++ r :: after.filterMap Entry.record? := by
    simp [Entry.decodeAll_eq, read]
  have split' : (Entry.decodeAll (before ++ after)).1 =
      before.filterMap Entry.record? ++ after.filterMap Entry.record? := by
    simp [Entry.decodeAll_eq]
  have others : ∀ s ∈ (Entry.decodeAll (before ++ after)).1,
      s.entry ≠ r.entry ∧ s.id ≠ r.id ∧ ¬s.entity.RefersTo r.id := by
    intro s hs
    obtain ⟨other, member, decoded⟩ := mem_decodeAll.mp hs
    rw [(Entry.record?_eq_some_iff.mp decoded).1, (Entry.record?_eq_some_iff.mp read).1]
    exact ⟨unrelated.fresh other member, unrelated.apart r read other member s decoded⟩
  have identified := identified_of_decodeAll (before ++ e :: after)
  rw [split] at identified
  rw [split'] at others
  exact ⟨_, _, split, split', fun s hs => (others s hs).2.1,
    Index.adds_of_build identified (fun s hs => (others s hs).1) fun s hs => (others s hs).2⟩

/-- Of what is found with another entry, exactly what is about it is new. -/
theorem filter_found (unrelated : e.Unrelated (before ++ after)) :
    (found rule (before ++ e :: after)).filter (!e.owns ·) = found rule (before ++ after) := by
  rw [found_eq, found_eq, List.filter_append, filter_undecodable unrelated]
  congr 1
  cases read : e.record? with
  | none =>
    have same : (Entry.decodeAll (before ++ e :: after)).1 =
        (Entry.decodeAll (before ++ after)).1 := by
      simp [Entry.decodeAll_eq, read]
    rw [same, List.filter_eq_self]
    intro d hd
    have unread := undecodable?_of_mem_foundInRecords (identified_of_decodeAll _) hd
    simp [Entry.owns_of_record unread, read]
  | some r =>
    obtain ⟨xs, ys, split, split', apart, adds, same⟩ := adds_of_unrelated unrelated read
    have identified := identified_of_decodeAll (before ++ e :: after)
    rw [split] at identified
    rw [split, split', ← filter_foundInRecords adds identified same apart]
    refine List.filter_congr fun d hd => ?_
    rw [Entry.owns_of_record (undecodable?_of_mem_foundInRecords identified hd), read]
    rfl

theorem erase_members_of_unrelated (unrelated : e.Unrelated (before ++ after)) {r : Record}
    (read : e.record? = some r) :
    (ofEntries rule (before ++ e :: after)).closure.members.erase r.id =
      (ofEntries rule (before ++ after)).closure.members := by
  obtain ⟨xs, ys, split, split', -, adds, -⟩ := adds_of_unrelated unrelated read
  show (ofRecords rule (Entry.decodeAll (before ++ e :: after)).1).closure.members.erase r.id =
    (ofRecords rule (Entry.decodeAll (before ++ after)).1).closure.members
  rw [split, split']
  exact erase_members adds

end Compilation

/-- Nothing refers to the plan. -/
theorem Sample.unrelated : planEntry.Unrelated ([taskEntry, workflowEntry] ++ []) where
  fresh := by decide
  apart := by
    intro r read
    obtain rfl := Option.some.inj (record?_planEntry.symm.trans read)
    intro other member s decoded
    simp only [List.append_nil, List.mem_cons, List.not_mem_nil, or_false] at member
    rw [← Entity.mem_references_iff]
    rcases member with rfl | rfl
    · obtain rfl := Option.some.inj (record?_taskEntry.symm.trans decoded)
      exact ⟨by decide, by decide⟩
    · obtain rfl := Option.some.inj (record?_workflowEntry.symm.trans decoded)
      exact ⟨by decide, by decide⟩

open Compilation in
/-- An unrelated entry changes nothing but what is about it: without the defects that are its
own the report is the one of the other entries, and if all is well, so is the closure. -/
theorem compile_isolated {rule : UnionRule} {before after : List Entry} {e : Entry}
    (unrelated : e.Unrelated (before ++ after)) :
    (reported (compile rule (before ++ e :: after))).filter (!e.owns ·) =
        reported (compile rule (before ++ after)) ∧
      ∀ c c', compile rule (before ++ after) = .ok c →
        compile rule (before ++ e :: after) = .ok c' →
          ∃ r, e.record? = some r ∧ c'.members.erase r.id = c.members := by
  constructor
  · rw [reported_compile, reported_compile, Defect.ranking.filter_mergeSort,
      filter_found unrelated]
  · intro c c' ok ok'
    obtain ⟨-, rfl⟩ := compile_eq_ok_iff.mp ok
    obtain ⟨clean, rfl⟩ := compile_eq_ok_iff.mp ok'
    have readable := clean.decoded
    simp only [Entry.decodeAll_eq, List.filterMap_eq_nil_iff] at readable
    obtain ⟨r, read⟩ := Entry.fault?_eq_none_iff.mp (readable e (by simp))
    exact ⟨r, read, erase_members_of_unrelated unrelated read⟩

open Sample in
theorem compile_isolated_sample :
    planEntry.Unrelated ([taskEntry, workflowEntry] ++ []) ∧
      (reported (compile .anyMember ([taskEntry, workflowEntry] ++ planEntry :: []))).filter
        (!planEntry.owns ·) = reported (compile .anyMember ([taskEntry, workflowEntry] ++ [])) ∧
      ∀ c c', compile .anyMember ([taskEntry, workflowEntry] ++ []) = .ok c →
        compile .anyMember ([taskEntry, workflowEntry] ++ planEntry :: []) = .ok c' →
          ∃ r, planEntry.record? = some r ∧ c'.members.erase r.id = c.members :=
  ⟨unrelated, compile_isolated unrelated⟩

end WorkflowBundle
