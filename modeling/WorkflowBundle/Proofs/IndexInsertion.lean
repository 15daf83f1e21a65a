import WorkflowBundle.Proofs.Digraph.Insertion
import WorkflowBundle.Proofs.InterfaceTable
import WorkflowBundle.Proofs.RegistrationOrder

/-! A record of a new identifier to which no other record refers. It changes nothing about the
others: they refer to the same entities, with the same interfaces, and the new vertex of the
dependency graph leads nowhere but to itself. -/
namespace WorkflowBundle.Index

/-- The second index has the records of the first and one more, to which none of them refers. -/
structure Adds (index index' : Index) (r : Record) : Prop where
  coherent : index.Coherent
  coherent' : index'.Coherent
  new : index.records.get? r.id = none
  inserted : index' = index.insert r
  unreferenced : ∀ id e, index.get? id = some e → ¬e.RefersTo r.id

namespace Adds

variable {index index' : Index} {r : Record} (adds : Adds index index' r) {id : EntityId} {e : Entity}
include adds

theorem get?_new : index.get? r.id = none := by
  simp [get?, adds.new]

theorem get?_of_ne (h : id ≠ r.id) : index'.get? id = index.get? id := by
  rw [get?, adds.inserted, get?_insert_of_ne h, get?]

theorem declares_of_ne (h : id ≠ r.id) : index'.declares id = index.declares id := by
  rw [declares, adds.inserted, SortedMap.contains, get?_insert_of_ne h]
  rfl

theorem ne_of_get? (found : index.get? id = some e) : id ≠ r.id := by
  rintro rfl
  rw [adds.get?_new] at found
  contradiction

theorem ne_of_refersTo (found : index.get? id = some e) {reference : EntityId}
    (refers : e.RefersTo reference) : reference ≠ r.id := by
  rintro rfl
  exact adds.unreferenced id e found refers

theorem get?_of_mem (member : e ∈ index.entities) : index.get? e.id = some e :=
  adds.coherent.mem_entities_iff.mp member

/-- The new record comes in at one place of every traversal. -/
theorem entries_split : ∃ before after, index.records.entries = before ++ after ∧
    index'.records.entries = before ++ (r.id, r) :: after := by
  rw [adds.inserted]
  exact entries_insert adds.new

theorem entities_split : ∃ before after, index.entities = before ++ after ∧
    index'.entities = before ++ r.entity :: after := by
  obtain ⟨before, after, eq, eq'⟩ := adds.entries_split
  refine ⟨before.map (·.2.entity), after.map (·.2.entity), ?_, ?_⟩
  · simp [entities, SortedMap.values, eq, Function.comp_def]
  · simp [entities, SortedMap.values, eq', Function.comp_def]

theorem ids_split : ∃ before after, index.ids = before ++ after ∧
    index'.ids = before ++ r.id :: after := by
  obtain ⟨before, after, eq, eq'⟩ := adds.entries_split
  exact ⟨before.map (·.1), after.map (·.1), by simp [ids, SortedMap.keys, eq],
    by simp [ids, SortedMap.keys, eq']⟩

/-- What is found entity by entity stays the same but for the new one, if it depends only on
what the old entities refer to and is about the entity at which it is found. -/
theorem filter_flatMap {f f' : Entity → List Defect}
    (same : ∀ e ∈ index.entities, f' e = f e)
    (about : ∀ e ∈ index'.entities, ∀ d ∈ f' e, d.entity? = some e.id) :
    (index'.entities.flatMap f').filter (·.entity? != some r.id) = index.entities.flatMap f := by
  obtain ⟨before, after, eq, eq'⟩ := adds.entities_split
  have old : ∀ e ∈ index.entities, (f' e).filter (·.entity? != some r.id) = f e := by
    intro e he
    have differ := adds.ne_of_get? (adds.get?_of_mem he)
    have he' : e ∈ index'.entities := by
      rw [eq, List.mem_append] at he
      rw [eq', List.mem_append, List.mem_cons]
      exact he.imp_right .inr
    rw [← same e he, List.filter_eq_self]
    intro d hd
    simpa [about e he' d hd] using differ
  have new : (f' r.entity).filter (·.entity? != some r.id) = [] := by
    refine List.filter_eq_nil_iff.mpr fun d hd => ?_
    simp [about r.entity (by simp [eq']) d hd, Record.id]
  rw [eq', eq, List.flatMap_append, List.flatMap_append, List.flatMap_cons, List.filter_append,
    List.filter_append, new, List.nil_append, List.filter_flatMap, List.filter_flatMap]
  congr 1
  · exact List.flatMap_congr fun e he => old e (by simp [eq, he])
  · exact List.flatMap_congr fun e he => old e (by simp [eq, he])

theorem unresolved (member : e ∈ index.entities) :
    index'.unresolved e.id e = index.unresolved e.id e := by
  unfold Index.unresolved
  congr 1
  refine List.filter_congr fun reference refers => ?_
  rw [Entity.mem_references_iff] at refers
  rw [adds.declares_of_ne (adds.ne_of_refersTo (adds.get?_of_mem member) refers)]

theorem offer? (found : index.get? id = some e) : index'.offer? e = index.offer? e := by
  cases e with
  | task t => rfl
  | workflow w => rfl
  | launchPlan p =>
    simp only [Index.offer?, target?, adds.get?_of_ne (adds.ne_of_refersTo found .target)]

theorem get?_resolve (h : id ≠ r.id) :
    (InterfaceTable.resolve index').1.get? id = (InterfaceTable.resolve index).1.get? id := by
  rw [adds.coherent'.get?_resolve, adds.coherent.get?_resolve, adds.get?_of_ne h]
  cases found : index.get? id with
  | none => rfl
  | some e => simp only [Option.bind_some, exposed?, adds.offer? found]

/-- The dependency graph gets a vertex that leads to no other. -/
theorem addsSink : ∃ before after,
    Digraph.AddsSink index.dependencyGraph index'.dependencyGraph before after r.id := by
  obtain ⟨before, after, eq, eq'⟩ := adds.ids_split
  have absent : r.id ∉ index.ids := fun listed => by
    obtain ⟨e, found⟩ := mem_ids_iff.mp listed
    exact adds.ne_of_get? found rfl
  have moved : ∀ {id}, id ≠ r.id →
      index'.ids.idxOf id = Digraph.shift before.length (index.ids.idxOf id) := by
    intro id h
    rw [eq, eq', Digraph.idxOf_insert before after h]
  have placed : index'.ids.idxOf r.id = before.length := by
    rw [eq', Digraph.idxOf_new after fun early => absent (by simp [eq, early])]
  refine ⟨before, after, eq, eq', fun v w => ?_, fun w edge => ?_⟩
  · rw [mem_dependencyGraph_edges, mem_dependencyGraph_edges]
    constructor
    · rintro ⟨id, e, reference, found, refers, declared, hv, hw⟩
      have old : id ≠ r.id := by
        rintro rfl
        exact Digraph.shift_ne (hw.trans placed)
      rw [adds.get?_of_ne old] at found
      have known := adds.ne_of_refersTo found refers
      rw [adds.declares_of_ne known] at declared
      rw [moved known, Digraph.shift_inj] at hv
      rw [moved old, Digraph.shift_inj] at hw
      exact ⟨id, e, reference, found, refers, declared, hv, hw⟩
    · rintro ⟨id, e, reference, found, refers, declared, rfl, rfl⟩
      have old := adds.ne_of_get? found
      have known := adds.ne_of_refersTo found refers
      refine ⟨id, e, reference, ?_, refers, ?_, (moved known).symm, (moved old).symm⟩
      · rwa [adds.get?_of_ne old]
      · rwa [adds.declares_of_ne known]
  · obtain ⟨id, e, reference, found, refers, -, hv, rfl⟩ := mem_dependencyGraph_edges.mp edge
    by_cases old : id = r.id
    · rw [old, placed]
    · rw [adds.get?_of_ne old] at found
      rw [moved (adds.ne_of_refersTo found refers)] at hv
      exact absurd hv.symm Digraph.shift_ne

/-- A circular dependency that does not begin at the new entity does not involve it. -/
theorem filter_cycleDefects :
    index'.cycleDefects.filter (·.entity? != some r.id) = index.cycleDefects := by
  obtain ⟨before, after, sink⟩ := adds.addsSink
  have absent : r.id ∉ index.dependencyGraph.labels := fun listed => by
    obtain ⟨e, found⟩ := mem_ids_iff.mp listed
    exact adds.ne_of_get? found rfl
  rw [cycleDefects_eq, cycleDefects_eq, List.filter_map,
    ← sink.filter_cycles index'.dependencyGraph_inRange absent]
  rfl

end Adds

end WorkflowBundle.Index
