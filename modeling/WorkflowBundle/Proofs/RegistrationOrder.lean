import WorkflowBundle.Compile
import WorkflowBundle.Proofs.Digraph.CycleSearch
import WorkflowBundle.Proofs.Index

/-! The order of registration. Edges of the dependency graph are exactly the references between
declared entities, so without a circular dependency each entity comes after what it refers to. -/
namespace WorkflowBundle.Index

variable {index : Index} {id reference : EntityId} {e : Entity}

theorem mem_dependencyGraph_edges {v w : Nat} : (v, w) ∈ index.dependencyGraph.edges ↔
    ∃ id e reference, index.get? id = some e ∧ e.RefersTo reference ∧ index.declares reference ∧
      v = index.ids.idxOf reference ∧ w = index.ids.idxOf id := by
  simp only [dependencyGraph, Digraph.mem_edges_ofEdges, List.mem_flatMap, List.mem_map,
    List.mem_filter, Prod.mk.injEq, Entity.mem_references_iff]
  constructor
  · rintro ⟨⟨id, r⟩, member, reference, ⟨refers, declared⟩, rfl, rfl⟩
    have found := get?_eq_some_iff.mpr ⟨r, SortedMap.get?_eq_some_iff.mpr member, rfl⟩
    exact ⟨id, r.entity, reference, found, refers, declared, rfl, rfl⟩
  · rintro ⟨id, e, reference, found, refers, declared, rfl, rfl⟩
    obtain ⟨r, listed, rfl⟩ := get?_eq_some_iff.mp found
    exact ⟨(id, r), SortedMap.get?_eq_some_iff.mp listed, reference, ⟨refers, declared⟩, rfl, rfl⟩

theorem mem_ids_of_declares (declared : index.declares id) : id ∈ index.ids :=
  mem_ids_iff.mpr (declares_iff.mp declared)

theorem dependencyGraph_inRange (index : Index) : index.dependencyGraph.InRange := by
  rintro ⟨v, w⟩ edge
  obtain ⟨id, e, reference, found, -, declared, rfl, rfl⟩ := mem_dependencyGraph_edges.mp edge
  exact ⟨List.idxOf_lt_length_of_mem (mem_ids_of_declares declared),
    List.idxOf_lt_length_of_mem (mem_ids_iff.mpr ⟨e, found⟩)⟩

/-- The defects of the order are the cycles of the graph, whether or not it could be ordered. -/
theorem cycleDefects_eq (index : Index) :
    index.cycleDefects = index.dependencyGraph.cycles.map .circularDependency := by
  cases ordered : index.dependencyGraph.order? with
  | none => simp only [cycleDefects, registrationOrder, ordered]
  | some order =>
    have none := Digraph.cycles_eq_nil index.dependencyGraph_inRange ordered
    simp only [cycleDefects, registrationOrder, ordered, none, List.map_nil]

theorem getElem?_idxOf (member : id ∈ index.ids) : index.ids[index.ids.idxOf id]? = some id := by
  have lt := List.idxOf_lt_length_of_mem member
  rw [List.getElem?_eq_getElem lt, List.getElem_idxOf]

/-- Without a circular dependency there is an order of all entities in which each of them comes
after the declared ones that it refers to. -/
theorem registrationOrder_of_cycleDefects (none : index.cycleDefects = []) :
    ∃ order, index.registrationOrder = .ok order ∧ order.Perm index.ids ∧
      ∀ id e reference, index.get? id = some e → e.RefersTo reference →
        index.declares reference → Precedes order reference id := by
  have closed := index.dependencyGraph_inRange
  rw [cycleDefects_eq, List.map_eq_nil_iff] at none
  obtain ⟨order, ordered⟩ := Digraph.exists_order?_of_cycles closed none
  refine ⟨index.dependencyGraph.labelAll order, ?_, ?_, ?_⟩
  · simp [registrationOrder, ordered]
  · exact Digraph.labelAll_order?_perm closed ordered
  · intro id e reference found refers declared
    have edge := mem_dependencyGraph_edges.mpr
      ⟨id, e, reference, found, refers, declared, rfl, rfl⟩
    exact Digraph.labelAll_order?_precedes closed ordered edge
      (getElem?_idxOf (mem_ids_of_declares declared)) (getElem?_idxOf (mem_ids_iff.mpr ⟨e, found⟩))

end WorkflowBundle.Index
