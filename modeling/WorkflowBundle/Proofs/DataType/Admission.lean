import WorkflowBundle.Literal
import WorkflowBundle.Proofs.DataType.Compatibility

/-! Which values types admit, and what compatibility says about them. Under the rule that asks
for all members of a union, a consumer admits whatever a compatible producer does. A generic
producer is an exception: it admits every value and is compatible with every consumer. -/
namespace WorkflowBundle.DataType

variable {rule : UnionRule} {a c : DataType} {members : List DataType} {value : Literal}

section Equations

attribute [local simp] admits

theorem admits_generic (name : String) (value : Literal) : (generic name).admits value := by
  cases value <;> simp

/-- A union admits what one of its members admits. -/
theorem admits_union : (union members).admits value ↔ ∃ m ∈ members, m.admits value := by
  cases value <;> simp [anyAdmits_eq]

theorem admits_collection : (collection a).admits value ↔
    ∃ items, value = .collection items ∧ ∀ item ∈ items, a.admits item := by
  cases value <;> simp

theorem admits_map : (map a).admits value ↔
    ∃ entries, value = .map entries ∧ ∀ e ∈ entries, a.admits e.2 := by
  cases value <;> simp

/-- A value does not show the format of a blob. -/
theorem admits_blob {format : String} {d : Dimensionality} :
    (blob format d).admits value ↔ ∃ uri, value = .blob uri := by
  cases value <;> simp

/-- A value does not show the columns of a schema. -/
theorem admits_schema {columns : List Column} :
    (schema columns).admits value ↔ ∃ uri, value = .schema uri := by
  cases value <;> simp

end Equations

theorem containsGeneric_of_mem (concrete : (union members).containsGeneric = false) {m : DataType}
    (member : m ∈ members) : m.containsGeneric = false := by
  simp only [containsGeneric, anyContainsGeneric_eq, List.any_eq_false] at concrete
  exact Bool.not_eq_true _ ▸ concrete m member

/-- All consumers that are compatible with a plain producer admit a value if the plain ones among
them do. -/
theorem admits_of_plain_consumers (plain : a.isPlain)
    (base : ∀ c, c.isPlain → a.isCompatible rule c → c.admits value)
    (h : a.isCompatible rule c) : c.admits value := by
  induction c using byParts with
  | union members ih =>
    obtain ⟨m, member, fits⟩ := (isCompatible_union_right plain).mp h
    exact admits_union.mpr ⟨m, member, ih m member fits⟩
  | generic name => exact admits_generic name value
  | _ => exact base _ rfl h

/-- What a producer without generic parts admits, every consumer admits that is compatible with
all of its members. -/
theorem admits_of_isCompatible_allMembers (concrete : a.containsGeneric = false)
    (h : a.isCompatible .allMembers c) (admitted : a.admits value) : c.admits value := by
  induction a using byParts generalizing c value with
  | generic name => contradiction
  | union members ih =>
    obtain ⟨m, member, admitted⟩ := admits_union.mp admitted
    rcases isCompatible_union_left.mp h with rfl | ⟨name, rfl⟩ | ⟨-, all⟩
    · exact admits_union.mpr ⟨m, member, admitted⟩
    · exact admits_generic name value
    · exact ih m member (containsGeneric_of_mem concrete member) (all m member) admitted
  | simple kind =>
    refine admits_of_plain_consumers rfl (fun b plain fits => ?_) h
    obtain rfl := (isCompatible_simple plain).mp fits
    exact admitted
  | struct =>
    refine admits_of_plain_consumers rfl (fun b plain fits => ?_) h
    obtain rfl := (isCompatible_struct plain).mp fits
    exact admitted
  | collection item ih =>
    refine admits_of_plain_consumers rfl (fun b plain fits => ?_) h
    obtain ⟨other, rfl, inner⟩ := (isCompatible_collection plain).mp fits
    obtain ⟨items, rfl, each⟩ := admits_collection.mp admitted
    exact admits_collection.mpr ⟨items, rfl, fun v listed => ih concrete inner (each v listed)⟩
  | map item ih =>
    refine admits_of_plain_consumers rfl (fun b plain fits => ?_) h
    obtain ⟨other, rfl, inner⟩ := (isCompatible_map plain).mp fits
    obtain ⟨entries, rfl, each⟩ := admits_map.mp admitted
    exact admits_map.mpr ⟨entries, rfl, fun e listed => ih concrete inner (each e listed)⟩
  | blob format d =>
    refine admits_of_plain_consumers rfl (fun b plain fits => ?_) h
    obtain ⟨asked, rfl, -⟩ := (isCompatible_blob plain).mp fits
    exact admits_blob.mpr (admits_blob.mp admitted)
  | schema columns =>
    refine admits_of_plain_consumers rfl (fun b plain fits => ?_) h
    obtain ⟨asked, rfl, -⟩ := (isCompatible_schema plain).mp fits
    exact admits_schema.mpr (admits_schema.mp admitted)

/-- Integers in a collection of floats, handed on to one of several types of collections. -/
theorem admits_of_isCompatible_allMembers_nested :
    let producer : DataType :=
      .union [.map (.collection .struct), .map (.collection (.simple .float))]
    let consumer : DataType :=
      .map (.union [.simple .string, .collection (.union [.simple .float, .struct])])
    let value : Literal := .map [("k", .collection [.integer 1, .integer 2])]
    producer.containsGeneric = false ∧ producer.isCompatible .allMembers consumer ∧
      producer.admits value ∧ consumer.admits value := by
  intro producer consumer value
  have concrete : producer.containsGeneric = false := by decide
  have fits : producer.isCompatible .allMembers consumer := by decide
  have admitted : producer.admits value := by rfl
  exact ⟨concrete, fits, admitted,
    admits_of_isCompatible_allMembers concrete fits admitted⟩

end WorkflowBundle.DataType
