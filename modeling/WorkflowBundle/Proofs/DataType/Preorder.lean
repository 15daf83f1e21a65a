import WorkflowBundle.Proofs.DataType.Compatibility

/-! Compatibility of concrete types under the rule that asks for all members of a union. It is a
preorder, so a value that is handed on through interfaces of such types arrives nowhere where it
could not have been bound at once. A wildcard in between breaks the chain. -/
namespace WorkflowBundle.DataType

/-- The first type is the second one or stands in it, at whatever depth. -/
inductive Inside : DataType → DataType → Prop where
  | self (a : DataType) : Inside a a
  | collection {part item : DataType} : Inside part item → Inside part (collection item)
  | map {part item : DataType} : Inside part item → Inside part (map item)
  | union {part m : DataType} {members : List DataType} : m ∈ members → Inside part m →
      Inside part (union members)

/-- A placeholder, a blob of any format, or a schema of any columns. -/
def isWildcard : DataType → Bool
  | generic _ => true
  | blob format _ => format.isEmpty
  | schema columns => columns.isEmpty
  | simple _ | collection _ | map _ | struct | union _ => false

/-- No wildcard stands in the type. A union without members is concrete. -/
def Concrete (a : DataType) : Prop := ∀ part, Inside part a → part.isWildcard = false

variable {a item : DataType} {members : List DataType}

theorem concrete_collection : (collection item).Concrete ↔ item.Concrete := by
  constructor
  · exact fun concrete part inside => concrete part (.collection inside)
  · intro concrete part inside
    cases inside with
    | self => rfl
    | collection inside => exact concrete part inside

theorem concrete_map : (map item).Concrete ↔ item.Concrete := by
  constructor
  · exact fun concrete part inside => concrete part (.map inside)
  · intro concrete part inside
    cases inside with
    | self => rfl
    | map inside => exact concrete part inside

theorem concrete_union : (union members).Concrete ↔ ∀ m ∈ members, m.Concrete := by
  constructor
  · exact fun concrete m member part inside => concrete part (.union member inside)
  · intro concrete part inside
    cases inside with
    | self => rfl
    | union member inside => exact concrete _ member part inside

/-- The definite types are the concrete ones, where a union makes no choice. -/
theorem isDefinite_iff_concrete : a.isDefinite .allMembers ↔ a.Concrete := by
  -- Of a type without parts there is only the type itself to look at.
  have single : ∀ {a : DataType}, (∀ part, Inside part a → part = a) →
      (a.Concrete ↔ a.isWildcard = false) := fun alone =>
    ⟨fun concrete => concrete _ (.self _), fun own part inside => alone part inside ▸ own⟩
  induction a using byParts with
  | collection item ih => exact ih.trans concrete_collection.symm
  | map item ih => exact ih.trans concrete_map.symm
  | union members ih =>
    rw [concrete_union, ← forall₂_congr ih]
    simp [isDefinite, allDefinite_eq]
  | simple | blob | schema | struct | generic =>
    rw [single fun part inside => by cases inside; rfl]
    simp [isDefinite, isWildcard]

instance (a : DataType) : Decidable a.Concrete := decidable_of_iff _ isDefinite_iff_concrete

/-- Each type of a chain is compatible with all that come later, if those in between are concrete. -/
theorem pairwise_of_isChain {types : List DataType} (concrete : ∀ a ∈ types, a.Concrete)
    (chain : types.IsChain fun a b => a.isCompatible .allMembers b) :
    types.Pairwise fun a b => a.isCompatible .allMembers b := by
  induction chain with
  | nil => exact .nil
  | singleton a => exact List.pairwise_singleton ..
  | @cons_cons a b types first _ ih =>
    have rest := ih fun c member => concrete c (List.mem_cons_of_mem _ member)
    refine List.pairwise_cons.mpr ⟨fun c member => ?_, rest⟩
    rcases List.mem_cons.mp member with rfl | later
    · exact first
    · have definite : b.isDefinite .allMembers := isDefinite_iff_concrete.mpr (concrete b (by simp))
      exact isCompatible_trans definite first ((List.pairwise_cons.mp rest).1 c later)

/-- Compatibility is reflexive, and transitive where the type in the middle is concrete. The first
type of a chain of concrete types is therefore compatible with the last. -/
theorem isCompatible_preorder :
    (∀ a : DataType, a.isCompatible .allMembers a) ∧
    (∀ a b c : DataType, b.Concrete → a.isCompatible .allMembers b →
      b.isCompatible .allMembers c → a.isCompatible .allMembers c) ∧
    ∀ types : List DataType, (∀ a ∈ types, a.Concrete) →
      (types.IsChain fun a b => a.isCompatible .allMembers b) →
      types.Pairwise fun a b => a.isCompatible .allMembers b := by
  refine ⟨isCompatible_self, fun a b c concrete first second => ?_, fun types concrete chain => ?_⟩
  · exact isCompatible_trans (isDefinite_iff_concrete.mpr concrete) first second
  · exact pairwise_of_isChain concrete chain

/-- Each type has more members than the one before, inside a collection too. -/
theorem isCompatible_preorder_nested :
    let first : DataType := .collection (.blob "csv" .single)
    let second : DataType :=
      .union [.collection (.union [.blob "csv" .single, .simple .string]), .struct]
    let third : DataType :=
      .union [.collection (.union [.simple .string, .blob "csv" .single, .union []]), .struct]
    (∀ a ∈ [first, second, third], a.Concrete) ∧ first.isCompatible .allMembers second ∧
      second.isCompatible .allMembers third ∧ first.isCompatible .allMembers third ∧
      [first, second, third].Pairwise fun a b => a.isCompatible .allMembers b := by
  intro first second third
  obtain ⟨-, trans, chain⟩ := isCompatible_preorder
  have concrete : ∀ a ∈ [first, second, third], a.Concrete := by decide
  have fits : first.isCompatible .allMembers second := by decide
  have fits' : second.isCompatible .allMembers third := by decide
  exact ⟨concrete, fits, fits', trans first second third (concrete second (by simp)) fits fits',
    chain _ concrete (.cons_cons fits (.cons_cons fits' (.singleton third)))⟩

/-- No wildcard can stand in the middle. -/
theorem exists_not_isCompatible_of_isWildcard {b : DataType} (wild : b.isWildcard) :
    ∃ a c : DataType, a.Concrete ∧ c.Concrete ∧ a.isCompatible .allMembers b ∧
      b.isCompatible .allMembers c ∧ ¬a.isCompatible .allMembers c := by
  cases b with
  | generic name =>
    exact ⟨struct, simple .integer, by decide, by decide, isCompatible_generic _ name, rfl, by decide⟩
  | blob format d =>
    obtain rfl : format = "" := String.isEmpty_iff.mp wild
    refine ⟨blob "csv" d, blob "parquet" d, ?_⟩
    cases d <;> decide
  | schema columns =>
    obtain rfl : columns = [] := List.isEmpty_iff.mp wild
    exact ⟨schema [⟨"x", .integer⟩], schema [⟨"y", .integer⟩], by decide⟩
  | simple | collection | map | struct | union => contradiction

end WorkflowBundle.DataType
