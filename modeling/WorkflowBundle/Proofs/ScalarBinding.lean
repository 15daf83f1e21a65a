import WorkflowBundle.Proofs.DataType.Admission
import WorkflowBundle.Proofs.Workflow.Bindings

/-! Scalars that are written out beside scalars that a node gives. A type admits a scalar exactly
when the type of the scalar is compatible with it, except that an integer may stand for a float. -/
namespace WorkflowBundle

namespace Literal

/-- The value has no parts and is not kept elsewhere. -/
inductive Scalar : Literal → Prop where
  | integer (value : Int64) : Scalar (integer value)
  | float (value : Float) : Scalar (float value)
  | string (value : String) : Scalar (string value)
  | boolean (value : Bool) : Scalar (boolean value)
  | datetime (value : String) : Scalar (datetime value)
  | duration (value : String) : Scalar (duration value)
  | binary (value : String) : Scalar (binary value)
  | nothing : Scalar nothing

variable {value : Literal} {own : SimpleKind}

theorem Scalar.exists_kind (scalar : value.Scalar) : ∃ own, value.scalarKind? = some own := by
  cases scalar <;> exact ⟨_, rfl⟩

theorem scalarKind?_eq_integer_iff :
    value.scalarKind? = some .integer ↔ ∃ n, value = .integer n := by
  cases value <;> simp [scalarKind?]

end Literal

namespace DataType

variable {rule : UnionRule} {value : Literal} {own : SimpleKind} {a : DataType}

/-- A plain type admits the scalars of one kind, or two kinds. -/
theorem admits_of_isPlain (scalar : value.scalarKind? = some own) (plain : a.isPlain) :
    a.admits value ↔ a = simple own ∨ own = .integer ∧ a = simple .float := by
  cases a with
  | simple kind =>
    simp [admits, SimpleKind.admits, scalar, eq_comm (a := kind) (b := own)]
  | union | generic => contradiction
  | collection | map | blob | schema | struct =>
    cases value <;> simp_all [admits, Literal.scalarKind?]

/-- Unions take in one member what is compatible and what is widened alike. -/
theorem admits_iff_isCompatible (scalar : value.scalarKind? = some own) : a.admits value ↔
    (simple own).isCompatible rule a ∨ own = .integer ∧ (simple .float).isCompatible rule a := by
  induction a using byParts with
  | generic name => simp [admits_generic, isCompatible_generic]
  | union members ih =>
    rw [admits_union, isCompatible_union_right rfl, isCompatible_union_right rfl]
    constructor
    · rintro ⟨m, member, admitted⟩
      rcases (ih m member).mp admitted with fits | ⟨integer, widened⟩
      · exact .inl ⟨m, member, fits⟩
      · exact .inr ⟨integer, m, member, widened⟩
    · rintro (⟨m, member, fits⟩ | ⟨integer, m, member, widened⟩)
      · exact ⟨m, member, (ih m member).mpr (.inl fits)⟩
      · exact ⟨m, member, (ih m member).mpr (.inr ⟨integer, widened⟩)⟩
  | simple | collection | map | blob | schema | struct =>
    rw [admits_of_isPlain scalar rfl, isCompatible_simple rfl, isCompatible_simple rfl]

end DataType

namespace Scope

variable {s : Scope} {value : Literal} {own expected : DataType} {name node output : String}

theorem originFault?_literal :
    s.originFault? ⟨name, .literal value⟩ expected = none ↔ expected.admits value := by
  simp [originFault?_eq_none_iff]

theorem originFault?_nodeOutput (found : s.originType (.nodeOutput node output) = .ok (some own)) :
    s.originFault? ⟨name, .nodeOutput node output⟩ expected = none ↔
      own.isCompatible s.rule expected := by
  simp [originFault?_eq_none_iff, Fits, found]

end Scope

/-- A scalar may be bound where an output of its type may, whatever the rule for unions, and an
integer also where an output of floats may. -/
theorem Literal.Scalar.bound_like_output {value : Literal} (scalar : value.Scalar) :
    ∃ own, value.dataType? = some own ∧
      (∀ rule expected, expected.admits value ↔ own.isCompatible rule expected ∨
        (∃ n, value = .integer n) ∧ (DataType.simple .float).isCompatible rule expected) ∧
      ∀ (s : Scope) name node output expected,
        s.originType (.nodeOutput node output) = .ok (some own) →
        (s.originFault? ⟨name, .literal value⟩ expected = none ↔
          s.originFault? ⟨name, .nodeOutput node output⟩ expected = none ∨
            (∃ n, value = .integer n) ∧
              (DataType.simple .float).isCompatible s.rule expected) := by
  obtain ⟨own, kind⟩ := scalar.exists_kind
  have admitted : ∀ rule expected, expected.admits value ↔
      (DataType.simple own).isCompatible rule expected ∨
        (∃ n, value = .integer n) ∧ (DataType.simple .float).isCompatible rule expected := by
    intro rule expected
    have integer : own = .integer ↔ ∃ n, value = .integer n := by
      rw [← scalarKind?_eq_integer_iff, kind, Option.some.injEq]
    rw [DataType.admits_iff_isCompatible kind, integer]
  refine ⟨.simple own, by rw [dataType?, kind]; rfl, admitted, ?_⟩
  intro s name node output expected found
  rw [Scope.originFault?_literal, Scope.originFault?_nodeOutput found]
  exact admitted s.rule expected

namespace Sample

/-- A step `a` that gives an integer. -/
def counting : Scope where
  workflow := {
    id := ⟨.workflow, "p", "d", "w", "1"⟩
    interface := {}
    nodes := [.call ⟨"a", [], []⟩ .task ⟨.task, "p", "d", "t", "1"⟩] }
  index := {}
  interfaces := .ofList [(⟨.task, "p", "d", "t", "1"⟩, ⟨.empty, .ofList [("n", .simple .integer)]⟩)]
  rule := .allMembers

/-- The second member of the union is a union without members. -/
def floatOrCounts : DataType :=
  .union [.collection (.simple .integer), .union [], .union [.struct, .simple .float]]

end Sample

open Sample in
/-- An integer that is written out is widened in an inner union; one that a node gives is not. -/
theorem Literal.Scalar.bound_like_output_widened : (Literal.integer 3).Scalar ∧
    counting.originType (.nodeOutput "a" "n") = .ok (some (.simple .integer)) ∧
    counting.originFault? ⟨"x", .literal (.integer 3)⟩ floatOrCounts = none ∧
    counting.originFault? ⟨"x", .nodeOutput "a" "n"⟩ floatOrCounts ≠ none := by
  have scalar : (Literal.integer 3).Scalar := .integer 3
  have found : counting.originType (.nodeOutput "a" "n") = .ok (some (.simple .integer)) := rfl
  obtain ⟨own, typed, -, bound⟩ := scalar.bound_like_output
  obtain rfl : own = .simple .integer := (Option.some.inj typed).symm
  have widened : (DataType.simple .float).isCompatible counting.rule floatOrCounts := by decide
  refine ⟨scalar, found, (bound counting "x" "a" "n" _ found).mpr (.inr ⟨⟨3, rfl⟩, widened⟩), ?_⟩
  rw [ne_eq, Scope.originFault?_nodeOutput found]
  decide

end WorkflowBundle
