import WorkflowBundle.DataType

/-! Which values may be bound to which parameters, by their types alone. Kinds must agree,
collections and maps are compared item by item, and a generic type on either side always
agrees. A union accepts what one of its members accepts. -/
namespace WorkflowBundle

/-- When a producer of a union type agrees with a consumer. -/
inductive UnionRule where
  /-- When one member does. -/
  | anyMember
  /-- When every member does, and there are members. -/
  | allMembers
  deriving DecidableEq, Repr, Inhabited

namespace UnionRule

def name : UnionRule → String
  | anyMember => "any_member"
  | allMembers => "all_members"

end UnionRule

namespace DataType

mutual

/-- A consumer agrees with a producer that is no union when the two are equal, when the
consumer is generic or a union with a member that agrees, or by the rule `plain`. -/
def takes (producer : DataType) (plain : DataType → Bool) : DataType → Bool
  | generic _ => true
  | union members => same producer (union members) || anyTakes producer plain members
  | consumer => same producer consumer || plain consumer

def anyTakes (producer : DataType) (plain : DataType → Bool) : List DataType → Bool
  | [] => false
  | member :: members => takes producer plain member || anyTakes producer plain members

end

/-- Blobs agree in dimensionality, and in format unless one has none. -/
def blobAgrees (format : String) (dimensionality : Dimensionality) : DataType → Bool
  | blob other d => dimensionality == d && (format.isEmpty || other.isEmpty || format == other)
  | _ => false

/-- A schema has the columns that its consumer asks for; one without columns is unknown and
taken on trust. -/
def schemaAgrees (columns : List Column) : DataType → Bool
  | schema asked => columns.isEmpty || asked.all columns.contains
  | _ => false

mutual

/-- A value of type `producer` may be bound to a parameter of type `consumer`. -/
def isCompatible (rule : UnionRule) : (producer consumer : DataType) → Bool
  | generic _, _ => true
  | union _, generic _ => true
  | union members, consumer =>
    same (union members) consumer || match rule with
      | .anyMember => anyCompatible rule members consumer
      | .allMembers => !members.isEmpty && allCompatible rule members consumer
  | collection item, consumer =>
    takes (collection item)
      (fun | collection other => isCompatible rule item other | _ => false) consumer
  | map item, consumer =>
    takes (map item) (fun | map other => isCompatible rule item other | _ => false) consumer
  | simple kind, consumer => takes (simple kind) (fun _ => false) consumer
  | blob format dimensionality, consumer =>
    takes (blob format dimensionality) (blobAgrees format dimensionality) consumer
  | schema columns, consumer => takes (schema columns) (schemaAgrees columns) consumer
  | struct, consumer => takes struct (fun _ => false) consumer

def anyCompatible (rule : UnionRule) : List DataType → DataType → Bool
  | [], _ => false
  | member :: members, consumer =>
    isCompatible rule member consumer || anyCompatible rule members consumer

def allCompatible (rule : UnionRule) : List DataType → DataType → Bool
  | [], _ => true
  | member :: members, consumer =>
    isCompatible rule member consumer && allCompatible rule members consumer

end

theorem anyTakes_eq (producer : DataType) (plain : DataType → Bool) (members : List DataType) :
    anyTakes producer plain members = members.any (takes producer plain) := by
  induction members with
  | nil => rfl
  | cons member members ih => simp [anyTakes, ih]

theorem anyCompatible_eq (rule : UnionRule) (members : List DataType) (consumer : DataType) :
    anyCompatible rule members consumer = members.any (isCompatible rule · consumer) := by
  induction members with
  | nil => rfl
  | cons member members ih => simp [anyCompatible, ih]

theorem allCompatible_eq (rule : UnionRule) (members : List DataType) (consumer : DataType) :
    allCompatible rule members consumer = members.all (isCompatible rule · consumer) := by
  induction members with
  | nil => rfl
  | cons member members ih => simp [allCompatible, ih]

def isNumeric : DataType → Bool
  | simple kind => kind.isNumeric
  | _ => false

/-- Values of the two types can be compared in a branch condition. -/
def isComparable (rule : UnionRule) (left right : DataType) : Bool :=
  left.isNumeric && right.isNumeric || left.isCompatible rule right || right.isCompatible rule left

end DataType

end WorkflowBundle
