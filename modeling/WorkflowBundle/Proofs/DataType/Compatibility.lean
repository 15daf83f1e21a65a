import Mathlib.Data.List.Basic
import WorkflowBundle.DataType.Compatibility

/-! Compatibility of types as a relation. It is not transitive: a type that stands for several
others, such as a generic one, is compatible with types that have nothing to do with each other.
Through a type that stands for itself alone it composes. -/
namespace WorkflowBundle

/-- A union with these members passes when as many of them pass as the rule asks for. -/
def UnionRule.Lets (rule : UnionRule) (passes : DataType → Prop) (members : List DataType) : Prop :=
  match rule with
  | .anyMember => ∃ m ∈ members, passes m
  | .allMembers => members ≠ [] ∧ ∀ m ∈ members, passes m

theorem UnionRule.Lets.mono {rule : UnionRule} {passes others : DataType → Prop}
    {members : List DataType} (implies : ∀ m ∈ members, passes m → others m)
    (lets : rule.Lets passes members) : rule.Lets others members := by
  cases rule with
  | anyMember =>
    obtain ⟨m, member, passed⟩ := lets
    exact ⟨m, member, implies m member passed⟩
  | allMembers => exact ⟨lets.1, fun m member => implies m member (lets.2 m member)⟩

/-- What every rule lets pass, one member makes pass. -/
theorem UnionRule.Lets.exists {rule : UnionRule} {passes : DataType → Prop}
    {members : List DataType} (lets : rule.Lets passes members) : ∃ m ∈ members, passes m := by
  cases rule with
  | anyMember => exact lets
  | allMembers =>
    obtain ⟨m, member⟩ := List.exists_mem_of_ne_nil _ lets.1
    exact ⟨m, member, lets.2 m member⟩

namespace DataType

variable {rule rule' : UnionRule} {a b c : DataType} {members : List DataType}

/-- Types are made of parts; those of a union are its members. -/
@[elab_as_elim] theorem byParts {motive : DataType → Prop} (simple : ∀ kind, motive (simple kind))
    (collection : ∀ item, motive item → motive (collection item))
    (map : ∀ item, motive item → motive (map item))
    (blob : ∀ format dimensionality, motive (blob format dimensionality))
    (schema : ∀ columns, motive (schema columns)) (struct : motive struct)
    (union : ∀ members, (∀ m ∈ members, motive m) → motive (union members))
    (generic : ∀ name, motive (generic name)) : ∀ a, motive a
  | .simple kind => simple kind
  | .collection item =>
    collection item (byParts simple collection map blob schema struct union generic item)
  | .map item => map item (byParts simple collection map blob schema struct union generic item)
  | .blob format dimensionality => blob format dimensionality
  | .schema columns => schema columns
  | .struct => struct
  | .union members => union members fun m _ =>
    byParts simple collection map blob schema struct union generic m
  | .generic name => generic name

/-- Neither a union nor generic. -/
def isPlain : DataType → Bool
  | union _ | generic _ => false
  | _ => true

section Equations

attribute [local simp] isCompatible takes

theorem isCompatible_generic (a : DataType) (name : String) :
    a.isCompatible rule (generic name) := by
  cases a <;> simp

theorem isCompatible_self (a : DataType) : a.isCompatible rule a := by
  cases a <;> simp [same_iff]

theorem isCompatible_union_left : (union members).isCompatible rule c ↔
    union members = c ∨ (∃ name, c = generic name) ∨
      rule.Lets (fun m => m.isCompatible rule c) members := by
  cases c with
  | generic name => simp
  | _ => cases rule <;>
      simp [same_iff, anyCompatible_eq, allCompatible_eq, UnionRule.Lets]

/-- A union takes what one of its members takes. -/
theorem isCompatible_union_right (plain : a.isPlain) : a.isCompatible rule (union members) ↔
    ∃ m ∈ members, a.isCompatible rule m := by
  cases a with
  | union | generic => contradiction
  | _ => simp [same, anyTakes_eq]

theorem isCompatible_simple {kind : SimpleKind} (plain : b.isPlain) :
    (simple kind).isCompatible rule b ↔ b = simple kind := by
  cases b with
  | union | generic => contradiction
  | _ => simp [same, eq_comm (a := kind)]

theorem isCompatible_struct (plain : b.isPlain) :
    struct.isCompatible rule b ↔ b = struct := by
  cases b with
  | union | generic => contradiction
  | _ => simp [same]

theorem isCompatible_collection (plain : b.isPlain) : (collection a).isCompatible rule b ↔
    ∃ item, b = collection item ∧ a.isCompatible rule item := by
  cases b with
  | union | generic => contradiction
  | collection item =>
    simp only [isCompatible, takes, Bool.or_eq_true, same_iff, collection.injEq, exists_eq_left']
    exact ⟨fun h => h.elim (fun same => same ▸ isCompatible_self a) id, .inr⟩
  | _ => simp [same]

theorem isCompatible_map (plain : b.isPlain) : (map a).isCompatible rule b ↔
    ∃ item, b = map item ∧ a.isCompatible rule item := by
  cases b with
  | union | generic => contradiction
  | map item =>
    simp only [isCompatible, takes, Bool.or_eq_true, same_iff, map.injEq, exists_eq_left']
    exact ⟨fun h => h.elim (fun same => same ▸ isCompatible_self a) id, .inr⟩
  | _ => simp [same]

theorem isCompatible_blob {format : String} {d : Dimensionality} (plain : b.isPlain) :
    (blob format d).isCompatible rule b ↔
      ∃ asked, b = blob asked d ∧ (format = "" ∨ asked = "" ∨ format = asked) := by
  cases b with
  | union | generic => contradiction
  | blob asked e =>
    simp only [isCompatible, takes, same, blobAgrees, Bool.or_eq_true, Bool.and_eq_true, beq_iff_eq,
      String.isEmpty_iff, blob.injEq]
    constructor
    · rintro (⟨rfl, rfl⟩ | ⟨rfl, (rfl | rfl) | rfl⟩) <;> simp
    · rintro ⟨_, ⟨rfl, rfl⟩, rfl | rfl | rfl⟩ <;> simp
  | _ => simp [same, blobAgrees]

theorem isCompatible_schema {columns : List Column} (plain : b.isPlain) :
    (schema columns).isCompatible rule b ↔
      ∃ asked, b = schema asked ∧ (columns = [] ∨ asked ⊆ columns) := by
  cases b with
  | union | generic => contradiction
  | schema asked =>
    simp only [isCompatible, takes, same, schemaAgrees, Bool.or_eq_true, beq_iff_eq,
      List.isEmpty_iff, List.all_eq_true, List.contains_eq_mem, decide_eq_true_eq, schema.injEq]
    constructor
    · rintro (rfl | rfl | inside)
      · exact ⟨_, rfl, .inr (List.Subset.refl _)⟩
      · exact ⟨_, rfl, .inl rfl⟩
      · exact ⟨_, rfl, .inr fun c hc => inside c hc⟩
    · rintro ⟨_, rfl, rfl | inside⟩
      · exact .inr (.inl rfl)
      · exact .inr (.inr fun c hc => inside hc)
  | _ => simp [same, schemaAgrees]

end Equations

/-- Of plain producers it is enough to know which plain consumers they are compatible with. -/
theorem isCompatible_of_plain_consumers (plain : a.isPlain) (plain' : b.isPlain)
    (base : ∀ c, c.isPlain → a.isCompatible rule c → b.isCompatible rule' c)
    (h : a.isCompatible rule c) : b.isCompatible rule' c := by
  induction c using byParts with
  | union members ih =>
    obtain ⟨m, member, fits⟩ := (isCompatible_union_right plain).mp h
    exact (isCompatible_union_right plain').mpr ⟨m, member, ih m member fits⟩
  | generic name => exact isCompatible_generic b name
  | _ => exact base _ rfl h

/-- The rule that asks for one member lets through what another rule does. -/
theorem isCompatible_anyMember (h : a.isCompatible rule c) : a.isCompatible .anyMember c := by
  induction a using byParts generalizing c with
  | generic name => rfl
  | union members ih =>
    rcases isCompatible_union_left.mp h with rfl | ⟨name, rfl⟩ | lets
    · exact isCompatible_self _
    · exact isCompatible_generic _ name
    · obtain ⟨m, member, fits⟩ := lets.exists
      exact isCompatible_union_left.mpr (.inr (.inr ⟨m, member, ih m member fits⟩))
  | simple | struct | blob | schema => simpa only [isCompatible] using h
  | collection item ih =>
    refine isCompatible_of_plain_consumers rfl rfl (fun c plain fits => ?_) h
    obtain ⟨other, rfl, inner⟩ := (isCompatible_collection plain).mp fits
    exact (isCompatible_collection plain).mpr ⟨other, rfl, ih inner⟩
  | map item ih =>
    refine isCompatible_of_plain_consumers rfl rfl (fun c plain fits => ?_) h
    obtain ⟨other, rfl, inner⟩ := (isCompatible_map plain).mp fits
    exact (isCompatible_map plain).mpr ⟨other, rfl, ih inner⟩

theorem isComparable_anyMember (h : a.isComparable rule b) : a.isComparable .anyMember b := by
  simp only [isComparable, Bool.or_eq_true] at h ⊢
  exact h.imp (.imp id isCompatible_anyMember) isCompatible_anyMember

mutual

/-- The type stands for itself alone. It has no generic type in it, no blob of any format and no
schema of any columns; and no choice of members, where one of them is enough. -/
def isDefinite (rule : UnionRule) : DataType → Bool
  | simple _ | struct => true
  | collection item | map item => isDefinite rule item
  | blob format _ => !format.isEmpty
  | schema columns => !columns.isEmpty
  | union members => (rule == .allMembers || members.length ≤ 1) && allDefinite rule members
  | generic _ => false

def allDefinite (rule : UnionRule) : List DataType → Bool
  | [] => true
  | member :: members => isDefinite rule member && allDefinite rule members

end

theorem allDefinite_eq (members : List DataType) :
    allDefinite rule members = members.all (isDefinite rule) := by
  induction members with
  | nil => rfl
  | cons member members ih => simp [allDefinite, ih]

theorem isDefinite_of_mem (definite : (union members).isDefinite rule) {m : DataType}
    (member : m ∈ members) : m.isDefinite rule := by
  simp only [isDefinite, Bool.and_eq_true, allDefinite_eq, List.all_eq_true] at definite
  exact definite.2 m member

/-- Of the members of a definite union none is let through without the others. -/
theorem passes_of_lets (definite : (union members).isDefinite rule) {passes : DataType → Prop}
    (lets : rule.Lets passes members) {m : DataType} (member : m ∈ members) : passes m := by
  cases rule with
  | allMembers => exact lets.2 m member
  | anyMember =>
    obtain ⟨n, other, passed⟩ := lets
    simp only [isDefinite, Bool.and_eq_true, Bool.or_eq_true, decide_eq_true_eq] at definite
    have few := definite.1.resolve_left (by decide)
    have same : m = n := by
      match members, few with
      | [only], _ => rw [List.mem_singleton.mp member, List.mem_singleton.mp other]
    exact same ▸ passed

/-- From a plain producer compatibility composes through every definite type if it does through
the plain ones among them. -/
theorem isCompatible_trans_of_plain (plain : a.isPlain)
    (base : ∀ b c, b.isPlain → c.isPlain → b.isDefinite rule → a.isCompatible rule b →
      b.isCompatible rule c → a.isCompatible rule c)
    (definite : b.isDefinite rule) (first : a.isCompatible rule b) (second : b.isCompatible rule c) :
    a.isCompatible rule c := by
  induction b using byParts with
  | generic name => contradiction
  | union members ih =>
    obtain ⟨m, member, fits⟩ := (isCompatible_union_right plain).mp first
    rcases isCompatible_union_left.mp second with rfl | ⟨name, rfl⟩ | lets
    · exact first
    · exact isCompatible_generic a name
    · exact ih m member (isDefinite_of_mem definite member) fits
        (passes_of_lets definite lets member)
  | _ =>
    exact isCompatible_of_plain_consumers rfl plain
      (fun c plain' fits => base _ c rfl plain' definite first fits) second

/-- Compatibility composes through a definite type. -/
theorem isCompatible_trans (definite : b.isDefinite rule) (first : a.isCompatible rule b)
    (second : b.isCompatible rule c) : a.isCompatible rule c := by
  induction a using byParts generalizing b c with
  | generic name => rfl
  | union members ih =>
    rcases isCompatible_union_left.mp first with rfl | ⟨name, rfl⟩ | lets
    · exact second
    · contradiction
    · exact isCompatible_union_left.mpr (.inr (.inr (lets.mono fun m member fits =>
        ih m member definite fits second)))
  | simple kind =>
    refine isCompatible_trans_of_plain rfl (fun b c plain _ _ first second => ?_) definite first second
    obtain rfl := (isCompatible_simple plain).mp first
    exact second
  | struct =>
    refine isCompatible_trans_of_plain rfl (fun b c plain _ _ first second => ?_) definite first second
    obtain rfl := (isCompatible_struct plain).mp first
    exact second
  | collection item ih =>
    refine isCompatible_trans_of_plain rfl (fun b c plain plain' definite first second => ?_)
      definite first second
    obtain ⟨middle, rfl, inner⟩ := (isCompatible_collection plain).mp first
    obtain ⟨last, rfl, outer⟩ := (isCompatible_collection plain').mp second
    have definite : middle.isDefinite rule := definite
    exact (isCompatible_collection plain').mpr ⟨last, rfl, ih definite inner outer⟩
  | map item ih =>
    refine isCompatible_trans_of_plain rfl (fun b c plain plain' definite first second => ?_)
      definite first second
    obtain ⟨middle, rfl, inner⟩ := (isCompatible_map plain).mp first
    obtain ⟨last, rfl, outer⟩ := (isCompatible_map plain').mp second
    have definite : middle.isDefinite rule := definite
    exact (isCompatible_map plain').mpr ⟨last, rfl, ih definite inner outer⟩
  | blob format d =>
    refine isCompatible_trans_of_plain rfl (fun b c plain plain' definite first second => ?_)
      definite first second
    obtain ⟨middle, rfl, agrees⟩ := (isCompatible_blob plain).mp first
    obtain ⟨last, rfl, agrees'⟩ := (isCompatible_blob plain').mp second
    have formatted : middle ≠ "" := by simpa [isDefinite] using definite
    refine (isCompatible_blob plain').mpr ⟨last, rfl, ?_⟩
    rcases agrees with any | any | rfl
    · exact .inl any
    · exact absurd any formatted
    · exact .inr (agrees'.resolve_left formatted)
  | schema columns =>
    refine isCompatible_trans_of_plain rfl (fun b c plain plain' definite first second => ?_)
      definite first second
    obtain ⟨middle, rfl, has⟩ := (isCompatible_schema plain).mp first
    obtain ⟨last, rfl, has'⟩ := (isCompatible_schema plain').mp second
    have columned : middle ≠ [] := by simpa [isDefinite] using definite
    have inside := has'.resolve_left columned
    exact (isCompatible_schema plain').mpr ⟨last, rfl, has.imp id (List.Subset.trans inside)⟩

end DataType

end WorkflowBundle
