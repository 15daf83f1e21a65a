import Mathlib
import WorkflowBundle.Proofs.SortedMap
import WorkflowBundle.Record

/-! Documents that say JSON values. Each way of writing a record, a variant or a map has the
readers that take it back: what they read is said here once, for all records. -/
namespace WorkflowBundle

namespace Json

mutual

/-- The value as data: members of objects in key order, each key once, and doubles finite. -/
def Canonical : Json → Prop
  | float x => x.isFinite
  | array items => CanonicalItems items
  | object members => Entries.Increasing members ∧ CanonicalMembers members
  | null | bool _ | int _ | string _ => True

def CanonicalItems : List Json → Prop
  | [] => True
  | item :: items => Canonical item ∧ CanonicalItems items

def CanonicalMembers : List (String × Json) → Prop
  | [] => True
  | (_, value) :: members => Canonical value ∧ CanonicalMembers members

end

end Json

namespace Document

@[simp] theorem ofJsonItems_eq (items : List Json) : ofJsonItems items = items.map ofJson := by
  induction items with
  | nil => rfl
  | cons item items ih => rw [ofJsonItems, ih, List.map_cons]

@[simp] theorem ofJsonMembers_eq (members : List (String × Json)) :
    ofJsonMembers members = members.map fun m => (text m.1, ofJson m.2) := by
  induction members with
  | nil => rfl
  | cons member members ih => rw [ofJsonMembers, ih, List.map_cons]

mutual

/-- A document read as data is the data that it says. -/
theorem toJson_ofJson : (j : Json) → j.Canonical → (ofJson j).toJson = .ok j
  | .null, _ | .bool _, _ | .int _, _ | .string _, _ => rfl
  | .float x, canonical => by
    have finite : x.isFinite = true := canonical
    rw [ofJson, toJson, if_pos finite]
  | .array items, canonical => by
    rw [ofJson, toJson, toJsonItems_ofJsonItems items canonical]
    rfl
  | .object members, canonical => by
    have folded := toJsonFields_ofJsonMembers members canonical.2 []
    rw [@Entries.foldl_insert _ _ _ _ [] members canonical.1] at folded
    rw [ofJson, toJson, folded]
    rfl

theorem toJsonItems_ofJsonItems : (items : List Json) → Json.CanonicalItems items →
    toJsonItems (ofJsonItems items) = .ok items
  | [], _ => rfl
  | item :: items, canonical => by
    rw [ofJsonItems, toJsonItems, toJson_ofJson item canonical.1,
      toJsonItems_ofJsonItems items canonical.2]
    rfl

theorem toJsonFields_ofJsonMembers : (members : List (String × Json)) →
    Json.CanonicalMembers members → ∀ before, toJsonFields (ofJsonMembers members) before =
      .ok (members.foldl (fun m e => Entries.insert e.1 e.2 m) before)
  | [], _, _ => rfl
  | (key, value) :: members, canonical, before => by
    rw [ofJsonMembers, toJsonFields, toJson_ofJson value canonical.1]
    exact toJsonFields_ofJsonMembers members canonical.2 _

end

/-! Levels. -/

theorem depth_pos (doc : Document) : 0 < doc.depth := by
  cases doc <;> simp [depth]

theorem depth_le_depthItems {doc : Document} {items : List Document} (among : doc ∈ items) :
    doc.depth ≤ depthItems items := by
  induction items with
  | nil => contradiction
  | cons item items ih =>
    rw [depthItems]
    rcases List.mem_cons.mp among with rfl | later
    · exact le_max_left _ _
    · exact (ih later).trans (le_max_right _ _)

theorem depth_le_depthFields {key value : Document} {fields : List (Document × Document)}
    (among : (key, value) ∈ fields) : value.depth ≤ depthFields fields := by
  induction fields with
  | nil => contradiction
  | cons field fields ih =>
    rw [depthFields]
    rcases List.mem_cons.mp among with rfl | later
    · exact (le_max_right _ _).trans (le_max_left _ _)
    · exact (ih later).trans (le_max_right _ _)

theorem depth_lt_array {j : Json} {items : List Json} (among : j ∈ items) :
    (ofJson j).depth < (ofJson (.array items)).depth := by
  rw [ofJson, depth, ofJsonItems_eq]
  exact Nat.lt_succ_of_le (depth_le_depthItems (List.mem_map_of_mem among))

theorem depth_lt_object {key : String} {j : Json} {members : List (String × Json)}
    (among : (key, j) ∈ members) : (ofJson j).depth < (ofJson (.object members)).depth := by
  rw [ofJson, depth, ofJsonMembers_eq]
  exact Nat.lt_succ_of_le (depth_le_depthFields
    (List.mem_map.mpr ⟨(key, j), among, rfl⟩ : (text key, ofJson j) ∈ _))

theorem depth_lt_map {α : Type} {toJson : α → Json} {xs : List α} {x : α} (among : x ∈ xs) :
    (ofJson (toJson x)).depth < (ofJson (.array (xs.map toJson))).depth :=
  depth_lt_array (List.mem_map_of_mem among)

theorem depth_lt_entries {α : Type} {toJson : α → Json} {entries : List (String × α)}
    {e : String × α} (among : e ∈ entries) : (ofJson (toJson e.2)).depth <
      (ofJson (.object (entries.map fun e => (e.1, toJson e.2)))).depth :=
  depth_lt_object (List.mem_map.mpr ⟨e, among, rfl⟩)

/-- The payload of a variant has fewer levels than the variant. -/
theorem depth_payload_le {variant j : Json} {name : String} {depth : Nat}
    (enough : (ofJson variant).depth ≤ depth + 1) (same : variant = .object [(name, j)]) :
    (ofJson j).depth ≤ depth := by
  have lower := @depth_lt_object name j [(name, j)] List.mem_cons_self
  rw [← same] at lower
  omega

/-! Lists, maps, records and variants. -/

theorem readString_string (s : String) : readString (ofJson (.string s)) = .ok s := rfl

theorem readBool_bool (b : Bool) : readBool (ofJson (.bool b)) = .ok b := rfl

theorem readFloat_float (x : Float) : readFloat (ofJson (.float x)) = .ok x := rfl

theorem readInt64_int (i : Int64) : readInt64 (ofJson (.int i.toInt)) = .ok i := by
  rw [ofJson, readInt64, if_pos ⟨Int64.minValue_le_toInt i, Int64.toInt_le i⟩, Int64.ofInt_toInt]

variable {α δ : Type}

theorem readOption_some {read : Document → Except Fault α} {j : Json} {x : α} (filled : j ≠ .null)
    (ok : read (ofJson j) = .ok x) : readOption read (ofJson j) = .ok (some x) := by
  cases j with
  | null => contradiction
  | bool | int | float | string | array | object =>
    rw [ofJson] at ok ⊢
    rw [readOption, ok]
    · rfl
    · simp

theorem readList_array {read : Document → Except Fault α} {toJson : α → Json} {xs : List α}
    (each : ∀ x ∈ xs, read (ofJson (toJson x)) = .ok x) :
    readList read (ofJson (.array (xs.map toJson))) = .ok xs := by
  rw [ofJson, readList, ofJsonItems_eq]
  induction xs with
  | nil => rfl
  | cons x xs ih =>
    rw [List.forall_mem_cons] at each
    simp only [List.map_cons, List.mapM_cons, each.1, ih each.2]
    rfl

theorem readFields_object {read : Document → Except Fault α} {toJson : α → Json}
    {entries : List (String × α)} (each : ∀ e ∈ entries, read (ofJson (toJson e.2)) = .ok e.2) :
    readFields read (ofJsonMembers (entries.map fun e => (e.1, toJson e.2))) = .ok entries := by
  induction entries with
  | nil => rfl
  | cons e entries ih =>
    rw [List.forall_mem_cons] at each
    rw [List.map_cons, ofJsonMembers, readFields, each.1, ih each.2]
    rfl

theorem readMap_object {read : Document → Except Fault α} {toJson : α → Json}
    {entries : List (String × α)} (each : ∀ e ∈ entries, read (ofJson (toJson e.2)) = .ok e.2) :
    readMap read (ofJson (.object (entries.map fun e => (e.1, toJson e.2)))) =
      .ok (.ofList entries) := by
  rw [ofJson, readMap, readFields_object each]
  rfl

theorem readMap_ofMap {read : Document → Except Fault α} {toJson : α → Json}
    {m : SortedMap String α} (each : ∀ e ∈ m.entries, read (ofJson (toJson e.2)) = .ok e.2) :
    readMap read (ofJson (.ofMap toJson m)) = .ok m := by
  rw [Json.ofMap, readMap_object each, SortedMap.ofList_entries]

variable {known : List String} {step : String → Document → δ → Except Fault δ} {draft : δ}
  {members : List (String × Json)}

theorem readKnown_members {seen : List String} (named : ∀ m ∈ members, m.1 ∈ known)
    (once : (members.map (·.1)).Nodup) (fresh : ∀ m ∈ members, m.1 ∉ seen) :
    readKnown known step (ofJsonMembers members) seen draft =
      members.foldlM (fun draft m => step m.1 (ofJson m.2) draft) draft := by
  induction members generalizing seen draft with
  | nil => rfl
  | cons m members ih =>
    obtain ⟨key, j⟩ := m
    rw [List.forall_mem_cons] at named fresh
    rw [List.map_cons, List.nodup_cons] at once
    have later : ∀ m ∈ members, m.1 ∉ key :: seen := by
      intro m among
      rw [List.mem_cons, not_or]
      exact ⟨fun same => once.1 (List.mem_map.mpr ⟨m, among, same⟩), fresh.2 m among⟩
    have name : knownName? known (text key) = .ok (some key) := by
      rw [knownName?, if_pos (by simpa using named.1)]
    rw [ofJsonMembers, readKnown, name, List.foldlM_cons]
    simp only [bind, Except.bind, List.contains_iff_mem, if_neg fresh.1]
    cases step key (ofJson j) draft with
    | error => rfl
    | ok next => exact ih named.2 once.2 later

/-- A record written with its fields once each is made of what the steps make of them. -/
theorem readRecord_object {finish : δ → Except Fault α} (named : ∀ m ∈ members, m.1 ∈ known)
    (once : (members.map (·.1)).Nodup) :
    readRecord known draft step finish (ofJson (.object members)) =
      members.foldlM (fun draft m => step m.1 (ofJson m.2) draft) draft >>= finish := by
  rw [ofJson, readRecord, readKnown_members named once (by simp)]

variable {form : Form} {name : String} {j : Json}

theorem readVariant_string (among : name ∈ known) :
    readVariant form known (ofJson (.string name)) = .ok (name, none) := by
  rw [ofJson, readVariant, if_pos (by simpa using among)]

theorem readVariant_object (among : name ∈ known) :
    readVariant form known (ofJson (.object [(name, j)])) = .ok (name, some (ofJson j)) := by
  rw [ofJson, ofJsonMembers, ofJsonMembers, readVariant, readName, if_pos (by simpa using among)]
  rfl

/-- A name is read as the value that has it. -/
theorem readChoice_name {values : List α} {label : α → String} {value : α}
    (among : value ∈ values) (distinct : (values.map label).Nodup) :
    readChoice form values label (ofJson (.string (label value))) = .ok value := by
  rw [readChoice, readVariant_string (List.mem_map_of_mem among)]
  simp only [bind, Except.bind, readNothing]
  split
  next other found =>
    have same : label other = label value := by simpa using List.find?_some found
    rw [List.inj_on_of_nodup_map distinct (List.mem_of_find?_eq_some found) among same]
  next absent => exact absurd (beq_self_eq_true _) (List.find?_eq_none.mp absent value among)

theorem readNamed_object {read : Document → Except Fault α} :
    readNamed form read (some (ofJson (.object members))) = read (ofJson (.object members)) := by
  rw [ofJson, readNamed]

theorem findTag_members {readTag : Document → Except Fault String} {tag : String}
    {found : Option String} (others : ∀ m ∈ members, m.1 ≠ tag) :
    findTag readTag tag (ofJsonMembers members) found = .ok (found, ofJsonMembers members) := by
  induction members with
  | nil => rw [ofJsonMembers, findTag]
  | cons m members ih =>
    rw [List.forall_mem_cons] at others
    rw [ofJsonMembers, findTag, if_neg others.1, findTag.keep, ih others.2]
    rfl

theorem findTag_tagged {tag : String} (among : name ∈ known) (others : ∀ m ∈ members, m.1 ≠ tag) :
    findTag (readName form known) tag (ofJsonMembers ((tag, .string name) :: members)) none =
      .ok (some name, ofJsonMembers members) := by
  rw [ofJsonMembers, findTag, if_pos rfl, if_neg (by simp), ofJson, readName,
    if_pos (by simpa using among)]
  exact findTag_members others

/-- A record under a tag: the tag's name, and the other fields. -/
theorem readTagged_object {tag : String} (among : name ∈ known)
    (others : ∀ m ∈ members, m.1 ≠ tag) :
    readTagged form tag known (ofJson (.object ((tag, .string name) :: members))) =
      .ok (name, ofJson (.object members)) := by
  rw [ofJson, readTagged, findTag_tagged among others, ofJson]
  rfl

end Document

theorem Outline.readTagged_table {tag name : String} {known : List String}
    {members : List (String × Json)} (among : name ∈ known) (others : ∀ m ∈ members, m.1 ≠ tag) :
    Outline.readTagged tag known
      (.table (Document.ofJsonMembers ((tag, .string name) :: members)) none) =
      .ok (name, Document.ofJson (.object members)) := by
  rw [Outline.readTagged, Document.findTag_tagged among others, Document.ofJson]
  rfl

end WorkflowBundle
