import WorkflowBundle.Interface
import WorkflowBundle.Proofs.Document

/-! Types, values and interfaces are read back from their JSON, in either form. -/
namespace WorkflowBundle

open Document (ofJson)

theorem SimpleKind.read_name (form : Form) (kind : SimpleKind) :
    SimpleKind.read form (ofJson (.string kind.name)) = .ok kind :=
  Document.readChoice_name (by cases kind <;> decide) (by decide)

theorem Dimensionality.read_name (form : Form) (dimensionality : Dimensionality) :
    Dimensionality.read form (ofJson (.string dimensionality.name)) = .ok dimensionality :=
  Document.readChoice_name (by cases dimensionality <;> decide) (by decide)

theorem Column.read_object (form : Form) (c : Column) :
    Column.read form (ofJson (.object [("name", .string c.name), ("type", .string c.kind.name)])) =
      .ok c := by
  rw [Column.read, Document.readRecord_object (by simp) (by simp)]
  simp [Document.readString_string, SimpleKind.read_name, Document.required, bind, Except.bind,
    pure, Except.pure]

namespace DataType

theorem toJsonAll_eq (members : List DataType) : toJsonAll members = members.map toJson := by
  induction members with
  | nil => rfl
  | cons member members ih => rw [toJsonAll, ih, List.map_cons]

theorem readBlob_object (form : Form) (format : String) (dimensionality : Dimensionality) :
    readBlob form (ofJson (.object [("format", .string format),
      ("dimensionality", .string dimensionality.name)])) = .ok (.blob format dimensionality) := by
  rw [readBlob, Document.readRecord_object (by simp) (by simp)]
  simp [Document.readString_string, Dimensionality.read_name, bind, Except.bind, pure, Except.pure]

theorem readSchema_object (form : Form) (columns : List Column) :
    readSchema form (ofJson (.object [("columns", .array (columns.map fun c =>
      .object [("name", .string c.name), ("type", .string c.kind.name)]))])) =
        .ok (.schema columns) := by
  rw [readSchema, Document.readRecord_object (by simp) (by simp)]
  simp [Document.readList_array fun c _ => Column.read_object form c, bind, Except.bind, pure,
    Except.pure]

theorem readWithin_toJson (form : Form) {depth : Nat} (t : DataType)
    (enough : (ofJson t.toJson).depth ≤ depth) :
    readWithin form depth (ofJson t.toJson) = .ok t := by
  induction depth generalizing t with
  | zero =>
    have positive := (ofJson t.toJson).depth_pos
    omega
  | succ depth ih =>
    cases t with
    | simple kind =>
      rw [toJson, readWithin, Document.readVariant_object (by decide)]
      simp [Document.readPayload, SimpleKind.read_name, bind, Except.bind, pure, Except.pure]
    | collection item =>
      rw [toJson, readWithin, Document.readVariant_object (by decide)]
      simp [Document.readPayload, ih item (Document.depth_payload_le enough rfl), bind, Except.bind,
        pure, Except.pure]
    | map item =>
      rw [toJson, readWithin, Document.readVariant_object (by decide)]
      simp [Document.readPayload, ih item (Document.depth_payload_le enough rfl), bind, Except.bind,
        pure, Except.pure]
    | blob format dimensionality =>
      rw [toJson, readWithin, Document.readVariant_object (by decide)]
      simp [Document.readNamed_object, readBlob_object, bind, Except.bind]
    | schema columns =>
      rw [toJson, readWithin, Document.readVariant_object (by decide)]
      simp [Document.readNamed_object, readSchema_object, bind, Except.bind]
    | struct =>
      rw [toJson, readWithin, Document.readVariant_string (by decide)]
      rfl
    | union members =>
      have each : ∀ member ∈ members, readWithin form depth (ofJson member.toJson) = .ok member := by
        intro member among
        have whole := Document.depth_payload_le enough (by rw [toJson, toJsonAll_eq])
        exact ih member ((Document.depth_lt_map among).le.trans whole)
      rw [toJson, toJsonAll_eq, readWithin, Document.readVariant_object (by decide)]
      simp [Document.readPayload, Document.readList_array each, bind, Except.bind, pure, Except.pure]
    | generic name =>
      rw [toJson, readWithin, Document.readVariant_object (by decide)]
      simp [Document.readPayload, Document.readString_string, bind, Except.bind, pure, Except.pure]

theorem read_toJson (form : Form) (t : DataType) : read form (ofJson t.toJson) = .ok t :=
  readWithin_toJson form t le_rfl

end DataType

namespace Literal

mutual

/-- Maps in the value are in key order, each key once, and its free data is canonical. -/
def Canonical : Literal → Prop
  | collection items => CanonicalItems items
  | map entries => Entries.Increasing entries ∧ CanonicalEntries entries
  | struct value => value.Canonical
  | integer _ | float _ | string _ | boolean _ | datetime _ | duration _ | binary _ | nothing
  | blob _ | schema _ => True

def CanonicalItems : List Literal → Prop
  | [] => True
  | item :: items => Canonical item ∧ CanonicalItems items

def CanonicalEntries : List (String × Literal) → Prop
  | [] => True
  | (_, value) :: entries => Canonical value ∧ CanonicalEntries entries

end

theorem canonicalItems_iff {items : List Literal} :
    CanonicalItems items ↔ ∀ item ∈ items, item.Canonical := by
  induction items with
  | nil => simp [CanonicalItems]
  | cons item items ih => rw [CanonicalItems, ih, List.forall_mem_cons]

theorem canonicalEntries_iff {entries : List (String × Literal)} :
    CanonicalEntries entries ↔ ∀ e ∈ entries, e.2.Canonical := by
  induction entries with
  | nil => simp [CanonicalEntries]
  | cons e entries ih => rw [CanonicalEntries, ih, List.forall_mem_cons]

theorem toJsonItems_eq (items : List Literal) : toJsonItems items = items.map toJson := by
  induction items with
  | nil => rfl
  | cons item items ih => rw [toJsonItems, ih, List.map_cons]

theorem toJsonEntries_eq (entries : List (String × Literal)) :
    toJsonEntries entries = entries.map fun e => (e.1, e.2.toJson) := by
  induction entries with
  | nil => rfl
  | cons e entries ih => rw [toJsonEntries, ih, List.map_cons]

theorem readUri_object (uri : String) :
    readUri (ofJson (.object [("uri", .string uri)])) = .ok uri := by
  rw [readUri, Document.readRecord_object (by simp) (by simp)]
  simp [Document.readString_string, Document.required, bind, Except.bind, pure, Except.pure]

theorem readWithin_toJson (form : Form) {depth : Nat} (value : Literal)
    (canonical : value.Canonical) (enough : (ofJson value.toJson).depth ≤ depth) :
    readWithin form depth (ofJson value.toJson) = .ok value := by
  induction depth generalizing value with
  | zero =>
    have positive := (ofJson value.toJson).depth_pos
    omega
  | succ depth ih =>
    cases value with
    | integer | float | string | boolean | datetime | duration | binary =>
      rw [toJson, readWithin, Document.readVariant_object (by decide)]
      simp [Document.readPayload, Document.readInt64_int, Document.readFloat_float,
        Document.readString_string, Document.readBool_bool, bind, Except.bind, pure, Except.pure]
    | nothing =>
      rw [toJson, readWithin, Document.readVariant_string (by decide)]
      rfl
    | collection items =>
      have each : ∀ item ∈ items, readWithin form depth (ofJson item.toJson) = .ok item := by
        intro item among
        have whole := Document.depth_payload_le enough (by rw [toJson, toJsonItems_eq])
        exact ih item (canonicalItems_iff.mp canonical item among)
          ((Document.depth_lt_map among).le.trans whole)
      rw [toJson, toJsonItems_eq, readWithin, Document.readVariant_object (by decide)]
      simp [Document.readPayload, Document.readList_array each, bind, Except.bind, pure, Except.pure]
    | map entries =>
      obtain ⟨increasing, canonical⟩ := canonical
      have each : ∀ e ∈ entries, readWithin form depth (ofJson e.2.toJson) = .ok e.2 := by
        intro e among
        have whole := Document.depth_payload_le enough (by rw [toJson, toJsonEntries_eq])
        exact ih e.2 (canonicalEntries_iff.mp canonical e among)
          ((Document.depth_lt_entries among).le.trans whole)
      rw [toJson, toJsonEntries_eq, readWithin, Document.readVariant_object (by decide)]
      simp [Document.readPayload, Document.readMap_object each,
        SortedMap.entries_ofList increasing, bind, Except.bind, pure, Except.pure]
    | blob uri | schema uri =>
      rw [toJson, readWithin, Document.readVariant_object (by decide)]
      simp [Document.readNamed_object, readUri_object, bind, Except.bind, pure, Except.pure]
    | struct value =>
      rw [toJson, readWithin, Document.readVariant_object (by decide)]
      simp [Document.readPayload, Document.toJson_ofJson value canonical, bind, Except.bind, pure,
        Except.pure]

theorem read_toJson (form : Form) {value : Literal} (canonical : value.Canonical) :
    read form (ofJson value.toJson) = .ok value :=
  readWithin_toJson form value canonical le_rfl

theorem toJson_ne_null (value : Literal) : value.toJson ≠ .null := by
  cases value <;> simp [toJson]

end Literal

def Parameter.Canonical (p : Parameter) : Prop := ∀ value ∈ p.default, value.Canonical

theorem Parameter.read_toJson (form : Form) {p : Parameter} (canonical : p.Canonical) :
    Parameter.read form (ofJson p.toJson) = .ok p := by
  obtain ⟨dataType, required, default⟩ := p
  rw [Parameter.read, Parameter.toJson]
  cases default with
  | none =>
    rw [Document.readRecord_object (by simp [Json.optional]) (by simp [Json.optional])]
    simp [Json.optional, DataType.read_toJson, Document.readBool_bool, Document.required, bind,
      Except.bind, pure, Except.pure]
  | some value =>
    have read := Document.readOption_some value.toJson_ne_null
      (Literal.read_toJson form (canonical value rfl))
    rw [Document.readRecord_object (by simp [Json.optional]) (by simp [Json.optional])]
    simp [Json.optional, DataType.read_toJson, Document.readBool_bool, read, Document.required, bind,
      Except.bind, pure, Except.pure]

def Interface.Canonical (i : Interface) : Prop := ∀ e ∈ i.inputs.entries, e.2.Canonical

theorem Interface.read_toJson (form : Form) {i : Interface} (canonical : i.Canonical) :
    Interface.read form (ofJson i.toJson) = .ok i := by
  have inputs := Document.readMap_ofMap fun e among => Parameter.read_toJson form (canonical e among)
  have outputs := @Document.readMap_ofMap _ _ DataType.toJson i.outputs
    fun e _ => DataType.read_toJson form e.2
  rw [Interface.read, Interface.toJson, Document.readRecord_object (by simp) (by simp)]
  simp [inputs, outputs, bind, Except.bind, pure, Except.pure]

end WorkflowBundle
