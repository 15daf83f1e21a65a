import WorkflowBundle.Entity.Decode
import WorkflowBundle.Proofs.Json.RoundTrip
import WorkflowBundle.Proofs.Text.Utf8
import WorkflowBundle.Proofs.Wire.Workflows

/-! Records are read back from the bytes of their JSON, in either layout. -/
namespace WorkflowBundle

open Document (ofJson)

structure Task.Canonical (t : Task) : Prop where
  interface : t.interface.Canonical
  metadata : t.metadata.Canonical

namespace Task

theorem members_of_null {t : Task} (empty : t.metadata = .null) : t.members =
    [("id", t.id.toJson), ("task_type", .string t.taskType), ("interface", t.interface.toJson)] := by
  rw [members, empty]
  rfl

theorem members_of_ne_null {t : Task} (filled : t.metadata ≠ .null) : t.members =
    [("id", t.id.toJson), ("task_type", .string t.taskType), ("interface", t.interface.toJson),
      ("metadata", t.metadata)] := by
  rw [members]
  split
  · contradiction
  · rfl

theorem read_members (form : Form) {t : Task} (canonical : t.Canonical) :
    read form (ofJson (.object t.members)) = .ok t := by
  by_cases empty : t.metadata = .null
  · rw [read, members_of_null empty, Document.readRecord_object (by simp) (by simp)]
    simp [EntityId.read_toJson, Document.readString_string,
      Interface.read_toJson form canonical.interface, Document.required, bind, Except.bind, pure,
      Except.pure, ← empty]
  · rw [read, members_of_ne_null empty, Document.readRecord_object (by simp) (by simp)]
    simp [EntityId.read_toJson, Document.readString_string,
      Interface.read_toJson form canonical.interface, Document.toJson_ofJson _ canonical.metadata,
      Document.required, bind, Except.bind, pure, Except.pure]

theorem kind_notMem {t : Task} : ∀ m ∈ t.members, m.1 ≠ "kind" := by
  by_cases empty : t.metadata = .null
  · simp [members_of_null empty]
  · simp [members_of_ne_null empty]

end Task

structure LaunchPlan.Canonical (p : LaunchPlan) : Prop where
  fixedInputs : ∀ e ∈ p.fixedInputs.entries, e.2.Canonical
  defaultInputs : ∀ e ∈ p.defaultInputs.entries, e.2.Canonical

theorem LaunchPlan.read_members (form : Form) {p : LaunchPlan} (canonical : p.Canonical) :
    LaunchPlan.read form (ofJson (.object p.members)) = .ok p := by
  have fixed := Document.readMap_ofMap fun e among =>
    Literal.read_toJson form (canonical.fixedInputs e among)
  have default := Document.readMap_ofMap fun e among =>
    Literal.read_toJson form (canonical.defaultInputs e among)
  rw [LaunchPlan.read, LaunchPlan.members, Document.readRecord_object (by simp) (by simp)]
  simp [EntityId.read_toJson, fixed, default, Document.required, bind, Except.bind, pure,
    Except.pure]

namespace Entity

/-- Maps in the record, those of its free data too, are in key order with each key once, as they
are in everything that is read. -/
def Canonical : Entity → Prop
  | task t => t.Canonical
  | workflow w => w.Canonical
  | launchPlan p => p.Canonical

/-- The members of a record after its kind. -/
def members : Entity → List (String × Json)
  | task t => t.members
  | workflow w => w.members
  | launchPlan p => p.members

theorem toJson_eq (e : Entity) :
    e.toJson = .object (("kind", .string e.resourceType.name) :: e.members) := by
  cases e <;> rfl

theorem kind_notMem (e : Entity) : ∀ m ∈ e.members, m.1 ≠ "kind" := by
  cases e with
  | task t => exact t.kind_notMem
  | workflow w => simp [members, Workflow.members]
  | launchPlan p => simp [members, LaunchPlan.members]

theorem read_table {e : Entity} (canonical : e.Canonical) :
    read (.table (Document.ofJsonMembers
      (("kind", .string e.resourceType.name) :: e.members)) none) = .ok e := by
  rw [read, Outline.readTagged_table (List.mem_map_of_mem e.resourceType.mem_all) e.kind_notMem]
  cases e with
  | task t =>
    simp [resourceType, ResourceType.name, members, Task.read_members .buffered canonical, bind,
      Except.bind, pure, Except.pure]
  | workflow w =>
    simp [resourceType, ResourceType.name, members, Workflow.read_members .buffered canonical, bind,
      Except.bind, pure, Except.pure]
  | launchPlan p =>
    simp [resourceType, ResourceType.name, members, LaunchPlan.read_members .buffered canonical,
      bind, Except.bind, pure, Except.pure]

theorem dropWhile_skipBlank (chars : List Char) :
    (Json.Reader.skipBlank chars).dropWhile isWhiteSpace = chars.dropWhile isWhiteSpace := by
  induction chars with
  | nil => rfl
  | cons c chars ih =>
    rw [Json.Reader.skipBlank]
    split
    next blank =>
      have white : isWhiteSpace c = true := by
        simp only [Bool.or_eq_true, beq_iff_eq] at blank
        rcases blank with ((rfl | rfl) | rfl) | rfl <;> decide
      rw [List.dropWhile_cons_of_pos white, ih]
    next => rfl

/-- A text of an object is read as JSON. -/
theorem source_eq {text : String} {ms : List (String × Json)}
    (spelled : Json.Spells text (.object ms)) : source text = .ok (Json.Reader.source text) := by
  obtain ⟨inner, front, -⟩ := spelled.open_object
  rw [source, ← dropWhile_skipBlank, front]
  rfl

/-- A text of the JSON of a record is read as the record. -/
theorem ofText_eq {text : String} {e : Entity} (spelled : Json.Spells text e.toJson)
    (shallow : e.toJson.nesting ≤ 127) (canonical : e.Canonical)
    (identified : e.identifierFault? = none) : ofText text = .ok e := by
  rw [toJson_eq] at spelled shallow
  rw [ofText, source_eq spelled, Json.source_eq spelled shallow]
  simp only [Source.read, read_table canonical, identified, bind, Except.bind, Except.mapError]

end Entity

theorem Entry.decode_encode {name text : String} {e : Entity} (read : Entity.ofText text = .ok e) :
    Entry.decode ⟨name, Utf8.encode text⟩ = .ok ⟨name, e⟩ := by
  simp [Entry.decode, Entity.decode, Utf8.decode_encode, read, bind, Except.bind, Except.mapError]

/-- Records survive the wire: one whose identifiers are in order, with no double in it and not too
deep, is what the entry says that holds its JSON, whatever the entry is called. -/
theorem Entry.decode_toJson (name : String) (e : Entity) (canonical : e.Canonical)
    (identified : e.identifierFault? = none) (exact : e.toJson.Exact)
    (shallow : e.toJson.nesting ≤ 127) :
    Entry.decode ⟨name, Utf8.encode e.toJson.compact⟩ = .ok ⟨name, e⟩ ∧
      Entry.decode ⟨name, Utf8.encode e.toJson.pretty⟩ = .ok ⟨name, e⟩ :=
  ⟨decode_encode (Entity.ofText_eq (Json.spells_compact exact) shallow canonical identified),
    decode_encode (Entity.ofText_eq (Json.spells_pretty exact) shallow canonical identified)⟩

namespace Sample

/-- A workflow with a branch over a compound condition, absent and empty defaults, and values that
hold each other. -/
def survey : Workflow where
  id := ⟨.workflow, "p", "d", "survey", "1"⟩
  interface := ⟨.ofList [
      ("empty", ⟨.generic "t", false, some (.struct .null)⟩),
      ("plain", ⟨.union [.simple .integer, .collection (.map .struct)], true, none⟩),
      ("unset", ⟨.blob "" .multipart, true, some .nothing⟩)],
    .ofList [("table", .schema [⟨"column", .datetime⟩])]⟩
  nodes := [
    .branch ⟨"turn", [⟨"x", .workflowInput "plain"⟩], ["first"]⟩
      (.or (.comparison (.input "x") .lte (.literal (.integer (-3))))
        (.and (.comparison (.literal (.string "a\n")) .eq (.input "x"))
          (.comparison (.literal (.boolean false)) .ne (.literal .nothing))))
      (.call ⟨"yes", [⟨"y", .nodeOutput "first" "z"⟩], []⟩ .task ⟨.task, "p", "d", "t", "1"⟩)
      (.call ⟨"no", [], []⟩ .launchPlan ⟨.launchPlan, "p", "d", "l", "1"⟩),
    .finish ⟨"last", [], []⟩]
  outputs := [⟨"table", .literal (.map [
    ("all", .collection [.nothing, .schema "s3:t", .duration "1s"]),
    ("raw", .struct (.object [("a", .array [.null, .int 18446744073709551615]), ("b", .bool true)]))])⟩]

theorem survey_canonical : survey.Canonical := by
  have names : compare "all" "raw" = .lt ∧ compare "a" "b" = .lt := by decide
  constructor
  · cbv
    simp [Parameter.Canonical, Literal.Canonical, Json.Canonical]
  · simp [survey, Node.Canonical, NodeHead.Canonical, Origin.Canonical, Condition.Canonical,
      Operand.Canonical, Literal.Canonical]
  · simp [survey, Origin.Canonical, Literal.Canonical, Literal.CanonicalItems,
      Literal.CanonicalEntries, Json.Canonical, Json.CanonicalItems, Json.CanonicalMembers,
      Entries.Increasing, names]

end Sample

theorem Entry.decode_survey :
    Entry.decode ⟨"any", Utf8.encode (Entity.workflow Sample.survey).toJson.compact⟩ =
      .ok ⟨"any", .workflow Sample.survey⟩ ∧
      Entry.decode ⟨"any", Utf8.encode (Entity.workflow Sample.survey).toJson.pretty⟩ =
      .ok ⟨"any", .workflow Sample.survey⟩ := by
  refine Entry.decode_toJson "any" (.workflow Sample.survey) Sample.survey_canonical ?_ ?_ ?_
  · cbv
  · decide +kernel
  · cbv

end WorkflowBundle
