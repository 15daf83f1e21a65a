import WorkflowBundle.Closure.Digest
import WorkflowBundle.Proofs.Closure
import WorkflowBundle.Proofs.Wire.Entities

/-! Closures are read back from their JSON. Their members travel without their keys, which they
carry themselves, so closures with the same JSON are the same. -/
namespace WorkflowBundle

open Document (ofJson)

theorem Edge.read_toJson (e : Edge) : Edge.read (ofJson e.toJson) = .ok e := by
  have name (s : String) : Document.readOption Document.readString (ofJson (.string s)) =
      .ok (some s) :=
    Document.readOption_some (by simp) (Document.readString_string s)
  obtain ⟨source, target, output, input⟩ := e
  rw [Edge.read, Edge.toJson]
  cases output <;> cases input
  all_goals
    rw [Document.readRecord_object (by simp [Json.optional]) (by simp [Json.optional])]
    simp [Json.optional, name, Document.readString_string, Document.required, bind, Except.bind, pure,
      Except.pure]

/-- A checked workflow is read back from its fields, which may have stood beside a tag. -/
theorem CheckedWorkflow.read_members (form : Form) {w : CheckedWorkflow}
    (canonical : w.spec.Canonical) :
    CheckedWorkflow.read form (ofJson (.object w.members)) = .ok w := by
  have spec : Workflow.read form (ofJson w.spec.toJson) = .ok w.spec :=
    Workflow.read_members form canonical
  have edges : Document.readList Edge.read (ofJson (.array (w.edges.map Edge.toJson))) =
      .ok w.edges :=
    Document.readList_array fun e _ => e.read_toJson
  rw [CheckedWorkflow.read, CheckedWorkflow.members,
    Document.readRecord_object (by simp) (by simp)]
  simp [spec, readList_strings, edges, Document.required, bind, Except.bind, pure, Except.pure]

namespace Member

/-- Maps in the member are in key order with each key once, as they are in everything that is read
or compiled. -/
def Canonical : Member → Prop
  | task t => t.Canonical
  | workflow w => w.spec.Canonical
  | launchPlan p exposed => p.Canonical ∧ exposed.Canonical

theorem readTask_object {t : Task} (canonical : t.Canonical) :
    readTask (ofJson (.object [("spec", t.toJson)])) = .ok (.task t) := by
  have spec : Task.read .buffered (ofJson t.toJson) = .ok t := t.read_members .buffered canonical
  rw [readTask, Document.readRecord_object (by simp) (by simp)]
  simp [spec, Document.required, bind, Except.bind, pure, Except.pure]

theorem readLaunchPlan_object {p : LaunchPlan} {exposed : Interface} (plan : p.Canonical)
    (interface : exposed.Canonical) :
    readLaunchPlan (ofJson (.object [("spec", p.toJson), ("interface", exposed.toJson)])) =
      .ok (.launchPlan p exposed) := by
  have spec : LaunchPlan.read .buffered (ofJson p.toJson) = .ok p :=
    p.read_members .buffered plan
  rw [readLaunchPlan, Document.readRecord_object (by simp) (by simp)]
  simp [spec, Interface.read_toJson .buffered interface, Document.required, bind, Except.bind, pure,
    Except.pure]

theorem read_toJson (form : Form) {m : Member} (canonical : m.Canonical) :
    read form (ofJson m.toJson) = .ok m := by
  rw [read]
  cases m with
  | task t =>
    rw [toJson, Document.readTagged_object (by decide) (by simp)]
    simp [readTask_object canonical, bind, Except.bind]
  | workflow w =>
    rw [toJson, Document.readTagged_object (by decide) (by simp [CheckedWorkflow.members])]
    simp [CheckedWorkflow.read_members .buffered canonical, bind, Except.bind, pure, Except.pure]
  | launchPlan p exposed =>
    rw [toJson, Document.readTagged_object (by decide) (by simp)]
    simp [readLaunchPlan_object canonical.1 canonical.2, bind, Except.bind]

end Member

namespace Closure

/-- Each member stands under its own identifier. -/
def Keyed (c : Closure) : Prop := ∀ e ∈ c.members.entries, e.1 = e.2.id

/-- What the text of a closure is asked for: no double in it, at most 127 levels, and maps as maps
are, in key order with each key once. -/
structure Plain (c : Closure) : Prop where
  canonical : ∀ e ∈ c.members.entries, e.2.Canonical
  exact : c.toJson.Exact
  shallow : c.toJson.nesting ≤ 127

theorem Keyed.ofList_values {c : Closure} (keyed : c.Keyed) :
    SortedMap.ofList (c.members.values.map fun m => (m.id, m)) = c.members := by
  have entries : (c.members.values.map fun m => (m.id, m)) = c.members.entries := by
    rw [SortedMap.values, List.map_map]
    conv => rhs; rw [← List.map_id c.members.entries]
    refine List.map_congr_left fun e among => ?_
    rw [Function.comp_apply, ← keyed e among]
    rfl
  rw [entries, SortedMap.ofList_entries]

theorem read_toJson (form : Form) {c : Closure} (keyed : c.Keyed)
    (canonical : ∀ e ∈ c.members.entries, e.2.Canonical) :
    read form (ofJson c.toJson) = .ok c := by
  have members : Document.readList (Member.read form)
      (ofJson (.array (c.members.values.map Member.toJson))) = .ok c.members.values := by
    refine Document.readList_array fun m among => ?_
    obtain ⟨e, within, rfl⟩ := List.mem_map.mp among
    exact Member.read_toJson form (canonical e within)
  have order : Document.readList (EntityId.read form)
      (ofJson (.array (c.order.map EntityId.toJson))) = .ok c.order :=
    Document.readList_array fun id _ => id.read_toJson form
  rw [read, toJson, Document.readRecord_object (by simp) (by simp)]
  simp [members, order, keyed.ofList_values, Document.required, bind, Except.bind, pure, Except.pure]

/-- The JSON of a closure is faithful: it is read back as the closure, and no other closure has
the bytes of which the digest is taken. -/
theorem toJson_faithful (c : Closure) (keyed : c.Keyed) (plain : c.Plain) :
    (Json.Reader.document? c.toJson.pretty).map (read .direct) = some (.ok c) ∧
      ∀ d : Closure, d.Keyed → d.Plain → d.canonicalBytes = c.canonicalBytes → d = c := by
  have back {d : Closure} (keyed : d.Keyed) (plain : d.Plain) {text : String}
      (spelled : Json.Spells text d.toJson) :
      (Json.Reader.document? text).map (read .direct) = some (.ok d) := by
    rw [Json.document?_eq spelled plain.shallow, Option.map_some,
      read_toJson .direct keyed plain.canonical]
  refine ⟨back keyed plain (Json.spells_pretty plain.exact), fun d keyed' plain' same => ?_⟩
  have mine := back keyed plain (Json.spells_compact plain.exact)
  have other := back keyed' plain' (Json.spells_compact plain'.exact)
  rw [Utf8.encode_injective same, mine] at other
  exact (Except.ok.inj (Option.some.inj other)).symm

end Closure

namespace Sample

/-- A task with settings, a workflow whose edges have one label or none, and a plan. -/
def bundle : Closure where
  members := .ofList [
    (task.id, .task { task with metadata := .object [("image", .null), ("retries", .int 2)] }),
    (survey.id, .workflow ⟨survey, ["turn"],
      [⟨"start-node", "turn", some "plain", none⟩, ⟨"turn", "end-node", none, none⟩]⟩),
    (plan.id, .launchPlan plan ⟨.empty, task.interface.outputs⟩)]
  order := [task.id, survey.id, plan.id]

theorem entries_bundle : bundle.members.entries = [
    (task.id, .task { task with metadata := .object [("image", .null), ("retries", .int 2)] }),
    (survey.id, .workflow ⟨survey, ["turn"],
      [⟨"start-node", "turn", some "plain", none⟩, ⟨"turn", "end-node", none, none⟩]⟩),
    (plan.id, .launchPlan plan ⟨.empty, task.interface.outputs⟩)] := by
  have ids : compare task.id survey.id = .lt ∧ compare task.id plan.id = .lt ∧
      compare survey.id plan.id = .lt := by decide
  exact SortedMap.entries_ofList (by simp [Entries.Increasing, ids])

theorem bundle_keyed : bundle.Keyed := by
  rw [Closure.Keyed, entries_bundle]
  simp [Member.id]

theorem bundle_plain : bundle.Plain where
  canonical := by
    have names : compare "image" "retries" = .lt := by decide
    have settings : (Json.object [("image", .null), ("retries", .int 2)]).Canonical := by
      simp [Json.Canonical, Json.CanonicalMembers, Entries.Increasing, names]
    have inputs : task.interface.inputs.entries =
        [("x", { dataType := .simple .integer })] := rfl
    have bare : task.interface.Canonical := by
      simp [Interface.Canonical, inputs, Parameter.Canonical]
    have fixed : plan.fixedInputs.entries = [("x", .integer 3)] := rfl
    have default : plan.defaultInputs.entries = [] := rfl
    have closed : plan.Canonical := ⟨by simp [fixed, Literal.Canonical], by simp [default]⟩
    have exposed : Interface.Canonical ⟨.empty, task.interface.outputs⟩ := by
      intro e among
      contradiction
    simp only [entries_bundle, List.forall_mem_cons, Member.Canonical]
    exact ⟨⟨bare, settings⟩, survey_canonical, ⟨closed, exposed⟩, by simp⟩
  exact := by decide +kernel
  shallow := by cbv

end Sample

theorem Closure.read_bundle :
    (Json.Reader.document? Sample.bundle.toJson.pretty).map (Closure.read .direct) =
      some (.ok Sample.bundle) :=
  (Closure.toJson_faithful Sample.bundle Sample.bundle_keyed Sample.bundle_plain).1

/-- What a bundle compiles to is keyed by the identifiers of its members. -/
theorem compile_keyed {rule : UnionRule} {entries : List Entry} {c : Closure}
    (h : compile rule entries = .ok c) : c.Keyed := by
  obtain ⟨clean, rfl⟩ := Compilation.compile_eq_ok_iff.mp h
  obtain ⟨entities, -, same⟩ := clean.holds
  intro m among
  obtain ⟨e, -, listed⟩ := List.mem_map.mp (same.mem_iff.mp (List.mem_map_of_mem among))
  obtain ⟨key, entity⟩ := Prod.mk.inj listed
  rw [← key, entity]
  cases m.2 <;> rfl

end WorkflowBundle
