import WorkflowBundle.Proofs.AsciiEntry
import WorkflowBundle.Proofs.DataType.Compatibility
import WorkflowBundle.Proofs.Workflow.Sources

/-! The two rules for unions. What the checks let pass under some rule they let pass under the one
that asks for a single member, and nothing else depends on the rule. -/
namespace WorkflowBundle

namespace Scope

variable {s : Scope} {node a b : Node} {types : SortedMap String DataType}
variable {fixed : Option (EntityId × SortedMap String Literal)} {bindings : List Binding}

/-- The same workflow, checked by the rule that asks for a single member. -/
def relaxed (s : Scope) : Scope := { s with rule := .anyMember }

theorem armMismatch?_relaxed {produced other : Outputs}
    (fits : s.armMismatch? a produced b other = none) :
    s.relaxed.armMismatch? a produced b other = none := by
  rw [armMismatch?_eq_none_iff] at fits ⊢
  refine ⟨fits.names, fun name type otherType h h' => ?_⟩
  obtain ⟨first, second⟩ := fits.types name type otherType h h'
  exact ⟨DataType.isCompatible_anyMember first, DataType.isCompatible_anyMember second⟩

/-- Where the arms agree the rule makes no difference to what a node produces. -/
theorem exposes_relaxed (empty : s.armFaults node = []) :
    s.relaxed.exposes node = s.exposes node ∧ s.relaxed.armFaults node = [] := by
  induction node with
  | branch head condition a b iha ihb =>
    simp only [armFaults, List.append_eq_nil_iff] at empty
    obtain ⟨⟨faultless, faultless'⟩, fits⟩ := empty
    obtain ⟨first, relaxed⟩ := iha faultless
    obtain ⟨second, relaxed'⟩ := ihb faultless'
    simp only [exposes, armFaults, first, second, relaxed, relaxed', List.nil_append]
    cases producedBy : s.exposes a with
    | none => simp
    | some produced =>
      cases producedBy' : s.exposes b with
      | none => simp
      | some other =>
        simp only [producedBy, producedBy'] at fits ⊢
        cases mismatch : s.armMismatch? a produced b other with
        | none => simp [armMismatch?_relaxed mismatch]
        | some found => simp [mismatch] at fits
  | call | start | finish => exact ⟨rfl, rfl⟩

theorem conditionFaults_relaxed {known : List (String × Option DataType)} {condition : Condition}
    (empty : s.conditionFaults known condition = []) :
    s.relaxed.conditionFaults known condition = [] := by
  have comparison : ∀ op l r, s.comparisonFaults op l r = [] →
      s.relaxed.comparisonFaults op l r = [] := by
    intro op l r
    simp only [comparisonFaults]
    split
    next =>
      split
      next comparable => simp [relaxed, DataType.isComparable_anyMember comparable]
      next => simp
    next => exact id
  induction condition with
  | comparison left op right =>
    unfold conditionFaults at empty ⊢
    split
    next l r first second =>
      simp only [first, second] at empty
      exact comparison op l r empty
    next => rfl
    next first second => simp [first, second] at empty
    next first second => simp [first, second] at empty
    next first second => simp [first, second] at empty
  | and a b iha ihb | or a b iha ihb =>
    obtain ⟨first, second⟩ := List.append_eq_nil_iff.mp empty
    exact List.append_eq_nil_iff.mpr ⟨iha first, ihb second⟩

section Agreeing

variable (agree : ∀ node ∈ s.workflow.nodes, s.armFaults node = [])
include agree

theorem originType_relaxed (origin : Origin) : s.relaxed.originType origin = s.originType origin := by
  cases origin with
  | workflowInput name => rfl
  | literal value => rfl
  | nodeOutput id output =>
    have exposed : (s.workflow.node? id).bind s.relaxed.exposes =
        (s.workflow.node? id).bind s.exposes := by
      cases found : s.workflow.node? id with
      | none => rfl
      | some node => exact (exposes_relaxed (agree node (List.mem_of_find?_eq_some found))).1
    simp only [originType, show s.relaxed.workflow = s.workflow from rfl, exposed]
    rfl

theorem originFault?_relaxed {b : Binding} {expected : DataType}
    (empty : s.originFault? b expected = none) : s.relaxed.originFault? b expected = none := by
  rw [originFault?_eq_none_iff] at empty ⊢
  rw [originType_relaxed agree]
  rcases empty with literal | ⟨bound, unknown | ⟨type, found, compatible⟩⟩
  · exact .inl literal
  · exact .inr ⟨bound, .inl unknown⟩
  · exact .inr ⟨bound, .inr ⟨type, found, DataType.isCompatible_anyMember compatible⟩⟩

theorem bindingFaults_relaxed {bound : List String}
    (empty : s.bindingFaults types fixed bindings bound = []) :
    s.relaxed.bindingFaults types fixed bindings bound = [] := by
  rw [bindingFaults_eq_nil_iff] at empty ⊢
  obtain ⟨new, distinct, faultless⟩ := empty
  refine ⟨new, distinct, fun b hb => ?_⟩
  obtain ⟨free, type, declared, valued⟩ := bindingFault?_eq_none_iff.mp (faultless b hb)
  exact bindingFault?_eq_none_iff.mpr ⟨free, type, declared, originFault?_relaxed agree valued⟩

theorem bindVariables_relaxed (known : List (String × Option DataType)) :
    s.relaxed.bindVariables bindings known = s.bindVariables bindings known := by
  induction bindings generalizing known with
  | nil => rfl
  | cons b bindings ih => simp only [bindVariables, originType_relaxed agree, ih]

theorem nodeFaults_relaxed {inArm : Bool} (empty : s.nodeFaults inArm node = []) :
    s.relaxed.nodeFaults inArm node = [] := by
  induction node generalizing inArm with
  | call head kind reference =>
    simp only [nodeFaults, show s.relaxed.interfaces = s.interfaces from rfl] at empty ⊢
    split at empty
    next => rfl
    next i found =>
      simp only [callFaults, List.map_eq_nil_iff, List.append_eq_nil_iff] at empty ⊢
      exact ⟨bindingFaults_relaxed agree empty.1, empty.2⟩
  | branch head condition a b iha ihb =>
    simp only [nodeFaults, branchFaults, List.append_eq_nil_iff, List.map_eq_nil_iff] at empty ⊢
    obtain ⟨⟨⟨made, compared⟩, first⟩, second⟩ := empty
    rw [bindVariables_relaxed agree]
    exact ⟨⟨⟨made, conditionFaults_relaxed compared⟩, iha first⟩, ihb second⟩
  | start | finish => exact empty

end Agreeing

theorem defects_relaxed (empty : s.defects = []) : s.relaxed.defects = [] := by
  have clean := clean_of_defects empty
  have outputs := clean.outputs
  simp only [outputFaults, List.map_eq_nil_iff, List.append_eq_nil_iff] at outputs
  simp only [defects, faults, List.append_eq_nil_iff, List.map_eq_nil_iff,
    List.flatMap_eq_nil_iff, outputFaults] at empty ⊢
  refine ⟨empty.1, ⟨fun node first => ?_, fun node member => ?_⟩, ?_⟩
  · rw [show s.relaxed.workflow = s.workflow from rfl, clean.sound.firstNodes_eq] at first
    exact (exposes_relaxed (clean.arms node first)).2
  · exact nodeFaults_relaxed clean.arms (clean.nodes node member)
  · exact ⟨bindingFaults_relaxed clean.arms outputs.1, outputs.2⟩

/-- What passes the checks passes them under the other rule, and comes out the same. -/
theorem check_relaxed {checked : CheckedWorkflow} (accepted : s.check = .ok checked) :
    s.relaxed.check = .ok checked := by
  obtain ⟨empty, same⟩ := check_eq_ok_iff.mp accepted
  exact check_eq_ok_iff.mpr ⟨defects_relaxed empty, same⟩

end Scope

/-- Of what is known about a bundle a closure has only what the index and the members say. -/
theorem Compilation.closure_congr {c c' : Compilation} (index : c'.index = c.index)
    (members : c.index.records.filterMap c'.member? = c.index.records.filterMap c.member?) :
    c'.closure = c.closure := by
  simp only [closure, index, members]

namespace Compilation.Clean

variable {rule : UnionRule} {entries : List Entry} (clean : Clean rule entries)
include clean

theorem relaxed : Clean .anyMember entries where
  decoded := clean.decoded
  indexed := clean.indexed
  resolved := clean.resolved
  checked := by
    refine List.flatMap_eq_nil_iff.mpr fun w member => ?_
    have empty := List.flatMap_eq_nil_iff.mp clean.checked w member
    exact Scope.defects_relaxed empty
  ordered := clean.ordered

theorem member?_relaxed {id : EntityId} {r : Record}
    (found : (ofEntries rule entries).index.records.get? id = some r) :
    (ofEntries .anyMember entries).member? id r = (ofEntries rule entries).member? id r := by
  have declared := Index.get?_eq_some_iff.mpr ⟨r, found, rfl⟩
  unfold member?
  split
  next => rfl
  next w eq =>
    rw [eq] at declared
    have accepted := Scope.check_eq_ok_iff.mpr ⟨clean.scope_defects declared, rfl⟩
    rw [accepted]
    have accepted' : ((ofEntries .anyMember entries).scope w).check = .ok _ :=
      Scope.check_relaxed accepted
    rw [accepted']
  next => rfl

theorem closure_relaxed :
    (ofEntries .anyMember entries).closure = (ofEntries rule entries).closure := by
  refine closure_congr rfl (SortedMap.ext_get? fun id => ?_)
  rw [SortedMap.get?_filterMap, SortedMap.get?_filterMap]
  cases found : (ofEntries rule entries).index.records.get? id with
  | none => simp only [Option.bind_none]
  | some r => exact clean.member?_relaxed found

end Compilation.Clean

namespace Sample

/-- A task that takes more types than the workflow that calls it has to give. -/
def wideTask : Task where
  id := task.id
  interface := ⟨.ofList [("x", { dataType := .union [.simple .integer, .simple .string, .struct] })],
    .empty⟩

def narrowWorkflow : Workflow where
  id := workflow.id
  interface := ⟨.ofList [("x", { dataType := .union [.simple .string, .simple .integer] })], .empty⟩
  nodes := [.call ⟨"n", [⟨"x", .workflowInput "x"⟩], []⟩ .task task.id]

def wideTaskEntry : Entry := .ofText "t" "\x7b\"kind\":\"task\",\"id\":[\"task\",\"p\",\"d\",\"t\",\"1\"],
  \"interface\":[\x7b\"x\":[\x7b\"union\":[\x7b\"simple\":\"integer\"\x7d,\x7b\"simple\":\"string\"\x7d,\"struct\"]\x7d]\x7d]\x7d"

def narrowWorkflowEntry : Entry := .ofText "w" "\x7b\"kind\":\"workflow\",
  \"id\":[\"workflow\",\"p\",\"d\",\"w\",\"1\"],
  \"interface\":[\x7b\"x\":[\x7b\"union\":[\x7b\"simple\":\"string\"\x7d,\x7b\"simple\":\"integer\"\x7d]\x7d]\x7d],
  \"nodes\":[[\"n\",\x7b\"type\":\"task\",\"reference\":[\"task\",\"p\",\"d\",\"t\",\"1\"]\x7d,
    [[\"x\",\x7b\"workflow_input\":[\"x\"]\x7d]]]]\x7d"

set_option maxRecDepth 10000

theorem record?_wideTaskEntry : wideTaskEntry.record? = some ⟨"t", .task wideTask⟩ := by
  refine Entry.record?_ofText "t" String.toList_ofList (by decide +kernel) ?_
  rw [Entity.ofText, Entity.source, Json.Reader.source, String.toList_ofList]
  cbv

theorem record?_narrowWorkflowEntry :
    narrowWorkflowEntry.record? = some ⟨"w", .workflow narrowWorkflow⟩ := by
  refine Entry.record?_ofText "w" String.toList_ofList (by decide +kernel) ?_
  rw [Entity.ofText, Entity.source, Json.Reader.source, String.toList_ofList]
  cbv

theorem compiles_allMembers :
    ∃ c, compile .allMembers [wideTaskEntry, narrowWorkflowEntry] = .ok c := by
  have empty : Compilation.foundInRecords .allMembers
      [⟨"t", .task wideTask⟩, ⟨"w", .workflow narrowWorkflow⟩] = [] := by cbv
  refine Compilation.exists_compile_of_records ?_ empty
  simp [record?_wideTaskEntry, record?_narrowWorkflowEntry]

end Sample

/-- A bundle that compiles where all members of a union have to agree compiles to the same
closure where one has to: the types that are compatible under the first rule are so under the
second. -/
theorem compile_anyMember_of_allMembers :
    (∀ entries c, compile .allMembers entries = .ok c → compile .anyMember entries = .ok c) ∧
      ∀ p q : DataType, p.isCompatible .allMembers q → p.isCompatible .anyMember q := by
  refine ⟨fun entries c ok => ?_, fun p q compatible => DataType.isCompatible_anyMember compatible⟩
  obtain ⟨clean, rfl⟩ := Compilation.compile_eq_ok_iff.mp ok
  exact Compilation.compile_eq_ok_iff.mpr ⟨clean.relaxed, clean.closure_relaxed⟩

theorem compile_anyMember_of_allMembers_wide : ∃ c,
    compile .allMembers [Sample.wideTaskEntry, Sample.narrowWorkflowEntry] = .ok c ∧
      compile .anyMember [Sample.wideTaskEntry, Sample.narrowWorkflowEntry] = .ok c ∧
      (DataType.collection (.union [.struct, .simple .string])).isCompatible .anyMember
        (.collection (.union [.simple .string, .simple .float, .struct])) := by
  obtain ⟨c, ok⟩ := Sample.compiles_allMembers
  obtain ⟨entries, types⟩ := compile_anyMember_of_allMembers
  exact ⟨c, ok, entries _ c ok, types _ _ (by decide)⟩

end WorkflowBundle
