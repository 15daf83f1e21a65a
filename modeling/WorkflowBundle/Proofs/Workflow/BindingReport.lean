import WorkflowBundle.Proofs.Narrowing
import WorkflowBundle.Proofs.Workflow.Bindings
import WorkflowBundle.Proofs.Workflow.CallFaults
import WorkflowBundle.Proofs.Workflow.Sources

/-! What a check says about the names that a call binds: which ones are missing, fixed, unknown or
bound again, each as often as it is so. Only the first binding of a name is looked at, and what is
wrong with its value is no fault of the name. -/
namespace WorkflowBundle

/-- The fault is found once under the condition, and not at all otherwise. -/
def NodeFault.OnceIf (fault : NodeFault) (p : Prop) (faults : List NodeFault) : Prop :=
  (p → faults.count fault = 1) ∧ (¬p → faults.count fault = 0)

theorem NodeFault.OnceIf.of_count {fault : NodeFault} {p : Prop} [Decidable p]
    {faults : List NodeFault} (count : faults.count fault = if p then 1 else 0) :
    fault.OnceIf p faults := by
  constructor
  · intro holds
    rw [count, if_pos holds]
  · intro fails
    rw [count, if_neg fails]

theorem Interface.nodup_requiredInputs (i : Interface) : i.requiredInputs.Nodup :=
  i.inputs.nodup_keys.sublist (List.filter_sublist.map _)

namespace Scope

/-- Callers of the reference cannot bind the input: it is to a plan that fixes it. -/
def Fixes (s : Scope) (kind : ResourceType) (reference : EntityId) (name : String) : Prop :=
  kind = .launchPlan ∧
    ∃ plan, s.index.launchPlan? reference = some plan ∧ plan.fixedInputs.contains name

/-- The faults tell all that is wrong with the names that a call binds, and nothing else of them. -/
structure Reports (s : Scope) (kind : ResourceType) (reference : EntityId) (i : Interface)
    (bound : List String) (faults : List NodeFault) : Prop where
  missing : ∀ name, NodeFault.OnceIf (.missingInput name)
    ((∃ p, i.inputs.get? name = some p ∧ p.mustBeBound) ∧ name ∉ bound) faults
  rebound : ∀ plan name, NodeFault.OnceIf (.fixedInputRebound plan name)
    (name ∈ bound ∧ plan = reference ∧ s.Fixes kind reference name) faults
  unknown : ∀ name, NodeFault.OnceIf (.unknownInput name)
    (name ∈ bound ∧ ¬s.Fixes kind reference name ∧ i.inputs.get? name = none) faults
  /-- One for each binding after the first of its name. -/
  again : ∀ name, faults.count (.duplicateBinding name) = bound.count name - 1

variable {s : Scope} {fault : NodeFault} {name : String} {b : Binding} {bindings : List Binding}
variable {types : SortedMap String DataType} {fixed : Option (EntityId × SortedMap String Literal)}

theorem fixedInputs_eq_some_iff {kind : ResourceType} {reference plan : EntityId}
    {values : SortedMap String Literal} : s.fixedInputs kind reference = some (plan, values) ↔
      kind = .launchPlan ∧ plan = reference ∧
        ∃ p, s.index.launchPlan? reference = some p ∧ p.fixedInputs = values := by
  unfold fixedInputs
  by_cases planned : kind = .launchPlan
  · rw [if_pos planned, Option.map_eq_some_iff]
    constructor
    · rintro ⟨p, found, same⟩
      obtain ⟨rfl, rfl⟩ := Prod.mk.inj same
      exact ⟨planned, rfl, p, found, rfl⟩
    · rintro ⟨-, rfl, p, found, rfl⟩
      exact ⟨p, found, rfl⟩
  · simp [planned]

theorem rebinds_iff {kind : ResourceType} {reference plan : EntityId} :
    (∃ values, s.fixedInputs kind reference = some (plan, values) ∧ values.contains name) ↔
      plan = reference ∧ s.Fixes kind reference name := by
  constructor
  · rintro ⟨values, fixes, contained⟩
    obtain ⟨planned, same, p, found, rfl⟩ := fixedInputs_eq_some_iff.mp fixes
    exact ⟨same, planned, p, found, contained⟩
  · rintro ⟨same, planned, p, found, contained⟩
    exact ⟨p.fixedInputs, fixedInputs_eq_some_iff.mpr ⟨planned, same, p, found, rfl⟩, contained⟩

theorem not_fixes_iff {kind : ResourceType} {reference : EntityId} :
    (∀ plan values, s.fixedInputs kind reference = some (plan, values) →
      values.contains name = false) ↔ ¬s.Fixes kind reference name := by
  constructor
  · intro free fixes
    obtain ⟨values, found, contained⟩ := rebinds_iff.mpr ⟨rfl, fixes⟩
    rw [free _ _ found] at contained
    contradiction
  · intro free plan values found
    rw [← Bool.not_eq_true]
    exact fun contained => free (rebinds_iff.mp ⟨values, found, contained⟩).2

theorem not_isBinding_of_originType {origin : Origin} (refused : s.originType origin = .error fault) :
    fault.isBinding = false := by
  have ofInput : ∀ {name}, s.inputType name = .error fault → fault.isBinding = false := by
    intro name refused
    unfold inputType at refused
    split at refused
    · contradiction
    · rw [← Except.error.inj refused]
      rfl
  cases origin with
  | workflowInput name => exact ofInput refused
  | literal value => contradiction
  | nodeOutput node output =>
    simp only [originType] at refused
    split at refused
    · exact ofInput refused
    · split at refused
      · contradiction
      · split at refused
        · contradiction
        · split at refused
          · contradiction
          · rw [← Except.error.inj refused]
            rfl

theorem not_isBinding_of_originFault? {expected : DataType}
    (found : s.originFault? b expected = some fault) : fault.isBinding = false := by
  unfold originFault? at found
  split at found
  · split at found
    · contradiction
    · rw [← Option.some.inj found]
      rfl
  · split at found
    next refused =>
      rw [← Option.some.inj found]
      exact not_isBinding_of_originType refused
    next => contradiction
    next =>
      split at found
      · contradiction
      · rw [← Option.some.inj found]
        rfl

/-- A first binding is of a fixed name, or of no name of an input, or it is not the name that is
at fault. -/
theorem bindingFault?_cases (found : s.bindingFault? types fixed b = some fault) :
    (∃ plan values, fixed = some (plan, values) ∧ values.contains b.parameter ∧
      fault = .fixedInputRebound plan b.parameter) ∨
    ((∀ plan values, fixed = some (plan, values) → values.contains b.parameter = false) ∧
      types.get? b.parameter = none ∧ fault = .unknownInput b.parameter) ∨
    fault.isBinding = false := by
  have declared (found : bindingFault?.declared s types b = some fault) :
      types.get? b.parameter = none ∧ fault = .unknownInput b.parameter ∨
        fault.isBinding = false := by
    unfold bindingFault?.declared at found
    split at found
    next absent => exact .inl ⟨absent, (Option.some.inj found).symm⟩
    next => exact .inr (not_isBinding_of_originFault? found)
  unfold bindingFault? at found
  split at found
  next plan values =>
    split at found
    next contained => exact .inl ⟨plan, values, rfl, contained, (Option.some.inj found).symm⟩
    next free =>
      refine .inr ((declared found).imp_left fun undeclared => ⟨?_, undeclared⟩)
      rintro _ _ ⟨⟩
      simpa using free
  next => exact .inr ((declared found).imp_left fun undeclared => ⟨by simp, undeclared⟩)

theorem bindingFault?_eq_rebound_iff {plan : EntityId} :
    s.bindingFault? types fixed b = some (.fixedInputRebound plan name) ↔
      b.parameter = name ∧ ∃ values, fixed = some (plan, values) ∧ values.contains name := by
  constructor
  · intro found
    rcases bindingFault?_cases found with ⟨plan', values, fixes, contained, same⟩ | ⟨-, -, same⟩ | other
    · obtain ⟨rfl, rfl⟩ := NodeFault.fixedInputRebound.inj same
      exact ⟨rfl, values, fixes, contained⟩
    · contradiction
    · contradiction
  · rintro ⟨rfl, values, rfl, contained⟩
    simp [bindingFault?, contained]

theorem bindingFault?_eq_unknown_iff :
    s.bindingFault? types fixed b = some (.unknownInput name) ↔
      b.parameter = name ∧
        (∀ plan values, fixed = some (plan, values) → values.contains name = false) ∧
        types.get? name = none := by
  constructor
  · intro found
    rcases bindingFault?_cases found with ⟨_, _, -, -, same⟩ | ⟨free, absent, same⟩ | other
    · contradiction
    · obtain rfl := NodeFault.unknownInput.inj same
      exact ⟨rfl, free, absent⟩
    · contradiction
  · rintro ⟨rfl, free, absent⟩
    unfold bindingFault?
    split
    next plan values => simp [free plan values rfl, bindingFault?.declared, absent]
    next => simp [bindingFault?.declared, absent]

theorem bindingFault?_ne_duplicate : s.bindingFault? types fixed b ≠ some (.duplicateBinding name) := by
  intro found
  rcases bindingFault?_cases found with ⟨_, _, -, -, same⟩ | ⟨-, -, same⟩ | other <;> contradiction

theorem bindingFault?_ne_missing : s.bindingFault? types fixed b ≠ some (.missingInput name) := by
  intro found
  rcases bindingFault?_cases found with ⟨_, _, -, -, same⟩ | ⟨-, -, same⟩ | other <;> contradiction

theorem count_bindingFault?_eq_zero (other : s.bindingFault? types fixed b ≠ some fault) :
    (s.bindingFault? types fixed b).toList.count fault = 0 :=
  List.count_eq_zero.mpr fun found => other (Option.mem_toList.mp found)

/-- A fault of a name is found at the first binding of the name and nowhere else. -/
theorem count_bindingFaults {p : Prop} [Decidable p] (single : ∀ name, .duplicateBinding name ≠ fault)
    (found : ∀ b, s.bindingFault? types fixed b = some fault ↔ b.parameter = name ∧ p)
    (bound : List String) : (s.bindingFaults types fixed bindings bound).count fault =
      if name ∉ bound ∧ name ∈ bindings.map Binding.parameter ∧ p then 1 else 0 := by
  induction bindings generalizing bound with
  | nil => simp [bindingFaults]
  | cons b bindings ih =>
    unfold bindingFaults
    rw [List.map_cons]
    split
    next again =>
      have again : b.parameter ∈ bound := by simpa using again
      rw [List.count_cons_of_ne (single _), ih]
      by_cases here : name = b.parameter
      · simp [here, again]
      · simp [here]
    next new =>
      have new : b.parameter ∉ bound := by simpa using new
      rw [List.count_append, ih]
      by_cases here : name = b.parameter
      · have first : (s.bindingFault? types fixed b).toList.count fault = if p then 1 else 0 := by
          by_cases holds : p
          · rw [(found b).mpr ⟨here.symm, holds⟩]
            simp [holds]
          · rw [if_neg holds]
            exact count_bindingFault?_eq_zero fun at_fault => holds ((found b).mp at_fault).2
        simp [here, new, first]
      · have other : (s.bindingFault? types fixed b).toList.count fault = 0 :=
          count_bindingFault?_eq_zero fun at_fault => here ((found b).mp at_fault).1.symm
        simp [here, other]

/-- Each binding of a name after the first is a fault. -/
theorem count_duplicates (bound : List String) :
    (s.bindingFaults types fixed bindings bound).count (.duplicateBinding name) =
      (bindings.map Binding.parameter).count name - if name ∈ bound then 0 else 1 := by
  induction bindings generalizing bound with
  | nil => simp [bindingFaults]
  | cons b bindings ih =>
    unfold bindingFaults
    rw [List.map_cons]
    split
    next again =>
      have again : b.parameter ∈ bound := by simpa using again
      rw [List.count_cons, ih, List.count_cons]
      by_cases here : b.parameter = name
      · simp [← here, again]
      · simp [here]
    next new =>
      have new : b.parameter ∉ bound := by simpa using new
      have first : (s.bindingFault? types fixed b).toList.count (.duplicateBinding name) = 0 :=
        count_bindingFault?_eq_zero bindingFault?_ne_duplicate
      rw [List.count_append, ih, first, List.count_cons]
      by_cases here : b.parameter = name
      · simp [← here, new]
      · simp [here, Ne.symm here]

theorem count_missing {names : List String} (distinct : names.Nodup) :
    (missing names bindings).count (.missingInput name) =
      if name ∈ names ∧ name ∉ bindings.map Binding.parameter then 1 else 0 := by
  have injective : Function.Injective NodeFault.missingInput := fun _ _ => NodeFault.missingInput.inj
  rw [missing, List.count_map_of_injective _ _ injective, (distinct.filter _).count]
  simp

theorem count_missing_eq_zero {names : List String} (other : ∀ name, .missingInput name ≠ fault) :
    (missing names bindings).count fault = 0 := by
  refine List.count_eq_zero.mpr fun found => ?_
  obtain ⟨name, -, same⟩ := List.mem_map.mp found
  exact other name same

open Classical in
/-- What is found at a call tells all that is wrong with the names that it binds. -/
theorem reports_callFaults {head : NodeHead} {kind : ResourceType} {reference : EntityId}
    {i : Interface} {faults : List NodeFault} (same : ∀ fault : NodeFault, fault.isBinding →
      faults.count fault = (s.callFaults head i (s.fixedInputs kind reference)).count fault) :
    s.Reports kind reference i (head.inputs.map Binding.parameter) faults where
  missing name := by
    apply NodeFault.OnceIf.of_count
    have never (b : Binding) :
        s.bindingFault? i.inputTypes (s.fixedInputs kind reference) b = some (.missingInput name) ↔
          b.parameter = name ∧ False := by
      simp [bindingFault?_ne_missing]
    rw [same _ rfl, callFaults, List.count_append, count_missing i.nodup_requiredInputs,
      count_bindingFaults (by simp) never]
    simp [Interface.mem_requiredInputs]
  rebound plan name := by
    apply NodeFault.OnceIf.of_count
    rw [same _ rfl, callFaults, List.count_append, count_missing_eq_zero (by simp),
      count_bindingFaults (by simp) fun _ => bindingFault?_eq_rebound_iff]
    simp [rebinds_iff]
  unknown name := by
    apply NodeFault.OnceIf.of_count
    rw [same _ rfl, callFaults, List.count_append, count_missing_eq_zero (by simp),
      count_bindingFaults (by simp) fun _ => bindingFault?_eq_unknown_iff]
    simp [not_fixes_iff, Interface.inputTypes, SortedMap.get?_map]
  again name := by
    rw [same _ rfl, callFaults, List.count_append, count_missing_eq_zero (by simp), count_duplicates]
    simp

end Scope

namespace Sample

/-- Binds the input that the plan fixes three times, one that it gives a default, and two names that
are no inputs. The one that has to be bound is not. -/
def mistaken : NodeHead :=
  ⟨"n", [⟨"k", .literal (.integer 1)⟩, ⟨"q", .nodeOutput "gone" "v"⟩, ⟨"x", .workflowInput "a"⟩,
    ⟨"k", .nodeOutput "n" "v"⟩, ⟨"r", .literal (.boolean true)⟩, ⟨"k", .workflowInput "a"⟩], []⟩

/-- A call in an inner arm of a branch that waits for a node that there is not, and for a step that
waits for the branch. -/
def tangled : Scope where
  workflow := {
    id := callee "w"
    interface := ⟨.empty, .ofList [("y", .simple .integer)]⟩
    nodes := [.call ⟨"m", [], ["b"]⟩ .task (callee "lost"),
      .branch ⟨"b", [⟨"u", .workflowInput "a"⟩], ["gone", "m"]⟩ always
        (.call ⟨"o", [], []⟩ .task (callee "lost"))
        (.branch ⟨"c", [], []⟩ always (.call mistaken .launchPlan tuned.id) (.start ⟨"p", [], []⟩))] }
  index := ⟨.ofList [(tuned.id, ⟨"p", .launchPlan tuned⟩)]⟩
  interfaces := .ofList [(tuned.id, tuned.exposed metered)]
  rule := .allMembers

end Sample

/-- Whatever else is wrong with a workflow, its check finds all that is wrong with the names that a
call in it binds, at whatever depth: each missing, fixed or unknown name once, and each binding
after the first of its name. -/
theorem Scope.reports_faultsAt {s : Scope} {head : NodeHead} {kind : ResourceType}
    {reference : EntityId} {i : Interface} (distinct : (s.workflow.allNodes.map Node.id).Nodup)
    (call : .call head kind reference ∈ s.workflow.allNodes) (other : head.id ≠ Workflow.finishId)
    (known : s.interfaces.get? reference = some i) :
    s.Reports kind reference i (head.inputs.map Binding.parameter) (s.faultsAt head.id) :=
  reports_callFaults fun _ binding => count_faultsAt_call distinct call other known binding

open Sample in
theorem reports_faultsAt_tangled :
    (∃ cycles, tangled.workflow.nodeOrder = .error cycles) ∧
    tangled.workflow.linkFaults ≠ [] ∧
    (tangled.faultsAt "n").count (.missingInput "z") = 1 ∧
    (tangled.faultsAt "n").count (.fixedInputRebound tuned.id "k") = 1 ∧
    (tangled.faultsAt "n").count (.unknownInput "q") = 1 ∧
    (tangled.faultsAt "n").count (.unknownInput "r") = 1 ∧
    (tangled.faultsAt "n").count (.unknownInput "x") = 0 ∧
    (tangled.faultsAt "n").count (.duplicateBinding "k") = 2 := by
  have call : .call mistaken .launchPlan tuned.id ∈ tangled.workflow.allNodes := by
    simp [tangled, Workflow.allNodes, Node.flatten]
  have known : tangled.interfaces.get? tuned.id = some (tuned.exposed metered) := by rfl
  have reports : tangled.Reports .launchPlan tuned.id (tuned.exposed metered)
      (mistaken.inputs.map Binding.parameter) (tangled.faultsAt "n") :=
    Scope.reports_faultsAt (by decide) call (by decide) known
  have fixes : tangled.Fixes .launchPlan tuned.id "k" := ⟨rfl, tuned, by rfl, by rfl⟩
  have free : ∀ name, name ≠ "k" → ¬tangled.Fixes .launchPlan tuned.id name := by
    rintro name other ⟨-, plan, found, contained⟩
    obtain rfl : tuned = plan := Option.some.inj found
    exact other (List.mem_singleton.mp (SortedMap.contains_iff_mem_keys.mp contained))
  refine ⟨?_, ?_, ?_, ?_, ?_, ?_, ?_, ?_⟩
  · exact ⟨_, rfl⟩
  · decide
  · exact (reports.missing "z").1 ⟨⟨⟨.simple .boolean, true, none⟩, by rfl, by rfl⟩, by decide⟩
  · exact (reports.rebound tuned.id "k").1 ⟨by decide, rfl, fixes⟩
  · exact (reports.unknown "q").1 ⟨by decide, free _ (by decide), by rfl⟩
  · exact (reports.unknown "r").1 ⟨by decide, free _ (by decide), by rfl⟩
  · exact (reports.unknown "x").2 (by rintro ⟨-, -, absent⟩; contradiction)
  · exact reports.again "k"

end WorkflowBundle
