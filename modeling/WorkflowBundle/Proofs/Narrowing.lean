import Mathlib.Data.List.Forall2
import WorkflowBundle.Proofs.InterfaceTable

/-! What a launch plan leaves of the interface of its workflow. A plan whose values all find an
input to go to takes the fixed inputs away and makes the defaulted ones optional; of any other plan
each value that finds none is reported. -/
namespace WorkflowBundle

/-- Entries that a function is defined for and what it gives for them, side by side. -/
theorem forall₂_filterMap (f : α → Option β) (list : List α) :
    List.Forall₂ (fun a b => f a = some b) (list.filter fun a => (f a).isSome)
      (list.filterMap f) := by
  induction list with
  | nil => exact .nil
  | cons a list ih =>
    cases given : f a with
    | none => simpa [given] using ih
    | some b => simpa [given] using ih

/-- Names of the entries that a function leaves and that pass a test, when name and old value tell
both. -/
theorem Entries.names_filterMap {f : κ → β → Option γ} (before : β → Bool) (after : γ → Bool)
    (free : κ → Bool) {entries : Entries κ β}
    (passes : ∀ e ∈ entries, (f e.1 e.2).any after = (before e.2 && free e.1)) :
    ((entries.filterMap fun e => (f e.1 e.2).map (e.1, ·)).filter fun e => after e.2).map (·.1) =
      ((entries.filter fun e => before e.2).map (·.1)).filter free := by
  induction entries with
  | nil => rfl
  | cons e entries ih =>
    have first := passes e List.mem_cons_self
    have rest := ih fun other member => passes other (List.mem_cons_of_mem _ member)
    cases given : f e.1 e.2 with
    | none =>
      cases asked : before e.2 <;> simp_all
    | some value =>
      cases asked : before e.2 <;> cases kept : free e.1 <;> simp_all

/-- The interface has an input of the name, and the value is one of its type. -/
def Interface.Takes (i : Interface) (name : String) (value : Literal) : Prop :=
  ∃ p, i.inputs.get? name = some p ∧ p.dataType.admits value

instance (i : Interface) (name : String) (value : Literal) : Decidable (i.Takes name value) :=
  decidable_of_iff ((i.inputs.get? name).any fun p => p.dataType.admits value) <| by
    simp [Interface.Takes, Option.any_eq_true]

namespace LaunchPlan

variable {plan : LaunchPlan} {i left : Interface} {name : String} {value : Literal}

/-- Each value of the plan goes to an input of its own. -/
structure Fits (plan : LaunchPlan) (i : Interface) : Prop where
  fixed : ∀ name value, plan.fixedInputs.get? name = some value → i.Takes name value
  defaulted : ∀ name value, plan.defaultInputs.get? name = some value → i.Takes name value
  apart : ∀ name, ¬(plan.fixedInputs.contains name ∧ plan.defaultInputs.contains name)

/-- Values that the plan fixes or gives as defaults in vain. -/
def misfits (plan : LaunchPlan) (i : Interface) : List (String × Literal) :=
  (plan.fixedInputs.entries.filter fun e => ¬i.Takes e.1 e.2) ++
    plan.defaultInputs.entries.filter fun e => plan.fixedInputs.contains e.1 ∨ ¬i.Takes e.1 e.2

/-- The second interface is the first one as callers of the plan see it. -/
structure Narrows (plan : LaunchPlan) (i left : Interface) : Prop where
  outputs : left.outputs = i.outputs
  names : left.inputs.keys = i.inputs.keys.filter fun name => !plan.fixedInputs.contains name
  defaulted : ∀ name value, plan.defaultInputs.get? name = some value → ∃ p q,
    i.inputs.get? name = some p ∧ left.inputs.get? name = some q ∧ q.dataType = p.dataType ∧
      q.default = some value ∧ q.mustBeBound = false
  kept : ∀ name p, i.inputs.get? name = some p → plan.fixedInputs.contains name = false →
    plan.defaultInputs.contains name = false → left.inputs.get? name = some p
  required : left.requiredInputs = i.requiredInputs.filter fun name =>
    !plan.fixedInputs.contains name && !plan.defaultInputs.contains name

theorem isSome_fixedFault? :
    (plan.fixedFault? i name value).isSome = decide (¬i.Takes name value) := by
  unfold fixedFault?
  split
  next undeclared => simp [Interface.Takes, undeclared]
  next p declared => cases admitted : p.dataType.admits value <;> simp [Interface.Takes, declared, admitted]

theorem isSome_defaultFault? : (plan.defaultFault? i name value).isSome =
    decide (plan.fixedInputs.contains name ∨ ¬i.Takes name value) := by
  unfold defaultFault?
  split
  next fixed => simp [fixed]
  next free =>
    split
    next undeclared => simp [Interface.Takes, undeclared]
    next p declared =>
      cases admitted : p.dataType.admits value <;> simp [Interface.Takes, declared, admitted, free]

/-- One defect for each misfit, in their order. -/
theorem forall₂_defects (plan : LaunchPlan) (i : Interface) :
    List.Forall₂ (fun e d => ∃ fault : InputFault, d = .badInterface plan.id e.1 fault.message)
      (plan.misfits i) (plan.defects i) := by
  have reported : ∀ (fault? : String → Literal → Option InputFault) (entries : Entries String Literal),
      List.Forall₂ (fun e d => ∃ fault : InputFault, d = .badInterface plan.id e.1 fault.message)
        (entries.filter fun e => (fault? e.1 e.2).isSome)
        (entries.filterMap fun e => (fault? e.1 e.2).map (InputFault.defect plan.id e.1)) := by
    intro fault? entries
    have sides := forall₂_filterMap
      (fun e : String × Literal => (fault? e.1 e.2).map (InputFault.defect plan.id e.1)) entries
    simp only [Option.isSome_map] at sides
    refine sides.imp fun e d given => ?_
    obtain ⟨fault, -, rfl⟩ := Option.map_eq_some_iff.mp given
    exact ⟨fault, rfl⟩
  have fixed := reported (plan.fixedFault? i) plan.fixedInputs.entries
  have defaulted := reported (plan.defaultFault? i) plan.defaultInputs.entries
  simp only [isSome_fixedFault?] at fixed
  simp only [isSome_defaultFault?] at defaulted
  exact List.rel_append fixed defaulted

theorem misfits_eq_nil_iff : plan.misfits i = [] ↔ plan.Fits i := by
  simp only [misfits, List.append_eq_nil_iff, List.filter_eq_nil_iff, decide_eq_true_eq, not_or,
    Classical.not_not]
  constructor
  · rintro ⟨fixed, defaulted⟩
    refine ⟨fun name value given => ?_, fun name value given => ?_, fun name both => ?_⟩
    · exact fixed _ (SortedMap.get?_eq_some_iff.mp given)
    · exact (defaulted _ (SortedMap.get?_eq_some_iff.mp given)).2
    · obtain ⟨value, given⟩ := SortedMap.contains_iff.mp both.2
      exact (defaulted _ (SortedMap.get?_eq_some_iff.mp given)).1 both.1
  · intro fits
    refine ⟨fun e listed => ?_, fun e listed => ?_⟩
    · exact fits.fixed e.1 e.2 (SortedMap.get?_eq_some_iff.mpr listed)
    · have given := SortedMap.get?_eq_some_iff.mpr listed
      refine ⟨fun fixed => fits.apart e.1 ⟨fixed, ?_⟩, fits.defaulted e.1 e.2 given⟩
      exact SortedMap.contains_iff.mpr ⟨e.2, given⟩

theorem exists_narrow_iff : (∃ left, plan.narrow i = .ok left) ↔ plan.Fits i := by
  have none : plan.defects i = [] ↔ plan.misfits i = [] := by
    have sides := forall₂_defects plan i
    constructor <;> intro empty <;> rw [empty] at sides
    · exact List.forall₂_nil_right_iff.mp sides
    · exact List.forall₂_nil_left_iff.mp sides
  rw [← misfits_eq_nil_iff, ← none, narrow_eq]
  cases plan.defects i <;> simp

theorem get?_exposed (plan : LaunchPlan) (i : Interface) (name : String) :
    (plan.exposed i).inputs.get? name = (i.inputs.get? name).bind (plan.exposedInput name) :=
  SortedMap.get?_filterMap _

/-- What the plan fixes is gone. -/
theorem any_exposedInput (name : String) (p : Parameter) :
    (plan.exposedInput name p).any (fun _ => true) = !plan.fixedInputs.contains name := by
  cases fixed : plan.fixedInputs.contains name with
  | true => simp [exposedInput, fixed]
  | false => cases given : plan.defaultInputs.get? name <;> simp [exposedInput, fixed, given]

/-- What the plan fixes or gives a default does not have to be bound. -/
theorem any_mustBeBound_exposedInput (name : String) (p : Parameter) :
    (plan.exposedInput name p).any Parameter.mustBeBound = (p.mustBeBound &&
      (!plan.fixedInputs.contains name && !plan.defaultInputs.contains name)) := by
  cases fixed : plan.fixedInputs.contains name with
  | true => simp [exposedInput, fixed]
  | false =>
    unfold SortedMap.contains
    cases given : plan.defaultInputs.get? name with
    | none => simp [exposedInput, fixed, given]
    | some value =>
      simp [exposedInput, fixed, given, Parameter.mustBeBound, Parameter.withDefault]

/-- A plan that fits leaves what its callers should see. -/
theorem Fits.narrows (fits : plan.Fits i) : plan.Narrows i (plan.exposed i) where
  outputs := rfl
  names := by
    have names := Entries.names_filterMap (fun _ => true) (fun _ => true)
      (fun name => !plan.fixedInputs.contains name) fun e (_ : e ∈ i.inputs.entries) =>
        any_exposedInput e.1 e.2
    simp only [List.filter_true] at names
    exact names
  defaulted name value given := by
    obtain ⟨p, declared, -⟩ := fits.defaulted name value given
    have free : plan.fixedInputs.contains name = false := by
      rw [← Bool.not_eq_true]
      exact fun fixed => fits.apart name ⟨fixed, SortedMap.contains_iff.mpr ⟨value, given⟩⟩
    refine ⟨p, .withDefault p.dataType value, declared, ?_, rfl, rfl, rfl⟩
    rw [get?_exposed, declared]
    simp [exposedInput, free, given]
  kept name p declared free free' := by
    have given : plan.defaultInputs.get? name = none := by
      simpa [SortedMap.contains] using free'
    rw [get?_exposed, declared]
    simp [exposedInput, free, given]
  required := Entries.names_filterMap Parameter.mustBeBound Parameter.mustBeBound
    (fun name => !plan.fixedInputs.contains name && !plan.defaultInputs.contains name)
    fun e _ => any_mustBeBound_exposedInput e.1 e.2

/-- A plan narrows its workflow when each of its values goes to an input of its own. What is left
is then as it should be, and otherwise there is one defect for each value that goes nowhere. -/
theorem narrow_exact (plan : LaunchPlan) (i : Interface) :
    ((∃ left, plan.narrow i = .ok left) ↔ plan.Fits i) ∧
    (∀ left, plan.narrow i = .ok left → plan.Narrows i left) ∧
    ∀ defects, plan.narrow i = .error defects →
      List.Forall₂ (fun e d => ∃ fault : InputFault, d = .badInterface plan.id e.1 fault.message)
        (plan.misfits i) defects := by
  refine ⟨exists_narrow_iff, fun left narrowed => ?_, fun defects refused => ?_⟩
  · rw [eq_exposed_of_narrow narrowed]
    exact (exists_narrow_iff.mp ⟨left, narrowed⟩).narrows
  · rw [narrow_eq] at refused
    split at refused
    · contradiction
    · rw [← Except.error.inj refused]
      exact forall₂_defects plan i

end LaunchPlan

namespace Sample

def metered : Interface :=
  ⟨.ofList [("k", ⟨.simple .integer, true, none⟩), ("x", ⟨.simple .float, true, none⟩),
    ("y", ⟨.simple .string, false, none⟩), ("z", ⟨.simple .boolean, true, none⟩)],
    .ofList [("v", .simple .integer)]⟩

/-- Fixes one input and gives two a default, an integer where a float is asked for. -/
def tuned : LaunchPlan where
  id := ⟨.launchPlan, "p", "d", "l", "1"⟩
  workflow := ⟨.workflow, "p", "d", "w", "1"⟩
  fixedInputs := .ofList [("k", .integer 3)]
  defaultInputs := .ofList [("x", .integer 2), ("y", .string "a")]

/-- Fixes a string for an integer and an input that there is not, gives a default to another that
there is not and to one that it fixes. -/
def clashing : LaunchPlan :=
  { tuned with
    fixedInputs := .ofList [("k", .string "a"), ("m", .integer 1), ("x", .integer 1)]
    defaultInputs := .ofList [("n", .integer 1), ("x", .integer 2), ("z", .boolean true)] }

end Sample

open Sample in
theorem LaunchPlan.narrow_exact_samples :
    (∃ left, tuned.narrow metered = .ok left ∧ tuned.Narrows metered left ∧
      left.requiredInputs = ["z"]) ∧
    ∃ defects, clashing.narrow metered = .error defects ∧
      (clashing.misfits metered).map (·.1) = ["k", "m", "n", "x"] ∧
      List.Forall₂ (fun e d => ∃ fault : InputFault, d = .badInterface tuned.id e.1 fault.message)
        (clashing.misfits metered) defects := by
  obtain ⟨⟨-, fits⟩, narrows, -⟩ := narrow_exact tuned metered
  obtain ⟨-, -, reported⟩ := narrow_exact clashing metered
  constructor
  · obtain ⟨left, narrowed⟩ := fits (misfits_eq_nil_iff.mp (by rfl))
    have left_narrows := narrows left narrowed
    refine ⟨left, narrowed, left_narrows, ?_⟩
    rw [left_narrows.required]
    rfl
  · have refused : clashing.narrow metered = .error (clashing.defects metered) := by rfl
    exact ⟨_, refused, by rfl, reported _ refused⟩

end WorkflowBundle
