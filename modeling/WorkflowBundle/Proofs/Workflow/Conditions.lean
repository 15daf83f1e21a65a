import Mathlib.Data.List.Permutation
import WorkflowBundle.Proofs.Workflow.Sources

/-! Conditions of branches. An operand is a scalar or an input of the branch, which has the type
of what it is bound to. The checks see to it that the operands of a comparison can be compared,
where both have types. An input that is bound to a literal that is no scalar has none. -/
namespace WorkflowBundle

namespace Condition

/-- The comparisons that a condition is made of. -/
def comparisons : Condition → List (Operand × Comparison × Operand)
  | comparison left op right => [(left, op, right)]
  | and a b | or a b => a.comparisons ++ b.comparisons

end Condition

/-- One binding of the inputs has the name, and it is this one. -/
def Binding.Alone (inputs : List Binding) (name : String) (b : Binding) : Prop :=
  inputs.filter (·.parameter == name) = [b]

theorem Binding.alone_of_nodup {inputs : List Binding} {b : Binding}
    (distinct : (inputs.map Binding.parameter).Nodup) (bound : b ∈ inputs) :
    Binding.Alone inputs b.parameter b := by
  unfold Alone
  induction inputs with
  | nil => contradiction
  | cons first inputs ih =>
    obtain ⟨apart, distinct⟩ := List.nodup_cons.mp distinct
    rcases List.mem_cons.mp bound with rfl | bound
    · have others : inputs.filter (·.parameter == b.parameter) = [] := by
        refine List.filter_eq_nil_iff.mpr fun d hd same => apart ?_
        exact List.mem_map.mpr ⟨d, hd, beq_iff_eq.mp same⟩
      rw [List.filter_cons_of_pos (by simp), others]
    · have differ : first.parameter ≠ b.parameter :=
        fun same => apart (same ▸ List.mem_map_of_mem bound)
      rw [List.filter_cons_of_neg (by simpa using differ)]
      exact ih distinct bound

theorem Binding.Alone.mem {inputs : List Binding} {name : String} {b : Binding}
    (alone : Binding.Alone inputs name b) : b ∈ inputs ∧ b.parameter = name := by
  have member : b ∈ inputs.filter (·.parameter == name) := alone ▸ List.mem_singleton_self b
  obtain ⟨bound, same⟩ := List.mem_filter.mp member
  exact ⟨bound, beq_iff_eq.mp same⟩

/-- The operand is an input that is bound, once, to a literal that is no scalar. -/
def Operand.Compound (inputs : List Binding) : Operand → Prop
  | input name => ∃ b value, Binding.Alone inputs name b ∧ b.origin = .literal value ∧
      value.isPrimitive = false
  | literal _ => False

/-- Where no input is bound to a literal but a scalar, no operand is compound. -/
theorem Operand.not_compound_of_scalars {inputs : List Binding} {operand : Operand}
    (scalars : ∀ b ∈ inputs, ∀ value, b.origin = .literal value → value.isPrimitive) :
    ¬operand.Compound inputs := by
  cases operand with
  | literal value => exact id
  | input name =>
    rintro ⟨b, value, alone, literal, compound⟩
    simp [scalars b alone.mem.1 value literal] at compound

namespace Scope

variable {s : Scope} {bindings : List Binding} {known all : List (String × Option DataType)}
variable {operand left right : Operand} {op : Comparison} {type : DataType}

/-- What an operand of a branch with these inputs stands for: a scalar, or an input that is bound,
once, to an origin of the type. -/
def Types (s : Scope) (inputs : List Binding) : Operand → DataType → Prop
  | .input name, type => ∃ b, Binding.Alone inputs name b ∧ s.Supplies b.origin type
  | .literal value, type => value.dataType? = some type

theorem Types.not_compound (types : s.Types bindings operand type) : ¬operand.Compound bindings := by
  cases operand with
  | literal value => exact id
  | input name =>
    rintro ⟨d, value, alone', literal, compound⟩
    obtain ⟨b, alone, supplies⟩ := types
    obtain ⟨rfl, -⟩ := List.cons.inj (alone.symm.trans alone')
    rw [literal] at supplies
    cases supplies with
    | literal typed =>
      obtain ⟨kind, scalar, -⟩ := Option.map_eq_some_iff.mp typed
      simp [Literal.isPrimitive, scalar] at compound

/-- All comparisons in branches, at whatever depth, are of two primitive types that can be
compared. -/
def PrimitiveComparisons (s : Scope) : Prop :=
  ∀ head condition a b, .branch head condition a b ∈ s.workflow.allNodes →
    ∀ left op right, (left, op, right) ∈ condition.comparisons →
      ∃ l r, s.Types head.inputs left l ∧ s.Types head.inputs right r ∧
        l.isPrimitive ∧ r.isPrimitive ∧ l.isComparable s.rule r

/-- From some bindings, no two of one name, variables are made out of known ones. -/
structure Variables (s : Scope) (bindings : List Binding)
    (known all : List (String × Option DataType)) : Prop where
  distinct : (bindings.map Binding.parameter).Nodup
  new : ∀ b ∈ bindings, known.lookup b.parameter = none
  typed : ∀ b ∈ bindings, ∃ type, s.originType b.origin = .ok type ∧
    all.lookup b.parameter = some type
  kept : ∀ name, (∀ b ∈ bindings, b.parameter ≠ name) → all.lookup name = known.lookup name

theorem variables_of_bindVariables (faultless : (s.bindVariables bindings known).2 = []) :
    s.Variables bindings known (s.bindVariables bindings known).1 := by
  induction bindings generalizing known with
  | nil => exact ⟨.nil, by simp, by simp, fun name _ => rfl⟩
  | cons b bindings ih =>
    unfold bindVariables at faultless ⊢
    split at faultless
    · contradiction
    next new =>
      rw [if_neg new]
      split at faultless
      next type found =>
        have rest := ih faultless
        have apart : ∀ d ∈ bindings, d.parameter ≠ b.parameter := by
          intro d hd same
          have absent := rest.new d hd
          simp [same] at absent
        refine ⟨List.nodup_cons.mpr ⟨?_, rest.distinct⟩, ?_, ?_, ?_⟩
        · intro again
          obtain ⟨d, hd, same⟩ := List.mem_map.mp again
          exact apart d hd same
        · intro d hd
          rcases List.mem_cons.mp hd with rfl | hd
          · exact Option.not_isSome_iff_eq_none.mp new
          · have absent := rest.new d hd
            rwa [List.lookup_cons, beq_false_of_ne (apart d hd)] at absent
        · intro d hd
          rcases List.mem_cons.mp hd with rfl | hd
          · refine ⟨type, found, ?_⟩
            rw [rest.kept _ apart]
            simp
          · exact rest.typed d hd
        · intro name others
          rw [rest.kept name fun d hd => others d (List.mem_cons_of_mem _ hd), List.lookup_cons,
            beq_false_of_ne (others b List.mem_cons_self).symm]
      next fault found => contradiction

/-- Bindings of distinct names with sources that can be had make variables without fault. -/
theorem bindVariables_of_typed (distinct : (bindings.map Binding.parameter).Nodup)
    (new : ∀ b ∈ bindings, known.lookup b.parameter = none)
    (typed : ∀ b ∈ bindings, ∃ type, s.originType b.origin = .ok type) :
    (s.bindVariables bindings known).2 = [] := by
  induction bindings generalizing known with
  | nil => rfl
  | cons b bindings ih =>
    obtain ⟨apart, distinct⟩ := List.nodup_cons.mp distinct
    obtain ⟨type, found⟩ := typed b List.mem_cons_self
    simp only [bindVariables, new b List.mem_cons_self, Option.isSome_none, Bool.false_eq_true,
      if_false, found]
    refine ih distinct (fun d hd => ?_) fun d hd => typed d (List.mem_cons_of_mem _ hd)
    have differ : d.parameter ≠ b.parameter :=
      fun same => apart (same ▸ List.mem_map_of_mem hd)
    rw [List.lookup_cons, beq_false_of_ne differ]
    exact new d (List.mem_cons_of_mem _ hd)

theorem comparisonFaults_eq_nil_iff {l r : DataType} : s.comparisonFaults op l r = [] ↔
    l.isPrimitive ∧ r.isPrimitive ∧ l.isComparable s.rule r := by
  unfold comparisonFaults
  cases hl : l.isPrimitive <;> cases hr : r.isPrimitive <;> simp [hl, hr]

/-- A comparison is without fault when its operands are, and have types that can be compared if
they have types. -/
theorem comparison_faultless_iff : s.conditionFaults known (.comparison left op right) = [] ↔
    ∃ l r, operandType known left = .ok l ∧ operandType known right = .ok r ∧
      ∀ type other, l = some type → r = some other →
        type.isPrimitive ∧ other.isPrimitive ∧ type.isComparable s.rule other := by
  unfold conditionFaults
  cases operandType known left with
  | error fault => cases operandType known right <;> simp
  | ok l =>
    cases operandType known right with
    | error fault => simp
    | ok r => cases l <;> cases r <;> simp [comparisonFaults_eq_nil_iff]

/-- A condition is without fault when each of its comparisons is. -/
theorem conditionFaults_eq_nil_iff {condition : Condition} : s.conditionFaults known condition = [] ↔
    ∀ left op right, (left, op, right) ∈ condition.comparisons →
      s.conditionFaults known (.comparison left op right) = [] := by
  induction condition with
  | comparison left op right =>
    constructor
    · intro faultless l o r listed
      obtain ⟨rfl, rfl, rfl⟩ : l = left ∧ o = op ∧ r = right := by
        simpa [Condition.comparisons] using listed
      exact faultless
    · exact fun all => all left op right (List.mem_singleton_self _)
  | and a b iha ihb | or a b iha ihb =>
    rw [conditionFaults, List.append_eq_nil_iff, iha, ihb]
    simp only [Condition.comparisons, List.mem_append]
    constructor
    · rintro ⟨first, second⟩ l o r (listed | listed)
      · exact first l o r listed
      · exact second l o r listed
    · exact fun all => ⟨fun l o r listed => all l o r (.inl listed),
        fun l o r listed => all l o r (.inr listed)⟩

theorem branchFaults_eq_nil_iff {head : NodeHead} {condition : Condition} :
    s.branchFaults head condition = [] ↔ (s.bindVariables head.inputs []).2 = [] ∧
      s.conditionFaults (s.bindVariables head.inputs []).1 condition = [] := by
  simp [branchFaults, List.append_eq_nil_iff]

/-- An operand without fault has a type, or is compound. -/
theorem Known.types_of_operandType (known : s.Known) (made : s.Variables bindings [] all)
    (provided : ∀ b ∈ bindings, ∀ id output, b.origin = .nodeOutput id output →
      s.workflow.Provides id) {found : Option DataType} (ok : operandType all operand = .ok found) :
    (∃ type, s.Types bindings operand type) ∨ operand.Compound bindings := by
  cases operand with
  | input name =>
    simp only [operandType] at ok
    split at ok
    next type listed =>
      have exists_binding : ∃ b ∈ bindings, b.parameter = name := by
        by_contra none
        rw [made.kept name fun b hb same => none ⟨b, hb, same⟩] at listed
        contradiction
      obtain ⟨b, bound, rfl⟩ := exists_binding
      have alone := Binding.alone_of_nodup made.distinct bound
      obtain ⟨type', typed, -⟩ := made.typed b bound
      rcases known.supplies_of_originType (provided b bound) typed with
        ⟨type, -, supplies⟩ | ⟨-, value, literal, compound⟩
      · exact .inl ⟨type, b, alone, supplies⟩
      · exact .inr ⟨b, value, alone, literal, compound⟩
    next => contradiction
  | literal value =>
    simp only [operandType] at ok
    split at ok
    next primitive =>
      obtain ⟨kind, scalar⟩ := Option.isSome_iff_exists.mp primitive
      exact .inl ⟨.simple kind, Option.map_eq_some_iff.mpr ⟨kind, scalar, rfl⟩⟩
    next => contradiction

/-- The checks find the type that an operand has. -/
theorem Known.operandType_of_types (known : s.Known) (made : s.Variables bindings [] all)
    (types : s.Types bindings operand type) : operandType all operand = .ok (some type) := by
  cases operand with
  | input name =>
    obtain ⟨b, alone, supplies⟩ := types
    obtain ⟨bound, rfl⟩ := alone.mem
    obtain ⟨found, typed, listed⟩ := made.typed b bound
    rw [known.originType_of_supplies supplies] at typed
    obtain rfl := Except.ok.inj typed
    simp only [operandType, listed]
  | literal value =>
    have typed : value.dataType? = some type := types
    obtain ⟨kind, scalar, -⟩ := Option.map_eq_some_iff.mp typed
    have primitive : value.isPrimitive := by simp [Literal.isPrimitive, scalar]
    simp only [operandType, if_pos primitive, typed]

/-- In an accepted workflow each operand of a comparison is a scalar, or an input of the branch
that is bound once. Where both have types, these are primitive and can be compared. -/
theorem comparisons_of_check {checked : CheckedWorkflow} (accepted : s.check = .ok checked)
    (resolved : s.Resolved) {head : NodeHead} {condition : Condition} {a b : Node}
    (branch : .branch head condition a b ∈ s.workflow.allNodes)
    (listed : (left, op, right) ∈ condition.comparisons) :
    (∀ operand ∈ [left, right],
      (∃ type, s.Types head.inputs operand type) ∨ operand.Compound head.inputs) ∧
    ∀ l r, s.Types head.inputs left l → s.Types head.inputs right r →
      l.isPrimitive ∧ r.isPrimitive ∧ l.isComparable s.rule r := by
  have clean := clean_of_defects (check_eq_ok_iff.mp accepted).1
  have known := clean.known resolved
  obtain ⟨node, member, inside⟩ := List.mem_flatMap.mp branch
  obtain ⟨inArm, faultless⟩ := nodeFaults_of_flatten inside (clean.nodes node member)
  simp only [nodeFaults, List.append_eq_nil_iff, List.map_eq_nil_iff,
    branchFaults_eq_nil_iff] at faultless
  obtain ⟨⟨⟨faultless, compared⟩, -⟩, -⟩ := faultless
  have made := variables_of_bindVariables faultless
  have provided : ∀ b ∈ head.inputs, ∀ id output, b.origin = .nodeOutput id output →
      s.workflow.Provides id :=
    fun b bound id output taken => Workflow.provides_of_inputs clean.linked branch rfl bound taken
  obtain ⟨l, r, first, second, comparable⟩ :=
    comparison_faultless_iff.mp (conditionFaults_eq_nil_iff.mp compared left op right listed)
  refine ⟨fun operand member => ?_, fun type other types types' => ?_⟩
  · have ok : ∃ found, operandType (s.bindVariables head.inputs []).1 operand = .ok found := by
      rcases List.mem_cons.mp member with rfl | member
      · exact ⟨l, first⟩
      · rw [List.mem_singleton.mp member]
        exact ⟨r, second⟩
    obtain ⟨found, ok⟩ := ok
    exact known.types_of_operandType made provided ok
  · rw [known.operandType_of_types made types] at first
    rw [known.operandType_of_types made types'] at second
    exact comparable type other (Except.ok.inj first).symm (Except.ok.inj second).symm

end Scope

namespace Sample

/-- A branch over these inputs after a step that gives the boolean `v`. -/
def guarded (inputs : List Binding) (condition : Condition) : Scope where
  workflow := {
    id := callee "w"
    interface := ⟨.ofList [("x", ⟨.simple .integer, true, none⟩), ("s", ⟨.struct, true, none⟩)], .empty⟩
    nodes := [.call ⟨"n", [], []⟩ .workflow (callee "a"),
      .branch ⟨"g", inputs, []⟩ condition (.call ⟨"y", [], []⟩ .workflow (callee "b"))
        (.call ⟨"z", [], []⟩ .workflow (callee "b"))] }
  index := {}
  interfaces := .ofList [(callee "a", ⟨.empty, .ofList [("v", .simple .boolean)]⟩),
    (callee "b", ⟨.empty, .empty⟩)]
  rule := .anyMember

variable {inputs : List Binding} {condition : Condition}

theorem guarded_resolved : (guarded inputs condition).Resolved := by
  rw [Scope.resolved_iff]
  cbv

/-- The only branch in it. -/
theorem eq_of_branch_mem_guarded {head : NodeHead} {other : Condition} {a b : Node}
    (branch : .branch head other a b ∈ (guarded inputs condition).workflow.allNodes) :
    head.inputs = inputs ∧ other = condition := by
  simp only [Workflow.allNodes, guarded, Node.flatten, List.flatMap_cons, List.flatMap_nil,
    List.append_nil, List.singleton_append, List.mem_cons, reduceCtorEq, List.not_mem_nil, or_false,
    false_or, Node.branch.injEq] at branch
  obtain ⟨rfl, rfl, -⟩ := branch
  exact ⟨rfl, rfl⟩

/-- A condition over a workflow input and an output of a step. -/
def scalars : Scope :=
  guarded [⟨"x", .workflowInput "x"⟩, ⟨"f", .nodeOutput "n" "v"⟩]
    (.and (.comparison (.input "x") .gt (.literal (.integer 3)))
      (.comparison (.input "f") .eq (.literal (.boolean true))))

/-- A comparison of a collection with a structure. -/
def unlike : Scope :=
  guarded [⟨"x", .literal (.collection [])⟩, ⟨"s", .workflowInput "s"⟩]
    (.comparison (.input "x") .eq (.input "s"))

end Sample

/-- The comparisons of an accepted workflow are of primitive types that can be compared, except
for those with an operand that is bound to a literal that is no scalar: these are let pass. -/
theorem Scope.primitiveComparisons_iff_of_check {s : Scope} {checked : CheckedWorkflow}
    (accepted : s.check = .ok checked) (resolved : s.Resolved) : s.PrimitiveComparisons ↔
      ∀ head condition a b, .branch head condition a b ∈ s.workflow.allNodes →
        ∀ left op right, (left, op, right) ∈ condition.comparisons →
          ¬left.Compound head.inputs ∧ ¬right.Compound head.inputs := by
  constructor
  · intro primitive head condition a b branch left op right listed
    obtain ⟨l, r, types, types', -⟩ := primitive head condition a b branch left op right listed
    exact ⟨types.not_compound, types'.not_compound⟩
  · intro scalars head condition a b branch left op right listed
    obtain ⟨operands, comparable⟩ := comparisons_of_check accepted resolved branch listed
    obtain ⟨scalar, scalar'⟩ := scalars head condition a b branch left op right listed
    obtain ⟨l, types⟩ := (operands left (by simp)).resolve_right scalar
    obtain ⟨r, types'⟩ := (operands right (by simp)).resolve_right scalar'
    exact ⟨l, r, types, types', comparable l r types types'⟩

theorem primitiveComparisons_scalars : Sample.scalars.PrimitiveComparisons := by
  have faultless : Sample.scalars.defects = [] := by rfl
  refine (Scope.primitiveComparisons_iff_of_check (Scope.check_eq_ok_iff.mpr ⟨faultless, rfl⟩)
    Sample.guarded_resolved).mpr fun head condition a b branch left op right listed => ?_
  obtain ⟨inputs, rfl⟩ := Sample.eq_of_branch_mem_guarded branch
  have scalars : ∀ d ∈ head.inputs, ∀ value, d.origin = .literal value → value.isPrimitive := by
    simp [inputs]
  exact ⟨Operand.not_compound_of_scalars scalars, Operand.not_compound_of_scalars scalars⟩

/-- A comparison with an input that is bound to a collection is let pass, and then the other
operand is not looked at either: here it is a structure. -/
theorem compound_comparison_let_pass :
    (∃ checked, Sample.unlike.check = .ok checked) ∧ Sample.unlike.Resolved ∧
      ¬Sample.unlike.PrimitiveComparisons := by
  have faultless : Sample.unlike.defects = [] := by rfl
  refine ⟨⟨_, Scope.check_eq_ok_iff.mpr ⟨faultless, rfl⟩⟩, Sample.guarded_resolved, fun primitive => ?_⟩
  obtain ⟨l, -, types, -⟩ := primitive _ _ _ _ (.tail _ (.head _)) _ _ _ (.head _)
  exact types.not_compound ⟨_, _, rfl, rfl, rfl⟩

end WorkflowBundle
