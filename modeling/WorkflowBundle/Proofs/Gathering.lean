import WorkflowBundle.Proofs.Defect

/-! What becomes of defects that are gathered. Each of them is reported as often as it was found,
first those about no entity and then the others, and those with the same scope in the order in
which they were found. Gathering some of them beforehand makes no difference. -/
namespace WorkflowBundle

/-- Elements that a test puts first are those that it picks, followed by the others. -/
theorem picked_append_rest {α : Type u} {p : α → Bool} {xs : List α}
    (first : xs.Pairwise fun a b => p b → p a) :
    xs.filter p ++ xs.filter (fun a => !p a) = xs := by
  induction xs with
  | nil => rfl
  | cons x xs ih =>
    obtain ⟨before, rest⟩ := List.pairwise_cons.mp first
    by_cases picked : p x
    · simpa [picked] using ih rest
    · have none : xs.filter p = [] :=
        List.filter_eq_nil_iff.mpr fun b member chosen => picked (before b member chosen)
      have all : xs.filter (fun a => !p a) = xs :=
        List.filter_eq_self.mpr fun b member => by
          simpa using mt (before b member) picked
      simp [picked, none, all]

namespace Defect

mutual

/-- The single defects that were gathered, at whatever depth. -/
def leaves : Defect → List Defect
  | compilation defects _ => leavesAll defects
  | d => [d]

def leavesAll : List Defect → List Defect
  | [] => []
  | d :: rest => leaves d ++ leavesAll rest

end

theorem leavesAll_eq (defects : List Defect) : leavesAll defects = defects.flatMap leaves := by
  induction defects with
  | nil => rfl
  | cons d rest ih => rw [leavesAll, ih, List.flatMap_cons]

/-- The defect gathers no others. -/
def Single (d : Defect) : Prop := ∀ defects count, d ≠ compilation defects count

/-- All gathering in the defect was done in order. -/
inductive Built : Defect → Prop where
  | single {d : Defect} : d.Single → Built d
  | gathered {defects : List Defect} : (∀ d ∈ defects, Built d) → Built (gather defects)

/-- What a defect is about. The entry matters only when there is no entity. -/
def scope (d : Defect) : Option EntityId × Option String := (d.entity?, d.loneEntry?)

theorem tie_inOrder_iff {a b : Defect} : Ranking.tie inOrder a b ↔ a.scope = b.scope := by
  have tied := Ranking.tie_iff_eq (a := a) (b := b)
    (compareLex (compareOn fun d : Defect => d.entity?) (compareOn fun d => d.loneEntry?))
  simp only [← compareScope_eq] at tied
  refine tied.trans ?_
  rw [compareScope_eq]
  simp [compareLex, compareOn, Ordering.then_eq_eq, scope]

/-- Single defects in the order of their scopes, none lost and none added. -/
structure Reported (found report : List Defect) : Prop where
  perm : report.Perm found
  single : ∀ d ∈ report, d.Single
  ordered : ∃ lone owned, report = lone ++ owned ∧
    (∀ d ∈ lone, d.entity? = none) ∧ (∀ d ∈ owned, d.entity?.isSome) ∧
    lone.Pairwise (fun a b => (compare a.entry? b.entry?).isLE) ∧
    owned.Pairwise (fun a b => (compare a.entity? b.entity?).isLE)
  stable : ∀ about, report.filter (fun d => d.scope = about) = found.filter (fun d => d.scope = about)

variable {d : Defect} {defects es fs gs : List Defect}

theorem mem_sort : d ∈ sort defects ↔ d ∈ defects := List.mem_mergeSort

theorem parts_gather : (gather defects).parts = sort (defects.flatMap parts) := rfl

theorem Single.parts_eq (single : d.Single) : d.parts = [d] := by
  cases d with
  | compilation defects count => exact absurd rfl (single defects count)
  | _ => rfl

theorem Single.leaves_eq (single : d.Single) : d.leaves = [d] := by
  cases d with
  | compilation defects count => exact absurd rfl (single defects count)
  | _ => rfl

theorem Built.single_of_mem_parts (built : d.Built) {part : Defect} (member : part ∈ d.parts) :
    part.Single := by
  induction built generalizing part with
  | single single =>
    rw [single.parts_eq, List.mem_singleton] at member
    exact member ▸ single
  | gathered _ ih =>
    rw [parts_gather, mem_sort] at member
    obtain ⟨d, among, inside⟩ := List.mem_flatMap.mp member
    exact ih d among inside

/-- What was gathered in order is gathered only once. -/
theorem Built.leaves_eq (built : d.Built) : d.leaves = d.parts := by
  have each : d.parts.flatMap leaves = d.parts := by
    calc d.parts.flatMap leaves = d.parts.flatMap fun part => [part] :=
          List.flatMap_congr fun part member => (built.single_of_mem_parts member).leaves_eq
      _ = d.parts := by simp
  cases d with
  | compilation defects count => exact (leavesAll_eq defects).trans each
  | _ => simpa [parts] using each

theorem flatMap_leaves (built : ∀ d ∈ defects, d.Built) :
    defects.flatMap leaves = defects.flatMap parts :=
  List.flatMap_congr fun d member => (built d member).leaves_eq

theorem pairwise_sort : (sort defects).Pairwise fun a b => (compareScope a b).isLE :=
  ranking.pairwise_mergeSort defects

/-- In the order of scopes, what has no entity is in front. -/
theorem exists_lone_append_owned (sorted : defects.Pairwise fun a b => (compareScope a b).isLE) :
    ∃ lone owned, defects = lone ++ owned ∧
      (∀ d ∈ lone, d.entity? = none) ∧ (∀ d ∈ owned, d.entity?.isSome) ∧
      lone.Pairwise (fun a b => (compare a.entry? b.entry?).isLE) ∧
      owned.Pairwise (fun a b => (compare a.entity? b.entity?).isLE) := by
  refine ⟨defects.filter fun d => d.entity?.isNone, defects.filter fun d => !d.entity?.isNone,
    (picked_append_rest (sorted.imp ?_)).symm, by simp, by simp, ?_, ?_⟩
  · intro a b order later
    cases before : a.entity? with
    | none => rfl
    | some x => simp_all [compareScope]
  · refine (List.Pairwise.filter _ sorted).imp_of_mem fun {a b} ha hb order => ?_
    simp_all [compareScope]
  · refine (List.Pairwise.filter _ sorted).imp_of_mem fun {a b} ha hb order => ?_
    obtain ⟨x, hx⟩ := Option.isSome_iff_exists.mp (by simpa using (List.mem_filter.mp ha).2)
    obtain ⟨y, hy⟩ := Option.isSome_iff_exists.mp (by simpa using (List.mem_filter.mp hb).2)
    simpa [compareScope, hx, hy, compare] using order

theorem filter_scope_sort (about : Option EntityId × Option String) :
    (sort defects).filter (fun d => d.scope = about) =
      defects.filter (fun d => d.scope = about) := by
  by_cases found : ∃ a ∈ defects, a.scope = about
  · obtain ⟨a, -, rfl⟩ := found
    have same : (fun d : Defect => decide (d.scope = a.scope)) = Ranking.tie inOrder a := by
      funext d
      rw [Bool.eq_iff_iff, tie_inOrder_iff, decide_eq_true_iff, eq_comm]
    rw [same]
    exact ranking.filter_tie_mergeSort defects a
  · have absent : ∀ d ∈ defects, ¬d.scope = about := fun d member same => found ⟨d, member, same⟩
    rw [List.filter_eq_nil_iff.mpr (by simpa [mem_sort] using absent),
      List.filter_eq_nil_iff.mpr (by simpa using absent)]

theorem reported_sort (single : ∀ d ∈ defects, d.Single) : Reported defects (sort defects) where
  perm := List.mergeSort_perm defects _
  single d member := single d (mem_sort.mp member)
  ordered := exists_lone_append_owned pairwise_sort
  stable := filter_scope_sort

theorem sort_append_sort_append (xs ys zs : List Defect) :
    sort (xs ++ sort ys ++ zs) = sort (xs ++ ys ++ zs) := by
  refine ranking.mergeSort_congr fun a => ?_
  simp only [List.filter_append]
  rw [show (sort ys).filter (Ranking.tie inOrder a) = ys.filter (Ranking.tie inOrder a) from
    ranking.filter_tie_mergeSort ys a]

theorem gather_append_gather_append :
    gather (es ++ [gather fs] ++ gs) = gather (es ++ fs ++ gs) := by
  have taken : (es ++ [gather fs] ++ gs).flatMap parts =
      es.flatMap parts ++ sort (fs.flatMap parts) ++ gs.flatMap parts := by
    simp [parts_gather]
  refine gather_congr ?_
  rw [taken, sort_append_sort_append, List.flatMap_append, List.flatMap_append]

/-- Gathering is associative: what was gathered beforehand counts for what it was gathered from.
It leaves every single defect as often as it was found, in the order of the scopes and among
those of one scope in the order in which they were found, and says how many they are. -/
theorem gather_spec (built : ∀ d ∈ es ++ fs ++ gs, d.Built) :
    gather (es ++ [gather fs] ++ gs) = gather (es ++ fs ++ gs) ∧
    Reported ((es ++ fs ++ gs).flatMap leaves) (gather (es ++ fs ++ gs)).parts ∧
    gather (es ++ fs ++ gs) = compilation (gather (es ++ fs ++ gs)).parts
      (gather (es ++ fs ++ gs)).parts.length ∧
    (gather (es ++ fs ++ gs)).message = "Compilation failed with " ++
      toString ((es ++ fs ++ gs).flatMap leaves).length ++ " error(s)" := by
  have single : ∀ d ∈ (es ++ fs ++ gs).flatMap leaves, d.Single := by
    rw [flatMap_leaves built]
    intro part member
    obtain ⟨d, among, inside⟩ := List.mem_flatMap.mp member
    exact (built d among).single_of_mem_parts inside
  have report := reported_sort single
  have listed : (gather (es ++ fs ++ gs)).parts = sort ((es ++ fs ++ gs).flatMap leaves) := by
    rw [parts_gather, flatMap_leaves built]
  refine ⟨gather_append_gather_append, listed ▸ report, rfl, ?_⟩
  rw [← report.perm.length_eq, ← listed]
  rfl

namespace Sample

def loop : Defect := .node ⟨.workflow, "p", "d", "w", "1"⟩ "n" .selfReference

def unread : Defect := .undecodable "b.json" "entry is empty"

/-- A cycle of nothing is about no entity. -/
def mixed : List Defect := [loop, gather [loop, gather [unread, circularDependency []]]]

theorem built_mixed : ∀ d ∈ mixed, d.Built := by
  have loop : loop.Built := .single nofun
  have unread : unread.Built := .single nofun
  have empty : (circularDependency []).Built := .single nofun
  have inner : (gather [Sample.unread, circularDependency []]).Built :=
    .gathered (by simp [unread, empty])
  have outer : (gather [Sample.loop, gather [Sample.unread, circularDependency []]]).Built :=
    .gathered (by simp [loop, inner])
  simp [mixed, loop, outer]

end Sample

theorem gather_spec_mixed :
    (∀ d ∈ Sample.mixed ++ Sample.mixed ++ [Sample.unread], d.Built) ∧
    gather (Sample.mixed ++ [gather Sample.mixed] ++ [Sample.unread]) =
      gather (Sample.mixed ++ Sample.mixed ++ [Sample.unread]) ∧
    Reported ((Sample.mixed ++ Sample.mixed ++ [Sample.unread]).flatMap leaves)
      (gather (Sample.mixed ++ Sample.mixed ++ [Sample.unread])).parts := by
  have built : ∀ d ∈ Sample.mixed ++ Sample.mixed ++ [Sample.unread], d.Built := by
    have last : Sample.unread.Built := .single nofun
    simpa [or_imp, forall_and, last] using Sample.built_mixed
  obtain ⟨same, reported, -⟩ := gather_spec built
  exact ⟨built, same, reported⟩

end Defect

end WorkflowBundle
