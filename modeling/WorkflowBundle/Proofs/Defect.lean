import WorkflowBundle.Defect
import WorkflowBundle.Proofs.StableSort

/-! The order of a report. Defects are ranked by what they are about, so defects about different
things may be found in any order, and taking some of them away does not move the others. -/
namespace WorkflowBundle.Defect

/-- The entry counts only for defects that are about no entity. -/
def loneEntry? (d : Defect) : Option String := if d.entity?.isSome then none else d.entry?

theorem compareScope_eq (a b : Defect) : compareScope a b =
    compareLex (compareOn fun d : Defect => d.entity?) (compareOn fun d => d.loneEntry?) a b := by
  simp only [compareScope, compareLex, compareOn, loneEntry?]
  cases a.entity? <;> cases b.entity? <;> simp [compare]

def inOrder (a b : Defect) : Bool := (compareScope a b).isLE

theorem ranking : Ranking inOrder := by
  have lex := Ranking.of_cmp
    (compareLex (compareOn fun d : Defect => d.entity?) (compareOn fun d => d.loneEntry?))
  simp only [← compareScope_eq] at lex
  exact lex

theorem sort_eq (defects : List Defect) : sort defects = defects.mergeSort inOrder := rfl

/-- Undecodable entries are told apart by their names. -/
theorem tie_undecodable {entry other reason cause : String} :
    Ranking.tie inOrder (.undecodable entry reason) (.undecodable other cause) ↔
      entry = other := by
  refine (Ranking.tie_iff_eq (compareOn fun d : Defect => d.entry?)).trans ?_
  simp only [compareOn, entry?]
  exact ⟨fun same => Option.some.inj (Std.LawfulEqOrd.eq_of_compare same), fun same => by simp [same]⟩

/-- A defect about an entity is a single one. -/
theorem parts_of_entity? {d : Defect} {id : EntityId} (h : d.entity? = some id) :
    d.parts = [d] := by
  cases d with
  | compilation defects count => contradiction
  | _ => rfl

theorem flatMap_parts {defects : List Defect} (single : ∀ d ∈ defects, d.parts = [d]) :
    defects.flatMap parts = defects := by
  calc defects.flatMap parts = defects.flatMap fun d => [d] := List.flatMap_congr single
    _ = defects := by simp

/-- What is gathered depends only on the single defects and their order. -/
theorem gather_congr {es fs : List Defect}
    (same : sort (es.flatMap parts) = sort (fs.flatMap parts)) : gather es = gather fs :=
  congrArg (fun found => compilation found found.length) same

end WorkflowBundle.Defect
