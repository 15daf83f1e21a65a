import WorkflowBundle.Proofs.AsciiEntry
import WorkflowBundle.Proofs.Defect

/-! The order in which the entries of a bundle come does not matter. Records are sorted by their
entries before anything looks at them, and the report is sorted by what its defects are about;
in both sorts no two elements that came in the order of the entries have the same rank. -/
namespace WorkflowBundle.Compilation

variable {rule : UnionRule} {entries entries' : List Entry}

theorem decodeAll_fst_perm (perm : entries.Perm entries') :
    (Entry.decodeAll entries).1.Perm (Entry.decodeAll entries').1 := perm.filterMap _

theorem decodeAll_snd_perm (perm : entries.Perm entries') :
    (Entry.decodeAll entries).2.Perm (Entry.decodeAll entries').2 := perm.filterMap _

theorem records_distinct (distinct : (entries.map Entry.name).Nodup) :
    Ranking.Distinct Record.inOrder (Entry.decodeAll entries).1 := by
  have apart := List.pairwise_map.mp (List.nodup_iff_pairwise_ne.mp distinct)
  refine List.Pairwise.filterMap Entry.record? (fun a b differ r hr s hs => ?_) apart
  rw [← Bool.not_eq_true, Record.tie_inOrder, (Entry.record?_eq_some_iff.mp hr).1,
    (Entry.record?_eq_some_iff.mp hs).1]
  exact differ

theorem undecodable_distinct (distinct : (entries.map Entry.name).Nodup) :
    Ranking.Distinct Defect.inOrder (Entry.decodeAll entries).2 := by
  have apart := List.pairwise_map.mp (List.nodup_iff_pairwise_ne.mp distinct)
  refine List.Pairwise.filterMap Entry.fault? (fun a b differ d hd f hf => ?_) apart
  obtain ⟨_, -, rfl⟩ := Entry.fault?_eq_some_iff.mp hd
  obtain ⟨_, -, rfl⟩ := Entry.fault?_eq_some_iff.mp hf
  rw [← Bool.not_eq_true, Defect.tie_undecodable]
  exact differ

/-- The report is the same wherever among the undecodable entries each of them stands. -/
theorem gather_perm (distinct : (entries.map Entry.name).Nodup) (perm : entries.Perm entries')
    (rest : List Defect) : Defect.gather ((Entry.decodeAll entries).2 ++ rest) =
      Defect.gather ((Entry.decodeAll entries').2 ++ rest) := by
  refine Defect.gather_congr ?_
  simp only [Defect.sort_eq, List.flatMap_append, Defect.flatMap_parts parts_of_mem_undecodable]
  refine Defect.ranking.mergeSort_congr fun d => ?_
  rw [List.filter_append, List.filter_append, Defect.ranking.filter_tie_perm
    (undecodable_distinct distinct) (decodeAll_snd_perm perm)]

end WorkflowBundle.Compilation

namespace WorkflowBundle

open Index (build_congr) in
open Compilation in
/-- Entries with different names may come in any order. -/
theorem compile_perm {rule : UnionRule} {entries entries' : List Entry}
    (distinct : (entries.map Entry.name).Nodup) (perm : entries.Perm entries') :
    compile rule entries = compile rule entries' := by
  have built := build_congr (Record.ranking.mergeSort_perm (records_distinct distinct)
    (decodeAll_fst_perm perm))
  have later : foundInRecords rule (Entry.decodeAll entries).1 =
      foundInRecords rule (Entry.decodeAll entries').1 := by
    simp only [foundInRecords, built]
  have compiled : ofEntries rule entries = ofEntries rule entries' := by
    simp only [ofEntries, built]
  rw [compile_eq, compile_eq, compiled, found_eq, found_eq, later]
  have empty := ((decodeAll_snd_perm perm).append_right
    (foundInRecords rule (Entry.decodeAll entries').1)).isEmpty_eq
  rw [empty, gather_perm distinct perm]

theorem compile_perm_sample : (Sample.entries.map Entry.name).Nodup ∧
    compile .anyMember Sample.entries =
      compile .anyMember [Sample.planEntry, Sample.taskEntry, Sample.workflowEntry] := by
  have distinct : (Sample.entries.map Entry.name).Nodup := by decide
  have perm : ([Sample.taskEntry, Sample.workflowEntry] ++ [Sample.planEntry]).Perm
      ([Sample.planEntry] ++ [Sample.taskEntry, Sample.workflowEntry]) := List.perm_append_comm
  exact ⟨distinct, compile_perm distinct perm⟩

end WorkflowBundle
