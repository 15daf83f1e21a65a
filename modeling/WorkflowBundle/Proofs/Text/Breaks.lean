/-! Line breaks in texts. A text that is put together from lines is cut at its line breaks into the
same lines again exactly when none of them has a line break in it. -/
namespace WorkflowBundle

/-- Between separators there is none. -/
theorem notMem_of_mem_splitOn {α : Type} [BEq α] [LawfulBEq α] {separator : α}
    {whole piece : List α} (among : piece ∈ whole.splitOn separator) : separator ∉ piece := by
  induction whole generalizing piece with
  | nil =>
    rw [List.splitOn_nil, List.mem_singleton] at among
    simp [among]
  | cons b rest ih =>
    rw [List.splitOn_cons_eq_if_modifyHead] at among
    cases pieces : rest.splitOn separator with
    | nil => exact absurd pieces (List.splitOn_ne_nil separator rest)
    | cons first others =>
      rw [pieces] at ih
      split at among
      next =>
        obtain rfl | later := List.mem_cons.mp among
        · exact List.not_mem_nil
        · exact ih (pieces ▸ later)
      next other =>
        rw [pieces, List.modifyHead_cons, List.mem_cons] at among
        obtain rfl | later := among
        · have apart : separator ≠ b := fun same => other (by simp [same])
          simpa [apart] using ih List.mem_cons_self
        · exact ih (List.mem_cons_of_mem _ later)

/-- What stands before, between and behind the line breaks of a text. -/
def betweenBreaks (text : String) : List String := (text.toList.splitOn '\n').map String.ofList

/-- There is no line break in the text. -/
def OneLine (text : String) : Prop := '\n' ∉ text.toList

instance (text : String) : Decidable (OneLine text) :=
  inferInstanceAs (Decidable ('\n' ∉ text.toList))

variable {text line : String} {lines : List String}

theorem oneLine_append_iff {front : String} :
    OneLine (front ++ text) ↔ OneLine front ∧ OneLine text := by
  simp [OneLine, String.toList_append]

theorem oneLine_of_mem_betweenBreaks (among : line ∈ betweenBreaks text) : OneLine line := by
  obtain ⟨piece, between, rfl⟩ := List.mem_map.mp among
  rw [OneLine, String.toList_ofList]
  exact notMem_of_mem_splitOn between

theorem betweenBreaks_append (single : OneLine line) (rest : String) :
    betweenBreaks (line ++ "\n" ++ rest) = line :: betweenBreaks rest := by
  have cut : (line ++ "\n" ++ rest).toList = line.toList ++ '\n' :: rest.toList := by
    simp [String.toList_append]
  rw [betweenBreaks, cut, List.splitOn_append_cons_self_of_not_mem single, List.map_cons,
    String.ofList_toList]
  rfl

theorem betweenBreaks_join_iff :
    betweenBreaks (String.join (lines.map (· ++ "\n"))) = lines ++ [""] ↔
      ∀ line ∈ lines, OneLine line := by
  constructor
  · intro same line among
    exact oneLine_of_mem_betweenBreaks (same ▸ List.mem_append_left _ among)
  · intro single
    induction lines with
    | nil => rfl
    | cons line lines ih =>
      obtain ⟨first, others⟩ := List.forall_mem_cons.mp single
      rw [List.map_cons, String.join_cons, betweenBreaks_append first, ih others, List.cons_append]

end WorkflowBundle
