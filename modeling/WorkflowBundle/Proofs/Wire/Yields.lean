import WorkflowBundle.Proofs.Entity
import WorkflowBundle.Record

/-! What holds of everything that a reader makes. It is carried from the readers of the parts to
those of lists, maps and variants, and through the fields of a record. -/
namespace WorkflowBundle

namespace Document

/-- Whatever the reader makes of a document is such a value. -/
def Yields {α : Type} (read : Document → Except Fault α) (P : α → Prop) : Prop :=
  ∀ doc x, read doc = .ok x → P x

namespace Yields

variable {α δ : Type} {read : Document → Except Fault α} {P : α → Prop}

theorem option (each : Yields read P) : Yields (readOption read) fun x => ∀ y ∈ x, P y := by
  intro doc x run
  unfold readOption at run
  split at run
  · obtain rfl := Except.ok.inj run
    simp
  · obtain ⟨y, inner, rfl⟩ := Except.bind_pure_eq_ok run
    simpa using each _ _ inner

theorem items (each : Yields read P) {items : List Document} {xs : List α}
    (run : items.mapM read = .ok xs) : ∀ x ∈ xs, P x := by
  induction items generalizing xs with
  | nil =>
    obtain rfl := Except.ok.inj run
    simp
  | cons item items ih =>
    rw [List.mapM_cons] at run
    obtain ⟨head, first, run⟩ := Except.bind_eq_ok_iff.mp run
    obtain ⟨tail, rest, rfl⟩ := Except.bind_pure_eq_ok run
    exact List.forall_mem_cons.mpr ⟨each _ _ first, ih rest⟩

theorem list (each : Yields read P) : Yields (readList read) fun xs => ∀ x ∈ xs, P x := by
  intro doc xs run
  cases doc with
  | list items => exact each.items run
  | null | bool | int | float | text | table => contradiction

theorem fields (each : Yields read P) {fields : List (Document × Document)}
    {entries : List (String × α)} (run : readFields read fields = .ok entries) :
    ∀ e ∈ entries, P e.2 := by
  fun_induction readFields read fields generalizing entries with
  | case1 =>
    obtain rfl := Except.ok.inj run
    simp
  | case2 key value fields ih =>
    obtain ⟨head, first, run⟩ := Except.bind_eq_ok_iff.mp run
    obtain ⟨tail, rest, rfl⟩ := Except.bind_pure_eq_ok run
    exact List.forall_mem_cons.mpr ⟨each _ _ first, ih rest⟩
  | case3 => contradiction

theorem map (each : Yields read P) : Yields (readMap read) fun m => ∀ e ∈ m.entries, P e.2 := by
  intro doc m run
  cases doc with
  | table fields =>
    obtain ⟨entries, inner, rfl⟩ := Except.bind_pure_eq_ok run
    intro e among
    exact each.fields inner e (SortedMap.mem_of_mem_ofList among)
  | null | bool | int | float | text | list => contradiction

theorem payload (each : Yields read P) {payload : Option Document} {x : α}
    (run : readPayload read payload = .ok x) : P x := by
  cases payload with
  | none => contradiction
  | some doc => exact each _ _ run

theorem named (each : Yields read P) {form : Form} {payload : Option Document} {x : α}
    (run : readNamed form read payload = .ok x) : P x := by
  unfold readNamed at run
  split at run
  · exact each _ _ run
  · split at run
    · exact each _ _ run
    · contradiction
  · contradiction

section Record

variable {Q : δ → Prop} {known : List String} {draft next : δ}
  {step : String → Document → δ → Except Fault δ} {finish : δ → Except Fault α}
  (steps : ∀ field doc draft next, Q draft → step field doc draft = .ok next → Q next)
include steps

theorem draft_of_readKnown {fields : List (Document × Document)} {seen : List String} (start : Q draft)
    (run : readKnown known step fields seen draft = .ok next) : Q next := by
  fun_induction readKnown known step fields seen draft with
  | case1 =>
    obtain rfl := Except.ok.inj run
    exact start
  | case2 key value fields seen draft skip take =>
    obtain ⟨name, -, run⟩ := Except.bind_eq_ok_iff.mp run
    split at run
    · exact skip start run
    · split at run
      · contradiction
      · obtain ⟨middle, taken, rest⟩ := Except.bind_eq_ok_iff.mp run
        exact take _ _ (steps _ _ _ _ start taken) rest

theorem draft_of_readPositional {items : List Document} (start : Q draft)
    (run : readPositional step known items draft = .ok next) : Q next := by
  fun_induction readPositional step known items draft with
  | case1 | case2 =>
    obtain rfl := Except.ok.inj run
    exact start
  | case3 name known item items draft ih =>
    obtain ⟨middle, taken, rest⟩ := Except.bind_eq_ok_iff.mp run
    exact ih _ (steps _ _ _ _ start taken) rest

/-- What holds of the draft from its start, step by step, holds of it when the record is made. -/
theorem record (start : Q draft) (ends : ∀ draft x, Q draft → finish draft = .ok x → P x) :
    Yields (readRecord known draft step finish) P := by
  intro doc x run
  cases doc with
  | table fields =>
    obtain ⟨last, through, made⟩ := Except.bind_eq_ok_iff.mp run
    exact ends _ _ (draft_of_readKnown steps start through) made
  | list items =>
    obtain ⟨last, through, run⟩ := Except.bind_eq_ok_iff.mp run
    split at run
    next made =>
      split at run
      · obtain rfl := Except.ok.inj run
        exact ends _ _ (draft_of_readPositional steps start through) made
      · contradiction
    · contradiction
  | null | bool | int | float | text => contradiction

end Record

end Yields

theorem mem_of_required {α : Type} {name : String} {found : Option α} {x : α}
    (run : required name found = .ok x) : x ∈ found := by
  cases found with
  | none => contradiction
  | some y => exact congrArg some (Except.ok.inj run)

end Document

end WorkflowBundle
