import WorkflowBundle.Proofs.Archive.Selection

/-! Members that are no files. They are passed over wherever in an archive they stand, within any
limits. Their paths are looked at all the same, and before their kind: a folder has to have a
name below the root, so the root itself, as `./` spells it, is refused though nothing would be
taken from it. -/
namespace WorkflowBundle.Archive

variable {limits : Limits} {ignore : List NamePattern} {front back : List Tar.Member}
  {m : Tar.Member} {sound : Bool} {path : List UInt8}

/-- The path is relative, and no part of it steps up. -/
structure Inward (path : List UInt8) : Prop where
  relative : path.head? ≠ some slash
  below : parent ∉ path.splitOn slash

/-- Some part of the path is a name; empty parts and dots are none. -/
def Named (path : List UInt8) : Prop := ∃ part ∈ path.splitOn slash, part ≠ [] ∧ part ≠ [0x2E]

theorem Inward.contained (inward : Inward path) (named : Named path) : Contained path :=
  ⟨inward.relative, inward.below, named⟩

theorem safeComponents_of_nameless (inward : Inward path) (nameless : ¬Named path) :
    safeComponents path = .error .emptyPath := by
  have none : components path = [] := not_not.mp (mt components_ne_nil_iff.mp nameless)
  have relative : (path.head? == some slash) = false := by simpa using inward.relative
  simp [safeComponents, none, relative]

/-- What holds for one member: nothing of it is kept. -/
theorem Kept.add_skipped (skipped : m.kind ≠ .file) (contained : Contained m.path) (held : Kept) :
    held.add limits ignore m = .ok held := by
  rw [add, safeComponents_eq_ok_iff.mpr ⟨contained, rfl⟩]
  simp [bind, Except.bind, pure, Except.pure, skipped]

theorem Kept.add_nameless (inward : Inward m.path) (nameless : ¬Named m.path) (held : Kept) :
    held.add limits ignore m = .error .emptyPath := by
  rw [add, safeComponents_of_nameless inward nameless]
  rfl

theorem foldlM_insert_skipped (skipped : m.kind ≠ .file) (contained : Contained m.path)
    (held : Kept) : (front ++ m :: back).foldlM (Kept.add limits ignore) held =
      (front ++ back).foldlM (Kept.add limits ignore) held := by
  rw [List.foldlM_append, List.foldlM_append]
  refine congrArg (_ >>= ·) (funext fun reached => ?_)
  rw [List.foldlM_cons, Kept.add_skipped skipped contained]
  rfl

theorem foldlM_insert_nameless (inward : Inward m.path) (nameless : ¬Named m.path) (held : Kept) :
    (front ++ m :: back).foldlM (Kept.add limits ignore) held =
      front.foldlM (Kept.add limits ignore) held >>= fun _ => .error .emptyPath := by
  rw [List.foldlM_append]
  refine congrArg (_ >>= ·) (funext fun reached => ?_)
  rw [List.foldlM_cons, Kept.add_nameless inward nameless]
  rfl

/-- A folder, a link or whatever else is no file may stand anywhere in an archive without making
a difference, if it has a name. Without one it is refused as soon as the archive is read so far. -/
theorem select_insert_skipped (skipped : m.kind ≠ .file) (inward : Inward m.path) :
    (Named m.path → select limits ignore ⟨front ++ m :: back, sound⟩ =
      select limits ignore ⟨front ++ back, sound⟩) ∧
    (¬Named m.path → select limits ignore ⟨front ++ m :: back, sound⟩ =
      select limits ignore ⟨front, true⟩ >>= fun _ => .error .emptyPath) := by
  refine ⟨fun named => ?_, fun nameless => ?_⟩
  · rw [select, foldlM_insert_skipped skipped (inward.contained named), select]
  · simp only [select, foldlM_insert_nameless inward nameless]
    cases front.foldlM (Kept.add limits ignore) {} <;> rfl

namespace Sample

def folder (path : String) : Tar.Member := { file path [] with kind := .directory }

end Sample

/-- A folder under a long spelling of its path, behind a file. -/
theorem select_insert_skipped_folder :
    Named (Sample.folder "dir//./sub/").path ∧
      select {} [] ⟨[Sample.file "b.json" [0x7B, 0x7D]] ++ Sample.folder "dir//./sub/" ::
          [Sample.file "dir/a.json" [0x5B, 0x5D]], true⟩ =
        select {} [] ⟨[Sample.file "b.json" [0x7B, 0x7D]] ++
          [Sample.file "dir/a.json" [0x5B, 0x5D]], true⟩ := by
  have inward : Inward (Sample.folder "dir//./sub/").path := ⟨by decide, by decide +kernel⟩
  have named : Named (Sample.folder "dir//./sub/").path :=
    ⟨[0x64, 0x69, 0x72], by decide +kernel, by decide, by decide⟩
  exact ⟨named, (select_insert_skipped (by decide) inward).1 named⟩

/-- The folder that an archive of the current folder starts with. -/
theorem root_folder_refused : ¬∀ (limits : Limits) (ignore : List NamePattern)
    (front back : List Tar.Member) (m : Tar.Member) (sound : Bool), m.kind ≠ .file →
      Inward m.path → select limits ignore ⟨front ++ m :: back, sound⟩ =
        select limits ignore ⟨front ++ back, sound⟩ := by
  intro unchanged
  have same := unchanged {} [] [] [Sample.file "./a.json" [0x7B, 0x7D]] (Sample.folder "./") true
    (by decide) ⟨by decide, by decide +kernel⟩
  have refused : select {} [] ⟨[Sample.folder "./", Sample.file "./a.json" [0x7B, 0x7D]], true⟩ =
    .error .emptyPath := by cbv
  have taken : select {} [] ⟨[Sample.file "./a.json" [0x7B, 0x7D]], true⟩ =
    .ok [⟨"a.json", [0x7B, 0x7D]⟩] := by cbv
  rw [List.nil_append, List.nil_append, refused, taken] at same
  contradiction

end WorkflowBundle.Archive
