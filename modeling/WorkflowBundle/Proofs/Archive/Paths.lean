import WorkflowBundle.Archive
import WorkflowBundle.Proofs.Text.Breaks
import WorkflowBundle.Proofs.Text.Utf8

/-! Paths of archive members. What a contained path is called leads back to itself, and none of
its components leads elsewhere. -/
namespace WorkflowBundle

theorem Tar.split_eq_splitOn (separator : UInt8) (bytes : List UInt8) :
    Tar.split separator bytes = bytes.splitOn separator := by
  induction bytes with
  | nil => rfl
  | cons b rest ih =>
    rw [Tar.split, ih, List.splitOn_cons_eq_if_modifyHead]
    cases pieces : rest.splitOn separator with
    | nil => exact absurd pieces (List.splitOn_ne_nil separator rest)
    | cons piece others => rfl

namespace Archive

/-- The path stays below the root of the bundle, and is not that root. -/
structure Contained (path : List UInt8) : Prop where
  relative : path.head? ≠ some slash
  below : parent ∉ path.splitOn slash
  named : ∃ part ∈ path.splitOn slash, part ≠ [] ∧ part ≠ [0x2E]

instance (path : List UInt8) : Decidable (Contained path) :=
  decidable_of_iff (path.head? ≠ some slash ∧ parent ∉ path.splitOn slash ∧
      ∃ part ∈ path.splitOn slash, part ≠ [] ∧ part ≠ [0x2E])
    ⟨fun ⟨relative, below, named⟩ => ⟨relative, below, named⟩,
      fun ⟨relative, below, named⟩ => ⟨relative, below, named⟩⟩

/-- What the entry at a path is called. -/
def nameOf (path : List UInt8) : String := "/".intercalate ((components path).map Utf8.lossy)

variable {path part : List UInt8}

theorem mem_components_iff :
    part ∈ components path ↔ part ∈ path.splitOn slash ∧ part ≠ [] ∧ part ≠ [0x2E] := by
  simp [components, Tar.split_eq_splitOn]

theorem components_ne_nil_iff :
    components path ≠ [] ↔ ∃ part ∈ path.splitOn slash, part ≠ [] ∧ part ≠ [0x2E] := by
  simp only [← mem_components_iff]
  exact ⟨List.exists_mem_of_ne_nil _, fun ⟨_, among⟩ => List.ne_nil_of_mem among⟩

theorem safeComponents_eq_ok_iff {parts : List (List UInt8)} :
    safeComponents path = .ok parts ↔ Contained path ∧ parts = components path := by
  have parent_iff : parent ∈ components path ↔ parent ∈ path.splitOn slash := by
    simp [mem_components_iff, parent]
  unfold safeComponents
  split
  next escapes =>
    simp only [Bool.or_eq_true, beq_iff_eq, List.contains_iff_mem, parent_iff] at escapes
    simp only [reduceCtorEq, false_iff, not_and]
    intro contained
    exact absurd escapes (not_or.mpr ⟨contained.relative, contained.below⟩)
  split
  next escapes empty =>
    simp only [reduceCtorEq, false_iff, not_and]
    intro contained
    exact absurd (by simpa using empty) (components_ne_nil_iff.mpr contained.named)
  next stays full =>
    simp only [Bool.or_eq_true, beq_iff_eq, List.contains_iff_mem, parent_iff, not_or] at stays
    have contained : Contained path :=
      ⟨stays.1, stays.2, components_ne_nil_iff.mp (by simpa using full)⟩
    simp only [contained, true_and, Except.ok.injEq]
    exact eq_comm

theorem Contained.ne_parent (contained : Contained path) (among : part ∈ components path) :
    part ≠ parent := by
  rintro rfl
  exact contained.below (mem_components_iff.mp among).1

theorem slash_notMem (among : part ∈ components path) : slash ∉ part :=
  notMem_of_mem_splitOn (mem_components_iff.mp among).1

theorem encode_dots : Utf8.encode "" = [] ∧ Utf8.encode "." = [0x2E] ∧
    Utf8.encode ".." = parent ∧ Utf8.encode "/" = [slash] := by
  simp only [Utf8.encode_eq]
  decide

/-- Bytes with a text of dots are these dots. -/
theorem lossy_ne (contained : Contained path) (among : part ∈ components path) :
    Utf8.lossy part ≠ "" ∧ Utf8.lossy part ≠ "." ∧ Utf8.lossy part ≠ ".." := by
  obtain ⟨-, filled, moving⟩ := mem_components_iff.mp among
  obtain ⟨nothing, dot, dots, -⟩ := encode_dots
  refine ⟨fun same => filled ?_, fun same => moving ?_, fun same => contained.ne_parent among ?_⟩
  · exact (Utf8.eq_encode_of_lossy same (by decide)).trans nothing
  · exact (Utf8.eq_encode_of_lossy same (by decide)).trans dot
  · exact (Utf8.eq_encode_of_lossy same (by decide)).trans dots

theorem lossy_slash (among : part ∈ components path) : '/' ∉ (Utf8.lossy part).toList := by
  intro within
  rw [Utf8.lossy, String.toList_ofList] at within
  have inside := Utf8.infix_of_mem_decodeLoosely within (by decide)
  exact slash_notMem among (inside.subset (by decide))

theorem slash_notMem_encode {text : String} (free : '/' ∉ text.toList) : slash ∉ Utf8.encode text := by
  rw [Utf8.encode_eq, List.mem_flatMap]
  rintro ⟨c, among, within⟩
  exact free (Utf8.mem_utf8EncodeChar_ascii (by decide) within ▸ among)

/-- The parts of a name, as texts. -/
theorem splitOn_nameOf (contained : Contained path) :
    (nameOf path).toList.splitOn '/' =
      (components path).map fun part => (Utf8.lossy part).toList := by
  rw [nameOf, String.toList_intercalate, List.map_map]
  refine List.splitOn_intercalate '/' ?_ ?_
  · simpa using fun part among => lossy_slash among
  · simpa using components_ne_nil_iff.mpr contained.named

theorem encode_intercalate (parts : List String) :
    Utf8.encode ("/".intercalate parts) = [slash].intercalate (parts.map Utf8.encode) := by
  induction parts with
  | nil => simp [Utf8.encode_eq]
  | cons first others ih =>
    cases others with
    | nil => simp
    | cons second others =>
      rw [String.intercalate_cons_cons, Utf8.encode_append, Utf8.encode_append, ih,
        encode_dots.2.2.2]
      simp

theorem splitOn_encode_nameOf (contained : Contained path) :
    (Utf8.encode (nameOf path)).splitOn slash =
      (components path).map fun part => Utf8.encode (Utf8.lossy part) := by
  rw [nameOf, encode_intercalate, List.map_map]
  refine List.splitOn_intercalate slash ?_ ?_
  · simpa using fun part among => slash_notMem_encode (lossy_slash among)
  · simpa using components_ne_nil_iff.mpr contained.named

theorem components_encode_nameOf (contained : Contained path) :
    components (Utf8.encode (nameOf path)) =
      (components path).map fun part => Utf8.encode (Utf8.lossy part) := by
  rw [components, Tar.split_eq_splitOn, splitOn_encode_nameOf contained, List.filter_eq_self]
  intro bytes within
  obtain ⟨part, among, rfl⟩ := List.mem_map.mp within
  obtain ⟨nothing, dot, -⟩ := encode_dots
  obtain ⟨filled, moving, -⟩ := lossy_ne contained among
  rw [Bool.and_eq_true, bne_iff_ne, bne_iff_ne]
  exact ⟨nothing ▸ Utf8.encode_injective.ne filled, dot ▸ Utf8.encode_injective.ne moving⟩

theorem Contained.encode_nameOf (contained : Contained path) :
    Contained (Utf8.encode (nameOf path)) := by
  obtain ⟨nothing, dot, dots, -⟩ := encode_dots
  have pieces := splitOn_encode_nameOf contained
  refine ⟨fun rooted => ?_, fun below => ?_, ?_⟩
  · -- a slash at the front would have an empty piece before it
    obtain ⟨rest, spelled⟩ := List.head?_eq_some_iff.mp rooted
    rw [spelled, List.splitOn_cons_eq_if_modifyHead, if_pos (by simp)] at pieces
    obtain ⟨part, among, same⟩ := List.mem_map.mp (pieces ▸ List.mem_cons_self)
    exact (lossy_ne contained among).1 (Utf8.encode_injective (same.trans nothing.symm))
  · rw [pieces] at below
    obtain ⟨part, among, same⟩ := List.mem_map.mp below
    exact (lossy_ne contained among).2.2 (Utf8.encode_injective (same.trans dots.symm))
  · rw [← components_ne_nil_iff, components_encode_nameOf contained, ne_eq, List.map_eq_nil_iff]
    exact components_ne_nil_iff.mpr contained.named

/-- The name of a path is the path of that name. -/
theorem safeComponents_encode_nameOf (contained : Contained path) :
    (safeComponents (Utf8.encode (nameOf path))).map
      (fun parts => "/".intercalate (parts.map Utf8.lossy)) = .ok (nameOf path) := by
  rw [safeComponents_eq_ok_iff.mpr ⟨contained.encode_nameOf, rfl⟩,
    components_encode_nameOf contained, Except.map, List.map_map]
  simp only [Function.comp_def, Utf8.lossy_encode]
  rfl

end Archive

end WorkflowBundle
