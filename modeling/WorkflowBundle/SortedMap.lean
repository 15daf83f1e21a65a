/-! Finite maps kept as entries in strictly increasing key order. Every traversal is in
key order, and two maps that give every key the same value are equal, because the
entry list of a map is determined by what it maps. -/
namespace WorkflowBundle

/-- Entries of a map before their order is known to be strict. -/
abbrev Entries (κ : Type u) (β : Type v) := List (κ × β)

namespace Entries

variable {κ : Type u} {β : Type v} [Ord κ]

/-- Each key is greater than all keys before it. -/
def Increasing (entries : Entries κ β) : Prop :=
  entries.Pairwise fun a b => compare a.1 b.1 = .lt

/-- Puts an entry at its place; an entry of the same key is replaced. -/
def insert (key : κ) (value : β) : Entries κ β → Entries κ β
  | [] => [(key, value)]
  | (other, kept) :: rest =>
    match compare key other with
    | .lt => (key, value) :: (other, kept) :: rest
    | .eq => (key, value) :: rest
    | .gt => (other, kept) :: insert key value rest

def get? (key : κ) : Entries κ β → Option β
  | [] => none
  | (other, value) :: rest => if compare key other = .eq then some value else get? key rest

theorem mem_insert {key : κ} {value : β} {entries : Entries κ β} {e : κ × β}
    (h : e ∈ insert key value entries) : e = (key, value) ∨ e ∈ entries := by
  induction entries with
  | nil => simpa [insert] using h
  | cons head rest ih =>
    obtain ⟨other, kept⟩ := head
    unfold insert at h
    split at h
    · simpa using h
    · rcases List.mem_cons.mp h with h | h
      · exact .inl h
      · exact .inr (List.mem_cons_of_mem _ h)
    · rcases List.mem_cons.mp h with h | h
      · exact .inr (h ▸ List.mem_cons_self ..)
      · rcases ih h with h | h
        · exact .inl h
        · exact .inr (List.mem_cons_of_mem _ h)

theorem Increasing.insert [Std.TransOrd κ] {entries : Entries κ β} (h : entries.Increasing)
    (key : κ) (value : β) : (entries.insert key value).Increasing := by
  induction entries with
  | nil => simp [Entries.insert, Increasing]
  | cons head rest ih =>
    obtain ⟨other, kept⟩ := head
    obtain ⟨above, tail⟩ := List.pairwise_cons.mp h
    unfold Entries.insert
    split
    next lt =>
      refine List.pairwise_cons.mpr ⟨?_, h⟩
      intro e he
      rcases List.mem_cons.mp he with rfl | he
      · exact lt
      · exact Std.TransCmp.lt_trans lt (above e he)
    next eq =>
      refine List.pairwise_cons.mpr ⟨fun e he => ?_, tail⟩
      exact Std.TransCmp.lt_of_eq_of_lt eq (above e he)
    next gt =>
      refine List.pairwise_cons.mpr ⟨fun e he => ?_, ih tail⟩
      rcases mem_insert he with rfl | he
      · exact Std.OrientedCmp.gt_iff_lt.mp gt
      · exact above e he

theorem get?_insert [Std.TransOrd κ] (key other : κ) (value : β) (entries : Entries κ β) :
    (entries.insert key value).get? other =
      if compare other key = .eq then some value else entries.get? other := by
  induction entries with
  | nil => simp [Entries.insert, get?]
  | cons head rest ih =>
    obtain ⟨k, kept⟩ := head
    unfold Entries.insert
    split
    next lt => simp [get?]
    next eq =>
      simp only [get?]
      by_cases h : compare other key = .eq
      · simp [h]
      · have : compare other k ≠ .eq := fun c =>
          h (Std.TransCmp.eq_trans c (Std.OrientedCmp.eq_symm eq))
        simp [h, this]
    next gt =>
      simp only [get?, ih]
      by_cases h : compare other k = .eq
      · have : compare other key ≠ .eq := fun c => by
          have := Std.TransCmp.eq_trans (Std.OrientedCmp.eq_symm c) h
          simp [this] at gt
        simp [h, this]
      · simp [h]

end Entries

/-- A finite map with its entries in key order. -/
@[ext] structure SortedMap (κ : Type u) (β : Type v) [Ord κ] where
  entries : Entries κ β
  increasing : entries.Increasing

namespace SortedMap

variable {κ : Type u} {β : Type v} {γ : Type w} [Ord κ]

def empty : SortedMap κ β := ⟨[], List.Pairwise.nil⟩

instance : Inhabited (SortedMap κ β) := ⟨empty⟩

def get? (map : SortedMap κ β) (key : κ) : Option β := map.entries.get? key

def contains (map : SortedMap κ β) (key : κ) : Bool := (map.get? key).isSome

def keys (map : SortedMap κ β) : List κ := map.entries.map (·.1)

def values (map : SortedMap κ β) : List β := map.entries.map (·.2)

def size (map : SortedMap κ β) : Nat := map.entries.length

def isEmpty (map : SortedMap κ β) : Bool := map.entries.isEmpty

def insert [Std.TransOrd κ] (map : SortedMap κ β) (key : κ) (value : β) : SortedMap κ β :=
  ⟨map.entries.insert key value, map.increasing.insert key value⟩

def erase (map : SortedMap κ β) (key : κ) : SortedMap κ β :=
  ⟨map.entries.filter (fun e => compare key e.1 != .eq), map.increasing.filter _⟩

/-- The same keys with other values. -/
def map (f : β → γ) (m : SortedMap κ β) : SortedMap κ γ :=
  ⟨m.entries.map fun e => (e.1, f e.2), by
    simpa [Entries.Increasing, List.pairwise_map] using m.increasing⟩

/-- Gives each entry another value, or leaves it out. -/
def filterMap (f : κ → β → Option γ) (m : SortedMap κ β) : SortedMap κ γ :=
  ⟨m.entries.filterMap fun e => (f e.1 e.2).map (e.1, ·), by
    refine List.Pairwise.filterMap _ (fun a b lt x hx y hy => ?_) m.increasing
    simp only [Option.map_eq_some_iff] at hx hy
    obtain ⟨_, _, rfl⟩ := hx
    obtain ⟨_, _, rfl⟩ := hy
    exact lt⟩

/-- The entries in turn; of several entries of one key the last stays. -/
def ofList [Std.TransOrd κ] (entries : List (κ × β)) : SortedMap κ β :=
  entries.foldl (fun m e => m.insert e.1 e.2) empty

@[simp] theorem get?_empty (key : κ) : (empty : SortedMap κ β).get? key = none := rfl

theorem get?_insert [Std.TransOrd κ] (m : SortedMap κ β) (key other : κ) (value : β) :
    (m.insert key value).get? other =
      if compare other key = .eq then some value else m.get? other :=
  Entries.get?_insert key other value m.entries

@[simp] theorem keys_map (f : β → γ) (m : SortedMap κ β) : (m.map f).keys = m.keys := by
  simp [keys, map, Function.comp_def]

end SortedMap

end WorkflowBundle
