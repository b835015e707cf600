import Mathlib.Data.List.Pairwise
import Mathlib.Order.Basic
import Mathlib.Order.Lattice

/-!
# Maps in the order of their keys

A finite map as the list of its entries, which are ordered by their keys, so that two maps with the
same values are the same list.

## Main definitions

* `SortedMap` — the map, with `SortedMap.get?`, `SortedMap.insert` and `SortedMap.erase`.

## Main results

* `SortedMap.get?_insert`, `SortedMap.get?_erase` — what is found afterwards.
* `SortedMap.ext_get?` — a map is determined by what is found in it.
-/

namespace Tsz.Sorting

structure SortedMap (κ α : Type*) [LinearOrder κ] where
  entries : List (κ × α)
  sorted : entries.Pairwise fun entry other => entry.1 < other.1

variable {κ α : Type*} [LinearOrder κ]

/-- An entry at its place, where it replaces one of the same key. -/
def place (entry : κ × α) : List (κ × α) → List (κ × α)
  | [] => [entry]
  | other :: rest =>
    if entry.1 < other.1 then entry :: other :: rest
    else if other.1 < entry.1 then other :: place entry rest
    else entry :: rest

theorem mem_place {entry e : κ × α} {entries : List (κ × α)}
    (hsorted : entries.Pairwise fun entry other => entry.1 < other.1) :
    e ∈ place entry entries ↔ e = entry ∨ e ∈ entries ∧ e.1 ≠ entry.1 := by
  induction entries with
  | nil => simp [place]
  | cons other rest ih =>
    obtain ⟨hother, hrest⟩ := List.pairwise_cons.mp hsorted
    have hne (h : entry.1 ≤ other.1) : ∀ e ∈ rest, e.1 ≠ entry.1 :=
      fun e he => (h.trans_lt (hother e he)).ne'
    rw [place]
    split_ifs with hlt hgt
    · have hall : ∀ e ∈ other :: rest, e.1 ≠ entry.1 :=
        List.forall_mem_cons.mpr ⟨hlt.ne', hne hlt.le⟩
      grind
    · have hother := hgt.ne
      grind
    · have heq : entry.1 = other.1 := le_antisymm (not_lt.mp hgt) (not_lt.mp hlt)
      have hrest := hne heq.le
      grind

theorem sorted_place {entry : κ × α} {entries : List (κ × α)}
    (hsorted : entries.Pairwise fun entry other => entry.1 < other.1) :
    (place entry entries).Pairwise fun entry other => entry.1 < other.1 := by
  induction entries with
  | nil => simp [place]
  | cons other rest ih =>
    obtain ⟨hother, hrest⟩ := List.pairwise_cons.mp hsorted
    rw [place]
    split_ifs with hlt hgt
    · refine List.pairwise_cons.mpr ⟨fun e he => ?_, hsorted⟩
      rcases List.mem_cons.mp he with rfl | he
      · exact hlt
      · exact hlt.trans (hother e he)
    · refine List.pairwise_cons.mpr ⟨fun e he => ?_, ih hrest⟩
      rcases (mem_place hrest).mp he with rfl | ⟨he, -⟩
      · exact hgt
      · exact hother e he
    · refine List.pairwise_cons.mpr ⟨fun e he => ?_, hrest⟩
      exact (not_lt.mp hgt).trans_lt (hother e he)

namespace SortedMap

def empty : SortedMap κ α := ⟨[], .nil⟩

def get? (m : SortedMap κ α) (key : κ) : Option α :=
  (m.entries.find? fun entry => entry.1 = key).map (·.2)

def insert (m : SortedMap κ α) (key : κ) (value : α) : SortedMap κ α :=
  ⟨place (key, value) m.entries, sorted_place m.sorted⟩

def erase (m : SortedMap κ α) (key : κ) : SortedMap κ α :=
  ⟨m.entries.filter fun entry => entry.1 ≠ key, m.sorted.filter _⟩

variable {m : SortedMap κ α} {key other : κ} {value : α}

/-- There is one entry of a key. -/
theorem eq_of_mem {e e' : κ × α} (he : e ∈ m.entries) (he' : e' ∈ m.entries) (h : e.1 = e'.1) :
    e = e' := by
  by_contra hne
  let Apart (e e' : κ × α) : Prop := e.1 < e'.1 ∨ e'.1 < e.1
  have hsymm : Std.Symm Apart := ⟨fun _ _ h => h.symm⟩
  have hapart : m.entries.Pairwise Apart := m.sorted.imp .inl
  rcases hapart.forall he he' hne with hlt | hlt
  · exact hlt.ne h
  · exact hlt.ne' h

theorem get?_eq_some_iff : m.get? key = some value ↔ (key, value) ∈ m.entries := by
  rw [get?, Option.map_eq_some_iff]
  constructor
  · rintro ⟨e, hfind, rfl⟩
    obtain rfl : e.1 = key := by simpa using List.find?_some hfind
    exact List.mem_of_find?_eq_some hfind
  · intro hmem
    cases hfind : m.entries.find? fun entry => entry.1 = key with
    | none =>
      have hnone := List.find?_eq_none.mp hfind _ hmem
      simp at hnone
    | some e =>
      have hkey : e.1 = key := by simpa using List.find?_some hfind
      exact ⟨e, rfl, congrArg (·.2) (eq_of_mem (List.mem_of_find?_eq_some hfind) hmem hkey)⟩

@[simp]
theorem get?_empty : (empty : SortedMap κ α).get? key = none := rfl

theorem get?_insert :
    (m.insert key value).get? other = if other = key then some value else m.get? other := by
  ext v
  rw [get?_eq_some_iff, insert, mem_place m.sorted]
  split_ifs with h
  · subst h
    simp [eq_comm]
  · simp [h, get?_eq_some_iff]

theorem get?_erase : (m.erase key).get? other = if other = key then none else m.get? other := by
  ext v
  rw [get?_eq_some_iff, erase, List.mem_filter]
  split_ifs with h <;> simp [h, get?_eq_some_iff]

/-- A map is determined by what is found in it. -/
theorem ext_get? {m m' : SortedMap κ α} (h : ∀ key, m.get? key = m'.get? key) : m = m' := by
  have hmem (e : κ × α) : e ∈ m.entries ↔ e ∈ m'.entries := by
    rw [← get?_eq_some_iff, ← get?_eq_some_iff, h]
  have hnodup (m : SortedMap κ α) : m.entries.Nodup :=
    m.sorted.imp fun hlt heq => hlt.ne (congrArg (·.1) heq)
  have hperm := (List.perm_ext_iff_of_nodup (hnodup m) (hnodup m')).mpr hmem
  have hentries : m.entries = m'.entries :=
    hperm.eq_of_pairwise (fun _ _ _ _ hlt hgt => absurd hlt hgt.asymm) m.sorted m'.sorted
  cases m
  cases m'
  cases hentries
  rfl

end SortedMap

end Tsz.Sorting
