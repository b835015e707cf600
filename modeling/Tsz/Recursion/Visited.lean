import Mathlib.Data.List.Basic

/-!
# Searches that remember what they visited

A search among finitely many places that never enters one twice has fewer and fewer of them left.
-/

namespace Recursion

variable {α : Type*} [DecidableEq α]

/-- How many places are not visited yet. -/
def unseen (places seen : List α) : Nat := (places.filter (· ∉ seen)).length

theorem unseen_le_length (places seen : List α) : unseen places seen ≤ places.length :=
  List.length_filter_le _ _

theorem unseen_le_of_subset {places seen seen' : List α} (h : seen ⊆ seen') :
    unseen places seen' ≤ unseen places seen := by
  refine (List.monotone_filter_right places fun place hplace => ?_).length_le
  have hnew : place ∉ seen' := by simpa using hplace
  exact decide_eq_true fun hmem => hnew (h hmem)

/-- A visit to a new place leaves fewer of them. -/
theorem unseen_lt_of_mem {places seen seen' : List α} {place : α} (hmem : place ∈ places)
    (hnew : place ∉ seen) (hseen : ∀ other, other ∈ seen' ↔ other = place ∨ other ∈ seen) :
    unseen places seen' < unseen places seen := by
  have hfilter : places.filter (· ∉ seen') = (places.filter (· ∉ seen)).filter (· ≠ place) := by
    rw [List.filter_filter]
    refine List.filter_congr fun other _ => ?_
    simp [hseen other]
  rw [unseen, hfilter]
  exact List.length_filter_lt_length_iff_exists.mpr ⟨place, by simp [hmem, hnew], by simp⟩

end Recursion
