import Mathlib.Logic.Relation
import Mathlib.Data.List.Basic

/-!
# Searching a graph

A search along the edges of a finite graph that leaves no place twice.

## Main definitions

* `successors` — the places one edge away from a place.
* `pathExists` — whether at least one edge leads from a place to another.

## Main results

* `pathExists_iff` — the search finds the target exactly if there is a path.
-/

namespace Recursion

variable {α : Type*} [DecidableEq α]

def successors (edges : List (α × α)) (place : α) : List α :=
  (edges.filter (·.1 = place)).map (·.2)

/-- The edges out of places that were not left yet. -/
def openEdges (edges : List (α × α)) (seen : List α) : List (α × α) := edges.filter (·.1 ∉ seen)

@[simp]
theorem mem_successors {edges : List (α × α)} {place next : α} :
    next ∈ successors edges place ↔ (place, next) ∈ edges := by
  simp [successors]

/-- Leaving a place closes the edges out of it. -/
theorem length_openEdges (edges : List (α × α)) {seen : List α} {place : α} (h : place ∉ seen) :
    (successors edges place).length + (openEdges edges (place :: seen)).length =
      (openEdges edges seen).length := by
  induction edges with
  | nil => rfl
  | cons edge edges ih =>
    simp only [successors, openEdges, List.filter_cons, List.mem_cons] at ih ⊢
    grind

/-- Whether one of the pending places leads to the target. -/
def searchFrom (edges : List (α × α)) (target : α) (pending seen : List α) : Bool :=
  match pending with
  | [] => false
  | current :: rest =>
    if current = target then true
    else if current ∈ seen then searchFrom edges target rest seen
    else
      searchFrom edges target ((successors edges current).reverse ++ rest) (current :: seen)
termination_by pending.length + (openEdges edges seen).length
decreasing_by
  · simp
  · next hnew =>
    have := length_openEdges edges hnew
    simp
    omega

def pathExists (edges : List (α × α)) (start target : α) : Bool :=
  searchFrom edges target (successors edges start).reverse [start]

/-- One edge leads from a place to the next. -/
def Edge (edges : List (α × α)) (place next : α) : Prop := (place, next) ∈ edges

theorem exists_path_of_searchFrom {edges : List (α × α)} {target : α} {pending seen : List α}
    (h : searchFrom edges target pending seen = true) :
    ∃ place ∈ pending, Relation.ReflTransGen (Edge edges) place target := by
  fun_induction searchFrom edges target pending seen with
  | case1 => cases h
  | case2 seen rest => exact ⟨target, List.mem_cons_self, .refl⟩
  | case3 seen current rest hne hseen ih =>
    obtain ⟨place, hplace, hpath⟩ := ih h
    exact ⟨place, .tail _ hplace, hpath⟩
  | case4 seen current rest hne hnew ih =>
    obtain ⟨place, hplace, hpath⟩ := ih h
    rcases List.mem_append.mp hplace with hplace | hplace
    · have hedge : Edge edges current place := mem_successors.mp (List.mem_reverse.mp hplace)
      exact ⟨current, List.mem_cons_self, hpath.head hedge⟩
    · exact ⟨place, .tail _ hplace, hpath⟩

/-- A search that fails leaves every place it can get to, none of them the target. -/
theorem exists_closed_of_searchFrom {edges : List (α × α)} {target : α} {pending seen : List α}
    (h : searchFrom edges target pending seen = false)
    (hseen : ∀ place ∈ seen, ∀ next, Edge edges place next →
      next ∈ pending ∨ next ∈ seen ∧ next ≠ target) :
    ∃ left : List α, (∀ place ∈ seen, place ∈ left) ∧
      (∀ place ∈ pending, place ∈ left ∧ place ≠ target) ∧
      ∀ place ∈ left, ∀ next, Edge edges place next → next ∈ left ∧ next ≠ target := by
  fun_induction searchFrom edges target pending seen with
  | case1 seen => exact ⟨seen, fun _ h => h, nofun, fun place hplace next hedge =>
      (hseen place hplace next hedge).resolve_left nofun⟩
  | case2 => cases h
  | case3 seen current rest hne hcurrent ih =>
    obtain ⟨left, hsub, hpending, hclosed⟩ := ih h fun place hplace next hedge => by
      rcases hseen place hplace next hedge with hnext | hnext
      · rcases List.mem_cons.mp hnext with rfl | hnext
        · exact .inr ⟨hcurrent, hne⟩
        · exact .inl hnext
      · exact .inr hnext
    refine ⟨left, hsub, fun place hplace => ?_, hclosed⟩
    rcases List.mem_cons.mp hplace with rfl | hplace
    · exact ⟨hsub _ hcurrent, hne⟩
    · exact hpending place hplace
  | case4 seen current rest hne hnew ih =>
    obtain ⟨left, hsub, hpending, hclosed⟩ := ih h fun place hplace next hedge => by
      rcases List.mem_cons.mp hplace with rfl | hplace
      · exact .inl (List.mem_append_left _ (List.mem_reverse.mpr (mem_successors.mpr hedge)))
      · rcases hseen place hplace next hedge with hnext | ⟨hnext, hnot⟩
        · rcases List.mem_cons.mp hnext with rfl | hnext
          · exact .inr ⟨List.mem_cons_self, hne⟩
          · exact .inl (List.mem_append_right _ hnext)
        · exact .inr ⟨.tail _ hnext, hnot⟩
    refine ⟨left, fun place hplace => hsub place (.tail _ hplace), fun place hplace => ?_, hclosed⟩
    rcases List.mem_cons.mp hplace with rfl | hplace
    · exact ⟨hsub _ List.mem_cons_self, hne⟩
    · exact hpending place (List.mem_append_right _ hplace)

theorem pathExists_iff {edges : List (α × α)} {start target : α} :
    pathExists edges start target = true ↔ Relation.TransGen (Edge edges) start target := by
  constructor
  · intro h
    obtain ⟨place, hplace, hpath⟩ := exists_path_of_searchFrom h
    have hedge : Edge edges start place := mem_successors.mp (List.mem_reverse.mp hplace)
    exact .head' hedge hpath
  · intro hpath
    by_contra hfound
    rw [Bool.not_eq_true] at hfound
    obtain ⟨left, hsub, hpending, hclosed⟩ := exists_closed_of_searchFrom hfound
      fun place hplace next hedge => by
        obtain rfl := List.mem_singleton.mp hplace
        exact .inl (List.mem_reverse.mpr (mem_successors.mpr hedge))
    have hleft : ∀ place, Relation.TransGen (Edge edges) start place →
        place ∈ left ∧ place ≠ target := by
      intro place hpath
      induction hpath with
      | single hedge => exact hclosed _ (hsub _ (List.mem_singleton_self start)) _ hedge
      | tail _ hedge ih => exact hclosed _ ih.1 _ hedge
    exact (hleft target hpath).2 rfl

end Recursion
