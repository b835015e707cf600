import Mathlib.Logic.Relation
import Mathlib.Data.List.Nodup
import Tsz.Recursion.Visited

/-!
# Visits in post-order

A place is entered once and left behind the places it refers to, so that what is left in front of it
is what it needs, unless places need each other.

## Main definitions

* `visit` — a visit of a place and of all that it refers to.
* `Visits` — what visits add to a traversal.

## Main results

* `exists_visits` — visits with enough fuel end as they should.
* `Visits.mem_selected_iff` — what is left in the end is what the roots need.
-/

namespace Recursion

variable {α : Type*}

/-- The places that were entered, and those that were left, in their order. -/
structure Traversal (α : Type*) where
  visited : List α := []
  selected : List α := []

variable {references : α → Option (List α)}

def Refers (references : α → Option (List α)) (place next : α) : Prop :=
  ∃ nexts, references place = some nexts ∧ next ∈ nexts

/-- A place that is reached from another. -/
abbrev Needs (references : α → Option (List α)) : α → α → Prop :=
  Relation.ReflTransGen (Refers references)

/-- What visits from the roots add to a traversal, which are the new places in their order. -/
structure Visits (references : α → Option (List α)) (roots : List α) (t t' : Traversal α)
    (added : List α) : Prop where
  selected : t'.selected = t.selected ++ added
  visited : ∀ place, place ∈ t'.visited ↔ place ∈ t.visited ∨ place ∈ added
  nodup : added.Nodup
  fresh : ∀ place ∈ added, place ∉ t.visited
  reached : ∀ place ∈ added, (references place).isSome ∧ ∃ root ∈ roots, Needs references root place
  entered : ∀ root ∈ roots, (references root).isSome → root ∈ t'.visited
  closed : ∀ place ∈ added, ∀ next, Refers references place next → (references next).isSome →
    next ∈ t'.visited
  /-- A place in front of one it refers to is needed by that one. -/
  ordered : added.Pairwise fun place next =>
    Refers references place next → Needs references next place

namespace Visits

variable {roots roots' added added' : List α} {t t' t'' : Traversal α}

/-- Nothing is added if the roots that are known were entered before. -/
theorem skip (h : ∀ root ∈ roots, (references root).isSome → root ∈ t.visited) :
    Visits references roots t t [] where
  selected := (List.append_nil _).symm
  visited _ := by simp
  nodup := .nil
  fresh _ h := by cases h
  reached _ h := by cases h
  entered := h
  closed _ h := by cases h
  ordered := .nil

theorem append (h : Visits references roots t t' added)
    (h' : Visits references roots' t' t'' added') :
    Visits references (roots ++ roots') t t'' (added ++ added') where
  selected := by rw [h'.selected, h.selected, List.append_assoc]
  visited place := by rw [h'.visited, h.visited, List.mem_append, or_assoc]
  nodup := by
    refine List.nodup_append.mpr ⟨h.nodup, h'.nodup, fun place hplace other hother heq => ?_⟩
    exact h'.fresh other hother ((h.visited other).mpr (.inr (heq ▸ hplace)))
  fresh place hplace hvisited := by
    rcases List.mem_append.mp hplace with hplace | hplace
    · exact h.fresh place hplace hvisited
    · exact h'.fresh place hplace ((h.visited place).mpr (.inl hvisited))
  reached place hplace := by
    rcases List.mem_append.mp hplace with hplace | hplace
    · obtain ⟨hknown, root, hroot, hneeds⟩ := h.reached place hplace
      exact ⟨hknown, root, List.mem_append_left _ hroot, hneeds⟩
    · obtain ⟨hknown, root, hroot, hneeds⟩ := h'.reached place hplace
      exact ⟨hknown, root, List.mem_append_right _ hroot, hneeds⟩
  entered root hroot hknown := by
    rcases List.mem_append.mp hroot with hroot | hroot
    · exact (h'.visited root).mpr (.inl (h.entered root hroot hknown))
    · exact h'.entered root hroot hknown
  closed place hplace next hrefers hknown := by
    rcases List.mem_append.mp hplace with hplace | hplace
    · exact (h'.visited next).mpr (.inl (h.closed place hplace next hrefers hknown))
    · exact h'.closed place hplace next hrefers hknown
  ordered := by
    refine List.pairwise_append.mpr
      ⟨h.ordered, h'.ordered, fun place hplace next hnext hrefers => ?_⟩
    have hvisited := h.closed place hplace next hrefers (h'.reached next hnext).1
    exact absurd hvisited (h'.fresh next hnext)

/-- A new place is added behind what the visits of its references add. -/
theorem place {place : α} {nexts : List α} (hplace : references place = some nexts)
    (hnew : place ∉ t.visited)
    (h : Visits references nexts { t with visited := place :: t.visited } t' added) :
    Visits references [place] t { t' with selected := t'.selected ++ [place] }
      (added ++ [place]) where
  selected := by rw [h.selected, List.append_assoc]
  visited other := by
    rw [h.visited, List.mem_cons, List.mem_append, List.mem_singleton]
    tauto
  nodup := by
    refine List.nodup_append.mpr ⟨h.nodup, List.nodup_singleton _, fun other hother x hx heq => ?_⟩
    rw [List.mem_singleton.mp hx] at heq
    exact h.fresh other hother (heq ▸ List.mem_cons_self)
  fresh other hother hvisited := by
    rcases List.mem_append.mp hother with hother | hother
    · exact h.fresh other hother (List.mem_cons_of_mem _ hvisited)
    · exact hnew (List.mem_singleton.mp hother ▸ hvisited)
  reached other hother := by
    rcases List.mem_append.mp hother with hother | hother
    · obtain ⟨hknown, next, hnext, hneeds⟩ := h.reached other hother
      exact ⟨hknown, place, List.mem_singleton_self _, .head ⟨nexts, hplace, hnext⟩ hneeds⟩
    · rw [List.mem_singleton.mp hother]
      exact ⟨by rw [hplace]; rfl, place, List.mem_singleton_self _, .refl⟩
  entered root hroot _ := by
    rw [List.mem_singleton.mp hroot]
    exact (h.visited place).mpr (.inl List.mem_cons_self)
  closed other hother next hrefers hknown := by
    rcases List.mem_append.mp hother with hother | hother
    · exact h.closed other hother next hrefers hknown
    · obtain ⟨found, hfound, hnext⟩ := hrefers
      rw [List.mem_singleton.mp hother, hplace] at hfound
      obtain rfl := Option.some.inj hfound
      exact h.entered next hnext hknown
  ordered := by
    refine List.pairwise_append.mpr ⟨h.ordered, List.pairwise_singleton _ _,
      fun other hother next hnext _ => ?_⟩
    obtain ⟨-, root, hroot, hneeds⟩ := h.reached other hother
    rw [List.mem_singleton.mp hnext]
    exact .head ⟨nexts, hplace, hroot⟩ hneeds

end Visits

section

variable {roots added : List α} {t : Traversal α}

/-- What is left in the end are the known places that the roots need. -/
theorem Visits.mem_selected_iff (h : Visits references roots {} t added) {place : α} :
    place ∈ t.selected ↔
      (references place).isSome ∧ ∃ root ∈ roots, Needs references root place := by
  have hselected : t.selected = added := h.selected
  have hvisited (other : α) : other ∈ t.visited ↔ other ∈ added := by
    rw [h.visited other]
    exact or_iff_right (List.not_mem_nil)
  rw [hselected]
  refine ⟨h.reached place, ?_⟩
  rintro ⟨hknown, root, hroot, hneeds⟩
  induction hneeds with
  | refl => exact (hvisited root).mp (h.entered root hroot hknown)
  | tail hneeds hrefers ih =>
    obtain ⟨nexts, hnexts, hnext⟩ := hrefers
    exact (hvisited _).mp (h.closed _ (ih (by rw [hnexts]; rfl)) _ ⟨nexts, hnexts, hnext⟩ hknown)

end

/-! ## The traversal -/

variable [DecidableEq α]

/-- Known places have a list of places that they refer to. -/
def visit (references : α → Option (List α)) : Nat → Traversal α → α → Traversal α
  | 0, t, _ => t
  | fuel + 1, t, place =>
    match references place with
    | none => t
    | some nexts =>
      if place ∈ t.visited then t
      else
        let inner := nexts.foldl (visit references fuel) { t with visited := place :: t.visited }
        { inner with selected := inner.selected ++ [place] }

variable {places : List α}

/-- Visits end as they should with more fuel than places left. -/
theorem exists_visits (hplaces : ∀ place, (references place).isSome → place ∈ places) (fuel : Nat) :
    (∀ (t : Traversal α) (place : α), unseen places t.visited < fuel →
      ∃ added, Visits references [place] t (visit references fuel t place) added) ∧
    ∀ (roots : List α) (t : Traversal α), unseen places t.visited < fuel →
      ∃ added, Visits references roots t (roots.foldl (visit references fuel) t) added := by
  induction fuel with
  | zero =>
    exact ⟨fun _ _ h => absurd h (Nat.not_lt_zero _), fun _ _ h => absurd h (Nat.not_lt_zero _)⟩
  | succ fuel ih =>
    have hvisit (t : Traversal α) (place : α) (hfuel : unseen places t.visited < fuel + 1) :
        ∃ added, Visits references [place] t (visit references (fuel + 1) t place) added := by
      rw [visit]
      split
      · next hnone => exact ⟨[], .skip fun root hroot hknown => by
          rw [List.mem_singleton.mp hroot, hnone] at hknown
          cases hknown⟩
      · next nexts hnexts =>
        split_ifs with hmem
        · exact ⟨[], .skip fun root hroot _ => List.mem_singleton.mp hroot ▸ hmem⟩
        · have hless : unseen places (place :: t.visited) < unseen places t.visited :=
            unseen_lt_of_mem (hplaces place (by rw [hnexts]; rfl)) hmem fun _ => List.mem_cons
          obtain ⟨added, h⟩ := ih.2 nexts { t with visited := place :: t.visited } (by
            dsimp only
            omega)
          exact ⟨added ++ [place], h.place hnexts hmem⟩
    refine ⟨hvisit, fun roots => ?_⟩
    induction roots with
    | nil => exact fun t _ => ⟨[], .skip (fun _ h => by cases h)⟩
    | cons root roots ihroots =>
      intro t hfuel
      obtain ⟨added, h⟩ := hvisit t root hfuel
      have hsubset : t.visited ⊆ (visit references (fuel + 1) t root).visited := fun place hplace =>
        (h.visited place).mpr (.inl hplace)
      obtain ⟨more, h'⟩ := ihroots _ (Nat.lt_of_le_of_lt (unseen_le_of_subset hsubset) hfuel)
      exact ⟨added ++ more, h.append h'⟩

end Recursion
