import Mathlib.Order.Lattice
import Mathlib.Order.Defs.LinearOrder

/-!
# Lexicographically ordered trees

A comparison key of a structured value: a label, compared first, and the keys of the
parts, compared in order, a shorter list before its extensions. Derived orders of
enumerations, records, tuples and vectors are all of this form.
-/

namespace Tsz.Sorting

inductive KeyTree (α : Type*) where
  | node (label : α) (children : List (KeyTree α))

variable {α : Type*} [LinearOrder α]

namespace KeyTree

mutual

def cmp : KeyTree α → KeyTree α → Ordering
  | node a as, node b bs => (compare a b).then (cmpList as bs)

/-- Vectors: the first difference decides, a proper prefix is smaller. -/
def cmpList : List (KeyTree α) → List (KeyTree α) → Ordering
  | [], [] => .eq
  | [], _ :: _ => .lt
  | _ :: _, [] => .gt
  | a :: as, b :: bs => (cmp a b).then (cmpList as bs)

end

mutual

theorem cmp_swap : ∀ a b : KeyTree α, (cmp a b).swap = cmp b a
  | node a as, node b bs => by
    simp only [cmp, Ordering.swap_then, cmpList_swap as bs]
    rw [← Std.OrientedOrd.eq_swap]

theorem cmpList_swap : ∀ as bs : List (KeyTree α), (cmpList as bs).swap = cmpList bs as
  | [], [] => rfl
  | [], _ :: _ => rfl
  | _ :: _, [] => rfl
  | a :: as, b :: bs => by
    simp only [cmpList, Ordering.swap_then, cmp_swap a b, cmpList_swap as bs]

end

mutual

theorem eq_of_cmp : ∀ a b : KeyTree α, cmp a b = .eq → a = b
  | node a as, node b bs => by
    intro h
    obtain ⟨hab, hs⟩ := Ordering.then_eq_eq.mp h
    rw [compare_eq_iff_eq.mp hab, eq_of_cmpList as bs hs]

theorem eq_of_cmpList : ∀ as bs : List (KeyTree α), cmpList as bs = .eq → as = bs
  | [], [] => fun _ => rfl
  | [], _ :: _ => nofun
  | _ :: _, [] => nofun
  | a :: as, b :: bs => by
    intro h
    obtain ⟨hab, hs⟩ := Ordering.then_eq_eq.mp h
    rw [eq_of_cmp a b hab, eq_of_cmpList as bs hs]

end

mutual

theorem cmp_self : ∀ a : KeyTree α, cmp a a = .eq
  | node a as => by simp [cmp, cmpList_self as]

theorem cmpList_self : ∀ as : List (KeyTree α), cmpList as as = .eq
  | [] => rfl
  | a :: as => by simp [cmpList, cmp_self a, cmpList_self as]

end

theorem then_eq_lt {o p : Ordering} : o.then p = .lt ↔ o = .lt ∨ o = .eq ∧ p = .lt := by
  cases o <;> simp [Ordering.then]

mutual

theorem cmp_lt_trans : ∀ a b c : KeyTree α, cmp a b = .lt → cmp b c = .lt → cmp a c = .lt
  | node a as, node b bs, node c cs => by
    intro hab hbc
    simp only [cmp, then_eq_lt, compare_lt_iff_lt, compare_eq_iff_eq] at *
    have := cmpList_lt_trans as bs cs
    grind

theorem cmpList_lt_trans : ∀ as bs cs : List (KeyTree α),
    cmpList as bs = .lt → cmpList bs cs = .lt → cmpList as cs = .lt
  | _, [], [] => by simp [cmpList]
  | [], _ :: _, [] => by simp [cmpList]
  | _ :: _, _ :: _, [] => by simp [cmpList]
  | [], _, _ :: _ => by simp [cmpList]
  | _ :: _, [], _ :: _ => by simp [cmpList]
  | a :: as, b :: bs, c :: cs => by
    intro hab hbc
    simp only [cmpList, then_eq_lt] at *
    have hlt := cmp_lt_trans a b c
    have hs := cmpList_lt_trans as bs cs
    rcases hab with hab | ⟨hab, hab'⟩ <;> rcases hbc with hbc | ⟨hbc, hbc'⟩
    · exact .inl (hlt hab hbc)
    · exact .inl (eq_of_cmp b c hbc ▸ hab)
    · exact .inl (eq_of_cmp a b hab ▸ hbc)
    · exact .inr ⟨eq_of_cmp a b hab ▸ hbc, hs hab' hbc'⟩

end

theorem cmp_eq_iff {a b : KeyTree α} : cmp a b = .eq ↔ a = b :=
  ⟨eq_of_cmp a b, fun h => h ▸ cmp_self a⟩

theorem cmp_gt_iff {a b : KeyTree α} : cmp a b = .gt ↔ cmp b a = .lt := by
  rw [← cmp_swap b a, Ordering.swap_eq_gt]

/-- The derived order of the keys is total, and keys that compare equal are equal. -/
instance : LinearOrder (KeyTree α) where
  le a b := cmp a b ≠ .gt
  lt a b := cmp a b = .lt
  le_refl a := by simp [cmp_self]
  le_trans a b c hab hbc hac := by
    rw [cmp_gt_iff] at hac
    rcases hb : cmp a b with _ | _ | _
    · exact hbc (cmp_gt_iff.mpr (cmp_lt_trans c a b hac hb))
    · exact hbc (cmp_gt_iff.mpr (cmp_eq_iff.mp hb ▸ hac))
    · exact hab hb
  lt_iff_le_not_ge a b := by
    rw [Ne, Ne, not_not, cmp_gt_iff (a := b)]
    constructor
    · intro h
      exact ⟨by simp [h], h⟩
    · exact And.right
  le_antisymm a b hab hba := by
    rcases h : cmp a b with _ | _ | _
    · exact absurd (cmp_gt_iff.mpr h) hba
    · exact cmp_eq_iff.mp h
    · exact absurd h hab
  le_total a b := by
    by_cases h : cmp a b = .gt
    · refine .inr fun h' => ?_
      rw [cmp_gt_iff] at h
      simp [h] at h'
    · exact .inl h
  toDecidableLE a b := inferInstanceAs (Decidable (cmp a b ≠ .gt))
  toDecidableEq a b := decidable_of_iff _ cmp_eq_iff

end KeyTree

end Tsz.Sorting
