import Mathlib.Order.Preorder.Finite
import Mathlib.Order.Bounds.Basic

/-!
# Growth of finite sets

A set grows into another one when every element lies below one of the other set and some element
lies strictly below one. The relation is no strict order: two sets with the same outermost elements
grow into each other as soon as both hold an element that is not outermost.

## Main definitions

* `Grows` — every element survives, at least one below a larger one.
* `outermost` — the maximal elements of a set.

## Main results

* `grows_both_iff` — when two finite sets grow into each other.
* `Grows.symm_of_shrinks` — a list that grows into one with smaller entries grows both ways.
-/

namespace Growth

variable {α : Type*} [PartialOrder α] {a b : Set α}

/-- Every element of `a` lies below one of `b`, and some element strictly. -/
structure Grows (a b : Set α) : Prop where
  cofinal : IsCofinalFor a b
  strict : ∃ x ∈ a, ∃ y ∈ b, x < y

def outermost (a : Set α) : Set α := {x | Maximal (· ∈ a) x}

/-- An element lies strictly below another one of the set. -/
def Nests (a : Set α) : Prop := ∃ x ∈ a, ∃ y ∈ a, x < y

theorem exists_outermost (ha : a.Finite) {x : α} (hx : x ∈ a) : ∃ m ∈ outermost a, x ≤ m := by
  obtain ⟨m, hle, hm⟩ := ha.exists_le_maximal hx
  exact ⟨m, hm, hle⟩

theorem outermost_subset_of_cofinal (hab : IsCofinalFor a b) (hba : IsCofinalFor b a) :
    outermost a ⊆ outermost b := by
  intro x hx
  obtain ⟨y, hy, hxy⟩ := hab hx.prop
  obtain ⟨z, hz, hyz⟩ := hba hy
  obtain rfl : x = y := le_antisymm hxy (hyz.trans (hx.le_of_ge hz (hxy.trans hyz)))
  refine ⟨hy, fun w hw hxw => ?_⟩
  obtain ⟨v, hv, hwv⟩ := hba hw
  exact hwv.trans (hx.le_of_ge hv (hxw.trans hwv))

theorem cofinal_of_outermost_subset (ha : a.Finite) (h : outermost a ⊆ outermost b) :
    IsCofinalFor a b := by
  intro x hx
  obtain ⟨m, hm, hle⟩ := exists_outermost ha hx
  exact ⟨m, (h hm).prop, hle⟩

/-- Two finite sets lie below each other exactly if their outermost elements are the same. -/
theorem cofinal_both_iff (ha : a.Finite) (hb : b.Finite) :
    IsCofinalFor a b ∧ IsCofinalFor b a ↔ outermost a = outermost b := by
  constructor
  · rintro ⟨hab, hba⟩
    exact (outermost_subset_of_cofinal hab hba).antisymm (outermost_subset_of_cofinal hba hab)
  · intro h
    exact ⟨cofinal_of_outermost_subset ha h.subset, cofinal_of_outermost_subset hb h.superset⟩

theorem Grows.nests (h : Grows a b) (hba : IsCofinalFor b a) : Nests a := by
  obtain ⟨x, hx, y, hy, hlt⟩ := h.strict
  obtain ⟨z, hz, hle⟩ := hba hy
  exact ⟨x, hx, z, hz, hlt.trans_le hle⟩

theorem Nests.grows (h : Nests a) (hab : IsCofinalFor a b) : Grows a b := by
  obtain ⟨x, hx, y, hy, hlt⟩ := h
  obtain ⟨z, hz, hle⟩ := hab hy
  exact ⟨hab, x, hx, z, hz, hlt.trans_le hle⟩

/-- Two finite sets grow into each other exactly if they have the same outermost elements and each
of them holds other elements as well. -/
theorem grows_both_iff (ha : a.Finite) (hb : b.Finite) :
    Grows a b ∧ Grows b a ↔ outermost a = outermost b ∧ Nests a ∧ Nests b := by
  rw [← cofinal_both_iff ha hb]
  constructor
  · rintro ⟨hab, hba⟩
    exact ⟨⟨hab.cofinal, hba.cofinal⟩, hab.nests hba.cofinal, hba.nests hab.cofinal⟩
  · rintro ⟨⟨hab, hba⟩, ha, hb⟩
    exact ⟨ha.grows hab, hb.grows hba⟩

/-! ## Lists that shrink -/

def entries (xs : List α) : Set α := {x | x ∈ xs}

omit [PartialOrder α] in
theorem finite_entries (xs : List α) : (entries xs).Finite := xs.finite_toSet

/-- Every position keeps its entry or has a smaller one. -/
def Shrinks (xs ys : List α) : Prop := List.Forall₂ (fun x y => y ≤ x) xs ys

theorem Shrinks.cofinal {xs ys : List α} (h : Shrinks xs ys) :
    IsCofinalFor (entries ys) (entries xs) := by
  intro y hy
  obtain ⟨i, hi, rfl⟩ := List.mem_iff_getElem.mp hy
  have hi' : i < xs.length := h.length_eq ▸ hi
  exact ⟨xs[i], List.getElem_mem hi', List.Forall₂.get h hi' hi⟩

/-- Without nested entries a list that lies above what it shrank from did not shrink. -/
theorem Shrinks.eq_of_not_nests {xs ys : List α} (h : Shrinks xs ys)
    (hcofinal : IsCofinalFor (entries xs) (entries ys)) (hnests : ¬Nests (entries ys)) :
    xs = ys := by
  refine List.ext_getElem h.length_eq fun i hi hi' => ?_
  have hle : ys[i] ≤ xs[i] := List.Forall₂.get h hi hi'
  obtain ⟨y, hy, hxy⟩ := hcofinal (List.getElem_mem hi : xs[i] ∈ entries xs)
  have hnot : ¬ys[i] < y := fun hlt => hnests ⟨ys[i], List.getElem_mem hi', y, hy, hlt⟩
  obtain heq | hlt := (hle.trans hxy).eq_or_lt
  · exact le_antisymm (hxy.trans heq.ge) hle
  · exact absurd hlt hnot

theorem Grows.symm_of_shrinks {xs ys : List α} (h : Grows (entries xs) (entries ys))
    (hshrinks : Shrinks xs ys) : Grows (entries ys) (entries xs) := by
  have hnests : Nests (entries ys) := by
    by_contra hnot
    obtain rfl := hshrinks.eq_of_not_nests h.cofinal hnot
    exact hnot (h.nests hshrinks.cofinal)
  exact hnests.grows hshrinks.cofinal

end Growth
