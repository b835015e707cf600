import Mathlib.Data.List.Induction
import Mathlib.Order.Basic
import Mathlib.Order.Defs.LinearOrder
import Mathlib.Order.Lattice

/-!
# Grouping by a key

An ordered map from keys to lists, filled by appending each item under its key: the groups come
in the order of their keys and keep the order of the items.

## Main results

* `mem_groupByKey` — a group is the part of the list that has its key.
-/

namespace Tsz.Sorting

variable {α κ : Type*} [LinearOrder κ] (key : α → κ)

def enterGroup (item : α) : List (κ × List α) → List (κ × List α)
  | [] => [(key item, [item])]
  | (k, group) :: rest =>
    if key item = k then (k, group ++ [item]) :: rest
    else if key item < k then (key item, [item]) :: (k, group) :: rest
    else (k, group) :: enterGroup item rest

def groupByKey (items : List α) : List (κ × List α) :=
  items.foldl (fun table item => enterGroup key item table) []

def KeysAscend (table : List (κ × List α)) : Prop := table.Pairwise fun p q => p.1 < q.1

variable {key}

theorem fst_of_mem_enterGroup {item : α} {table : List (κ × List α)} {p : κ × List α}
    (h : p ∈ enterGroup key item table) : p.1 = key item ∨ ∃ q ∈ table, p.1 = q.1 := by
  fun_induction enterGroup key item table <;> grind

theorem KeysAscend.enterGroup {item : α} {table : List (κ × List α)} (h : KeysAscend table) :
    KeysAscend (enterGroup key item table) := by
  unfold KeysAscend at h ⊢
  fun_induction Sorting.enterGroup key item table with
  | case1 => simp
  | case2 group rest => simpa using h
  | case3 k group rest hne hlt =>
    refine List.pairwise_cons.mpr ⟨fun q hq => ?_, h⟩
    rcases List.mem_cons.mp hq with rfl | hq
    · exact hlt
    · exact hlt.trans ((List.pairwise_cons.mp h).1 q hq)
  | case4 k group rest hne hlt ih =>
    have hk : k < key item := lt_of_le_of_ne (not_lt.mp hlt) (Ne.symm hne)
    obtain ⟨hall, hrest⟩ := List.pairwise_cons.mp h
    refine List.pairwise_cons.mpr ⟨fun q hq => ?_, ih hrest⟩
    rcases fst_of_mem_enterGroup hq with heq | ⟨r, hr, heq⟩
    · exact heq ▸ hk
    · exact heq ▸ hall r hr

theorem mem_enterGroup_of_ne {item : α} {table : List (κ × List α)} {k : κ} {group : List α}
    (hk : k ≠ key item) : (k, group) ∈ enterGroup key item table ↔ (k, group) ∈ table := by
  fun_induction enterGroup key item table <;> grind

theorem mem_enterGroup_self {item : α} {table : List (κ × List α)} (h : KeysAscend table)
    {group : List α} :
    (key item, group) ∈ enterGroup key item table ↔
      (∃ before, (key item, before) ∈ table ∧ group = before ++ [item]) ∨
      (∀ before, (key item, before) ∉ table) ∧ group = [item] := by
  unfold KeysAscend at h
  fun_induction enterGroup key item table with
  | case1 => simp
  | case2 group' rest =>
    have hrest : ∀ g, (key item, g) ∉ rest := by
      intro g hg
      exact lt_irrefl _ ((List.pairwise_cons.mp h).1 (key item, g) hg)
    simp [hrest]
  | case3 k group' rest hne hlt =>
    have hrest : ∀ g, (key item, g) ∉ (k, group') :: rest := by
      intro g hg
      rcases List.mem_cons.mp hg with heq | hg
      · exact hne (congrArg Prod.fst heq)
      · exact lt_asymm hlt ((List.pairwise_cons.mp h).1 _ hg)
    simp only [List.mem_cons (a := (key item, group)), Prod.mk.injEq, true_and]
    grind
  | case4 k group' rest hne hlt ih =>
    have hne' : ∀ g, (key item, g) ≠ (k, group') := fun g hg => hne (congrArg Prod.fst hg)
    simp only [List.mem_cons, hne', false_or, ih (List.pairwise_cons.mp h).2]

theorem keysAscend_foldl (items : List α) {table : List (κ × List α)} (h : KeysAscend table) :
    KeysAscend (items.foldl (fun table item => enterGroup key item table) table) := by
  induction items generalizing table with
  | nil => exact h
  | cons item items ih => exact ih h.enterGroup

theorem keysAscend_groupByKey (items : List α) : KeysAscend (groupByKey key items) :=
  keysAscend_foldl items List.Pairwise.nil

/-- A group is the part of the list that has its key, and there are no other groups. -/
theorem mem_groupByKey {items : List α} {k : κ} {group : List α} :
    (k, group) ∈ groupByKey key items ↔
      group = items.filter (fun item => key item = k) ∧ group ≠ [] := by
  induction items using List.reverseRecOn generalizing group with
  | nil => simp [groupByKey]
  | append_singleton items item ih =>
    have hstep : groupByKey key (items ++ [item]) = enterGroup key item (groupByKey key items) := by
      simp [groupByKey]
    rw [hstep, List.filter_append]
    by_cases hk : k = key item
    · subst hk
      have hitem : [item].filter (fun x => decide (key x = key item)) = [item] := by simp
      rw [mem_enterGroup_self (keysAscend_groupByKey items), hitem]
      simp only [ih]
      by_cases hempty : items.filter (fun x => decide (key x = key item)) = []
      · rw [hempty, List.nil_append]
        grind
      · constructor
        · rintro (⟨before, ⟨rfl, -⟩, rfl⟩ | ⟨hnone, -⟩)
          · simp
          · exact absurd ⟨rfl, hempty⟩ (hnone _)
        · rintro ⟨rfl, -⟩
          exact .inl ⟨_, ⟨rfl, hempty⟩, rfl⟩
    · rw [mem_enterGroup_of_ne hk, ih]
      have : ([item].filter fun item => decide (key item = k)) = [] := by simp [Ne.symm hk]
      rw [this, List.append_nil]

variable (key) in
theorem exists_group {items : List α} {item : α} (h : item ∈ items) :
    ∃ group ∈ groupByKey key items, group.1 = key item := by
  have hmem : item ∈ items.filter (fun x => key x = key item) := by simp [h]
  exact ⟨_, mem_groupByKey.mpr ⟨rfl, List.ne_nil_of_mem hmem⟩, rfl⟩

end Tsz.Sorting
