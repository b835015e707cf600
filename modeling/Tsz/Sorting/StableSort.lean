import Mathlib.Data.List.Destutter
import Mathlib.Data.List.Sort
import Mathlib.Order.Defs.LinearOrder

/-!
# Stable sorting by a key

A stable sort by a key keeps each class of equal keys in input order. So two inputs have
the same sorted form exactly when they agree class by class, and the sorted form of an
input forgets its order exactly when no class has two different members in a different order.

Two ways of removing repeated elements follow the sort: keeping the first occurrence of
each (`List.eraseDups`), or the first of each run of equal neighbours (`List.destutter`).
-/

namespace Tsz.Sorting

variable {α β κ : Type*} [LinearOrder κ] (key : α → κ)

def sortByKey (l : List α) : List α :=
  l.insertionSort fun a b => key a ≤ key b

section sort

instance total_key : Std.Total fun a b => key a ≤ key b := ⟨fun a b => le_total (key a) (key b)⟩

instance isTrans_key : IsTrans α fun a b => key a ≤ key b := ⟨fun _ _ _ => le_trans⟩

theorem sortByKey_perm (l : List α) : (sortByKey key l).Perm l :=
  List.perm_insertionSort _ l

@[simp]
theorem mem_sortByKey {l : List α} {a : α} : a ∈ sortByKey key l ↔ a ∈ l :=
  (sortByKey_perm key l).mem_iff

theorem sortByKey_pairwise (l : List α) :
    (sortByKey key l).Pairwise fun a b => key a ≤ key b :=
  List.pairwise_insertionSort _ l

/-- Stability: every class of equal keys keeps its order. -/
theorem filter_sortByKey (l : List α) (k : κ) :
    (sortByKey key l).filter (key · = k) = l.filter (key · = k) := by
  have hsub : (l.filter (key · = k)).Sublist (sortByKey key l) := by
    refine List.sublist_insertionSort ?_ List.filter_sublist
    refine List.pairwise_of_forall_mem_list fun a ha b hb => ?_
    simp only [List.mem_filter, decide_eq_true_eq] at ha hb
    exact (ha.2.trans hb.2.symm).le
  have hsub' := hsub.filter (key · = k)
  rw [List.filter_filter] at hsub'
  simp only [Bool.and_self] at hsub'
  exact (hsub'.eq_of_length_le (((sortByKey_perm key l).filter _).length_eq.le)).symm

variable {key}

/-- Two sorted lists that agree on every class are equal. -/
theorem eq_of_filter_eq {l l' : List α}
    (hl : l.Pairwise fun a b => key a ≤ key b) (hl' : l'.Pairwise fun a b => key a ≤ key b)
    (h : ∀ k, l.filter (key · = k) = l'.filter (key · = k)) : l = l' := by
  have hmem : ∀ a, a ∈ l ↔ a ∈ l' := by
    intro a
    have := congrArg (a ∈ ·) (h (key a))
    simpa using this
  induction l generalizing l' with
  | nil =>
    cases l' with
    | nil => rfl
    | cons b bs => exact absurd ((hmem b).mpr List.mem_cons_self) List.not_mem_nil
  | cons a as ih =>
    cases l' with
    | nil => exact absurd ((hmem a).mp List.mem_cons_self) List.not_mem_nil
    | cons b bs =>
      -- both heads are least, so they belong to one class and head it
      have hab : key a ≤ key b := by
        rcases List.mem_cons.mp ((hmem b).mpr List.mem_cons_self) with hb | hb
        · rw [hb]
        · exact (List.pairwise_cons.mp hl).1 b hb
      have hba : key b ≤ key a := by
        rcases List.mem_cons.mp ((hmem a).mp List.mem_cons_self) with ha | ha
        · rw [ha]
        · exact (List.pairwise_cons.mp hl').1 a ha
      have hkey : key b = key a := le_antisymm hba hab
      have hhead := h (key a)
      simp only [List.filter_cons, hkey, decide_true, if_true, List.cons.injEq] at hhead
      obtain ⟨rfl, -⟩ := hhead
      have htail : ∀ k, as.filter (key · = k) = bs.filter (key · = k) := by
        intro k
        have := h k
        by_cases hk : key a = k <;> simpa [List.filter_cons, hk] using this
      refine congrArg _ (ih hl.of_cons hl'.of_cons htail fun c => ?_)
      have := congrArg (c ∈ ·) (htail (key c))
      simpa using this

theorem sortByKey_eq_iff {l l' : List α} :
    sortByKey key l = sortByKey key l' ↔
      ∀ k, l.filter (key · = k) = l'.filter (key · = k) := by
  constructor
  · intro h k
    rw [← filter_sortByKey, h, filter_sortByKey]
  · intro h
    refine eq_of_filter_eq (sortByKey_pairwise key l) (sortByKey_pairwise key l') fun k => ?_
    rw [filter_sortByKey, filter_sortByKey, h k]

/-- Leaving elements out before or after the sort is the same. -/
theorem filter_sortByKey_comm (p : α → Bool) (l : List α) :
    (sortByKey key l).filter p = sortByKey key (l.filter p) := by
  refine eq_of_filter_eq ((sortByKey_pairwise key l).sublist List.filter_sublist)
    (sortByKey_pairwise key _) fun k => ?_
  rw [filter_sortByKey, List.filter_filter, List.filter_filter]
  simp only [Bool.and_comm (decide _)]
  rw [← List.filter_filter, ← List.filter_filter, filter_sortByKey]

/-- Renaming the elements does not change a sort by a key that does not see the names. -/
theorem sortByKey_map {key' : β → κ} {f : α → β} {l : List α}
    (h : ∀ a ∈ l, key' (f a) = key a) :
    sortByKey key' (l.map f) = (sortByKey key l).map f := by
  refine eq_of_filter_eq (sortByKey_pairwise key' _) ?_ fun k => ?_
  · rw [List.pairwise_map]
    refine (sortByKey_pairwise key l).imp_of_mem fun ha hb hab => ?_
    rw [mem_sortByKey] at ha hb
    rwa [h _ ha, h _ hb]
  · have hclass : ∀ l' : List α, (∀ a ∈ l', a ∈ l) →
        (l'.map f).filter (key' · = k) = (l'.filter (key · = k)).map f := by
      intro l' hl'
      rw [List.filter_map]
      refine congrArg _ (List.filter_congr fun a ha => ?_)
      simp [h a (hl' a ha)]
    rw [filter_sortByKey, hclass l fun _ => id, hclass _ fun a => (mem_sortByKey key).mp,
      filter_sortByKey]

end sort

section firsts

variable [DecidableEq α]

theorem nodup_eraseDups (l : List α) : l.eraseDups.Nodup := by
  generalize hn : l.length = n
  induction n using Nat.strong_induction_on generalizing l with
  | _ n ih =>
    cases l with
    | nil => simp
    | cons a as =>
      rw [List.eraseDups_cons, List.nodup_cons]
      refine ⟨by simp, ih _ ?_ _ rfl⟩
      have := List.length_filter_le (fun b => !b == a) as
      grind

theorem eraseDups_sublist (l : List α) : l.eraseDups.Sublist l := by
  generalize hn : l.length = n
  induction n using Nat.strong_induction_on generalizing l with
  | _ n ih =>
    cases l with
    | nil => simp
    | cons a as =>
      rw [List.eraseDups_cons]
      have hlen := List.length_filter_le (fun b => !b == a) as
      have hsub := ih _ (by grind) (as.filter fun b => !b == a) rfl
      exact (hsub.trans List.filter_sublist).cons_cons a

theorem filter_eraseDups (p : α → Bool) (l : List α) :
    l.eraseDups.filter p = (l.filter p).eraseDups := by
  generalize hn : l.length = n
  induction n using Nat.strong_induction_on generalizing l with
  | _ n ih =>
    cases l with
    | nil => simp
    | cons a as =>
      have hlen := List.length_filter_le (fun b => !b == a) as
      have hrest := ih _ (by grind) (as.filter fun b => !b == a) rfl
      rw [List.eraseDups_cons]
      by_cases ha : p a
      · rw [List.filter_cons_of_pos ha, List.filter_cons_of_pos ha, List.eraseDups_cons, hrest,
          List.filter_filter, List.filter_filter]
        simp only [Bool.and_comm]
      · rw [List.filter_cons_of_neg ha, List.filter_cons_of_neg ha, hrest, List.filter_filter]
        refine congrArg _ (List.filter_congr fun b _ => ?_)
        by_cases hb : b = a
        · simp [hb, ha]
        · simp [hb]

theorem eraseDups_of_nodup {l : List α} (h : l.Nodup) : l.eraseDups = l := by
  induction l with
  | nil => simp
  | cons a as ih =>
    obtain ⟨ha, has⟩ := List.nodup_cons.mp h
    have hfilter : as.filter (fun b => !b == a) = as :=
      List.filter_eq_self.mpr fun b hb => by
        have : b ≠ a := fun hba => ha (hba ▸ hb)
        simpa using this
    rw [List.eraseDups_cons, hfilter, ih has]

theorem eraseDups_map [DecidableEq β] {f : α → β} (hf : Function.Injective f) (l : List α) :
    (l.map f).eraseDups = l.eraseDups.map f := by
  generalize hn : l.length = n
  induction n using Nat.strong_induction_on generalizing l with
  | _ n ih =>
    cases l with
    | nil => simp
    | cons a as =>
      have hlen := List.length_filter_le (fun b => !b == a) as
      rw [List.map_cons, List.eraseDups_cons, List.eraseDups_cons, List.map_cons,
        ← ih _ (by grind) (as.filter fun b => !b == a) rfl, List.filter_map]
      simp [Function.comp_def, hf.eq_iff, beq_eq_decide]

/-- The first occurrences of the images are those of the images of the first occurrences. -/
theorem eraseDups_map_eraseDups [DecidableEq β] (f : α → β) (l : List α) :
    (l.eraseDups.map f).eraseDups = (l.map f).eraseDups := by
  generalize hn : l.length = n
  induction n using Nat.strong_induction_on generalizing l with
  | _ n ih =>
    cases l with
    | nil => simp
    | cons a as =>
      have hfilter : ∀ l : List α, (l.map f).filter (fun b => !b == f a) =
          (l.filter fun b => !f b == f a).map f := fun l => List.filter_map ..
      have himp : (as.filter fun b => !b == a).filter (fun b => !f b == f a) =
          as.filter fun b => !f b == f a := by
        rw [List.filter_filter]
        refine List.filter_congr fun b _ => ?_
        by_cases hb : b = a <;> simp [hb]
      have hlen := List.length_filter_le (fun b => !f b == f a) as
      have hrest := ih _ (by grind) (as.filter fun b => !f b == f a) rfl
      rw [List.eraseDups_cons, List.map_cons, List.map_cons, List.eraseDups_cons,
        List.eraseDups_cons, hfilter, hfilter, filter_eraseDups, himp, hrest]

theorem length_eraseDups_of_perm {l l' : List α} (h : l.Perm l') :
    l.eraseDups.length = l'.eraseDups.length := by
  refine ((List.perm_ext_iff_of_nodup (nodup_eraseDups l) (nodup_eraseDups l')).mpr ?_).length_eq
  intro a
  simp [h.mem_iff]

/-- Only the first occurrences in the middle of a list count. -/
theorem eraseDups_append_congr (front rest : List α) {middle middle' : List α}
    (h : middle.eraseDups = middle'.eraseDups) :
    (front ++ (middle ++ rest)).eraseDups = (front ++ (middle' ++ rest)).eraseDups := by
  have hmem : ∀ a, a ∈ middle ↔ a ∈ middle' := fun a => by
    rw [← List.mem_eraseDups, h, List.mem_eraseDups]
  have hrest : (middle ++ rest).eraseDups = (middle' ++ rest).eraseDups := by
    rw [List.eraseDups_append, List.eraseDups_append, h, List.removeAll, List.removeAll]
    simp [hmem]
  have hsplit : ∀ more : List α, (front ++ more).eraseDups =
      front.eraseDups ++ more.eraseDups.filter fun b => !front.elem b := by
    intro more
    rw [List.eraseDups_append, List.removeAll, filter_eraseDups]
  rw [hsplit, hsplit, hrest]

/-- Only whether it is listed counts for a single element. -/
theorem eraseDups_eq_of_forall_eq {l l' : List α} {b : α} (hl : ∀ a ∈ l, a = b)
    (hl' : ∀ a ∈ l', a = b) (h : b ∈ l ↔ b ∈ l') : l.eraseDups = l'.eraseDups := by
  have hsingle : ∀ l : List α, (∀ a ∈ l, a = b) → l.eraseDups = if b ∈ l then [b] else [] := by
    intro l hl
    induction l with
    | nil => rfl
    | cons a as ih =>
      obtain rfl := hl a List.mem_cons_self
      have has : as.filter (fun c => !c == a) = [] :=
        List.filter_eq_nil_iff.mpr fun c hc => by simp [hl c (.tail _ hc)]
      simp [List.eraseDups_cons, has]
  simp only [hsingle l hl, hsingle l' hl', h]

/-- Of two lists of which one extends the other, the longer one is left. -/
theorem append_filter_notMem {u v : List α} (hv : v.Nodup)
    (h : u <+: v ∨ v <+: u) :
    u ++ v.filter (fun b => !decide (b ∈ u)) = if u <+: v then v else u := by
  by_cases huv : u <+: v
  · rw [if_pos huv]
    obtain ⟨w, rfl⟩ := huv
    have hdisj := List.disjoint_of_nodup_append hv
    have hu' : u.filter (fun b => !decide (b ∈ u)) = [] :=
      List.filter_eq_nil_iff.mpr fun b hb => by simpa using hb
    have hw : w.filter (fun b => !decide (b ∈ u)) = w :=
      List.filter_eq_self.mpr fun b hb => by simpa using fun hbu => hdisj hbu hb
    rw [List.filter_append, hu', hw, List.nil_append]
  · have hvu := h.resolve_left huv
    have hv' : v.filter (fun b => !decide (b ∈ u)) = [] :=
      List.filter_eq_nil_iff.mpr fun b hb => by simpa using hvu.subset hb
    rw [hv', List.append_nil, if_neg huv]

/-- A family of lists of which any two extend each other collapses to its longest member. -/
theorem eraseDups_flatMap_of_chain {f : β → List α} {l : List β}
    (hnodup : ∀ b ∈ l, (f b).Nodup)
    (hchain : ∀ b ∈ l, ∀ c ∈ l, f b <+: f c ∨ f c <+: f b) :
    (∀ b ∈ l, f b <+: (l.flatMap f).eraseDups) ∧
      ((l.flatMap f).eraseDups = [] ∨ ∃ b ∈ l, (l.flatMap f).eraseDups = f b) := by
  induction l with
  | nil => simp
  | cons b bs ih =>
    obtain ⟨hstart, hlongest⟩ :=
      ih (fun c hc => hnodup c (.tail _ hc)) fun c hc d hd => hchain c (.tail _ hc) d (.tail _ hd)
    set rest := (bs.flatMap f).eraseDups with hrest
    have hbn := hnodup b List.mem_cons_self
    have hcomparable : f b <+: rest ∨ rest <+: f b := by
      rcases hlongest with h | ⟨c, hc, h⟩
      · exact .inr (h ▸ List.nil_prefix)
      · rw [h]
        exact hchain b List.mem_cons_self c (.tail _ hc)
    have hcons : ((b :: bs).flatMap f).eraseDups = if f b <+: rest then rest else f b := by
      rw [List.flatMap_cons, List.eraseDups_append, eraseDups_of_nodup hbn, List.removeAll,
        ← append_filter_notMem (hrest ▸ nodup_eraseDups _) hcomparable, hrest, filter_eraseDups]
      simp
    rw [hcons]
    constructor
    · intro c hc
      rcases List.mem_cons.mp hc with rfl | hc
      · split
        · assumption
        · exact List.prefix_rfl
      · have := hstart c hc
        split
        · exact this
        · exact this.trans (hcomparable.resolve_left ‹_›)
    · split
      · exact hlongest.imp_right fun ⟨c, hc, h⟩ => ⟨c, .tail _ hc, h⟩
      · exact .inr ⟨b, List.mem_cons_self, rfl⟩

/-- Concatenating blocks and keeping first occurrences does not depend on the order of the
blocks exactly when of any two blocks one extends the other. -/
theorem eraseDups_flatMap_perm_iff {f : β → List α} {l : List β}
    (hnodup : ∀ b ∈ l, (f b).Nodup) :
    (∀ l' : List β, l'.Perm l → (l'.flatMap f).eraseDups = (l.flatMap f).eraseDups) ↔
      ∀ b ∈ l, ∀ c ∈ l, f b <+: f c ∨ f c <+: f b := by
  constructor
  · intro h b hb c hc
    by_cases hbc : b = c
    · exact .inl (hbc ▸ List.prefix_rfl)
    have hfirst : ∀ {a}, a ∈ l → f a <+: (l.flatMap f).eraseDups := by
      intro a ha
      obtain ⟨s, t, rfl⟩ := List.append_of_mem ha
      rw [← h (a :: (s ++ t)) List.perm_middle.symm, List.flatMap_cons, List.eraseDups_append,
        eraseDups_of_nodup (hnodup a ha)]
      exact List.prefix_append _ _
    exact List.prefix_or_prefix_of_prefix (hfirst hb) (hfirst hc)
  · intro h l' hl'
    obtain ⟨hstart, hlongest⟩ := eraseDups_flatMap_of_chain hnodup h
    obtain ⟨hstart', hlongest'⟩ := eraseDups_flatMap_of_chain (l := l')
      (fun b hb => hnodup b (hl'.subset hb))
      fun b hb c hc => h b (hl'.subset hb) c (hl'.subset hc)
    have hle : (l'.flatMap f).eraseDups <+: (l.flatMap f).eraseDups := by
      rcases hlongest' with h' | ⟨b, hb, h'⟩
      · exact h' ▸ List.nil_prefix
      · exact h' ▸ hstart b (hl'.subset hb)
    have hge : (l.flatMap f).eraseDups <+: (l'.flatMap f).eraseDups := by
      rcases hlongest with h' | ⟨b, hb, h'⟩
      · exact h' ▸ List.nil_prefix
      · exact h' ▸ hstart' b (hl'.symm.subset hb)
    exact hle.eq_of_length_le hge.length_le

variable {key}

theorem eraseDups_sortByKey_eq_iff {l l' : List α} :
    (sortByKey key l).eraseDups = (sortByKey key l').eraseDups ↔
      ∀ k, (l.filter (key · = k)).eraseDups = (l'.filter (key · = k)).eraseDups := by
  have hclass : ∀ (l : List α) k, (sortByKey key l).eraseDups.filter (key · = k) =
      (l.filter (key · = k)).eraseDups := by
    intro l k
    rw [filter_eraseDups, filter_sortByKey]
  constructor
  · intro h k
    rw [← hclass, h, hclass]
  · intro h
    refine eq_of_filter_eq ((sortByKey_pairwise key l).sublist (eraseDups_sublist _))
      ((sortByKey_pairwise key l').sublist (eraseDups_sublist _)) fun k => ?_
    rw [hclass, hclass, h k]

/-- An element whose key nothing else has does not matter. -/
theorem eraseDups_sortByKey_append_singleton_iff {l l' : List α} {b : α}
    (hl : ∀ a ∈ l, key a ≠ key b) (hl' : ∀ a ∈ l', key a ≠ key b) :
    (sortByKey key (l ++ [b])).eraseDups = (sortByKey key (l' ++ [b])).eraseDups ↔
      (sortByKey key l).eraseDups = (sortByKey key l').eraseDups := by
  have hnil : ∀ l : List α, (∀ a ∈ l, key a ≠ key b) → l.filter (key · = key b) = [] := by
    intro l hl
    exact List.filter_eq_nil_iff.mpr fun a ha => by simpa using hl a ha
  simp only [eraseDups_sortByKey_eq_iff, List.filter_append]
  refine forall_congr' fun k => ?_
  by_cases hk : key b = k
  · subst hk
    simp only [hnil l hl, hnil l' hl']
  · have : [b].filter (key · = k) = [] := by simpa using hk
    rw [this, List.append_nil, List.append_nil]

/-- Sorting concatenated blocks and keeping first occurrences does not depend on the order of
the blocks exactly when, class by class, of any two blocks one extends the other. -/
theorem eraseDups_sortByKey_perm_iff {f : β → List α} {l : List β}
    (hnodup : ∀ b ∈ l, (f b).Nodup) :
    (∀ l' : List β, l'.Perm l →
        (sortByKey key (l'.flatMap f)).eraseDups = (sortByKey key (l.flatMap f)).eraseDups) ↔
      ∀ k, ∀ b ∈ l, ∀ c ∈ l, (f b).filter (key · = k) <+: (f c).filter (key · = k) ∨
        (f c).filter (key · = k) <+: (f b).filter (key · = k) := by
  simp only [eraseDups_sortByKey_eq_iff, List.filter_flatMap]
  constructor
  · intro h k
    exact (eraseDups_flatMap_perm_iff fun b hb => (hnodup b hb).filter _).mp fun l' hl' => h l' hl' k
  · intro h l' hl' k
    exact (eraseDups_flatMap_perm_iff fun b hb => (hnodup b hb).filter _).mpr (h k) l' hl'

end firsts

section runs

variable [DecidableEq α]

theorem find?_destutter' (p : α → Bool) (a : α) (l : List α) :
    (l.destutter' (· ≠ ·) a).find? p = (a :: l).find? p := by
  induction l generalizing a with
  | nil => rfl
  | cons b bs ih =>
    by_cases hab : a = b
    · subst hab
      rw [List.destutter'_cons_neg _ (by simp), ih]
      by_cases ha : p a <;> simp [ha]
    · rw [List.destutter'_cons_pos _ hab]
      cases ha : p a <;> simp only [List.find?_cons (a := a), ha, ih]

/-- Removing repeated neighbours does not change which element with a property comes first. -/
theorem find?_destutter (p : α → Bool) (l : List α) :
    (l.destutter (· ≠ ·)).find? p = l.find? p := by
  cases l with
  | nil => rfl
  | cons a as => exact find?_destutter' p a as

theorem mem_destutter {l : List α} {a : α} : a ∈ l.destutter (· ≠ ·) ↔ a ∈ l := by
  refine ⟨fun h => (List.destutter_sublist _ l).subset h, fun h => ?_⟩
  have hfind : ((l.destutter (· ≠ ·)).find? (· = a)).isSome := by
    rw [find?_destutter, List.find?_isSome]
    exact ⟨a, h, by simp⟩
  obtain ⟨b, hb, hba⟩ := List.find?_isSome.mp hfind
  exact decide_eq_true_eq.mp hba ▸ hb

variable {key}

theorem nodup_destutter'_of_injOn {a : α} {l : List α} (hkey : Set.InjOn key {b | b ∈ a :: l})
    (hl : (a :: l).Pairwise fun b c => key b ≤ key c) : (l.destutter' (· ≠ ·) a).Nodup := by
  induction l generalizing a with
  | nil => simp
  | cons b bs ih =>
    by_cases hab : a = b
    · subst hab
      rw [List.destutter'_cons_neg _ (by simp)]
      exact ih (hkey.mono fun c hc => .tail _ hc) hl.of_cons
    · rw [List.destutter'_cons_pos _ hab, List.nodup_cons]
      refine ⟨fun ha => ?_, ih (hkey.mono fun c hc => .tail _ hc) hl.of_cons⟩
      -- a later copy of `a` would have to precede `b`
      have hmem : a ∈ b :: bs := (List.destutter'_sublist bs (a := b) ..).subset ha
      have hba : key b ≤ key a := by
        rcases List.mem_cons.mp hmem with h | h
        · rw [h]
        · exact (List.pairwise_cons.mp hl.of_cons).1 a h
      have hle : key a ≤ key b := (List.pairwise_cons.mp hl).1 b List.mem_cons_self
      exact hab (hkey List.mem_cons_self (.tail _ List.mem_cons_self) (le_antisymm hle hba))

theorem nodup_destutter_of_injOn {l : List α} (hkey : Set.InjOn key {a | a ∈ l}) :
    ((sortByKey key l).destutter (· ≠ ·)).Nodup := by
  have hkey' : Set.InjOn key {a | a ∈ sortByKey key l} := by simpa using hkey
  have hsorted := sortByKey_pairwise key l
  cases hs : sortByKey key l with
  | nil => simp
  | cons a as => exact nodup_destutter'_of_injOn (hs ▸ hkey') (hs ▸ hsorted)

theorem filter_eq_replicate {l : List α} (hkey : Set.InjOn key {a | a ∈ l}) {a : α} (ha : a ∈ l) :
    l.filter (key · = key a) = List.replicate (l.count a) a := by
  rw [← List.filter_eq]
  refine List.filter_congr fun b hb => ?_
  have : key b = key a ↔ b = a := ⟨fun h => hkey hb ha h, fun h => h ▸ rfl⟩
  simp [this, eq_comm]

/-- Sorting and removing repeated neighbours does not depend on the order of the input exactly
when different elements have different keys. -/
theorem destutter_sortByKey_perm_iff {l : List α} :
    (∀ l' : List α, l'.Perm l →
        (sortByKey key l').destutter (· ≠ ·) = (sortByKey key l).destutter (· ≠ ·)) ↔
      Set.InjOn key {a | a ∈ l} := by
  constructor
  · intro h a ha b hb hab
    have hfirst : ∀ {c}, c ∈ l → key c = key a →
        ((sortByKey key l).destutter (· ≠ ·)).find? (key · = key a) = some c := by
      intro c hc hca
      obtain ⟨s, t, rfl⟩ := List.append_of_mem hc
      rw [← h (c :: (s ++ t)) List.perm_middle.symm, find?_destutter, ← List.head?_filter,
        filter_sortByKey, List.filter_cons_of_pos (by simpa using hca), List.head?_cons]
    exact Option.some.inj ((hfirst ha rfl).symm.trans (hfirst hb hab.symm))
  · intro hkey l' hl'
    refine congrArg _ (sortByKey_eq_iff.mpr fun k => ?_)
    by_cases hk : ∃ a ∈ l, key a = k
    · obtain ⟨a, ha, rfl⟩ := hk
      have hkey' : Set.InjOn key {b | b ∈ l'} := hkey.mono fun b hb => hl'.subset hb
      rw [filter_eq_replicate hkey ha, filter_eq_replicate hkey' (hl'.symm.subset ha),
        hl'.count_eq]
    · have hnil : ∀ l'' : List α, l''.Perm l → l''.filter (key · = k) = [] := by
        intro l'' hl''
        rw [List.filter_eq_nil_iff]
        intro a ha hak
        exact hk ⟨a, hl''.subset ha, by simpa using hak⟩
      rw [hnil l' hl', hnil l (.refl l)]

end runs

end Tsz.Sorting
