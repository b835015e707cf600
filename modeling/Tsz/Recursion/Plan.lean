import Mathlib.Order.FixedPoints
import Mathlib.Order.CompletePartialOrder
import Mathlib.Order.MinMax

/-!
# Deciding goals that refer to each other

A goal unfolds to a plan: questions about other goals, of which all or one has to hold. A
search follows plans down to some depth, and takes every goal in progress to hold. What it
accepts belongs to the greatest set of goals closed under unfolding: an assumption is only
used below the goal it is about, so a refuted goal takes everything that relied on it along.
-/

namespace Recursion

/-- A failure of rank zero is definitive; of several others the greatest rank dominates. -/
inductive Verdict
  | ok
  | failure (rank : Nat)
deriving DecidableEq, Repr

/-- The verdict of alternatives when one of them failed with a rank. -/
def Verdict.orFailure (rank : Nat) : Verdict → Verdict
  | ok => ok
  | failure rank' => failure (max rank rank')

inductive Plan (G : Type*) where
  | decided (v : Verdict)
  /-- Every goal has to hold; the first that fails decides. -/
  | all (goals : List G)
  /-- One goal has to hold; of the failures the dominant one counts. -/
  | any (goals : List G)

variable {G : Type*}

section answers

variable (A : G → Verdict → Prop)

/-- How a conjunction comes to a verdict, when `A` tells the verdicts of the goals. -/
inductive AllOf : List G → Verdict → Prop
  | nil : AllOf [] .ok
  | ok {g : G} {gs : List G} {v : Verdict} (h : A g .ok) (hs : AllOf gs v) : AllOf (g :: gs) v
  | failure {g : G} {gs : List G} {rank : Nat} (h : A g (.failure rank)) :
    AllOf (g :: gs) (.failure rank)

/-- How alternatives come to a verdict. -/
inductive AnyOf : List G → Verdict → Prop
  | nil : AnyOf [] (.failure 0)
  | ok {g : G} {gs : List G} (h : A g .ok) : AnyOf (g :: gs) .ok
  | failure {g : G} {gs : List G} {rank : Nat} {v : Verdict} (h : A g (.failure rank))
    (hs : AnyOf gs v) : AnyOf (g :: gs) (v.orFailure rank)

variable {A}

theorem AllOf.mono {B : G → Verdict → Prop} {gs : List G} {v : Verdict}
    (hAB : ∀ g ∈ gs, ∀ v, A g v → B g v) (h : AllOf A gs v) : AllOf B gs v := by
  induction h with
  | nil => exact .nil
  | ok h _ ih =>
    exact .ok (hAB _ List.mem_cons_self _ h) (ih fun g hg => hAB g (.tail _ hg))
  | failure h => exact .failure (hAB _ List.mem_cons_self _ h)

theorem AllOf.single {g : G} {v : Verdict} (h : A g v) : AllOf A [g] v := by
  cases v with
  | ok => exact .ok h .nil
  | failure rank => exact .failure h

theorem AllOf.holds {gs : List G} {v : Verdict} (h : AllOf A gs v) (hv : v = .ok) :
    ∀ g ∈ gs, A g .ok := by
  induction h with
  | nil => simp
  | ok h _ ih => exact List.forall_mem_cons.mpr ⟨h, ih hv⟩
  | failure h => cases hv

theorem AllOf.exists_of_failure {gs : List G} {v : Verdict} (h : AllOf A gs v) {rank : Nat}
    (hv : v = .failure rank) : ∃ g ∈ gs, A g (.failure rank) := by
  induction h with
  | nil => cases hv
  | ok _ _ ih =>
    obtain ⟨g, hg, h⟩ := ih hv
    exact ⟨g, .tail _ hg, h⟩
  | failure h =>
    cases hv
    exact ⟨_, List.mem_cons_self, h⟩

theorem AnyOf.mono {B : G → Verdict → Prop} {gs : List G} {v : Verdict}
    (hAB : ∀ g ∈ gs, ∀ v, A g v → B g v) (h : AnyOf A gs v) : AnyOf B gs v := by
  induction h with
  | nil => exact .nil
  | ok h => exact .ok (hAB _ List.mem_cons_self _ h)
  | failure h _ ih =>
    exact .failure (hAB _ List.mem_cons_self _ h) (ih fun g hg => hAB g (.tail _ hg))

theorem AnyOf.holds {gs : List G} {v : Verdict} (h : AnyOf A gs v) (hv : v = .ok) :
    ∃ g ∈ gs, A g .ok := by
  induction h with
  | nil => cases hv
  | ok h => exact ⟨_, List.mem_cons_self, h⟩
  | @failure g gs rank v h _ ih =>
    cases v with
    | ok =>
      obtain ⟨g, hg, h⟩ := ih rfl
      exact ⟨g, .tail _ hg, h⟩
    | failure rank' => cases hv

theorem AnyOf.exists_of_failure {gs : List G} {v : Verdict} (h : AnyOf A gs v) {rank : Nat}
    (hv : v = .failure rank) : rank = 0 ∨ ∃ g ∈ gs, A g (.failure rank) := by
  induction h generalizing rank with
  | nil => exact .inl (by cases hv; rfl)
  | ok h => cases hv
  | @failure g gs r v h _ ih =>
    cases v with
    | ok => cases hv
    | failure r' =>
      have hrank : max r r' = rank := by simpa [Verdict.orFailure] using hv
      rcases max_choice r r' with hmax | hmax
      · obtain rfl := hmax.symm.trans hrank
        exact .inr ⟨g, List.mem_cons_self, h⟩
      · obtain rfl := hmax.symm.trans hrank
        exact (ih rfl).imp_right fun ⟨k, hk, h⟩ => ⟨k, .tail _ hk, h⟩

end answers

namespace Plan

/-- How a plan comes to a verdict. -/
def Evaluates (A : G → Verdict → Prop) : Plan G → Verdict → Prop
  | decided v, w => w = v
  | all goals, v => AllOf A goals v
  | any goals, v => AnyOf A goals v

theorem Evaluates.mono {A B : G → Verdict → Prop} {p : Plan G} {v : Verdict}
    (hAB : ∀ g v, A g v → B g v) (h : p.Evaluates A v) : p.Evaluates B v := by
  cases p with
  | decided w => exact h
  | all goals => exact AllOf.mono (fun g _ => hAB g) h
  | any goals => exact AnyOf.mono (fun g _ => hAB g) h

/-- The plan succeeds when the goals of a set hold. -/
def Holds (R : Set G) : Plan G → Prop
  | decided v => v = .ok
  | all goals => ∀ g ∈ goals, g ∈ R
  | any goals => ∃ g ∈ goals, g ∈ R

theorem Holds.mono {R S : Set G} (hRS : R ⊆ S) {p : Plan G} (h : p.Holds R) : p.Holds S := by
  cases p with
  | decided v => exact h
  | all goals => exact fun g hg => hRS (h g hg)
  | any goals =>
    obtain ⟨g, hg, hR⟩ := h
    exact ⟨g, hg, hRS hR⟩

theorem holds_of_evaluates {A : G → Verdict → Prop} {p : Plan G} (h : p.Evaluates A .ok) :
    p.Holds {g | A g .ok} := by
  cases p with
  | decided v => exact h.symm
  | all goals => exact AllOf.holds h rfl
  | any goals => exact AnyOf.holds h rfl

/-- The goals a plan may ask about. -/
def asks : Plan G → Set G
  | decided _ => ∅
  | all goals | any goals => {g | g ∈ goals}

theorem Holds.inter_asks {R : Set G} {p : Plan G} (h : p.Holds R) : p.Holds (R ∩ p.asks) := by
  cases p with
  | decided v => exact h
  | all goals => exact fun g hg => ⟨h g hg, hg⟩
  | any goals =>
    obtain ⟨g, hg, hR⟩ := h
    exact ⟨g, hg, hR, hg⟩

/-- A failure that is not definitive is the plan's own or comes from one of its questions. -/
theorem origin_of_failure {A : G → Verdict → Prop} {p : Plan G} {rank : Nat}
    (h : p.Evaluates A (.failure rank)) :
    rank = 0 ∨ p = .decided (.failure rank) ∨ ∃ g ∈ p.asks, A g (.failure rank) := by
  cases p with
  | decided v => exact .inr (.inl (congrArg decided h.symm))
  | all goals => exact .inr (.inr (AllOf.exists_of_failure h rfl))
  | any goals => exact (AnyOf.exists_of_failure h rfl).imp_right .inr

section complete

/-! Where a plan holds and every failure of a goal that holds is a limit, so is a failure of
the plan, since the limit dominates the alternatives. -/

variable {A : G → Verdict → Prop} {R : Set G} {limit : Nat}

def Within (limit : Nat) (v : Verdict) : Prop := ∀ rank, v = .failure rank → rank ≤ limit

def Unrefuted (limit : Nat) (v : Verdict) : Prop := v = .ok ∨ v = .failure limit

theorem within_of_evaluates {p : Plan G} {v : Verdict} (hA : ∀ g v, A g v → Within limit v)
    (hp : ∀ w, p = .decided w → Within limit w) (h : p.Evaluates A v) : Within limit v := by
  rintro rank rfl
  rcases origin_of_failure h with rfl | hp' | ⟨g, -, hg⟩
  · exact Nat.zero_le _
  · exact hp _ hp' rank rfl
  · exact hA g _ hg rank rfl

theorem unrefuted_allOf (hR : ∀ g ∈ R, ∀ v, A g v → Unrefuted limit v) {goals : List G}
    {v : Verdict} (h : AllOf A goals v) (hgoals : ∀ g ∈ goals, g ∈ R) : Unrefuted limit v := by
  induction h with
  | nil => exact .inl rfl
  | ok _ _ ih => exact ih fun g hg => hgoals g (.tail _ hg)
  | failure h => exact hR _ (hgoals _ List.mem_cons_self) _ h

theorem unrefuted_anyOf (hA : ∀ g v, A g v → Within limit v)
    (hR : ∀ g ∈ R, ∀ v, A g v → Unrefuted limit v) {goals : List G}
    {v : Verdict} (h : AnyOf A goals v) (hgoals : ∃ g ∈ goals, g ∈ R) : Unrefuted limit v := by
  induction h with
  | nil => simp at hgoals
  | ok _ => exact .inl rfl
  | @failure g gs rank v h hs ih =>
    have hrank : rank ≤ limit := hA g _ h rank rfl
    cases v with
    | ok => exact .inl rfl
    | failure rank' =>
      have hwithin : Within limit (.failure rank') :=
        within_of_evaluates (p := .any gs) hA (by simp) hs
      have hrank' : rank' ≤ limit := hwithin rank' rfl
      refine .inr (congrArg Verdict.failure ?_)
      obtain ⟨k, hk, hkR⟩ := hgoals
      rcases List.mem_cons.mp hk with rfl | hk
      · rcases hR k hkR _ h with h' | h' <;> cases h'
        exact max_eq_left hrank'
      · rcases ih ⟨k, hk, hkR⟩ with h' | h' <;> cases h'
        exact max_eq_right hrank

theorem unrefuted_of_holds (hA : ∀ g v, A g v → Within limit v)
    (hR : ∀ g ∈ R, ∀ v, A g v → Unrefuted limit v) {p : Plan G} {v : Verdict}
    (h : p.Evaluates A v) (hp : p.Holds R) : Unrefuted limit v := by
  cases p with
  | decided w => exact .inl (Eq.trans h hp)
  | all goals => exact unrefuted_allOf hR h hp
  | any goals => exact unrefuted_anyOf hA hR h hp

end complete

end Plan

/-! ## The greatest fixed point -/

section greatest

variable (unfold : G → Plan G)

/-- One unfolding. -/
def unfolding : Set G →o Set G where
  toFun R := {g | (unfold g).Holds R}
  monotone' _ _ h _ hg := hg.mono h

/-- The greatest set of goals closed under unfolding. -/
def Greatest : Set G := (unfolding unfold).gfp

theorem mem_greatest_iff {g : G} : g ∈ Greatest unfold ↔ (unfold g).Holds (Greatest unfold) :=
  Set.ext_iff.mp (unfolding unfold).map_gfp.symm g

theorem subset_greatest {R : Set G} (h : ∀ g ∈ R, (unfold g).Holds R) : R ⊆ Greatest unfold :=
  (unfolding unfold).le_gfp h

/-- What can be shown with the help of assumptions, each of them used at least one unfolding
down. -/
def GreatestFrom (A : Set G) : Set G :=
  (⟨fun R => {g | (unfold g).Holds (R ∪ A)},
    fun _ _ h _ hg => hg.mono (Set.union_subset_union_left A h)⟩ : Set G →o Set G).gfp

theorem mem_greatestFrom_iff {A : Set G} {g : G} :
    g ∈ GreatestFrom unfold A ↔ (unfold g).Holds (GreatestFrom unfold A ∪ A) :=
  Set.ext_iff.mp (OrderHom.map_gfp _).symm g

theorem greatestFrom_empty : GreatestFrom unfold ∅ = Greatest unfold := by
  unfold GreatestFrom Greatest unfolding
  simp only [Set.union_empty]

/-- A goal may be assumed for its own proof. -/
theorem mem_greatestFrom_of_insert {A : Set G} {g : G}
    (h : g ∈ GreatestFrom unfold (insert g A)) : g ∈ GreatestFrom unfold A := by
  have hsub : GreatestFrom unfold (insert g A) ⊆ GreatestFrom unfold A := by
    refine OrderHom.le_gfp _ fun k hk => ?_
    refine ((mem_greatestFrom_iff unfold).mp hk).mono ?_
    rintro x (hx | rfl | hx)
    · exact .inl hx
    · exact .inl h
    · exact .inr hx
  exact hsub h

end greatest

/-! ## Searching -/

/-- The verdicts of a search with a number of levels left: it may give up, take a goal in
progress to hold, or follow the plan. -/
def Searches (unfold : G → Plan G) (limit : Nat) : Nat → List G → G → Verdict → Prop
  | 0, active, g, v =>
    v = .failure limit ∨ (g ∈ active ∧ v = .ok) ∨ (unfold g).Evaluates (fun _ _ => False) v
  | levels + 1, active, g, v =>
    v = .failure limit ∨ (g ∈ active ∧ v = .ok) ∨
      (unfold g).Evaluates (Searches unfold limit levels (g :: active)) v

namespace Searches

variable {unfold : G → Plan G} {limit levels : Nat} {active : List G} {g : G} {v : Verdict}

/-- What a search comes to, whatever the number of levels. -/
theorem cases (h : Searches unfold limit levels active g v) :
    v = .failure limit ∨ (g ∈ active ∧ v = .ok) ∨
      ∃ A : G → Verdict → Prop, (unfold g).Evaluates A v ∧
        ∀ k w, A k w → ∃ levels' < levels, Searches unfold limit levels' (g :: active) k w := by
  cases levels with
  | zero => exact h.imp_right (.imp_right fun h => ⟨_, h, by simp⟩)
  | succ levels =>
    exact h.imp_right (.imp_right fun h => ⟨_, h, fun k w hk => ⟨levels, by omega, hk⟩⟩)

theorem mem_of_ok (h : Searches unfold limit levels active g .ok) :
    g ∈ active ∨ g ∈ GreatestFrom unfold {k | k ∈ active} := by
  induction levels using Nat.strong_induction_on generalizing active g with
  | h levels ih =>
    rcases h.cases with h | ⟨h, -⟩ | ⟨A, h, hA⟩
    · cases h
    · exact .inl h
    · refine .inr (mem_greatestFrom_of_insert unfold ?_)
      refine (mem_greatestFrom_iff unfold).mpr ((Plan.holds_of_evaluates h).mono ?_)
      intro k hk
      obtain ⟨levels', hlt, hk⟩ := hA k _ hk
      have hset : {k | k ∈ g :: active} = insert g {k | k ∈ active} := by
        ext
        simp
      rcases ih levels' hlt hk with hk | hk
      · exact .inr (hset ▸ hk)
      · exact .inl (hset ▸ hk)

/-- What a search without assumptions accepts holds. -/
theorem sound (h : Searches unfold limit levels [] g .ok) : g ∈ Greatest unfold := by
  rcases h.mem_of_ok with h | h
  · cases h
  · simpa [greatestFrom_empty] using h

theorem within (hunfold : ∀ g v, unfold g = .decided v → Plan.Within limit v)
    (h : Searches unfold limit levels active g v) : Plan.Within limit v := by
  induction levels using Nat.strong_induction_on generalizing active g v with
  | h levels ih =>
    rcases h.cases with rfl | ⟨-, rfl⟩ | ⟨A, h, hA⟩
    · rintro rank hrank
      cases hrank
      exact le_rfl
    · rintro rank hrank
      cases hrank
    · refine Plan.within_of_evaluates (fun k w hk => ?_) (hunfold g) h
      obtain ⟨levels', hlt, hk⟩ := hA k w hk
      exact ih levels' hlt hk

/-- What holds is never refuted: assumptions only help. -/
theorem complete (hunfold : ∀ g v, unfold g = .decided v → Plan.Within limit v)
    (hg : g ∈ Greatest unfold) (h : Searches unfold limit levels active g v) :
    Plan.Unrefuted limit v := by
  induction levels using Nat.strong_induction_on generalizing active g v with
  | h levels ih =>
    rcases h.cases with rfl | ⟨-, rfl⟩ | ⟨A, h, hA⟩
    · exact .inr rfl
    · exact .inl rfl
    · refine Plan.unrefuted_of_holds (fun k w hk => ?_) (fun k hk w hw => ?_) h
        ((mem_greatest_iff unfold).mp hg)
      · obtain ⟨levels', -, hk⟩ := hA k w hk
        exact hk.within hunfold
      · obtain ⟨levels', hlt, hw⟩ := hA k w hw
        exact ih levels' hlt hk hw

end Searches

/-- The goals a search can come to. -/
def Unfolds (unfold : G → Plan G) : G → G → Prop :=
  Relation.ReflTransGen fun g k => k ∈ (unfold g).asks

/-- An incomplete failure other than giving up was decided by a plan the search reached. -/
theorem Searches.origin {unfold : G → Plan G} {limit levels : Nat} {active : List G} {g : G}
    {rank : Nat} (h : Searches unfold limit levels active g (.failure rank)) :
    rank = 0 ∨ rank = limit ∨ ∃ k, Unfolds unfold g k ∧ unfold k = .decided (.failure rank) := by
  induction levels using Nat.strong_induction_on generalizing active g with
  | h levels ih =>
    rcases h.cases with h | ⟨-, h⟩ | ⟨A, h, hA⟩
    · cases h
      exact .inr (.inl rfl)
    · cases h
    · rcases Plan.origin_of_failure h with h | h | ⟨k, hk, h⟩
      · exact .inl h
      · exact .inr (.inr ⟨g, .refl, h⟩)
      · obtain ⟨levels', hlt, h⟩ := hA k _ h
        refine (ih levels' hlt h).imp_right (.imp_right ?_)
        rintro ⟨l, hl, hdecided⟩
        exact ⟨l, .head hk hl, hdecided⟩

end Recursion
