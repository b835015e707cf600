import Mathlib.Data.List.Nodup
import Mathlib.Data.List.Perm.Basic

/-!
# Candidates that tests eliminate

Tests are tried one after the other on a list of candidates. A test that finds different values
keeps the candidates that match, if any of them does; where it has no answer for one of them, the
search gives up. Which candidates are left may depend on the order of the tests.

## Main definitions

* `run` — the candidates left after some tests.
* `Isolable` — all other candidates can be excluded, in a suitable order.
* `Decisive` — all other candidates are excluded, in every order.

## Main results

* `exists_run_iff` — some order leaves only one candidate if and only if it is isolable.
* `forall_run_iff` — every order leaves only one candidate if and only if it is decisive.
* `order_irrelevant_iff` — when the order does not matter.
-/

namespace Elimination

variable {κ ι ι' W : Type*} [DecidableEq W] (value : κ → ι → W) (verdict : κ → W → Option Bool)

/-- The candidates do not all have the same value. -/
def Discriminates (p : κ) (candidates : List ι) : Prop :=
  ∃ i ∈ candidates, ∃ j ∈ candidates, value p i ≠ value p j

instance (p : κ) (candidates : List ι) : Decidable (Discriminates value p candidates) :=
  inferInstanceAs (Decidable (∃ i ∈ candidates, ∃ j ∈ candidates, value p i ≠ value p j))

def answer (p : κ) (i : ι) : Option Bool := verdict p (value p i)

def step (p : κ) (candidates : List ι) : Option (List ι) :=
  if ¬ Discriminates value p candidates then some candidates
  else if ∃ i ∈ candidates, answer value verdict p i = none then none
  else if ∀ i ∈ candidates, answer value verdict p i ≠ some true then some candidates
  else some (candidates.filter fun i => answer value verdict p i = some true)

def run : List κ → List ι → Option (List ι)
  | [], candidates => some candidates
  | p :: rest, candidates => (step value verdict p candidates).bind (run rest)

/-- Some test matches one candidate and not the other; a candidate that it has no answer for can be
excluded before. -/
inductive Excludable (tests : List κ) (candidates : List ι) (i : ι) : ι → Prop
  | intro {p : κ} {j : ι} (hp : p ∈ tests) (hi : answer value verdict p i = some true)
    (hj : answer value verdict p j = some false)
    (hunknown : ∀ k ∈ candidates, answer value verdict p k = none →
      Excludable tests candidates i k) : Excludable tests candidates i j

def Isolable (tests : List κ) (candidates : List ι) (i : ι) : Prop :=
  i ∈ candidates ∧ ∀ j ∈ candidates, j ≠ i → Excludable value verdict tests candidates i j

/-- All answers that matter are known, every test that matches a candidate matches this one, and
some test excludes each of the others. -/
structure Decisive (tests : List κ) (candidates : List ι) (i : ι) : Prop where
  mem : i ∈ candidates
  known : ∀ p ∈ tests, Discriminates value p candidates →
    ∀ j ∈ candidates, answer value verdict p j ≠ none
  agrees : ∀ p ∈ tests, Discriminates value p candidates →
    (∃ j ∈ candidates, answer value verdict p j = some true) →
      answer value verdict p i = some true
  excludes : ∀ j ∈ candidates, j ≠ i →
    ∃ p ∈ tests, answer value verdict p i = some true ∧ answer value verdict p j = some false

section step

variable {value verdict} {p : κ} {candidates rest : List ι} {i j : ι}

omit [DecidableEq W] in
variable (verdict) in
theorem discriminates_of_answer (hi : i ∈ candidates) (hj : j ∈ candidates)
    (h : answer value verdict p i ≠ answer value verdict p j) :
    Discriminates value p candidates :=
  ⟨i, hi, j, hj, fun heq => h (congrArg (verdict p) heq)⟩

omit [DecidableEq W] in
theorem Discriminates.mono (h : Discriminates value p rest) (hsub : rest ⊆ candidates) :
    Discriminates value p candidates := by
  obtain ⟨i, hi, j, hj, hne⟩ := h
  exact ⟨i, hsub hi, j, hsub hj, hne⟩

variable (value verdict) in
/-- What a test can do to the candidates. -/
theorem step_cases (p : κ) (candidates : List ι) :
    (step value verdict p candidates = some candidates ∧
        (¬ Discriminates value p candidates ∨
          ∀ i ∈ candidates, answer value verdict p i = some false)) ∨
      (step value verdict p candidates = none ∧ Discriminates value p candidates ∧
        ∃ i ∈ candidates, answer value verdict p i = none) ∨
      (step value verdict p candidates =
          some (candidates.filter fun i => answer value verdict p i = some true) ∧
        (∀ i ∈ candidates, answer value verdict p i ≠ none) ∧ Discriminates value p candidates ∧
        ∃ i ∈ candidates, answer value verdict p i = some true) := by
  unfold step
  by_cases hdisc : Discriminates value p candidates
  · rw [if_neg (not_not_intro hdisc)]
    by_cases hunknown : ∃ i ∈ candidates, answer value verdict p i = none
    · rw [if_pos hunknown]
      exact .inr (.inl ⟨rfl, hdisc, hunknown⟩)
    · rw [if_neg hunknown]
      push Not at hunknown
      by_cases hnone : ∀ i ∈ candidates, answer value verdict p i ≠ some true
      · rw [if_pos hnone]
        refine .inl ⟨rfl, .inr fun i hi => ?_⟩
        cases hanswer : answer value verdict p i with
        | none => exact absurd hanswer (hunknown i hi)
        | some b =>
          cases b with
          | false => rfl
          | true => exact absurd hanswer (hnone i hi)
      · rw [if_neg hnone]
        push Not at hnone
        exact .inr (.inr ⟨rfl, hunknown, hdisc, hnone⟩)
  · rw [if_pos hdisc]
    exact .inl ⟨rfl, .inl hdisc⟩

/-- A test keeps the order of the candidates and only drops known mismatches. -/
theorem sublist_of_step (h : step value verdict p candidates = some rest) :
    rest.Sublist candidates := by
  rcases step_cases value verdict p candidates with
    ⟨heq, _⟩ | ⟨heq, _⟩ | ⟨heq, _⟩ <;> rw [heq] at h <;> cases h
  · exact .refl _
  · exact List.filter_sublist

theorem step_singleton (p : κ) (i : ι) : step value verdict p [i] = some [i] := by
  have hdisc : ¬ Discriminates value p [i] := by
    rintro ⟨a, ha, b, hb, hne⟩
    rw [List.mem_singleton.mp ha, List.mem_singleton.mp hb] at hne
    exact hne rfl
  rw [step, if_pos hdisc]

@[simp]
theorem run_singleton (tests : List κ) (i : ι) : run value verdict tests [i] = some [i] := by
  induction tests with
  | nil => rfl
  | cons p tests ih => rw [run, step_singleton, Option.bind_some, ih]

theorem step_nil (p : κ) : step value verdict p ([] : List ι) = some [] := by
  have hdisc : ¬ Discriminates value p ([] : List ι) := by
    rintro ⟨a, ha, _⟩
    cases ha
  rw [step, if_pos hdisc]

@[simp]
theorem run_nil_candidates (tests : List κ) :
    run value verdict tests ([] : List ι) = some [] := by
  induction tests with
  | nil => rfl
  | cons p tests ih => rw [run, step_nil, Option.bind_some, ih]

end step

section run

variable {value verdict} {p : κ} {tests rest : List κ} {candidates current left : List ι} {i j : ι}

theorem run_cons (p : κ) (rest : List κ) (candidates : List ι) :
    run value verdict (p :: rest) candidates =
      (step value verdict p candidates).bind (run value verdict rest) := rfl

theorem sublist_of_run (h : run value verdict tests candidates = some left) :
    left.Sublist candidates := by
  induction tests generalizing candidates with
  | nil =>
    cases h
    exact .refl _
  | cons p tests ih =>
    rw [run_cons] at h
    obtain ⟨next, hstep, hrun⟩ := Option.bind_eq_some_iff.mp h
    exact (ih hrun).trans (sublist_of_step hstep)

/-- Whatever a run drops can be excluded in favour of each candidate that it keeps. -/
theorem excludable_of_run (h : run value verdict rest current = some left) (hi : i ∈ left)
    (hrest : rest ⊆ tests)
    (hdropped : ∀ j ∈ candidates, j ∉ current → Excludable value verdict tests candidates i j) :
    ∀ j ∈ candidates, j ∉ left → Excludable value verdict tests candidates i j := by
  induction rest generalizing current with
  | nil =>
    cases h
    exact hdropped
  | cons p rest ih =>
    rw [run_cons] at h
    obtain ⟨next, hstep, hrun⟩ := Option.bind_eq_some_iff.mp h
    have hp : p ∈ tests := hrest (List.mem_cons_self ..)
    have hinext : i ∈ next := (sublist_of_run hrun).subset hi
    refine ih hrun (fun q hq => hrest (List.mem_cons_of_mem p hq)) ?_
    intro j hj hjnext
    rcases step_cases value verdict p current with
      ⟨heq, _⟩ | ⟨heq, _⟩ | ⟨heq, hknown, _⟩ <;> rw [heq] at hstep <;> cases hstep
    · exact hdropped j hj hjnext
    · by_cases hjcurrent : j ∈ current
      · have hfalse : answer value verdict p j = some false := by
          have hne := hknown j hjcurrent
          simp only [List.mem_filter, hjcurrent, true_and, decide_eq_true_eq] at hjnext
          cases hanswer : answer value verdict p j with
          | none => exact absurd hanswer hne
          | some b => cases b <;> simp_all
        have htrue : answer value verdict p i = some true := by
          simpa using (List.mem_filter.mp hinext).2
        exact .intro hp htrue hfalse fun k hk hnone =>
          hdropped k hk fun hkcurrent => hknown k hkcurrent hnone
      · exact hdropped j hj hjcurrent

theorem isolable_of_run (h : run value verdict tests candidates = some [i]) :
    Isolable value verdict tests candidates i := by
  refine ⟨(sublist_of_run h).subset (List.mem_singleton_self i), fun j hj hne => ?_⟩
  refine excludable_of_run h (List.mem_singleton_self i) (List.Subset.refl tests) ?_ j hj ?_
  · intro k hk hnot
    exact absurd hk hnot
  · rwa [List.mem_singleton]

omit [DecidableEq W] in
theorem Isolable.of_subset (h : Isolable value verdict rest candidates i) (hsub : rest ⊆ tests) :
    Isolable value verdict tests candidates i := by
  refine ⟨h.1, fun j hj hne => ?_⟩
  induction h.2 j hj hne with
  | intro hp hi hj' _ ih =>
    refine .intro (hsub hp) hi hj' fun k hk hnone => ?_
    refine ih k hk hnone hk ?_
    rintro rfl
    rw [hi] at hnone
    cases hnone

omit [DecidableEq W] in
/-- The next test to try: it matches `i`, excludes a candidate and has an answer for all that are
left. -/
theorem Excludable.exists_test (h : Excludable value verdict tests candidates i j)
    (hj : j ∈ current) (hsub : current ⊆ candidates)
    (htests : ∀ p ∈ tests, p ∈ rest ∨ ∀ k ∈ current, answer value verdict p k = some true) :
    ∃ p ∈ rest, answer value verdict p i = some true ∧
      (∃ k ∈ current, answer value verdict p k = some false) ∧
      ∀ k ∈ current, answer value verdict p k ≠ none := by
  induction h with
  | @intro p j hp hi hfalse hunknown ih =>
    by_cases hnone : ∃ k ∈ current, answer value verdict p k = none
    · obtain ⟨k, hk, hk'⟩ := hnone
      exact ih k (hsub hk) hk' hk
    · push Not at hnone
      rcases htests p hp with hrest | hall
      · exact ⟨p, hrest, hi, ⟨j, hj, hfalse⟩, hnone⟩
      · rw [hall j hj] at hfalse
        cases hfalse

theorem step_of_match (hi : i ∈ current) (hj : j ∈ current)
    (htrue : answer value verdict p i = some true) (hfalse : answer value verdict p j = some false)
    (hknown : ∀ k ∈ current, answer value verdict p k ≠ none) :
    step value verdict p current =
      some (current.filter fun k => answer value verdict p k = some true) := by
  have hdisc : Discriminates value p current := by
    refine discriminates_of_answer verdict hi hj ?_
    rw [htrue, hfalse]
    simp
  rcases step_cases value verdict p current with
    ⟨_, hnot | hall⟩ | ⟨_, _, k, hk, hnone⟩ | ⟨heq, _⟩
  · exact absurd hdisc hnot
  · rw [hall i hi] at htrue
    cases htrue
  · exact absurd hnone (hknown k hk)
  · exact heq

theorem eq_singleton_of_nodup (hi : i ∈ current) (hnodup : current.Nodup)
    (h : ∀ j ∈ current, j = i) : current = [i] := by
  rw [← List.perm_singleton]
  refine (List.perm_ext_iff_of_nodup hnodup (List.nodup_singleton i)).mpr fun j => ?_
  rw [List.mem_singleton]
  constructor
  · exact h j
  · rintro rfl
    exact hi

/-- The tests that are left can be ordered so that only `i` remains. -/
theorem exists_run_of_isolable (h : Isolable value verdict tests candidates i)
    (hi : i ∈ current) (hsub : current ⊆ candidates) (hnodup : current.Nodup)
    (htests : ∀ p ∈ tests, p ∈ rest ∨ ∀ k ∈ current, answer value verdict p k = some true) :
    ∃ order, order.Perm rest ∧ run value verdict order current = some [i] := by
  induction hn : current.length using Nat.strongRecOn generalizing current rest with
  | _ n ih =>
    by_cases hall : ∀ j ∈ current, j = i
    · rw [eq_singleton_of_nodup hi hnodup hall]
      exact ⟨rest, .refl rest, run_singleton rest i⟩
    · push Not at hall
      obtain ⟨j, hj, hne⟩ := hall
      obtain ⟨p, hp, htrue, ⟨k, hk, hfalse⟩, hknown⟩ :=
        (h.2 j (hsub hj) hne).exists_test hj hsub htests
      obtain ⟨before, after, rfl⟩ := List.append_of_mem hp
      have hstep := step_of_match hi hk htrue hfalse hknown
      have hshorter :
          (current.filter fun k => answer value verdict p k = some true).length < n := by
        rw [← hn]
        refine List.length_filter_lt_length_iff_exists.mpr ⟨k, hk, ?_⟩
        simp [hfalse]
      have hused : ∀ q ∈ tests, q ∈ before ++ after ∨
          ∀ a ∈ current.filter fun k => answer value verdict p k = some true,
            answer value verdict q a = some true := by
        intro q hq
        rcases htests q hq with hrest | hmatch
        · rcases List.mem_append.mp hrest with hbefore | hafter
          · exact .inl (List.mem_append_left _ hbefore)
          · rcases List.mem_cons.mp hafter with rfl | hafter
            · exact .inr fun a ha => by simpa using (List.mem_filter.mp ha).2
            · exact .inl (List.mem_append_right _ hafter)
        · exact .inr fun a ha => hmatch a (List.mem_of_mem_filter ha)
      obtain ⟨order, hperm, hrun⟩ := ih _ hshorter (by simp [hi, htrue])
        (fun a ha => hsub (List.mem_of_mem_filter ha)) (hnodup.filter _) hused rfl
      refine ⟨p :: order, (hperm.cons p).trans List.perm_middle.symm, ?_⟩
      rw [run_cons, hstep, Option.bind_some, hrun]

/-- Some order leaves only `i` if and only if all others can be excluded. -/
theorem exists_run_iff (hnodup : candidates.Nodup) :
    (∃ order, order.Perm tests ∧ run value verdict order candidates = some [i]) ↔
      Isolable value verdict tests candidates i := by
  constructor
  · rintro ⟨order, hperm, hrun⟩
    exact (isolable_of_run hrun).of_subset hperm.subset
  · intro h
    exact exists_run_of_isolable h h.1 (List.Subset.refl candidates) hnodup fun p hp => .inl hp

omit [DecidableEq W] in
theorem Decisive.of_perm {order : List κ} (h : Decisive value verdict tests candidates i)
    (hperm : order.Perm tests) : Decisive value verdict order candidates i where
  mem := h.mem
  known := fun p hp => h.known p (hperm.subset hp)
  agrees := fun p hp => h.agrees p (hperm.subset hp)
  excludes := fun j hj hne => by
    obtain ⟨p, hp, hanswers⟩ := h.excludes j hj hne
    exact ⟨p, hperm.symm.subset hp, hanswers⟩

/-- A decisive candidate survives each test, and what survives a test does not mismatch where it
matches. -/
theorem Decisive.step (h : Decisive value verdict tests candidates i) (hp : p ∈ tests)
    (hi : i ∈ current) (hsub : current ⊆ candidates) :
    ∃ next, step value verdict p current = some next ∧ i ∈ next ∧ next.Sublist current ∧
      ∀ j ∈ next, answer value verdict p i = some true →
        answer value verdict p j ≠ some false := by
  have hcases := step_cases value verdict p current
  rcases hcases with ⟨heq, hsame⟩ | ⟨_, hdisc, k, hk, hnone⟩ | ⟨heq, _, hdisc, k, hk, htrue⟩
  · refine ⟨current, heq, hi, .refl _, fun j hj htrue hfalse => ?_⟩
    rcases hsame with hnot | hall
    · refine hnot (discriminates_of_answer verdict hi hj ?_)
      rw [htrue, hfalse]
      simp
    · rw [hall i hi] at htrue
      cases htrue
  · exact absurd hnone (h.known p hp (hdisc.mono hsub) k (hsub hk))
  · refine ⟨_, heq, ?_, List.filter_sublist, fun j hj _ hfalse => ?_⟩
    · have := h.agrees p hp (hdisc.mono hsub) ⟨k, hsub hk, htrue⟩
      simp [hi, this]
    · have := (List.mem_filter.mp hj).2
      simp [hfalse] at this

theorem Decisive.run_rest (h : Decisive value verdict tests candidates i) (hrest : rest ⊆ tests)
    (hi : i ∈ current) (hsub : current ⊆ candidates) :
    ∃ left, run value verdict rest current = some left ∧ i ∈ left ∧ left.Sublist current ∧
      ∀ j ∈ left, ∀ p ∈ rest, answer value verdict p i = some true →
        answer value verdict p j ≠ some false := by
  induction rest generalizing current with
  | nil => exact ⟨current, rfl, hi, .refl _, by simp⟩
  | cons p rest ih =>
    obtain ⟨next, hstep, hinext, hnext, hsep⟩ :=
      h.step (hrest (List.mem_cons_self ..)) hi hsub
    obtain ⟨left, hrun, hileft, hleft, hseps⟩ :=
      ih (fun q hq => hrest (List.mem_cons_of_mem p hq)) hinext
        fun a ha => hsub (hnext.subset ha)
    refine ⟨left, by rw [run_cons, hstep, Option.bind_some, hrun], hileft, hleft.trans hnext, ?_⟩
    intro j hj q hq
    rcases List.mem_cons.mp hq with rfl | hq
    · exact hsep j (hleft.subset hj)
    · exact hseps j hj q hq

theorem Decisive.run (h : Decisive value verdict tests candidates i)
    (hnodup : candidates.Nodup) : run value verdict tests candidates = some [i] := by
  obtain ⟨left, hrun, hi, hleft, hsep⟩ :=
    h.run_rest (List.Subset.refl tests) h.mem (List.Subset.refl candidates)
  rw [hrun, eq_singleton_of_nodup hi (hnodup.sublist hleft) fun j hj => ?_]
  by_contra hne
  obtain ⟨p, hp, htrue, hfalse⟩ := h.excludes j (hleft.subset hj) hne
  exact hsep j hj p hp htrue hfalse

/-- Every order leaves only `i` if and only if `i` is decisive. -/
theorem forall_run_iff (hnodup : candidates.Nodup) :
    (∀ order, order.Perm tests → run value verdict order candidates = some [i]) ↔
      Decisive value verdict tests candidates i := by
  constructor
  · intro h
    have hfirst : ∀ p ∈ tests, ∃ next, step value verdict p candidates = some next ∧ i ∈ next := by
      intro p hp
      obtain ⟨before, after, rfl⟩ := List.append_of_mem hp
      have hrun := h (p :: (before ++ after)) List.perm_middle.symm
      rw [run_cons] at hrun
      obtain ⟨next, hstep, hrest⟩ := Option.bind_eq_some_iff.mp hrun
      exact ⟨next, hstep, (sublist_of_run hrest).subset (List.mem_singleton_self i)⟩
    have hisolable := isolable_of_run (h tests (.refl tests))
    refine ⟨hisolable.1, fun p hp hdisc j hj hnone => ?_, fun p hp hdisc hmatch => ?_,
      fun j hj hne => ?_⟩
    · obtain ⟨next, hstep, _⟩ := hfirst p hp
      rw [Elimination.step, if_neg (not_not_intro hdisc), if_pos ⟨j, hj, hnone⟩] at hstep
      cases hstep
    · obtain ⟨next, hstep, hi⟩ := hfirst p hp
      obtain ⟨k, hk, htrue⟩ := hmatch
      have hcases := step_cases value verdict p candidates
      rcases hcases with ⟨_, hnot | hall⟩ | ⟨heq, _⟩ | ⟨heq, _⟩
      · exact absurd hdisc hnot
      · rw [hall k hk] at htrue
        cases htrue
      · rw [heq] at hstep
        cases hstep
      · rw [heq] at hstep
        cases hstep
        simpa using (List.mem_filter.mp hi).2
    · obtain ⟨hp, htrue, hfalse, _⟩ := hisolable.2 j hj hne
      exact ⟨_, hp, htrue, hfalse⟩
  · intro h order hperm
    exact (h.of_perm hperm).run hnodup

/-- The order does not matter if no candidate can be isolated, or one is left in every order. -/
theorem order_irrelevant_iff (hnodup : candidates.Nodup) :
    (∀ order, order.Perm tests → ∀ i, run value verdict order candidates = some [i] ↔
      run value verdict tests candidates = some [i]) ↔
      (∀ i, ¬ Isolable value verdict tests candidates i) ∨
        ∃ i, Decisive value verdict tests candidates i := by
  constructor
  · intro h
    by_cases hisolable : ∃ i, Isolable value verdict tests candidates i
    · obtain ⟨i, hi⟩ := hisolable
      obtain ⟨order, hperm, hrun⟩ := (exists_run_iff hnodup).mpr hi
      refine .inr ⟨i, (forall_run_iff hnodup).mp fun other hother => ?_⟩
      rw [h other hother i, ← h order hperm i, hrun]
    · exact .inl fun i hi => hisolable ⟨i, hi⟩
  · rintro (hnone | ⟨i, hi⟩) order hperm j
    · constructor
      · intro hrun
        exact absurd ((exists_run_iff hnodup).mp ⟨order, hperm, hrun⟩) (hnone j)
      · intro hrun
        exact absurd (isolable_of_run hrun) (hnone j)
    · rw [hi.run hnodup, (hi.of_perm hperm).run hnodup]

end run

section map

variable {value verdict} {tests : List κ} {candidates candidates' : List ι}

omit [DecidableEq W] in
theorem discriminates_map (f : ι' → ι) (p : κ) (candidates : List ι') :
    Discriminates (fun q a => value q (f a)) p candidates ↔
      Discriminates value p (candidates.map f) := by
  simp [Discriminates]

theorem step_map (f : ι' → ι) (p : κ) (candidates : List ι') :
    (step (fun q a => value q (f a)) verdict p candidates).map (List.map f) =
      step value verdict p (candidates.map f) := by
  have hanswer (a : ι') : answer (fun q a => value q (f a)) verdict p a =
    answer value verdict p (f a) := rfl
  simp only [step, discriminates_map, hanswer, List.mem_map, exists_exists_and_eq_and,
    forall_exists_index, and_imp, forall_apply_eq_imp_iff₂, List.filter_map]
  split <;> [rfl; split <;> [rfl; split <;> rfl]]

/-- Renamed candidates are eliminated in the same way. -/
theorem run_map (f : ι' → ι) (tests : List κ) (candidates : List ι') :
    (run (fun q a => value q (f a)) verdict tests candidates).map (List.map f) =
      run value verdict tests (candidates.map f) := by
  induction tests generalizing candidates with
  | nil => rfl
  | cons p tests ih =>
    rw [run_cons, run_cons, ← step_map]
    cases step (fun q a => value q (f a)) verdict p candidates with
    | none => rfl
    | some next => exact ih next

variable (value verdict) in
theorem step_perm (h : candidates.Perm candidates') (p : κ) :
    Option.Rel List.Perm (step value verdict p candidates)
      (step value verdict p candidates') := by
  have hdisc : Discriminates value p candidates ↔ Discriminates value p candidates' := by
    simp only [Discriminates, h.mem_iff]
  simp only [step, hdisc, h.mem_iff]
  split
  · exact .some h
  · split
    · exact .none
    · split
      · exact .some h
      · exact .some (h.filter _)

variable (value verdict) in
/-- The order of the candidates does not matter. -/
theorem run_perm (h : candidates.Perm candidates') (tests : List κ) :
    Option.Rel List.Perm (run value verdict tests candidates)
      (run value verdict tests candidates') := by
  induction tests generalizing candidates candidates' with
  | nil => exact .some h
  | cons p tests ih =>
    rw [run_cons, run_cons]
    have hstep := step_perm value verdict h p
    generalize step value verdict p candidates = next at hstep
    generalize step value verdict p candidates' = next' at hstep
    cases hstep with
    | none => exact .none
    | some hnext => exact ih hnext

variable (value verdict) in
theorem run_eq_singleton_of_perm (h : candidates.Perm candidates') (tests : List κ) (i : ι) :
    run value verdict tests candidates = some [i] ↔
      run value verdict tests candidates' = some [i] := by
  have hrel := run_perm value verdict h tests
  generalize run value verdict tests candidates = left at hrel
  generalize run value verdict tests candidates' = left' at hrel
  cases hrel with
  | none => rfl
  | some hperm =>
    rw [Option.some_inj, Option.some_inj, ← List.perm_singleton, ← List.perm_singleton]
    exact ⟨hperm.symm.trans, hperm.trans⟩

end map

end Elimination
