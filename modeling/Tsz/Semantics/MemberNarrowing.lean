import Tsz.Semantics.PredicateNarrowing

/-!
# What the tests on members keep

Narrowing by `typeof` takes an object type for a type of plain objects only, while narrowing by
equality with strings knows that the empty object type has strings, and an object type may have
functions or other primitive values too.

## Main definitions

* `Narrowings` — the narrowings of a type by `typeof` and by strings, in one history.
* `Narrowings.Agree` — they agree with each other, cover the type and drop nothing they should not.

## Main results

* `narrowings_agree_iff` — exactly when they do.
-/

namespace Tsz.Semantics

open TypeStore

variable {σ α β V : Type}

/-! ## Evaluation -/

/-- Evaluating a type once more, after it was evaluated, gives the same type. -/
structure Evaluation (C : FlowContext σ) (I : σ → Prop) : Prop extends Checks C I where
  contains : ∀ s ty depth forced t, I s → (C.types s).Contains ty →
    C.forceType ty depth s = (.complete forced, t) → (C.types t).Contains forced
  stable : ∀ s t s' ty depth depth' forced forced', I s → I s' →
    C.forceType ty depth s = (.complete forced, t) → Extends (C.types t) (C.types s') →
    (C.forceType ty depth' s').1 = .complete forced' → forced' = forced

/-- A type was evaluated between two states. -/
def ForcedIn (C : FlowContext σ) (I : σ → Prop) (s t : σ) (ty forced : TypeId) : Prop :=
  ∃ w w' depth, I w ∧ Extends (C.types s) (C.types w) ∧
    C.forceType ty depth w = (.complete forced, w') ∧ Extends (C.types w') (C.types t) ∧
    (C.types w').Contains forced

/-- A complete run of a query. -/
structure Run (C : FlowContext σ) (I : σ → Prop) (m : CheckerM σ α) where
  before : σ
  after : σ
  answer : α
  inv : I before
  complete : m before = (.complete answer, after)

namespace ForcedIn

variable {C : FlowContext σ} {I : σ → Prop} {s t s' t' : σ} {ty forced forced' : TypeId}

theorem grown (h : ForcedIn C I s t ty forced) (hgrows : Extends (C.types t) (C.types t')) :
    ForcedIn C I s t' ty forced := by
  obtain ⟨w, w', depth, hw, hs, hforce, ht, hcontains⟩ := h
  exact ⟨w, w', depth, hw, hs, hforce, ht.trans hgrows, hcontains⟩

theorem contains (h : ForcedIn C I s t ty forced) : (C.types t).Contains forced := by
  obtain ⟨w, w', depth, -, -, -, ht, hcontains⟩ := h
  exact ht.contains hcontains

/-- One after the other, two evaluations of a type agree. -/
theorem unique (hC : Evaluation C I) (h : ForcedIn C I s t ty forced)
    (h' : ForcedIn C I s' t' ty forced')
    (happart : Extends (C.types t) (C.types s') ∨ Extends (C.types t') (C.types s)) :
    forced = forced' := by
  obtain ⟨w, u, depth, hw, hs, hforce, ht, -⟩ := h
  obtain ⟨w', u', depth', hw', hs', hforce', ht', -⟩ := h'
  rcases happart with happart | happart
  · exact (hC.stable w u w' ty depth depth' forced forced' hw hw' hforce
      ((ht.trans happart).trans hs') (by rw [hforce'])).symm
  · exact hC.stable w' u' w ty depth' depth forced' forced hw' hw hforce'
      ((ht'.trans happart).trans hs) (by rw [hforce])

end ForcedIn

theorem Ensures.evaluate {C : FlowContext σ} {I : σ → Prop} (hC : Evaluation C I) {s₀ s : σ}
    (hs : I s) (hgrown : Extends (C.types s₀) (C.types s)) {ty : TypeId}
    (hty : (C.types s).Contains ty) (depth : Nat) :
    Ensures C I s (Flow.forceOperand C ty depth) fun forced t => ForcedIn C I s₀ t ty forced := by
  refine (Ensures.forceOperand hC.toChecks hs ty depth).mono fun forced t _ _ hforce => ?_
  exact ⟨s, t, depth, hs, hgrown, hforce, .refl _, hC.contains s ty depth forced t hs hty hforce⟩

namespace Flow

variable {C : FlowContext σ} {I : σ → Prop} {R : Reading V}

/-! ## Members -/

/-- A type that stays as it is, or its members with the outcomes of a test, each described by a
property. -/
structure Tested (C : FlowContext σ) (I : σ → Prop) (s : σ) (ty : TypeId)
    (P : TypeId → Option TypeId → σ → Prop) (forced : TypeId)
    (tested : Option (List (TypeId × Option TypeId))) (t : σ) : Prop where
  evaluated : ForcedIn C I s t ty forced
  none_iff : tested = none ↔ flowMembers (C.types t) forced = none
  outcome : ∀ list, tested = some list → ∀ x ∈ list,
    (∃ members, flowMembers (C.types t) forced = some members ∧ x.1 ∈ members) ∧ P x.1 x.2 t
  member : ∀ list members, tested = some list → flowMembers (C.types t) forced = some members →
    ∀ m ∈ members, ∃ outcome, (m, outcome) ∈ list

theorem flowMembers_grown {s t : TypeStore} (h : Extends s t) {ty : TypeId} (hty : s.Contains ty) :
    flowMembers t ty = flowMembers s ty := by
  unfold flowMembers
  rw [h.kind hty]

theorem contains_of_mem_flowMembers {s : TypeStore} (hwf : s.WellFormed) {ty m : TypeId}
    {members : List TypeId} (hty : s.Contains ty) (h : flowMembers s ty = some members)
    (hm : m ∈ members) : s.Contains m := by
  unfold flowMembers at h
  split at h <;> cases h
  next hkind => exact hwf.children ty hty m (hkind ▸ hm)
  next => exact List.mem_singleton.mp hm ▸ hty

theorem ensures_testedMembers (hC : Evaluation C I) {s : σ} (hs : I s) {ty : TypeId}
    (hty : (C.types s).Contains ty) (depth : Nat)
    {test : TypeId → Nat → CheckerM σ (Option TypeId)}
    {P : TypeId → Option TypeId → σ → Prop}
    (hP : ∀ m outcome t u, Extends (C.types t) (C.types u) → P m outcome t → P m outcome u)
    (htest : ∀ m t, I t → Extends (C.types s) (C.types t) → (C.types t).Contains m →
      Ensures C I t (test m (depth + 1)) (P m)) :
    Ensures C I s (testedMembers C ty depth test) fun answer t =>
      Tested C I s ty P answer.1 answer.2 t := by
  refine (Ensures.evaluate hC hs (.refl _) hty depth).bind fun forced t ht hgrows hforced => ?_
  refine .types ?_
  split
  next hnone => exact .pure ht ⟨hforced, by simp [hnone], nofun, nofun⟩
  next members hsome =>
    have hcontains : ∀ m ∈ members, (C.types t).Contains m := fun m hm =>
      contains_of_mem_flowMembers (hC.wellFormed t ht) hforced.contains hsome hm
    let Q (m : TypeId) (answer : List (TypeId × Option TypeId)) (u : σ) : Prop :=
      ∃ outcome, answer = [(m, outcome)] ∧ P m outcome u
    refine (Ensures.gather (P := Q) ?_ ht fun m hm u hu hgrows' => ?_).bind
      fun tested w hw hgrows' hgathered => .pure hw ?_
    · rintro m _ u w - - hgrows' ⟨outcome, rfl, h⟩
      exact ⟨outcome, rfl, hP m outcome u w hgrows' h⟩
    · refine (htest m u hu (hgrows.trans hgrows') (hgrows'.contains (hcontains m hm))).bind
        fun outcome w hw _ h => .pure hw ⟨outcome, rfl, h⟩
    · have hmembers : flowMembers (C.types w) forced = some members :=
        (flowMembers_grown hgrows' hforced.contains).trans hsome
      refine ⟨hforced.grown hgrows', by simp [hmembers], ?_, ?_⟩
      · rintro _ ⟨⟩ x hx
        obtain ⟨m, hm, _, ⟨outcome, rfl, h⟩, hx⟩ := hgathered.exists_item hx
        obtain rfl := List.mem_singleton.mp hx
        exact ⟨⟨members, hmembers, hm⟩, h⟩
      · rintro _ members' ⟨⟩ hmembers' m hm
        cases hmembers.symm.trans hmembers'
        obtain ⟨_, ⟨outcome, rfl, -⟩, hsub⟩ := hgathered.exists_part hm
        exact ⟨outcome, hsub _ (List.mem_singleton_self _)⟩

/-- What a run of a narrowing leaves of the members. -/
structure Narrowed (R : Reading V) (C : FlowContext σ) (I : σ → Prop) (s t : σ) (ty : TypeId)
    (P : TypeId → Option TypeId → σ → Prop) (result forced : TypeId)
    (tested : Option (List (TypeId × Option TypeId))) : Prop where
  outcomes : Tested C I s ty P forced tested t
  kept : tested = none → result = forced
  inhabits_iff : ∀ list, tested = some list → R.Models (C.types t) → ∀ v,
    R.inhabits v result ↔ ∃ x ∈ list, ∃ n, x.2 = some n ∧ R.inhabits v n

theorem Tested.grown {s t u : σ} {ty forced : TypeId} {P : TypeId → Option TypeId → σ → Prop}
    {tested : Option (List (TypeId × Option TypeId))}
    (hP : ∀ m outcome t u, Extends (C.types t) (C.types u) → P m outcome t → P m outcome u)
    (h : Tested C I s ty P forced tested t) (hgrows : Extends (C.types t) (C.types u)) :
    Tested C I s ty P forced tested u := by
  have hmembers := flowMembers_grown hgrows h.evaluated.contains
  refine ⟨h.evaluated.grown hgrows, hmembers ▸ h.none_iff, ?_, hmembers ▸ h.member⟩
  intro list hlist x hx
  rw [hmembers]
  exact (h.outcome list hlist x hx).imp_right (hP _ _ _ _ hgrows)

theorem narrowed_of_run (hC : Evaluation C I) {s t : σ} (hs : I s) {ty : TypeId}
    (hty : (C.types s).Contains ty) {depth : Nat}
    {test : TypeId → Nat → CheckerM σ (Option TypeId)}
    {P : TypeId → Option TypeId → σ → Prop}
    (hP : ∀ m outcome t u, Extends (C.types t) (C.types u) → P m outcome t → P m outcome u)
    (hcontains : ∀ m n t, P m (some n) t → (C.types t).Contains n)
    (htest : ∀ m t, I t → Extends (C.types s) (C.types t) → (C.types t).Contains m →
      Ensures C I t (test m (depth + 1)) (P m)) {result : TypeId}
    (hrun : mapFlowType C ty depth test s = (.complete result, t)) :
    ∃ forced tested u, testedMembers C ty depth test s = (.complete (forced, tested), u) ∧
      Narrowed R C I s t ty P result forced tested := by
  obtain ⟨⟨forced, tested⟩, u, htested, hrest⟩ := CheckerM.bind_eq_complete.mp hrun
  obtain ⟨hu, -, h⟩ := (ensures_testedMembers hC hs hty depth hP htest).of_run htested
  refine ⟨forced, tested, u, htested, ?_⟩
  cases tested with
  | none =>
    cases hrest
    exact ⟨h, fun _ => rfl, nofun⟩
  | some list =>
    have hlist : ∀ n ∈ list.filterMap (·.2), (C.types u).Contains n := by
      intro n hn
      obtain ⟨⟨m, outcome⟩, hx, rfl⟩ := List.mem_filterMap.mp hn
      exact hcontains m n u (h.outcome list rfl _ hx).2
    obtain ⟨-, hgrows, -, hresult⟩ :=
      (Ensures.union (R := R) hC.toChecks hu .canonical hlist).of_run hrest
    refine ⟨h.grown hP hgrows, nofun, ?_⟩
    rintro _ ⟨⟩ hR v
    rw [hresult hR v]
    simp only [List.mem_filterMap]
    constructor
    · rintro ⟨n, ⟨x, hx, hn⟩, hv⟩
      exact ⟨x, hx, n, hn, hv⟩
    · rintro ⟨x, hx, n, hn, hv⟩
      exact ⟨n, ⟨x, hx, hn⟩, hv⟩

/-! ## What the tests answer -/

/-- What the members evaluate to. -/
def evaluateMembers (C : FlowContext σ) (ty : TypeId) (depth : Nat) :
    CheckerM σ (TypeId × Option (List (TypeId × Option TypeId))) :=
  testedMembers C ty depth fun member depth => do pure (some (← forceOperand C member depth))

def EvaluatedTo (C : FlowContext σ) (I : σ → Prop) (s : σ) (m : TypeId) (outcome : Option TypeId)
    (t : σ) : Prop :=
  ∃ u, ForcedIn C I s t m u ∧ outcome = some u

def keepIf (m : TypeId) (keeps : Bool) : Option TypeId := if keeps then some m else none

def TypeofOutcome (C : FlowContext σ) (I : σ → Prop) (s : σ) (included : Bool)
    (values : TypeofWitnessSet) (m : TypeId) (outcome : Option TypeId) (t : σ) : Prop :=
  ∃ u witness, ForcedIn C I s t m u ∧ (C.types t).Contains m ∧
    (flowTypeDomain ((C.types t).kind u)).1 = some witness ∧
    outcome = keepIf m (values.contains witness = included)

/-- What the test for strings leaves of a type of some kind. -/
def StringAnswer (R : Reading V) (store : TypeStore) (included : Bool) (strings : List String)
    (u : TypeId) (outcome : Option TypeId) : Prop :=
  if isTop (store.kind u) ∧ included = true then
    ∃ n, outcome = some n ∧ store.Contains n ∧
      (R.Models store → ∀ v, R.inhabits v n ↔ ∃ text ∈ strings, R.primitive v = some (.string text))
  else if isTop (store.kind u) then outcome = some u
  else
    match store.kind u with
    | .literalString text _ => outcome = keepIf u (decide (text ∈ strings) = included)
    | .any | .never | .error | .invalid _ => outcome = some u
    | .void | .undefined | .null | .boolean | .number | .bigInt | .symbol | .literalBoolean _ _
    | .literalNumber _ _ => outcome = keepIf u (false = included)
    | _ => False

def StringOutcome (R : Reading V) (C : FlowContext σ) (I : σ → Prop) (s : σ) (included : Bool)
    (strings : List String) (m : TypeId) (outcome : Option TypeId) (t : σ) : Prop :=
  ∃ u, ForcedIn C I s t m u ∧ StringAnswer R (C.types t) included strings u outcome

def DiscriminantOutcome (C : FlowContext σ) (I : σ → Prop) (s : σ) (name : String)
    (included : Bool) (strings : List String) (m : TypeId) (outcome : Option TypeId) (t : σ) :
    Prop :=
  ∃ u shape property x text provenance, ForcedIn C I s t m u ∧ (C.types t).Contains m ∧
    Relation.objectShape ((C.types t).kind u) = some shape ∧
    shape.properties.find? (fun property => property.name = name && !property.optional) =
      some property ∧
    ForcedIn C I s t property.ty x ∧ (C.types t).kind x = .literalString text provenance ∧
    outcome = keepIf m (decide (text ∈ strings) = included)

theorem StringAnswer.grown {s t : TypeStore} (hgrows : Extends s t) {u : TypeId}
    (hu : s.Contains u) {included : Bool} {strings : List String} {outcome : Option TypeId}
    (h : StringAnswer R s included strings u outcome) :
    StringAnswer R t included strings u outcome := by
  unfold StringAnswer at h ⊢
  rw [hgrows.kind hu]
  split at h
  next htop =>
    obtain ⟨n, houtcome, hn, hvalues⟩ := h
    rw [if_pos htop]
    exact ⟨n, houtcome, hgrows.contains hn, fun hR => hvalues (hR.of_extends hgrows)⟩
  next htop =>
    rw [if_neg htop]
    exact h

theorem StringAnswer.contains {s : TypeStore} {u n : TypeId} {included : Bool} {strings : List String}
    (hu : s.Contains u) (h : StringAnswer R s included strings u (some n)) : s.Contains n := by
  unfold StringAnswer keepIf at h
  grind

section grown

variable {s t u : σ} {m : TypeId} {outcome : Option TypeId} {included : Bool}
  (hgrows : Extends (C.types t) (C.types u))

include hgrows

theorem EvaluatedTo.grown (h : EvaluatedTo C I s m outcome t) : EvaluatedTo C I s m outcome u := by
  obtain ⟨x, hforced, houtcome⟩ := h
  exact ⟨x, hforced.grown hgrows, houtcome⟩

theorem TypeofOutcome.grown {values : TypeofWitnessSet}
    (h : TypeofOutcome C I s included values m outcome t) :
    TypeofOutcome C I s included values m outcome u := by
  obtain ⟨x, witness, hforced, hm, hwitness, houtcome⟩ := h
  exact ⟨x, witness, hforced.grown hgrows, hgrows.contains hm,
    (hgrows.kind hforced.contains).symm ▸ hwitness, houtcome⟩

theorem StringOutcome.grown {strings : List String}
    (h : StringOutcome R C I s included strings m outcome t) :
    StringOutcome R C I s included strings m outcome u := by
  obtain ⟨x, hforced, hanswer⟩ := h
  exact ⟨x, hforced.grown hgrows, hanswer.grown hgrows hforced.contains⟩

theorem DiscriminantOutcome.grown {name : String} {strings : List String}
    (h : DiscriminantOutcome C I s name included strings m outcome t) :
    DiscriminantOutcome C I s name included strings m outcome u := by
  obtain ⟨x, shape, property, y, text, provenance, hforced, hm, hshape, hfind, hy, hkind,
    houtcome⟩ := h
  exact ⟨x, shape, property, y, text, provenance, hforced.grown hgrows, hgrows.contains hm,
    (hgrows.kind hforced.contains).symm ▸ hshape, hfind, hy.grown hgrows,
    (hgrows.kind hy.contains).trans hkind, houtcome⟩

end grown

section tests

variable (hC : Evaluation C I) {s t : σ} (ht : I t) (hgrown : Extends (C.types s) (C.types t))
  {m : TypeId} (hm : (C.types t).Contains m) (depth : Nat) (included : Bool)

include hC ht hgrown hm

theorem ensures_evaluate :
    Ensures C I t (do pure (some (← forceOperand C m depth))) (EvaluatedTo C I s m) :=
  (Ensures.evaluate hC ht hgrown hm depth).bind fun u _ hw _ hforced => .pure hw ⟨u, hforced, rfl⟩

theorem ensures_typeofTest (values : TypeofWitnessSet) :
    Ensures C I t (typeofTest C included values m depth)
      (TypeofOutcome C I s included values m) := by
  refine (Ensures.evaluate hC ht hgrown hm depth).bind fun u w hw hgrows hforced => .types ?_
  split
  next witness hwitness =>
    refine .pure hw ⟨u, witness, hforced, hgrows.contains hm, hwitness, ?_⟩
    simp only [keepIf, decide_eq_true_eq]
  next => exact .incomplete hw

theorem ensures_discriminantTest (name : String) (strings : List String) :
    Ensures C I t (discriminantTest C name included strings m depth)
      (DiscriminantOutcome C I s name included strings m) := by
  refine (Ensures.evaluate hC ht hgrown hm depth).bind fun u w hw hgrows hforced => .types ?_
  split
  next => exact .incomplete hw
  next shape hshape =>
    split
    next => exact .incomplete hw
    next property hfind =>
      have hproperty : (C.types w).Contains property.ty := by
        refine (hC.wellFormed w hw).children u hforced.contains _ ?_
        have hmem := List.mem_map_of_mem (f := Property.ty) (List.mem_of_find?_eq_some hfind)
        cases hkind : (C.types w).kind u <;> rw [hkind] at hshape <;> cases hshape <;>
          simp_all [TypeKind.children, ObjectShape.children]
      refine (Ensures.evaluate hC hw (hgrown.trans hgrows) hproperty (depth + 1)).bind
        fun x w' hw' hgrows' hx => .types ?_
      split
      next text provenance hkind =>
        refine .pure hw' ⟨u, shape, property, x, text, provenance, hforced.grown hgrows',
          (hgrows.trans hgrows').contains hm, (hgrows'.kind hforced.contains).symm ▸ hshape, hfind,
          hx, hkind, ?_⟩
        simp only [keepIf, decide_eq_true_eq]
      next => exact .incomplete hw'

omit hgrown hm in
theorem ensures_internAll (strings : List String) :
    Ensures C I t (internAll C strings) fun literals u =>
      (∀ n ∈ literals, (C.types u).Contains n) ∧ (R.Models (C.types u) →
        ∀ v, (∃ n ∈ literals, R.inhabits v n) ↔
          ∃ text ∈ strings, R.primitive v = some (.string text)) := by
  let P (text : String) (answer : List TypeId) (u : σ) : Prop :=
    ∃ n, answer = [n] ∧ (C.types u).Contains n ∧ (C.types u).kind n = .literalString text .regular
  refine (Ensures.gather (P := P) ?_ ht fun text _ u hu _ => ?_).mono ?_
  · rintro text _ u w - - hgrows ⟨n, rfl, hn, hkind⟩
    exact ⟨n, rfl, hgrows.contains hn, (hgrows.kind hn).trans hkind⟩
  · exact (Ensures.intern hC.toChecks hu (k := .literalString text .regular) rfl nofun).bind
      fun n w hw _ hn => .pure hw ⟨n, rfl, hn.1, hn.2⟩
  · intro literals u _ _ hgathered
    refine ⟨fun n hn => ?_, fun hR v => ⟨?_, ?_⟩⟩
    · obtain ⟨text, -, _, ⟨n', rfl, hn', -⟩, hmem⟩ := hgathered.exists_item hn
      exact List.mem_singleton.mp hmem ▸ hn'
    · rintro ⟨n, hn, hv⟩
      obtain ⟨text, htext, _, ⟨n', rfl, hn', hkind⟩, hmem⟩ := hgathered.exists_item hn
      obtain rfl := List.mem_singleton.mp hmem
      obtain ⟨_, rfl, hprimitive⟩ := (hR.primitives n v {.string text} hn' (hkind ▸ rfl)).mp hv
      exact ⟨text, htext, hprimitive⟩
    · rintro ⟨text, htext, hprimitive⟩
      obtain ⟨_, ⟨n, rfl, hn, hkind⟩, hsub⟩ := hgathered.exists_part htext
      exact ⟨n, hsub n (List.mem_singleton_self n),
        (hR.primitives n v {.string text} hn (hkind ▸ rfl)).mpr ⟨_, rfl, hprimitive⟩⟩

theorem ensures_stringTest (strings : List String) :
    Ensures C I t (stringTest C included strings m depth)
      (StringOutcome R C I s included strings m) := by
  refine (Ensures.evaluate hC ht hgrown hm depth).bind fun u w hw hgrows hforced => .types ?_
  have hanswer {outcome : Option TypeId}
      (h : StringAnswer R (C.types w) included strings u outcome) :
      StringOutcome R C I s included strings m outcome w := ⟨u, hforced, h⟩
  refine .ite (fun htop => .ite (fun hexcluded => .pure hw (hanswer ?_)) fun hincluded => ?_)
    fun htop => ?_
  · simp [StringAnswer, htop, by simpa using hexcluded]
  · have hincluded : included = true := by simpa using hincluded
    refine (ensures_internAll (R := R) hC hw strings).bind fun literals w' hw' hgrows' hliterals => ?_
    refine (Ensures.union (R := R) hC.toChecks hw' .canonical hliterals.1).bind
      fun n w'' hw'' hgrows'' hn => .pure hw'' ⟨u, hforced.grown (hgrows'.trans hgrows''), ?_⟩
    have hkind := (hgrows'.trans hgrows'').kind hforced.contains
    rw [StringAnswer, if_pos ⟨hkind.symm ▸ htop, hincluded⟩]
    refine ⟨n, rfl, hn.1, fun hR v => (hn.2 hR v).trans ?_⟩
    exact hliterals.2 (hR.of_extends hgrows'') v
  · have hanswer' {outcome : Option TypeId} (h : match (C.types w).kind u with
        | .literalString text _ => outcome = keepIf u (decide (text ∈ strings) = included)
        | .any | .never | .error | .invalid _ => outcome = some u
        | .void | .undefined | .null | .boolean | .number | .bigInt | .symbol
        | .literalBoolean _ _ | .literalNumber _ _ => outcome = keepIf u (false = included)
        | _ => False) : StringOutcome R C I s included strings m outcome w := by
      refine hanswer ?_
      rw [StringAnswer, if_neg fun h => htop h.1, if_neg htop]
      exact h
    split
    next text provenance hkind =>
      refine .pure hw (hanswer' ?_)
      rw [hkind]
      simp [keepIf]
    iterate 4
      next hkind =>
        refine .pure hw (hanswer' ?_)
        simp [hkind]
    iterate 9
      next hkind =>
        refine .pure hw (hanswer' ?_)
        simp [hkind, keepIf]
    next => exact .incomplete hw

end tests

/-! ## One history -/

/-- A run is before or after an evaluation of the members, in a history that ends with a store. -/
structure Beside {m : CheckerM σ α} {ty : TypeId} {depth : Nat} (T : TypeStore) (r : Run C I m)
    (e : Run C I (evaluateMembers C ty depth)) : Prop where
  contains : (C.types r.before).Contains ty
  grows : Extends (C.types r.after) T
  apart : Extends (C.types e.after) (C.types r.before) ∨
    Extends (C.types r.after) (C.types e.before)

/-- A member and what it evaluates to. -/
def Evaluates {ty : TypeId} {depth : Nat} (e : Run C I (evaluateMembers C ty depth))
    (m u : TypeId) : Prop :=
  ∃ list, e.answer.2 = some list ∧ (m, some u) ∈ list

section history

variable {ty : TypeId} {depth : Nat} {T : TypeStore}

theorem tested_evaluateMembers (hC : Evaluation C I) (e : Run C I (evaluateMembers C ty depth))
    (hty : (C.types e.before).Contains ty) :
    Tested C I e.before ty (EvaluatedTo C I e.before) e.answer.1 e.answer.2 e.after :=
  ((ensures_testedMembers hC e.inv hty depth (fun _ _ _ _ hgrows h => h.grown hgrows)
    fun _ _ ht hgrown hm => ensures_evaluate hC ht hgrown hm _).of_run e.complete).2.2

theorem Evaluates.forcedIn (hC : Evaluation C I) {e : Run C I (evaluateMembers C ty depth)}
    (hty : (C.types e.before).Contains ty) {m u : TypeId} (h : Evaluates e m u) :
    ForcedIn C I e.before e.after m u := by
  obtain ⟨list, hlist, hmem⟩ := h
  obtain ⟨u', hforced, ⟨⟩⟩ := ((tested_evaluateMembers hC e hty).outcome list hlist _ hmem).2
  exact hforced

/-- What a narrowing leaves, member by member, next to what the members evaluate to. -/
structure Compares (R : Reading V) {m : CheckerM σ TypeId}
    (e : Run C I (evaluateMembers C ty depth)) (r : Run C I m)
    (test : TypeId → Nat → CheckerM σ (Option TypeId))
    (P : TypeId → Option TypeId → σ → Prop) (T : TypeStore) : Prop where
  whole : e.answer.2 = none → r.answer = e.answer.1 ∧
    ∃ u, testedMembers C ty depth test r.before = (.complete (e.answer.1, none), u)
  tested : e.answer.2 ≠ none → ∃ list u,
    testedMembers C ty depth test r.before = (.complete (e.answer.1, some list), u) ∧
    (∀ x ∈ list, (∃ u, Evaluates e x.1 u) ∧ P x.1 x.2 r.after) ∧
    (∀ m u, Evaluates e m u → ∃ outcome, (m, outcome) ∈ list) ∧
    ∀ v, R.inhabits v r.answer ↔ ∃ x ∈ list, ∃ n, x.2 = some n ∧ R.inhabits v n

theorem compares (hC : Evaluation C I) {test : TypeId → Nat → CheckerM σ (Option TypeId)}
    (e : Run C I (evaluateMembers C ty depth)) (r : Run C I (mapFlowType C ty depth test))
    (hty : (C.types e.before).Contains ty) (h : Beside T r e)
    (he : Extends (C.types e.after) T) (hR : R.Models T)
    {P : TypeId → Option TypeId → σ → Prop}
    (hP : ∀ m outcome t u, Extends (C.types t) (C.types u) → P m outcome t → P m outcome u)
    (hcontains : ∀ m n t, P m (some n) t → (C.types t).Contains n)
    (htest : ∀ m t, I t → Extends (C.types r.before) (C.types t) → (C.types t).Contains m →
      Ensures C I t (test m (depth + 1)) (P m)) : Compares R e r test P T := by
  obtain ⟨forced, tested, u, htested, hnarrowed⟩ :=
    narrowed_of_run (R := R) hC r.inv h.contains hP hcontains htest r.complete
  have hevaluated := tested_evaluateMembers hC e hty
  obtain rfl : e.answer.1 = forced :=
    hevaluated.evaluated.unique hC hnarrowed.outcomes.evaluated h.apart
  have hflow : flowMembers (C.types e.after) e.answer.1 =
      flowMembers (C.types r.after) e.answer.1 :=
    (flowMembers_grown he hevaluated.evaluated.contains).symm.trans
      (flowMembers_grown h.grows hnarrowed.outcomes.evaluated.contains)
  have hnone : e.answer.2 = none ↔ tested = none := by
    rw [hevaluated.none_iff, hnarrowed.outcomes.none_iff, hflow]
  constructor
  · intro hanswer
    obtain rfl := hnone.mp hanswer
    exact ⟨hnarrowed.kept rfl, u, htested⟩
  · intro hanswer
    obtain ⟨list, rfl⟩ : ∃ list, tested = some list :=
      Option.ne_none_iff_exists'.mp fun h => hanswer (hnone.mpr h)
    obtain ⟨pairs, hpairs⟩ := Option.ne_none_iff_exists'.mp hanswer
    refine ⟨list, u, htested, fun x hx => ?_, ?_, hnarrowed.inhabits_iff list rfl
      (hR.of_extends h.grows)⟩
    · obtain ⟨⟨members, hmembers, hmem⟩, houtcome⟩ := hnarrowed.outcomes.outcome list rfl x hx
      obtain ⟨outcome, hpair⟩ := hevaluated.member pairs members hpairs (hflow.trans hmembers) _ hmem
      obtain ⟨u, -, rfl⟩ := (hevaluated.outcome pairs hpairs _ hpair).2
      exact ⟨⟨u, pairs, hpairs, hpair⟩, houtcome⟩
    · rintro m u ⟨pairs', hpairs', hpair⟩
      obtain ⟨⟨members, hmembers, hmem⟩, -⟩ := hevaluated.outcome pairs' hpairs' _ hpair
      exact hnarrowed.outcomes.member list members rfl (hflow.symm.trans hmembers) m hmem

/-- A type contains what its members contain. -/
theorem inhabits_iff_member (hC : Evaluation C I) (e : Run C I (evaluateMembers C ty depth))
    (hty : (C.types e.before).Contains ty) (he : Extends (C.types e.after) T) (hR : R.Models T)
    (hanswer : e.answer.2 ≠ none) (v : V) :
    R.inhabits v e.answer.1 ↔ ∃ m u, Evaluates e m u ∧ R.inhabits v m := by
  have htested := tested_evaluateMembers hC e hty
  obtain ⟨pairs, hpairs⟩ := Option.ne_none_iff_exists'.mp hanswer
  obtain ⟨members, hmembers⟩ :=
    Option.ne_none_iff_exists'.mp fun h => hanswer (htested.none_iff.mpr h)
  have hvalues : R.inhabits v e.answer.1 ↔ ∃ m ∈ members, R.inhabits v m := by
    have hmembers' := (flowMembers_grown he htested.evaluated.contains).trans hmembers
    unfold flowMembers at hmembers'
    split at hmembers' <;> cases hmembers'
    next hkind => exact hR.union _ v members (he.contains htested.evaluated.contains) hkind
    next => simp
  rw [hvalues]
  constructor
  · rintro ⟨m, hm, hv⟩
    obtain ⟨outcome, hpair⟩ := htested.member pairs members hpairs hmembers m hm
    obtain ⟨u, -, rfl⟩ := (htested.outcome pairs hpairs _ hpair).2
    exact ⟨m, u, ⟨pairs, hpairs, hpair⟩, hv⟩
  · rintro ⟨m, u, ⟨pairs', hpairs', hpair⟩, hv⟩
    obtain ⟨⟨members', hmembers', hm⟩, -⟩ := htested.outcome pairs' hpairs' _ hpair
    cases hmembers.symm.trans hmembers'
    exact ⟨m, hm, hv⟩

/-- What a member evaluates to in another run. -/
theorem Beside.same (hC : Evaluation C I) {m : CheckerM σ α} {r : Run C I m}
    {e : Run C I (evaluateMembers C ty depth)} (h : Beside T r e)
    (hty : (C.types e.before).Contains ty) {member u u' : TypeId} (hu : Evaluates e member u)
    (hu' : ForcedIn C I r.before r.after member u') : u = u' :=
  (hu.forcedIn hC hty).unique hC hu' h.apart

section byTypeof

variable {included : Bool} {values : TypeofWitnessSet} (hC : Evaluation C I)
  {e : Run C I (evaluateMembers C ty depth)}
  {r : Run C I (narrowTypeof C ty included values depth)}
  (hty : (C.types e.before).Contains ty) (h : Beside T r e)
  (he : Extends (C.types e.after) T) (hR : R.Models T)

include hC hty h he hR

theorem compares_typeof : Compares R e r (typeofTest C included values)
    (TypeofOutcome C I r.before included values) T := by
  refine compares hC e r hty h he hR (fun _ _ _ _ hgrows h => h.grown hgrows) ?_
    fun m t ht hgrown hm => ensures_typeofTest hC ht hgrown hm _ included values
  rintro m n t ⟨u, witness, -, hm, -, houtcome⟩
  unfold keepIf at houtcome
  split at houtcome <;> cases houtcome
  exact hm

omit he hR in
theorem typeofOutcome_iff {m u : TypeId} {outcome : Option TypeId} (hu : Evaluates e m u)
    (houtcome : TypeofOutcome C I r.before included values m outcome r.after) :
    ∃ witness, (flowTypeDomain (T.kind u)).1 = some witness ∧
      outcome = keepIf m (values.contains witness = included) := by
  obtain ⟨u', witness, hforced, -, hwitness, houtcome⟩ := houtcome
  obtain rfl := h.same hC hty hu hforced
  exact ⟨witness, (h.grows.kind hforced.contains).symm ▸ hwitness, houtcome⟩

theorem exists_witness {m u : TypeId} (hu : Evaluates e m u) :
    ∃ witness, (flowTypeDomain (T.kind u)).1 = some witness := by
  have hanswer : e.answer.2 ≠ none := by
    obtain ⟨list, hlist, -⟩ := hu
    rw [hlist]
    nofun
  obtain ⟨list, -, -, houtcome, hmember, -⟩ := (compares_typeof hC hty h he hR).tested hanswer
  obtain ⟨outcome, hmem⟩ := hmember m u hu
  obtain ⟨witness, hwitness, -⟩ := typeofOutcome_iff hC hty h hu (houtcome _ hmem).2
  exact ⟨witness, hwitness⟩

theorem inhabits_typeof_iff (hanswer : e.answer.2 ≠ none) (v : V) :
    R.inhabits v r.answer ↔ ∃ m u witness, Evaluates e m u ∧
      (flowTypeDomain (T.kind u)).1 = some witness ∧ values.contains witness = included ∧
      R.inhabits v m := by
  obtain ⟨list, -, -, houtcome, hmember, hvalues⟩ := (compares_typeof hC hty h he hR).tested hanswer
  rw [hvalues]
  constructor
  · rintro ⟨⟨m, outcome⟩, hmem, n, hn, hv⟩
    obtain ⟨⟨u, hu⟩, hoc⟩ := houtcome _ hmem
    obtain ⟨witness, hwitness, hkeep⟩ := typeofOutcome_iff hC hty h hu hoc
    rw [hn] at hkeep
    unfold keepIf at hkeep
    split at hkeep <;> cases hkeep
    next hcontains => exact ⟨m, u, witness, hu, hwitness, of_decide_eq_true hcontains, hv⟩
  · rintro ⟨m, u, witness, hu, hwitness, hcontains, hv⟩
    obtain ⟨outcome, hmem⟩ := hmember m u hu
    obtain ⟨witness', hwitness', hkeep⟩ := typeofOutcome_iff hC hty h hu (houtcome _ hmem).2
    obtain rfl := Option.some.inj (hwitness.symm.trans hwitness')
    exact ⟨_, hmem, m, hkeep.trans (by simp [keepIf, hcontains]), hv⟩

theorem mem_dropped_iff {forced : TypeId} {list : List (TypeId × Option TypeId)} {w : σ}
    (hrun : testedMembers C ty depth (typeofTest C included values) r.before =
      (.complete (forced, some list), w)) (m : TypeId) :
    (m, none) ∈ list ↔ ∃ u witness, Evaluates e m u ∧
      (flowTypeDomain (T.kind u)).1 = some witness ∧ values.contains witness ≠ included := by
  have hcompares := compares_typeof hC hty h he hR
  have hanswer : e.answer.2 ≠ none := by
    intro hnone
    obtain ⟨-, _, hrun'⟩ := hcompares.whole hnone
    cases hrun.symm.trans hrun'
  obtain ⟨_, _, hrun', houtcome, hmember, -⟩ := hcompares.tested hanswer
  cases hrun.symm.trans hrun'
  constructor
  · intro hmem
    obtain ⟨⟨u, hu⟩, hoc⟩ := houtcome _ hmem
    obtain ⟨witness, hwitness, hkeep⟩ := typeofOutcome_iff hC hty h hu hoc
    refine ⟨u, witness, hu, hwitness, fun hcontains => ?_⟩
    simp [keepIf, hcontains] at hkeep
  · rintro ⟨u, witness, hu, hwitness, hcontains⟩
    obtain ⟨outcome, hmem⟩ := hmember m u hu
    obtain ⟨witness', hwitness', hkeep⟩ := typeofOutcome_iff hC hty h hu (houtcome _ hmem).2
    obtain rfl := Option.some.inj (hwitness.symm.trans hwitness')
    obtain rfl : outcome = none := by simpa [keepIf, hcontains] using hkeep
    exact hmem

end byTypeof

section byStrings

variable {included : Bool} {strings : List String} (hC : Evaluation C I)
  {e : Run C I (evaluateMembers C ty depth)}
  (hty : (C.types e.before).Contains ty)
  (he : Extends (C.types e.after) T) (hR : R.Models T)

include hC hty he hR

theorem compares_strings
    {r : Run C I (narrowStringLiterals C ty none included strings depth)} (h : Beside T r e) :
    Compares R e r (stringTest C included strings)
      (StringOutcome R C I r.before included strings) T := by
  refine compares hC e r hty h he hR (fun _ _ _ _ hgrows h => h.grown hgrows) ?_
    fun m t ht hgrown hm => ensures_stringTest hC ht hgrown hm _ included strings
  rintro m n t ⟨u, hforced, hanswer⟩
  exact hanswer.contains hforced.contains

theorem compares_discriminant {name : String}
    {r : Run C I (narrowStringLiterals C ty (some name) included strings depth)}
    (h : Beside T r e) :
    Compares R e r (discriminantTest C name included strings)
      (DiscriminantOutcome C I r.before name included strings) T := by
  refine compares hC e r hty h he hR (fun _ _ _ _ hgrows h => h.grown hgrows) ?_
    fun m t ht hgrown hm => ensures_discriminantTest hC ht hgrown hm _ included name strings
  rintro m n t ⟨u, shape, property, x, text, provenance, -, hm, -, -, -, -, houtcome⟩
  unfold keepIf at houtcome
  split at houtcome <;> cases houtcome
  exact hm

/-- What equality with strings leaves, member by member. -/
theorem strings_answers {r : Run C I (narrowStringLiterals C ty none included strings depth)}
    (h : Beside T r e) (hanswer : e.answer.2 ≠ none) :
    (∀ m u, Evaluates e m u → ∃ outcome, StringAnswer R T included strings u outcome ∧
      ∀ n, outcome = some n → ∀ v, R.inhabits v n → R.inhabits v r.answer) ∧
    ∀ v, R.inhabits v r.answer → ∃ m u n, Evaluates e m u ∧
      StringAnswer R T included strings u (some n) ∧ R.inhabits v n := by
  obtain ⟨list, -, -, houtcome, hmember, hvalues⟩ := (compares_strings hC hty he hR h).tested hanswer
  have hentry {m u : TypeId} {outcome : Option TypeId} (hu : Evaluates e m u)
      (hmem : (m, outcome) ∈ list) : StringAnswer R T included strings u outcome := by
    obtain ⟨u', hforced, hstring⟩ := (houtcome _ hmem).2
    obtain rfl := h.same hC hty hu hforced
    exact hstring.grown h.grows hforced.contains
  constructor
  · intro m u hu
    obtain ⟨outcome, hmem⟩ := hmember m u hu
    exact ⟨outcome, hentry hu hmem, fun n hn v hv => (hvalues v).mpr ⟨_, hmem, n, hn, hv⟩⟩
  · intro v hv
    obtain ⟨⟨m, outcome⟩, hmem, n, hn, hv⟩ := (hvalues v).mp hv
    obtain ⟨u, hu⟩ := (houtcome _ hmem).1
    exact ⟨m, u, n, hu, hn ▸ hentry hu hmem, hv⟩

omit hC hty he hR in
/-- The members that equality with the strings takes and the ones that inequality takes cover a
member. -/
theorem StringAnswer.covers {s : TypeStore} {u : TypeId} {outcome outcome' : Option TypeId}
    (h : StringAnswer R s true strings u outcome)
    (h' : StringAnswer R s false strings u outcome') : outcome = some u ∨ outcome' = some u := by
  unfold StringAnswer at h h'
  by_cases htop : isTop (s.kind u) = true
  · exact .inr (by simpa [htop] using h')
  · simp only [htop, false_and, if_false, Bool.false_eq_true] at h h'
    cases hkind : s.kind u <;> rw [hkind] at h h' <;> simp_all [keepIf]
    exact em _

omit hC hty he hR in
/-- What equality with the strings keeps of types for which `typeof` has an answer. -/
theorem StringAnswer.kept {s : TypeStore} {u n : TypeId} {witness : TypeofWitness}
    (h : StringAnswer R s true strings u (some n))
    (hwitness : (flowTypeDomain (s.kind u)).1 = some witness) :
    ((s.kind u = .string ∨ s.kind u = .object {}) ∧ (R.Models s → ∀ v,
        R.inhabits v n ↔ ∃ text ∈ strings, R.primitive v = some (.string text))) ∨
      n = u ∧ (flowTypeDomain (s.kind u)).1 = some .string := by
  unfold StringAnswer at h
  by_cases htop : isTop (s.kind u) = true
  · simp only [htop, and_self, if_true] at h
    obtain ⟨_, ⟨⟩, -, hvalues⟩ := h
    refine .inl ⟨?_, hvalues⟩
    cases hkind : s.kind u <;> simp_all [isTop, flowTypeDomain]
  · simp only [htop, false_and, if_false, Bool.false_eq_true] at h
    cases hkind : s.kind u <;> rw [hkind] at h hwitness <;>
      simp_all [keepIf, flowTypeDomain]

end byStrings

theorem witness_of_isBag {k : TypeKind} (h : isBag k = true) :
    (flowTypeDomain k).1 = some .object := by
  cases k <;> simp_all [isBag, flowTypeDomain]
  next shape =>
    simp only [ObjectShape.isCallable, Bool.or_eq_false_iff, Bool.not_eq_false'] at h
    simpa using h

/-- A discriminant keeps each member on one of its two sides. -/
theorem discriminant_covers (hC : Evaluation C I) {name : String} {strings : List String}
    {e : Run C I (evaluateMembers C ty depth)} (hty : (C.types e.before).Contains ty)
    (r : ∀ included, Run C I (narrowStringLiterals C ty (some name) included strings depth))
    (h : ∀ included, Beside T (r included) e)
    (happart : Extends (C.types (r true).after) (C.types (r false).before) ∨
      Extends (C.types (r false).after) (C.types (r true).before))
    {m u : TypeId} (hu : Evaluates e m u) {outcome outcome' : Option TypeId}
    (hequal : DiscriminantOutcome C I (r true).before name true strings m outcome (r true).after)
    (hunequal : DiscriminantOutcome C I (r false).before name false strings m outcome'
      (r false).after) : outcome = some m ∨ outcome' = some m := by
  obtain ⟨u₁, shape, property, x, text, provenance, hforced, -, hshape, hfind, hx, hkind, houtcome⟩ :=
    hequal
  obtain ⟨u₂, shape', property', x', text', provenance', hforced', -, hshape', hfind', hx', hkind',
    houtcome'⟩ := hunequal
  obtain rfl := (h true).same hC hty hu hforced
  obtain rfl := (h false).same hC hty hu hforced'
  rw [← (h true).grows.kind hforced.contains] at hshape
  rw [← (h false).grows.kind hforced'.contains] at hshape'
  obtain rfl := Option.some.inj (hshape.symm.trans hshape')
  obtain rfl := Option.some.inj (hfind.symm.trans hfind')
  obtain rfl := hx.unique hC hx' happart
  rw [← (h true).grows.kind hx.contains] at hkind
  rw [← (h false).grows.kind hx'.contains] at hkind'
  cases hkind.symm.trans hkind'
  by_cases hmem : text ∈ strings
  · exact .inl (by simp [houtcome, keepIf, hmem])
  · exact .inr (by simp [houtcome', keepIf, hmem])

end history

/-- The narrowings of a type by `typeof` and by strings. -/
structure Narrowings (C : FlowContext σ) (I : σ → Prop) (ty : TypeId) (depth : Nat)
    (property : Option String) (values : TypeofWitnessSet) (strings : List String) where
  evaluated : Run C I (evaluateMembers C ty depth)
  string : Run C I (narrowTypeof C ty true ⟨TypeofWitness.string.bit⟩ depth)
  byTypeof : ∀ included, Run C I (narrowTypeof C ty included values depth)
  byStrings : ∀ included, Run C I (narrowStringLiterals C ty property included strings depth)

namespace Narrowings

variable {ty : TypeId} {depth : Nat} {property : Option String} {values : TypeofWitnessSet}
  {strings : List String}

/-- The runs belong to one history, which ends with a store; evaluation keeps the values of the
types. -/
structure InOneHistory (R : Reading V) (n : Narrowings C I ty depth property values strings)
    (T : TypeStore) : Prop where
  contains : (C.types n.evaluated.before).Contains ty
  evaluated : Extends (C.types n.evaluated.after) T
  string : Beside T n.string n.evaluated
  byTypeof : ∀ included, Beside T (n.byTypeof included) n.evaluated
  byStrings : ∀ included, Beside T (n.byStrings included) n.evaluated
  apart : Extends (C.types (n.byStrings true).after) (C.types (n.byStrings false).before) ∨
    Extends (C.types (n.byStrings false).after) (C.types (n.byStrings true).before)
  models : R.Models T
  preserved : ∀ m u, ForcedIn C I n.evaluated.before n.evaluated.after m u →
    ∀ v, R.inhabits v m ↔ R.inhabits v u

/-- What equals one of the strings is a string; each pair of narrowings covers the type; the
members that narrowing by `typeof` drops have no value that passes the test. -/
structure Agree (R : Reading V) (n : Narrowings C I ty depth property values strings) : Prop where
  string : property = none → ∀ v, R.inhabits v (n.byStrings true).answer →
    R.inhabits v n.string.answer
  typeof_covers : ∀ v, R.inhabits v ty →
    R.inhabits v (n.byTypeof true).answer ∨ R.inhabits v (n.byTypeof false).answer
  strings_cover : ∀ v, R.inhabits v ty →
    R.inhabits v (n.byStrings true).answer ∨ R.inhabits v (n.byStrings false).answer
  drops : ∀ included forced list u,
    testedMembers C ty depth (typeofTest C included values) (n.byTypeof included).before =
      (.complete (forced, some list), u) →
    ∀ m, (m, none) ∈ list → ∀ v, R.inhabits v m → values.contains (R.typeof v) ≠ included

/-- Beside the empty object type stand `string` or all the strings of the test. -/
def EmptyObjectIsCovered (n : Narrowings C I ty depth property values strings) (T : TypeStore) :
    Prop :=
  property = none → ∀ m u, Evaluates n.evaluated m u → T.kind u = .object {} →
    ∀ text ∈ strings, ∃ m' u', Evaluates n.evaluated m' u' ∧
      (T.kind u' = .string ∨ ∃ provenance, T.kind u' = .literalString text provenance)

/-- The members that objects without a call have by their properties alone, and that the test
drops, have no values of another `typeof` that would pass. -/
def BagsHaveObjects (R : Reading V) (n : Narrowings C I ty depth property values strings)
    (T : TypeStore) : Prop :=
  ∀ included m u, Evaluates n.evaluated m u → isBag (T.kind u) = true →
    values.contains .object ≠ included → ∀ v, R.inhabits v m → R.typeof v ≠ .object →
      values.contains (R.typeof v) ≠ included

namespace InOneHistory

variable {n : Narrowings C I ty depth property values strings} {T : TypeStore} {v : V}

theorem inhabits_whole (hC : Evaluation C I) (h : n.InOneHistory R T) :
    R.inhabits v ty ↔ R.inhabits v n.evaluated.answer.1 :=
  h.preserved _ _ (tested_evaluateMembers hC n.evaluated h.contains).evaluated v

theorem inhabits_evaluated (hC : Evaluation C I) (h : n.InOneHistory R T) {m u : TypeId}
    (hu : Evaluates n.evaluated m u) : R.inhabits v m ↔ R.inhabits v u :=
  h.preserved m u (hu.forcedIn hC h.contains) v

theorem contains_evaluated (hC : Evaluation C I) (h : n.InOneHistory R T) {m u : TypeId}
    (hu : Evaluates n.evaluated m u) : T.Contains u :=
  h.evaluated.contains (hu.forcedIn hC h.contains).contains

theorem exists_member (hC : Evaluation C I) (h : n.InOneHistory R T)
    (hanswer : n.evaluated.answer.2 ≠ none) (hv : R.inhabits v ty) :
    ∃ m u, Evaluates n.evaluated m u ∧ R.inhabits v m :=
  (inhabits_iff_member hC n.evaluated h.contains h.evaluated h.models hanswer v).mp
    ((h.inhabits_whole hC).mp hv)

theorem typeof_covers (hC : Evaluation C I) (h : n.InOneHistory R T) (hv : R.inhabits v ty) :
    R.inhabits v (n.byTypeof true).answer ∨ R.inhabits v (n.byTypeof false).answer := by
  have hiff (included : Bool) := inhabits_typeof_iff hC h.contains (h.byTypeof included)
    h.evaluated h.models
  by_cases hanswer : n.evaluated.answer.2 = none
  · have hwhole := (compares_typeof hC h.contains (h.byTypeof true) h.evaluated h.models).whole
      hanswer
    exact .inl (hwhole.1 ▸ (h.inhabits_whole hC).mp hv)
  · obtain ⟨m, u, hu, hvm⟩ := h.exists_member hC hanswer hv
    obtain ⟨witness, hwitness⟩ :=
      exists_witness hC h.contains (h.byTypeof true) h.evaluated h.models hu
    cases hcontains : values.contains witness with
    | true => exact .inl ((hiff true hanswer v).mpr ⟨m, u, witness, hu, hwitness, hcontains, hvm⟩)
    | false => exact .inr ((hiff false hanswer v).mpr ⟨m, u, witness, hu, hwitness, hcontains, hvm⟩)

theorem drops_iff (hC : Evaluation C I) (h : n.InOneHistory R T) :
    (∀ included forced list u,
      testedMembers C ty depth (typeofTest C included values) (n.byTypeof included).before =
        (.complete (forced, some list), u) →
      ∀ m, (m, none) ∈ list → ∀ v, R.inhabits v m → values.contains (R.typeof v) ≠ included) ↔
      n.BagsHaveObjects R T := by
  have hcompares (included : Bool) := compares_typeof hC h.contains (h.byTypeof included)
    h.evaluated h.models
  constructor
  · intro hdrops included m u hu hbag hcontains v hv _
    have hanswer : n.evaluated.answer.2 ≠ none := by
      obtain ⟨list, hlist, -⟩ := hu
      rw [hlist]
      nofun
    obtain ⟨list, w, hrun, -⟩ := (hcompares included).tested hanswer
    refine hdrops included _ list w hrun m ?_ v hv
    refine (mem_dropped_iff hC h.contains (h.byTypeof included) h.evaluated h.models hrun m).mpr
      ⟨u, .object, hu, witness_of_isBag hbag, hcontains⟩
  · intro hbags included forced list w hrun m hmem v hv
    obtain ⟨u, witness, hu, hwitness, hcontains⟩ :=
      (mem_dropped_iff hC h.contains (h.byTypeof included) h.evaluated h.models hrun m).mp hmem
    have hvu := (h.inhabits_evaluated hC hu).mp hv
    cases hbag : isBag (T.kind u) with
    | false =>
      rwa [h.models.typeof_of_witness (h.contains_evaluated hC hu) hwitness hbag hvu]
    | true =>
      obtain rfl := Option.some.inj (hwitness.symm.trans (witness_of_isBag hbag))
      by_cases htypeof : R.typeof v = .object
      · rwa [htypeof]
      · exact hbags included m u hu hbag hcontains v hv htypeof

theorem strings_cover (hC : Evaluation C I) (h : n.InOneHistory R T) (hv : R.inhabits v ty) :
    R.inhabits v (n.byStrings true).answer ∨ R.inhabits v (n.byStrings false).answer := by
  have hty := h.contains
  cases property with
  | none =>
    have hcompares (included : Bool) :=
      compares_strings hC hty h.evaluated h.models (h.byStrings included)
    by_cases hanswer : n.evaluated.answer.2 = none
    · exact .inl (((hcompares true).whole hanswer).1 ▸ (h.inhabits_whole hC).mp hv)
    · obtain ⟨m, u, hu, hvm⟩ := h.exists_member hC hanswer hv
      have hvu := (h.inhabits_evaluated hC hu).mp hvm
      have hanswers (included : Bool) :=
        (strings_answers hC hty h.evaluated h.models (h.byStrings included) hanswer).1 m u hu
      obtain ⟨outcome, hstring, hkeeps⟩ := hanswers true
      obtain ⟨outcome', hstring', hkeeps'⟩ := hanswers false
      rcases hstring.covers hstring' with rfl | rfl
      · exact .inl (hkeeps u rfl v hvu)
      · exact .inr (hkeeps' u rfl v hvu)
  | some name =>
    have hcompares (included : Bool) :=
      compares_discriminant hC hty h.evaluated h.models (h.byStrings included)
    by_cases hanswer : n.evaluated.answer.2 = none
    · exact .inl (((hcompares true).whole hanswer).1 ▸ (h.inhabits_whole hC).mp hv)
    · obtain ⟨m, u, hu, hvm⟩ := h.exists_member hC hanswer hv
      obtain ⟨list, -, -, houtcome, hmember, hvalues⟩ := (hcompares true).tested hanswer
      obtain ⟨list', -, -, houtcome', hmember', hvalues'⟩ := (hcompares false).tested hanswer
      obtain ⟨outcome, hmem⟩ := hmember m u hu
      obtain ⟨outcome', hmem'⟩ := hmember' m u hu
      rcases discriminant_covers hC hty n.byStrings h.byStrings h.apart hu (houtcome _ hmem).2
        (houtcome' _ hmem').2 with hkept | hkept
      · exact .inl ((hvalues v).mpr ⟨_, hmem, m, hkept, hvm⟩)
      · exact .inr ((hvalues' v).mpr ⟨_, hmem', m, hkept, hvm⟩)

theorem contains_string_bit (witness : TypeofWitness) :
    TypeofWitnessSet.contains ⟨TypeofWitness.string.bit⟩ witness = true ↔ witness = .string := by
  cases witness <;> decide

/-- The types for strings are `string` and its literals. -/
theorem kind_of_string_witness {k : TypeKind} (h : (flowTypeDomain k).1 = some .string) :
    k = .string ∨ ∃ text provenance, k = .literalString text provenance := by
  cases k <;> simp_all [flowTypeDomain]
  split at h <;> cases h

theorem string_iff (hC : Evaluation C I) (h : n.InOneHistory R T) :
    (property = none → ∀ v, R.inhabits v (n.byStrings true).answer →
      R.inhabits v n.string.answer) ↔ n.EmptyObjectIsCovered T := by
  have hty := h.contains
  cases property with
  | some name => exact iff_of_true nofun nofun
  | none =>
    have hcompares := compares_strings hC hty h.evaluated h.models (h.byStrings true)
    have hanswers := strings_answers hC hty h.evaluated h.models (h.byStrings true)
    have hiff := inhabits_typeof_iff hC hty h.string h.evaluated h.models
    constructor
    · intro hagree _ m u hu hkind text htext
      have hanswer : n.evaluated.answer.2 ≠ none := by
        obtain ⟨list, hlist, -⟩ := hu
        rw [hlist]
        nofun
      obtain ⟨outcome, hstring, hkeeps⟩ := (hanswers hanswer).1 m u hu
      have htop : isTop (T.kind u) = true := by simp [hkind, isTop]
      rw [StringAnswer, if_pos ⟨htop, rfl⟩] at hstring
      obtain ⟨literals, rfl, -, hliterals⟩ := hstring
      -- The string itself is a value of the member, so narrowing by `typeof` keeps it.
      have hv := hkeeps literals rfl _
        ((hliterals h.models _).mpr ⟨text, htext, R.primitive_ofPrimitive (.string text)⟩)
      obtain ⟨m', u', witness, hu', hwitness, hbit, hv'⟩ := (hiff hanswer _).mp (hagree rfl _ hv)
      obtain rfl := (contains_string_bit witness).mp hbit
      refine ⟨m', u', hu', ?_⟩
      rcases kind_of_string_witness hwitness with hstring | ⟨text', provenance, hliteral⟩
      · exact .inl hstring
      · have hvu := (h.inhabits_evaluated hC hu').mp hv'
        obtain ⟨_, rfl, hprimitive⟩ := (h.models.primitives u' _ {.string text'}
          (h.contains_evaluated hC hu') (hliteral ▸ rfl)).mp hvu
        cases (R.primitive_ofPrimitive (.string text)).symm.trans hprimitive
        exact .inr ⟨provenance, hliteral⟩
    · intro hcovered _ v hv
      by_cases hanswer : n.evaluated.answer.2 = none
      · have hwhole := (compares_typeof hC hty h.string h.evaluated h.models).whole hanswer
        rw [hwhole.1, ← (hcompares.whole hanswer).1]
        exact hv
      · obtain ⟨m, u, literals, hu, hstring, hvn⟩ := (hanswers hanswer).2 v hv
        obtain ⟨witness, hwitness⟩ :=
          exists_witness hC hty h.string h.evaluated h.models hu
        have hkept {m u : TypeId} (hu : Evaluates n.evaluated m u)
            (hwitness : (flowTypeDomain (T.kind u)).1 = some .string) (hvu : R.inhabits v u) :
            R.inhabits v n.string.answer :=
          (hiff hanswer v).mpr ⟨m, u, .string, hu, hwitness, by decide,
            (h.inhabits_evaluated hC hu).mpr hvu⟩
        have hvalue {u : TypeId} {text : String} {ps : Set Primitive} (hu : T.Contains u)
            (hps : (T.kind u).primitives = some ps) (hmem : .string text ∈ ps)
            (hprimitive : R.primitive v = some (.string text)) : R.inhabits v u :=
          (h.models.primitives u v ps hu hps).mpr ⟨_, hmem, hprimitive⟩
        rcases hstring.kept hwitness with ⟨hkind, hliterals⟩ | ⟨rfl, hwitness⟩
        · obtain ⟨text, htext, hprimitive⟩ := (hliterals h.models v).mp hvn
          rcases hkind with hkind | hobject
          · exact hkept hu (by simp [hkind, flowTypeDomain])
              (hvalue (h.contains_evaluated hC hu) (hkind ▸ rfl) (Set.mem_range_self text) hprimitive)
          · obtain ⟨m', u', hu', hkind⟩ := hcovered rfl m u hu hobject text htext
            have hcontains := h.contains_evaluated hC hu'
            rcases hkind with hkind | ⟨provenance, hkind⟩
            · exact hkept hu' (by simp [hkind, flowTypeDomain]) (hvalue hcontains (hkind ▸ rfl)
                (Set.mem_range_self text) hprimitive)
            · exact hkept hu' (by simp [hkind, flowTypeDomain]) (hvalue hcontains (hkind ▸ rfl)
                (Set.mem_singleton _) hprimitive)
        · exact hkept hu hwitness hvn

end InOneHistory

end Narrowings

/-- The narrowings agree exactly if the empty object type, which has strings, stands beside types
for them, and the members that the properties alone describe have plain objects only, as far as
the test tells them apart. -/
theorem narrowings_agree_iff (hC : Evaluation C I) {ty : TypeId} {depth : Nat}
    {property : Option String} {values : TypeofWitnessSet} {strings : List String}
    (n : Narrowings C I ty depth property values strings) {T : TypeStore}
    (h : n.InOneHistory R T) :
    n.Agree R ↔ n.EmptyObjectIsCovered T ∧ n.BagsHaveObjects R T := by
  rw [← h.string_iff hC, ← h.drops_iff hC]
  constructor
  · exact fun hagree => ⟨hagree.string, hagree.drops⟩
  · rintro ⟨hstring, hdrops⟩
    exact ⟨hstring, fun v hv => h.typeof_covers hC hv, fun v hv => h.strings_cover hC hv, hdrops⟩

/-- Narrowing `number | "a"` to `typeof` number and to equality with `"a"`. -/
def numberOrLiteral : Narrowings (inertFlow true) TypeStore.WellFormed ⟨18⟩ 0 none
    ⟨TypeofWitness.number.bit⟩ ["a"] :=
  let inv := reachable_recordStore.wellFormed
  { evaluated := ⟨recordStore, recordStore,
      (⟨18⟩, some [(⟨8⟩, some ⟨8⟩), (⟨17⟩, some ⟨17⟩)]), inv, by decide +kernel⟩
    string := ⟨recordStore, recordStore, ⟨17⟩, inv, by decide +kernel⟩
    byTypeof := fun included =>
      ⟨recordStore, recordStore, if included then ⟨8⟩ else ⟨17⟩, inv, by
        cases included <;> decide +kernel⟩
    byStrings := fun included =>
      ⟨recordStore, recordStore, if included then ⟨17⟩ else ⟨8⟩, inv, by
        cases included <;> decide +kernel⟩ }

theorem forceType_inertFlow {s t : TypeStore} {ty forced : TypeId} {depth : Nat}
    (h : (inertFlow true).forceType ty depth s = (.complete forced, t)) : forced = ty := by
  simp only [inertFlow, inertContext] at h
  split at h <;> cases h
  rfl

theorem evaluation_inertFlow : Evaluation (inertFlow true) TypeStore.WellFormed where
  toChecks := checks_inertFlow true
  contains s ty depth forced t _ hty h := by
    obtain rfl := forceType_inertFlow h
    have hgrows := (checks_inertFlow true).evaluates.forceType_grows s forced depth
    rw [h] at hgrows
    exact hgrows.contains hty
  stable s t s' ty depth depth' forced forced' _ _ h _ h' := by
    obtain rfl := forceType_inertFlow h
    exact forceType_inertFlow (Prod.ext h' rfl)

theorem narrowings_agree_numberOrLiteral :
    numberOrLiteral.Agree (standardReading recordStore) := by
  have hbeside {α : Type} {m : CheckerM TypeStore α} (r : Run (inertFlow true) TypeStore.WellFormed m)
      (hbefore : r.before = recordStore) (hafter : r.after = recordStore) :
      Beside recordStore r numberOrLiteral.evaluated :=
    ⟨by rw [hbefore]; decide +kernel, hafter ▸ .refl _, .inl (hbefore ▸ .refl recordStore)⟩
  have hhistory : numberOrLiteral.InOneHistory (standardReading recordStore) recordStore :=
    { contains := by decide +kernel
      evaluated := .refl recordStore
      string := hbeside _ rfl rfl
      byTypeof := fun included => hbeside _ rfl rfl
      byStrings := fun included => hbeside _ rfl rfl
      apart := .inl (.refl recordStore)
      models := models_standardReading recordStore
      preserved := by
        rintro m u ⟨w, w', depth, -, -, hforce, -⟩ v
        rw [forceType_inertFlow hforce] }
  refine (narrowings_agree_iff evaluation_inertFlow numberOrLiteral hhistory).mpr ⟨?_, ?_⟩
  · rintro - m u ⟨list, ⟨⟩, hmem⟩ hkind
    simp only [List.mem_cons, List.not_mem_nil, or_false, Prod.mk.injEq, Option.some.injEq] at hmem
    rcases hmem with ⟨rfl, rfl⟩ | ⟨rfl, rfl⟩
    · exact absurd hkind (by decide +kernel)
    · exact absurd hkind (by decide +kernel)
  · rintro included m u ⟨list, ⟨⟩, hmem⟩ hbag
    simp only [List.mem_cons, List.not_mem_nil, or_false, Prod.mk.injEq, Option.some.injEq] at hmem
    rcases hmem with ⟨rfl, rfl⟩ | ⟨rfl, rfl⟩
    · exact absurd hbag (by decide +kernel)
    · exact absurd hbag (by decide +kernel)

/-- `{}` (13) and the literal `"a"` (14). -/
def emptyObjectStore : TypeStore :=
  ((TypeStore.new.intern (.object {})).2.intern (.literalString "a" .regular)).2

/-- Narrowing `{}` to equality with `"a"` keeps `"a"`, while narrowing it to `typeof` string keeps
nothing. -/
theorem narrowings_disagree :
    narrowStringLiterals (inertFlow true) ⟨13⟩ none true ["a"] 0 emptyObjectStore =
        (.complete ⟨14⟩, emptyObjectStore) ∧
      narrowTypeof (inertFlow true) ⟨13⟩ true ⟨TypeofWitness.string.bit⟩ 0 emptyObjectStore =
        (.complete emptyObjectStore.builtins.never, emptyObjectStore) ∧
      (standardReading emptyObjectStore).inhabits (.primitive (.string "a")) ⟨14⟩ ∧
      (standardReading emptyObjectStore).inhabits (.primitive (.string "a")) ⟨13⟩ ∧
      ∀ v, ¬ (standardReading emptyObjectStore).inhabits v emptyObjectStore.builtins.never := by
  have hR := models_standardReading emptyObjectStore
  refine ⟨by decide +kernel, by decide +kernel, ?_, ?_, ?_⟩
  · exact (hR.primitives ⟨14⟩ _ {.string "a"} (by decide +kernel) rfl).mpr ⟨_, rfl, rfl⟩
  · exact (hR.object ⟨13⟩ _ {} (by decide +kernel) rfl rfl rfl).mpr ⟨nofun, nofun, nofun⟩
  · exact fun v => hR.never _ v (by decide +kernel) (by decide +kernel)

end Flow

end Tsz.Semantics
