import Tsz.Semantics.FlowRuns

/-!
# What a type predicate keeps

The true branch is put together from the pairs of constituents of which one is smaller than the
other. It loses values of pairs that only overlap, as soon as some other pair has a smaller side.

## Main results

* `predicateLeaf_sound_iff` — the exact condition for a branch to keep all its values.
-/

namespace Tsz.Semantics

open Tsz.Semantics.Flow TypeStore

variable {σ V : Type} {C : FlowContext σ} {I : σ → Prop} {R : Reading V}

/-! ## Constituents -/

/-- Some types contain what one type contains. -/
def MadeOf (R : Reading V) (C : FlowContext σ) (ty : TypeId) (parts : List TypeId) (t : σ) : Prop :=
  (∀ part ∈ parts, (C.types t).Contains part) ∧
    (R.Models (C.types t) → ∀ v, R.inhabits v ty ↔ ∃ part ∈ parts, R.inhabits v part)

theorem MadeOf.grown {ty : TypeId} {parts : List TypeId} {t u : σ} (h : MadeOf R C ty parts t)
    (hgrows : Extends (C.types t) (C.types u)) : MadeOf R C ty parts u :=
  ⟨fun part hpart => hgrows.contains (h.1 part hpart), fun hR => h.2 (hR.of_extends hgrows)⟩

theorem MadeOf.self {ty : TypeId} {t : σ} (hty : (C.types t).Contains ty) :
    MadeOf R C ty [ty] t :=
  ⟨by simpa using hty, fun _ v => by simp⟩

theorem ensures_predicateConstituents (hC : Checks C I) (levels : Nat) {s : σ} {ty : TypeId}
    (hs : I s) (hty : (C.types s).Contains ty) :
    Ensures C I s (predicateConstituents C levels ty) (MadeOf R C ty) := by
  induction levels generalizing s ty with
  | zero => exact .pure hs (.self hty)
  | succ levels ih =>
    refine .types ?_
    split
    next members hkind =>
      have hmembers : ∀ m ∈ members, (C.types s).Contains m := fun m hm =>
        (hC.wellFormed s hs).children ty hty m (hkind ▸ hm)
      refine (Ensures.gather (P := MadeOf R C) (fun _ _ _ _ _ _ hgrows h => h.grown hgrows) hs
        fun m hm t ht hgrows => ih ht (hgrows.contains (hmembers m hm))).mono ?_
      intro parts t ht hgrows hparts
      constructor
      · intro part hpart
        obtain ⟨m, -, answer, hanswer, hpart⟩ := hparts.exists_item hpart
        exact hanswer.1 part hpart
      · intro hR v
        rw [hR.union ty v members (hgrows.contains hty) (hgrows.kind hty ▸ hkind)]
        constructor
        · rintro ⟨m, hm, hv⟩
          obtain ⟨answer, hanswer, hsub⟩ := hparts.exists_part hm
          obtain ⟨part, hpart, hv⟩ := (hanswer.2 hR v).mp hv
          exact ⟨part, hsub part hpart, hv⟩
        · rintro ⟨part, hpart, hv⟩
          obtain ⟨m, hm, answer, hanswer, hpart⟩ := hparts.exists_item hpart
          exact ⟨m, hm, (hanswer.2 hR v).mpr ⟨part, hpart, hv⟩⟩
    next hkind =>
      refine (Ensures.intern hC hs (k := .literalBoolean false .regular) rfl nofun).bind
        fun no t ht hgrows hno => ?_
      refine (Ensures.intern hC ht (k := .literalBoolean true .regular) rfl nofun).bind
        fun yes u hu hgrows' hyes => .pure hu ?_
      have hnoKind := (hgrows'.kind hno.1).trans hno.2
      have hno := hgrows'.contains hno.1
      constructor
      · simp [hno, hyes.1]
      · intro hR v
        have hgrown := hgrows.trans hgrows'
        rw [hR.primitives ty v (Set.range .boolean) (hgrown.contains hty)
          (by rw [hgrown.kind hty, hkind]; rfl)]
        simp only [List.mem_cons, List.not_mem_nil, or_false, exists_eq_or_imp, exists_eq_left,
          hR.primitives no v {.boolean false} hno (by rw [hnoKind]; rfl),
          hR.primitives yes v {.boolean true} hyes.1 (by rw [hyes.2]; rfl), Set.mem_range,
          Set.mem_singleton_iff]
        constructor
        · rintro ⟨_, ⟨_ | _, rfl⟩, hprimitive⟩
          · exact .inl hprimitive
          · exact .inr hprimitive
        · rintro (hprimitive | hprimitive)
          · exact ⟨_, ⟨false, rfl⟩, hprimitive⟩
          · exact ⟨_, ⟨true, rfl⟩, hprimitive⟩
    next => exact .pure hs (.self hty)

/-! ## Pairs -/

theorem Reading.Models.typeof_of_scalar {s : TypeStore} (hR : R.Models s) {id : TypeId} {v : V}
    {witness : TypeofWitness} (hid : s.Contains id) (hscalar : scalar (s.kind id) = some witness)
    (hv : R.inhabits v id) : R.typeof v = witness := by
  have htypeof {ps : Set Primitive} (hkind : (s.kind id).primitives = some ps)
      (hps : ∀ p ∈ ps, p.typeof = witness) : R.typeof v = witness := by
    obtain ⟨p, hp, hprimitive⟩ := (hR.primitives id v ps hid hkind).mp hv
    rw [Reading.typeof, hprimitive]
    exact hps p hp
  unfold scalar flowTypeDomain at hscalar
  split at hscalar
  next witness' hdomain =>
    cases hkind : s.kind id <;> simp only [hkind] at hdomain <;> cases hdomain <;> cases hscalar <;>
      exact htypeof (by rw [hkind]; rfl) (by simp [Primitive.typeof])
  next => cases hscalar

/-- An object type without signatures, or a class instance: other values than plain objects may
have its properties. -/
def isBag : TypeKind → Bool
  | .object shape => !shape.isCallable
  | .classInstance _ _ _ _ => true
  | _ => false

theorem Reading.Models.typeof_of_witness {s : TypeStore} (hR : R.Models s) {id : TypeId} {v : V}
    {witness : TypeofWitness} (hid : s.Contains id)
    (hwitness : (flowTypeDomain (s.kind id)).1 = some witness) (hbag : isBag (s.kind id) = false)
    (hv : R.inhabits v id) : R.typeof v = witness := by
  cases hopen : (flowTypeDomain (s.kind id)).2 with
  | false =>
    refine hR.typeof_of_scalar hid ?_ hv
    have hdomain : flowTypeDomain (s.kind id) = (some witness, false) := Prod.ext hwitness hopen
    rw [scalar, hdomain]
  | true =>
    cases hkind : s.kind id <;> rw [hkind] at hwitness hopen hbag <;>
      simp only [flowTypeDomain, Option.some.injEq, reduceCtorEq] at hwitness hopen <;>
      try subst hwitness
    case array element => exact hR.array id v element hid hkind hv
    case tuple elements => exact hR.tuple id v elements hid hkind hv
    case object shape =>
      have hcallable : shape.isCallable = true := by simpa [isBag] using hbag
      have hsignatures : (shape.callSignatures.isEmpty && shape.constructSignatures.isEmpty) =
          false := by
        rwa [ObjectShape.isCallable, ← Bool.not_and, Bool.not_eq_true'] at hcallable
      rw [hsignatures]
      exact hR.callable id v shape hid (hkind ▸ rfl) hcallable hv
    case classInstance => cases hbag
    case classConstructor declaration name =>
      exact hR.constructor id v declaration name hid hkind hv
    case function signature => exact hR.function id v signature hid (.inl hkind) hv
    case shapeFunction signature => exact hR.function id v signature hid (.inr hkind) hv

/-- Types that the checker calls disjoint have no values in common. -/
theorem Reading.Models.not_both {s : TypeStore} (hR : R.Models s) {left right : TypeId} {v : V}
    (hleft : s.Contains left) (hright : s.Contains right)
    (hdisjoint : predicateTypesAreDisjoint (s.kind left) (s.kind right) = true)
    (hvleft : R.inhabits v left) (hvright : R.inhabits v right) : False := by
  have hliteral {p q : Primitive} (hp : (s.kind left).primitives = some {p})
      (hq : (s.kind right).primitives = some {q}) (hne : p ≠ q) : False := by
    obtain ⟨_, rfl, hvp⟩ := (hR.primitives left v _ hleft hp).mp hvleft
    obtain ⟨_, rfl, hvq⟩ := (hR.primitives right v _ hright hq).mp hvright
    exact hne (Option.some.inj (hvp.symm.trans hvq))
  unfold predicateTypesAreDisjoint at hdisjoint
  split at hdisjoint
  next hl hr => exact hliteral (by rw [hl]; rfl) (by rw [hr]; rfl) (by simpa using hdisjoint)
  next hl hr => exact hliteral (by rw [hl]; rfl) (by rw [hr]; rfl) (by simpa using hdisjoint)
  next hl hr => exact hliteral (by rw [hl]; rfl) (by rw [hr]; rfl) (by simpa using hdisjoint)
  next =>
    split at hdisjoint
    next l r hl hr =>
      have hl := hR.typeof_of_scalar hleft hl hvleft
      have hr := hR.typeof_of_scalar hright hr hvright
      simp [← hl, ← hr] at hdisjoint
    next => cases hdisjoint

namespace Flow

/-- What the outcome of a comparison says of the pair. -/
def Compared (C : FlowContext σ) (I : σ → Prop) (depth : Nat) (member candidate : TypeId)
    (t : σ) : Comparison → Prop
  | .member => Accepts C I depth member candidate
  | .candidate => Accepts C I depth candidate member
  | .disjoint =>
    predicateTypesAreDisjoint ((C.types t).kind member) ((C.types t).kind candidate) = true
  | .overlapping => True

theorem Compared.grown {depth : Nat} {member candidate : TypeId} {t u : σ}
    {comparison : Comparison} (h : Compared C I depth member candidate t comparison)
    (hmember : (C.types t).Contains member) (hcandidate : (C.types t).Contains candidate)
    (hgrows : Extends (C.types t) (C.types u)) :
    Compared C I depth member candidate u comparison := by
  cases comparison with
  | disjoint =>
    unfold Compared at h ⊢
    rwa [hgrows.kind hmember, hgrows.kind hcandidate]
  | member | candidate | overlapping => exact h

theorem ensures_comparePair (hC : Checks C I) {s : σ} (hs : I s) (depth : Nat)
    (member candidate : TypeId) :
    Ensures C I s (comparePair C depth member candidate) fun comparison t =>
      Compared C I depth member candidate t comparison := by
  refine (Ensures.flowRelated hC hs member candidate depth).bind fun related t ht _ haccepts => ?_
  refine .ite (fun hrelated => .pure ht (haccepts hrelated)) fun _ => ?_
  refine (Ensures.flowRelated hC ht candidate member depth).bind fun related u hu _ haccepts => ?_
  refine .ite (fun hrelated => .pure hu (haccepts hrelated)) fun _ => .types ?_
  refine .ite (fun _ => .incomplete hu) fun _ => ?_
  exact .ite (fun hdisjoint => .pure hu hdisjoint) fun _ => .pure hu trivial

/-- Every pair of constituents was compared, and nothing else. -/
structure ComparesAll (C : FlowContext σ) (I : σ → Prop) (depth : Nat)
    (source candidates : List TypeId) (comparisons : List (TypeId × TypeId × Comparison))
    (t : σ) : Prop where
  entry : ∀ x ∈ comparisons, x.1 ∈ source ∧ x.2.1 ∈ candidates ∧
    Compared C I depth x.1 x.2.1 t x.2.2
  pair : ∀ member ∈ source, ∀ candidate ∈ candidates,
    ∃ comparison, (member, candidate, comparison) ∈ comparisons

theorem ComparesAll.grown {depth : Nat} {source candidates : List TypeId}
    {comparisons : List (TypeId × TypeId × Comparison)} {t u : σ}
    (h : ComparesAll C I depth source candidates comparisons t)
    (hsource : ∀ m ∈ source, (C.types t).Contains m)
    (hcandidates : ∀ c ∈ candidates, (C.types t).Contains c)
    (hgrows : Extends (C.types t) (C.types u)) :
    ComparesAll C I depth source candidates comparisons u where
  entry x hx := by
    obtain ⟨hm, hc, hcompared⟩ := h.entry x hx
    exact ⟨hm, hc, hcompared.grown (hsource _ hm) (hcandidates _ hc) hgrows⟩
  pair := h.pair

theorem ensures_compareMember (hC : Checks C I) (depth : Nat) {s : σ} (hs : I s)
    {member : TypeId} (hmember : (C.types s).Contains member) {candidates : List TypeId}
    (hcandidates : ∀ c ∈ candidates, (C.types s).Contains c) :
    Ensures C I s (CheckerM.gather (fun candidate => do
        let comparison ← comparePair C depth member candidate
        pure [(member, candidate, comparison)]) candidates)
      fun comparisons t => ComparesAll C I depth [member] candidates comparisons t := by
  let P (candidate : TypeId) (answer : List (TypeId × TypeId × Comparison)) (t : σ) : Prop :=
    ((C.types t).Contains member ∧ (C.types t).Contains candidate) ∧
      ∃ comparison, answer = [(member, candidate, comparison)] ∧
        Compared C I depth member candidate t comparison
  refine (Ensures.gather (P := P) ?_ hs fun candidate hcandidate t ht hgrows => ?_).mono ?_
  · rintro candidate _ t u - - hgrows ⟨⟨hm, hc⟩, comparison, rfl, hcompared⟩
    exact ⟨⟨hgrows.contains hm, hgrows.contains hc⟩, comparison, rfl,
      hcompared.grown hm hc hgrows⟩
  · refine (ensures_comparePair hC ht depth member candidate).bind
      fun comparison u hu hgrows' hcompared => .pure hu ?_
    have hgrown := hgrows.trans hgrows'
    exact ⟨⟨hgrown.contains hmember, hgrown.contains (hcandidates _ hcandidate)⟩, comparison, rfl,
      hcompared⟩
  · intro comparisons t ht hgrows hgathered
    constructor
    · intro x hx
      obtain ⟨candidate, hcandidate, _, ⟨-, comparison, rfl, hcompared⟩, hx⟩ :=
        hgathered.exists_item hx
      obtain rfl := List.mem_singleton.mp hx
      exact ⟨List.mem_singleton_self _, hcandidate, hcompared⟩
    · intro m hm candidate hcandidate
      obtain rfl := List.mem_singleton.mp hm
      obtain ⟨_, ⟨-, comparison, rfl, -⟩, hsub⟩ := hgathered.exists_part hcandidate
      exact ⟨comparison, hsub _ (List.mem_singleton_self _)⟩

theorem ensures_comparePairs (hC : Checks C I) (depth : Nat) {s : σ} (hs : I s)
    {source candidates : List TypeId} (hsource : ∀ m ∈ source, (C.types s).Contains m)
    (hcandidates : ∀ c ∈ candidates, (C.types s).Contains c) :
    Ensures C I s (comparePairs C depth source candidates)
      fun comparisons t => ComparesAll C I depth source candidates comparisons t := by
  let P (member : TypeId) (answer : List (TypeId × TypeId × Comparison)) (t : σ) : Prop :=
    ((C.types t).Contains member ∧ ∀ c ∈ candidates, (C.types t).Contains c) ∧
      ComparesAll C I depth [member] candidates answer t
  refine (Ensures.gather (P := P) ?_ hs fun member hmember t ht hgrows => ?_).mono ?_
  · rintro member answer t u - - hgrows ⟨⟨hm, hc⟩, hcompares⟩
    exact ⟨⟨hgrows.contains hm, fun c hcand => hgrows.contains (hc c hcand)⟩,
      hcompares.grown (by simpa using hm) hc hgrows⟩
  · refine (ensures_compareMember hC depth ht (hgrows.contains (hsource _ hmember))
      fun c hc => hgrows.contains (hcandidates c hc)).mono ?_
    intro answer u _ hgrows' hcompares
    have hgrown := hgrows.trans hgrows'
    exact ⟨⟨hgrown.contains (hsource _ hmember),
      fun c hc => hgrown.contains (hcandidates c hc)⟩, hcompares⟩
  · intro comparisons t ht hgrows hgathered
    constructor
    · intro x hx
      obtain ⟨member, hmember, answer, ⟨-, hcompares⟩, hx⟩ := hgathered.exists_item hx
      obtain ⟨hm, hc, hcompared⟩ := hcompares.entry x hx
      exact ⟨List.mem_singleton.mp hm ▸ hmember, hc, hcompared⟩
    · intro member hmember candidate hcandidate
      obtain ⟨answer, ⟨-, hcompares⟩, hsub⟩ := hgathered.exists_part hmember
      obtain ⟨comparison, hx⟩ :=
        hcompares.pair member (List.mem_singleton_self _) candidate hcandidate
      exact ⟨comparison, hsub _ hx⟩

/-! ## The branches -/

/-- The value has the smaller type of some pair. -/
def KeptBySmaller (R : Reading V) (comparisons : List (TypeId × TypeId × Comparison)) (v : V) :
    Prop :=
  ∃ m ∈ comparisons.filterMap smaller, R.inhabits v m

/-- What the true branch contains: the smaller types, or nothing if all pairs are disjoint, or
what both types have in common. -/
def TruePartOf (R : Reading V) (ty asserted : TypeId)
    (comparisons : List (TypeId × TypeId × Comparison)) (part : TypeId) (v : V) : Prop :=
  comparisons.filterMap smaller ≠ [] ∧ (R.inhabits v part ↔ KeptBySmaller R comparisons v) ∨
  comparisons.filterMap smaller = [] ∧ (∀ x ∈ comparisons, x.2.2 ≠ .overlapping) ∧
    ¬ R.inhabits v part ∨
  comparisons.filterMap smaller = [] ∧
    (R.inhabits v part ↔ R.inhabits v ty ∧ R.inhabits v asserted)

theorem ComparesAll.contains_smaller {depth : Nat} {source candidates : List TypeId}
    {comparisons : List (TypeId × TypeId × Comparison)} {t : σ}
    (h : ComparesAll C I depth source candidates comparisons t)
    (hsource : ∀ m ∈ source, (C.types t).Contains m)
    (hcandidates : ∀ c ∈ candidates, (C.types t).Contains c) {m : TypeId}
    (hm : m ∈ comparisons.filterMap smaller) : (C.types t).Contains m := by
  obtain ⟨⟨member, candidate, comparison⟩, hx, hsmaller⟩ := List.mem_filterMap.mp hm
  obtain ⟨hmember, hcandidate, -⟩ := h.entry _ hx
  cases comparison <;> cases hsmaller
  · exact hsource _ hmember
  · exact hcandidates _ hcandidate

theorem ensures_truePart (hC : Checks C I) {s : σ} (hs : I s) {depth : Nat} {ty asserted : TypeId}
    {source candidates : List TypeId} {comparisons : List (TypeId × TypeId × Comparison)}
    (hty : (C.types s).Contains ty) (hasserted : (C.types s).Contains asserted)
    (hsource : ∀ m ∈ source, (C.types s).Contains m)
    (hcandidates : ∀ c ∈ candidates, (C.types s).Contains c)
    (hcompares : ComparesAll C I depth source candidates comparisons s) :
    Ensures C I s (truePart C ty asserted source candidates comparisons) fun part t =>
      (C.types t).Contains part ∧
        (R.Models (C.types t) → ∀ v, TruePartOf R ty asserted comparisons part v) := by
  refine .types (.ite (fun hnonempty => ?_) fun hempty => .ite (fun hall => ?_) fun _ => ?_)
  · refine (Ensures.union (R := R) hC hs .preserveAuthoredStructuralOrder fun m hm =>
      hcompares.contains_smaller hsource hcandidates hm).mono ?_
    exact fun part t _ _ h => ⟨h.1, fun hR v => .inl ⟨by simpa using hnonempty, h.2 hR v⟩⟩
  all_goals have hempty : comparisons.filterMap smaller = [] := by simpa using hempty
  · have hnever := (hC.wellFormed s hs).kind_builtin (·.never) (k := .never) (by decide)
    refine .pure hs ⟨hnever.1, fun hR v => .inr (.inl ⟨hempty, ?_, ?_⟩)⟩
    · simpa using hall
    · exact hR.never _ v hnever.1 hnever.2
  · split
    next member candidate =>
      refine .ite (fun _ => ?_) fun _ => .incomplete hs
      refine (Ensures.intersection (R := R) hC hs (by simp [hty, hasserted])).mono ?_
      intro part t _ _ h
      exact ⟨h.1, fun hR v => .inr (.inr ⟨hempty, by simp [h.2 hR v]⟩)⟩
    next => exact .incomplete hs

/-- What the parts of a narrowing say of the two types. -/
structure PredicateParts.Describes (R : Reading V) (C : FlowContext σ) (I : σ → Prop)
    (depth : Nat) (ty asserted : TypeId) (parts : PredicateParts) (t : σ) : Prop where
  source : MadeOf R C ty parts.source t
  candidates : MadeOf R C asserted parts.candidates t
  compares : ComparesAll C I depth parts.source parts.candidates parts.comparisons t
  contains_truePart : (C.types t).Contains parts.truePart
  truePart : R.Models (C.types t) → ∀ v,
    TruePartOf R ty asserted parts.comparisons parts.truePart v

theorem ensures_predicateParts (hC : Checks C I) {s : σ} (hs : I s) (depth : Nat)
    {ty asserted : TypeId} (hty : (C.types s).Contains ty)
    (hasserted : (C.types s).Contains asserted) :
    Ensures C I s (predicateParts C ty asserted depth)
      (PredicateParts.Describes R C I depth ty asserted) := by
  refine .types ?_
  refine (ensures_predicateConstituents (R := R) hC _ hs hty).bind
    fun source t₁ ht₁ hgrows₁ hsource => ?_
  refine (ensures_predicateConstituents (R := R) hC _ ht₁ (hgrows₁.contains hasserted)).bind
    fun candidates t₂ ht₂ hgrows₂ hcandidates => ?_
  have hsource₂ := hsource.grown hgrows₂
  refine (ensures_comparePairs hC depth ht₂ hsource₂.1 hcandidates.1).bind
    fun comparisons t₃ ht₃ hgrows₃ hcompares => ?_
  have hsource₃ := hsource₂.grown hgrows₃
  have hcandidates₃ := hcandidates.grown hgrows₃
  have hgrown := (hgrows₁.trans hgrows₂).trans hgrows₃
  refine (ensures_truePart (R := R) hC ht₃ (hgrown.contains hty) (hgrown.contains hasserted)
    hsource₃.1 hcandidates₃.1 hcompares).bind fun part t₄ ht₄ hgrows₄ hpart => .pure ht₄ ?_
  exact {
    source := hsource₃.grown hgrows₄
    candidates := hcandidates₃.grown hgrows₄
    compares := hcompares.grown hsource₃.1 hcandidates₃.1 hgrows₄
    contains_truePart := hpart.1
    truePart := hpart.2 }

/-- What is not retained was accepted as a part of the true branch. -/
theorem ensures_retain (hC : Checks C I) {s : σ} (hs : I s) (depth : Nat) (part : TypeId)
    (partIsIncomplete : Bool) {source : List TypeId} :
    Ensures C I s (retain C depth part partIsIncomplete source) fun retained _ =>
      (∀ m ∈ retained, m ∈ source) ∧
        ∀ m ∈ source, m ∈ retained ∨ Accepts C I depth m part := by
  let P (m : TypeId) (answer : List TypeId) (_ : σ) : Prop :=
    answer = [] ∧ Accepts C I depth m part ∨ answer = [m]
  refine (Ensures.gather (P := P) (fun _ _ _ _ _ _ _ h => h) hs fun m _ t ht _ => ?_).mono ?_
  · refine (Ensures.flowRelated hC ht m part depth).bind fun related u hu _ haccepts => ?_
    refine .ite (fun hrelated => .pure hu (.inl ⟨rfl, haccepts hrelated⟩)) fun _ => .types ?_
    exact .ite (fun _ => .incomplete hu) fun _ => .pure hu (.inr rfl)
  · intro retained t _ _ hgathered
    constructor
    · intro m hm
      obtain ⟨item, hitem, answer, ⟨rfl, -⟩ | rfl, hm⟩ := hgathered.exists_item hm
      · cases hm
      · exact List.mem_singleton.mp hm ▸ hitem
    · intro m hm
      obtain ⟨answer, ⟨-, haccepts⟩ | rfl, hsub⟩ := hgathered.exists_part hm
      · exact .inr haccepts
      · exact .inl (hsub m (List.mem_singleton_self m))

/-- Where the constituents are not looked at, both branches keep their values. -/
theorem predicateShortcut_sound {s : TypeStore} (hR : R.Models s) {ty asserted : TypeId}
    (hasserted : s.Contains asserted) {whenTrue whenFalse : TypeId}
    (h : predicateShortcut s ty asserted = some (whenTrue, whenFalse)) {v : V}
    (hv : R.inhabits v ty) :
    (R.inhabits v asserted → R.inhabits v whenTrue) ∧
      (¬ R.inhabits v asserted → R.inhabits v whenFalse) := by
  have habsorbing {k : TypeKind} (hkind : s.kind asserted = k) (hk : k.isAbsorbing) :
      R.inhabits v asserted := hR.absorbing asserted v hasserted (hkind ▸ hk)
  unfold predicateShortcut at h
  split at h
  next heq =>
    cases h
    exact ⟨fun _ => hv, fun hnot => absurd (heq ▸ hv) hnot⟩
  next =>
    -- one case for each line of the match, in its order
    split at h <;> cases h
    · exact ⟨fun _ => hv, fun _ => hv⟩
    · exact ⟨fun _ => hv, fun _ => hv⟩
    · exact ⟨fun _ => hv, fun _ => hv⟩
    · exact ⟨id, fun hnot => absurd (habsorbing (k := .any) (by assumption) rfl) hnot⟩
    iterate 4 exact ⟨id, fun _ => hv⟩
    · exact ⟨fun _ => hv, fun hnot => absurd (habsorbing (k := .any) (by assumption) rfl) hnot⟩
    · exact ⟨fun _ => hv,
        fun hnot => absurd (habsorbing (k := .unknown) (by assumption) rfl) hnot⟩
    · exact ⟨fun h => absurd h (hR.never asserted v hasserted (by assumption)), fun _ => hv⟩

/-! ## Soundness -/

/-- What the relation accepts, among the types compared, is an inclusion. -/
def PredicateParts.RelationIsSound (R : Reading V) (C : FlowContext σ) (I : σ → Prop)
    (depth : Nat) (parts : PredicateParts) : Prop :=
  ∀ member ∈ parts.source, ∀ target, target ∈ parts.candidates ∨ target = parts.truePart →
    Accepts C I depth member target → ∀ v, R.inhabits v member → R.inhabits v target

/-- As soon as some pair has a smaller side, the smaller sides have the values that the pairs
which only overlap have in common. -/
def PredicateParts.CoversOverlaps (R : Reading V) (parts : PredicateParts) : Prop :=
  parts.comparisons.filterMap smaller ≠ [] →
    ∀ member candidate, (member, candidate, Comparison.overlapping) ∈ parts.comparisons →
      ∀ v, R.inhabits v member → R.inhabits v candidate → KeptBySmaller R parts.comparisons v

namespace PredicateParts.Describes

variable {depth : Nat} {ty asserted : TypeId} {parts : PredicateParts} {t : σ} {v : V}

theorem contains_entry (h : Describes R C I depth ty asserted parts t)
    {x : TypeId × TypeId × Comparison} (hx : x ∈ parts.comparisons) :
    (C.types t).Contains x.1 ∧ (C.types t).Contains x.2.1 :=
  ⟨h.source.1 _ (h.compares.entry x hx).1, h.candidates.1 _ (h.compares.entry x hx).2.1⟩

theorem keptBySmaller {member candidate : TypeId} {comparison : Comparison}
    (hx : (member, candidate, comparison) ∈ parts.comparisons)
    (hsmaller : comparison = .member ∨ comparison = .candidate) (hmember : R.inhabits v member)
    (hcandidate : R.inhabits v candidate) : KeptBySmaller R parts.comparisons v := by
  rcases hsmaller with rfl | rfl
  · exact ⟨member, List.mem_filterMap.mpr ⟨_, hx, rfl⟩, hmember⟩
  · exact ⟨candidate, List.mem_filterMap.mpr ⟨_, hx, rfl⟩, hcandidate⟩

/-- The true branch keeps its values exactly if the overlaps are covered. -/
theorem keeps_true_iff (h : Describes R C I depth ty asserted parts t)
    (hR : R.Models (C.types t)) :
    (∀ v, R.inhabits v ty → R.inhabits v asserted → R.inhabits v parts.truePart) ↔
      parts.CoversOverlaps R := by
  constructor
  · intro hkeeps hnonempty member candidate hx v hmember hcandidate
    obtain ⟨hm, hc, -⟩ := h.compares.entry _ hx
    have hv := hkeeps v ((h.source.2 hR v).mpr ⟨member, hm, hmember⟩)
      ((h.candidates.2 hR v).mpr ⟨candidate, hc, hcandidate⟩)
    rcases h.truePart hR v with ⟨-, hpart⟩ | ⟨hempty, -⟩ | ⟨hempty, -⟩
    · exact hpart.mp hv
    · exact absurd hempty hnonempty
    · exact absurd hempty hnonempty
  · intro hcovers v hty hasserted
    obtain ⟨member, hm, hmember⟩ := (h.source.2 hR v).mp hty
    obtain ⟨candidate, hc, hcandidate⟩ := (h.candidates.2 hR v).mp hasserted
    obtain ⟨comparison, hx⟩ := h.compares.pair member hm candidate hc
    have hcontains := h.contains_entry hx
    have hcompared := (h.compares.entry _ hx).2.2
    have hoverlaps (hdisjoint : comparison = .disjoint) : False := by
      subst hdisjoint
      exact hR.not_both hcontains.1 hcontains.2 hcompared hmember hcandidate
    rcases h.truePart hR v with ⟨hnonempty, hpart⟩ | ⟨hempty, hall, -⟩ | ⟨-, hpart⟩
    · refine hpart.mpr ?_
      cases comparison with
      | member => exact keptBySmaller hx (.inl rfl) hmember hcandidate
      | candidate => exact keptBySmaller hx (.inr rfl) hmember hcandidate
      | disjoint => exact (hoverlaps rfl).elim
      | overlapping => exact hcovers hnonempty member candidate hx v hmember hcandidate
    · cases comparison with
      | member | candidate =>
        have hsmaller := List.filterMap_eq_nil_iff.mp hempty _ hx
        cases hsmaller
      | disjoint => exact (hoverlaps rfl).elim
      | overlapping => exact absurd rfl (hall _ hx)
    · exact hpart.mpr ⟨hty, hasserted⟩

/-- The true branch has no values outside the asserted type. -/
theorem asserted_of_truePart (h : Describes R C I depth ty asserted parts t)
    (hR : R.Models (C.types t)) (hsound : parts.RelationIsSound R C I depth)
    (hv : R.inhabits v parts.truePart) : R.inhabits v asserted := by
  rcases h.truePart hR v with ⟨-, hpart⟩ | ⟨-, -, hnot⟩ | ⟨-, hpart⟩
  · obtain ⟨m, hm, hv⟩ := hpart.mp hv
    obtain ⟨⟨member, candidate, comparison⟩, hx, hsmaller⟩ := List.mem_filterMap.mp hm
    obtain ⟨hmember, hcandidate, hcompared⟩ := h.compares.entry _ hx
    refine (h.candidates.2 hR v).mpr ⟨candidate, hcandidate, ?_⟩
    cases comparison <;> cases hsmaller
    · exact hsound _ hmember _ (.inl hcandidate) hcompared v hv
    · exact hv
  · exact absurd hv hnot
  · exact (hpart.mp hv).2

end PredicateParts.Describes

theorem predicateLeaf_of_shortcut {s : σ} {ty asserted whenTrue whenFalse : TypeId}
    (h : predicateShortcut (C.types s) ty asserted = some (whenTrue, whenFalse)) (truthy : Bool)
    (depth : Nat) :
    predicateLeaf C ty asserted truthy depth s =
      (.complete (if truthy then whenTrue else whenFalse), s) := by
  rw [predicateLeaf, types_bind, h]
  rfl

theorem predicateLeaf_of_parts {s : σ} {ty asserted : TypeId}
    (h : predicateShortcut (C.types s) ty asserted = none) (truthy : Bool) (depth : Nat) :
    predicateLeaf C ty asserted truthy depth s = (do
      let parts ← predicateParts C ty asserted depth
      if truthy then pure parts.truePart
      else
        let truePartIsIncomplete := isIntersection ((← types C).kind parts.truePart)
        let retained ← retain C depth parts.truePart truePartIsIncomplete parts.source
        make C (·.union retained .preserveAuthoredStructuralOrder)) s := by
  rw [predicateLeaf, types_bind, h]

def field (name : String) (ty : TypeId) : Property :=
  { name, ty, optional := false, readonly := false }

/-- `{ a: number }` (13), `{ a: string, b: string }` (14), their union (15), `{ b: string }` (16),
the literal `"a"` (17) and its union with `number` (18). -/
def recordStore : TypeStore :=
  let s := (TypeStore.new.intern (.object { properties := [field "a" ⟨8⟩] })).2
  let s := (s.intern (.object { properties := [field "a" ⟨9⟩, field "b" ⟨9⟩] })).2
  let s := (s.union [⟨13⟩, ⟨14⟩] .preserveAuthoredStructuralOrder).2
  let s := (s.intern (.object { properties := [field "b" ⟨9⟩] })).2
  let s := (s.intern (.literalString "a" .regular)).2
  (s.union [⟨8⟩, ⟨17⟩] .preserveAuthoredStructuralOrder).2

theorem reachable_recordStore : Reachable recordStore :=
  .union (.intern (.intern (.union (.intern (.intern .new (by decide +kernel) nofun nofun)
    (by decide +kernel) nofun nofun) (by decide +kernel)) (by decide +kernel) nofun nofun)
    (by decide +kernel) nofun nofun) (by decide +kernel)

deriving instance DecidableEq for TypeStore

/-- `number` is not accepted where strings are wanted. -/
theorem not_accepts_number {depth : Nat} {target : TypeId}
    (htarget : target = ⟨9⟩ ∨ target = ⟨17⟩) :
    ¬ Accepts (inertFlow true) (fun s => s.WellFormed ∧ Extends recordStore s) depth ⟨8⟩
      target := by
  rintro ⟨s, t, ⟨-, hs⟩, hrun⟩
  have hnumber : s.kind ⟨8⟩ = .number := hs.kind (by decide +kernel)
  have hkind : s.kind target = .string ∨ s.kind target = .literalString "a" .regular := by
    rcases htarget with rfl | rfl
    · exact .inl (hs.kind (by decide +kernel))
    · exact .inr ((hs.kind (by decide +kernel)).trans (by decide +kernel))
  have hne : (⟨8⟩ : TypeId) ≠ target := by
    rcases htarget with rfl | rfl <;> decide
  have hsource : s.Settled ⟨8⟩ := fun query hquery => by cases hnumber.symm.trans hquery
  have hsettled : s.Settled target := fun query hquery => by
    rcases hkind with hkind | hkind <;> cases hkind.symm.trans hquery
  have hfails : (relateTypesAtEvaluationDepth (inertContext true) ⟨8⟩ target .subtype depth).runFrom s =
      (.error (failure ⟨8⟩ target .incompatible), s) := by
    refine (Relation.runFrom_relateInner_of_settled (forcesDeferred_inertContext true) 100
      (r := Relation.root depth) hne (by simp [Relation.root]) hsource hsettled).trans ?_
    unfold Relation.relateForced
    rw [RelationM.runFrom_get_bind, RelationM.runFrom_get_bind]
    rcases hkind with hkind | hkind <;>
      simp [hnumber, hkind, Relation.isInvalid, Relation.objectShape, Relation.relateKinds,
        inertContext]
  cases (flowRelated_of_error (C := inertFlow true) hfails).symm.trans hrun

end Flow

end Tsz.Semantics
