import Tsz.Semantics.Extremes
import Tsz.Semantics.Reading

/-!
# Runs of the checker's queries

A query of the checker only adds types, and what it answers is described by a property of the
answer and of the state it ends in.

## Main definitions

* `Checks` — what the surroundings of the checker guarantee in all states of an invariant.
* `Ensures` — what a run keeps, and what holds of its answer.
-/

namespace Tsz.Semantics

open TypeStore

variable {σ α β : Type}

/-- The states that satisfy the invariant have well-formed stores, and the queries of the
relation and the creation of types keep the invariant. -/
structure Checks (C : FlowContext σ) (I : σ → Prop) : Prop where
  evaluates : Evaluates C.toRelationContext
  wellFormed : ∀ s, I s → (C.types s).WellFormed
  later : ∀ s t, I s → Later C.toRelationContext s t → I t
  withTypes : ∀ s store, I s → Extends (C.types s) store → store.WellFormed → I (C.withTypes s store)

/-- The types of a store stay. -/
theorem Checks.growing {C : FlowContext σ} {I : σ → Prop} (hC : Checks C I) (store : TypeStore) :
    Checks C fun s => I s ∧ Extends store (C.types s) where
  evaluates := hC.evaluates
  wellFormed s hs := hC.wellFormed s hs.1
  later s t hs h := ⟨hC.later s t hs.1 h, hs.2.trans (h.extends hC.evaluates)⟩
  withTypes s _ hs hgrows hwf :=
    ⟨hC.withTypes s _ hs.1 hgrows hwf, hs.2.trans (by rwa [C.types_withTypes])⟩

/-- A run keeps the invariant and only adds types, and a complete answer has a property. -/
structure Ensures (C : FlowContext σ) (I : σ → Prop) (s : σ) (m : CheckerM σ α)
    (Q : α → σ → Prop) : Prop where
  inv : I (m s).2
  grows : Extends (C.types s) (C.types (m s).2)
  post : ∀ a, (m s).1 = .complete a → Q a (m s).2

/-- A comparison that was made in some state said that the types are related. -/
def Accepts (C : FlowContext σ) (I : σ → Prop) (depth : Nat) (source target : TypeId) : Prop :=
  ∃ s t, I s ∧ Flow.flowRelated C source target .subtype depth s = (.complete true, t)

namespace CheckerM

variable {s t : σ}

/-- A sequence is complete when its parts are, one after the other. -/
theorem bind_eq_complete {m : CheckerM σ α} {f : α → CheckerM σ β} {b : β} :
    (m >>= f) s = (.complete b, t) ↔
      ∃ a u, m s = (.complete a, u) ∧ f a u = (.complete b, t) := by
  rw [CheckerM.bind_run]
  rcases m s with ⟨_ | _, u⟩
  · constructor
    · exact fun h => ⟨_, _, rfl, h⟩
    · rintro ⟨_, _, h, h'⟩
      cases h
      exact h'
  all_goals simp

end CheckerM

theorem Flow.flowRelated_of_error {C : FlowContext σ} {source target : TypeId} {mode : RelationMode}
    {depth : Nat} {s t : σ} {e : RelationFailure}
    (h : (relateTypesAtEvaluationDepth C.toRelationContext source target mode depth).runFrom s =
      (.error e, t)) : flowRelated C source target mode depth s = (notRelated e.kind, t) := by
  unfold flowRelated
  rw [h]

@[simp]
theorem Flow.types_bind (C : FlowContext σ) (f : TypeStore → CheckerM σ α) (s : σ) :
    (Flow.types C >>= f) s = f (C.types s) s := rfl

namespace Ensures

variable {C : FlowContext σ} {I : σ → Prop} {s : σ} {m : CheckerM σ α} {P Q : α → σ → Prop}

theorem of_run (h : Ensures C I s m Q) {a : α} {t : σ} (hrun : m s = (.complete a, t)) :
    I t ∧ Extends (C.types s) (C.types t) ∧ Q a t := by
  obtain ⟨hinv, hgrows, hpost⟩ := h
  rw [hrun] at hinv hgrows hpost
  exact ⟨hinv, hgrows, hpost a rfl⟩

theorem mono (h : Ensures C I s m P)
    (hPQ : ∀ a t, I t → Extends (C.types s) (C.types t) → P a t → Q a t) : Ensures C I s m Q :=
  ⟨h.inv, h.grows, fun a ha => hPQ a _ h.inv h.grows (h.post a ha)⟩

theorem pure {a : α} (hs : I s) (hQ : Q a s) : Ensures C I s (pure a) Q :=
  ⟨hs, .refl _, fun _ ha => by cases ha; exact hQ⟩

theorem incomplete (hs : I s) : Ensures C I s CheckerM.incomplete Q :=
  ⟨hs, .refl _, fun _ ha => by cases ha⟩

theorem bind {f : α → CheckerM σ β} {Q : β → σ → Prop} (h : Ensures C I s m P)
    (hf : ∀ a t, I t → Extends (C.types s) (C.types t) → P a t → Ensures C I t (f a) Q) :
    Ensures C I s (m >>= f) Q := by
  obtain ⟨hinv, hgrows, hpost⟩ := h
  rcases hm : m s with ⟨answer, t⟩
  rw [hm] at hinv hgrows hpost
  have hrun := CheckerM.bind_run m f s
  cases answer with
  | complete a =>
    rw [hm] at hrun
    have hnext := hf a t hinv hgrows (hpost a rfl)
    exact ⟨hrun ▸ hnext.inv, hrun ▸ hgrows.trans hnext.grows, hrun ▸ hnext.post⟩
  | deferred | cycle | limit =>
    rw [hm] at hrun
    constructor <;> rw [hrun]
    · exact hinv
    · exact hgrows
    · exact nofun

theorem types {f : TypeStore → CheckerM σ α} (h : Ensures C I s (f (C.types s)) Q) :
    Ensures C I s (Flow.types C >>= f) Q := ⟨h.inv, h.grows, h.post⟩

theorem ite {c : Prop} [Decidable c] {m' : CheckerM σ α} (h : c → Ensures C I s m Q)
    (h' : ¬ c → Ensures C I s m' Q) : Ensures C I s (if c then m else m') Q := by
  split
  next hc => exact h hc
  next hc => exact h' hc

/-- Creating a type leaves the other types as they are. -/
theorem make (hC : Checks C I) (hs : I s) {operation : TypeStore → TypeId × TypeStore}
    {Q : TypeId → σ → Prop} (hgrows : Extends (C.types s) (operation (C.types s)).2)
    (hwf : (operation (C.types s)).2.WellFormed)
    (hQ : ∀ t, C.types t = (operation (C.types s)).2 → Q (operation (C.types s)).1 t) :
    Ensures C I s (Flow.make C operation) Q where
  inv := hC.withTypes s _ hs hgrows hwf
  grows := by
    change Extends _ (C.types (C.withTypes s _))
    rwa [C.types_withTypes]
  post a ha := by
    cases ha
    exact hQ _ (C.types_withTypes _ _)

/-- The answers of the items, each described by a property that later states keep. -/
inductive Gathered (P : α → List β → σ → Prop) (t : σ) : List α → List β → Prop
  | nil : Gathered P t [] []
  | cons {item : α} {first others : List β} {rest : List α} (hfirst : P item first t)
    (hrest : Gathered P t rest others) : Gathered P t (item :: rest) (first ++ others)

theorem gather {f : α → CheckerM σ (List β)} {P : α → List β → σ → Prop}
    (hP : ∀ item answer t t', I t → I t' → Extends (C.types t) (C.types t') → P item answer t →
      P item answer t') :
    ∀ {items : List α} {s : σ}, I s →
    (∀ item ∈ items, ∀ t, I t → Extends (C.types s) (C.types t) →
      Ensures C I t (f item) (P item)) →
    Ensures C I s (CheckerM.gather f items) fun answers t => Gathered P t items answers
  | [], _, hs, _ => .pure hs .nil
  | item :: rest, s, hs, hf => by
    refine (hf item List.mem_cons_self s hs (.refl _)).bind fun first t ht hgrows hfirst => ?_
    have hrest := gather hP ht fun item hitem u hu hgrows' =>
      hf item (.tail _ hitem) u hu (hgrows.trans hgrows')
    refine hrest.bind fun others u hu hgrows' hothers => .pure hu ?_
    exact .cons (hP _ _ _ _ ht hu hgrows' hfirst) hothers

namespace Gathered

variable {P : α → List β → σ → Prop} {t : σ} {items : List α} {answers : List β}

theorem exists_item (h : Gathered P t items answers) {b : β} (hb : b ∈ answers) :
    ∃ item ∈ items, ∃ part, P item part t ∧ b ∈ part := by
  induction h with
  | nil => cases hb
  | cons hfirst _ ih =>
    rcases List.mem_append.mp hb with hb | hb
    · exact ⟨_, List.mem_cons_self, _, hfirst, hb⟩
    · obtain ⟨item, hitem, part, hpart, hb⟩ := ih hb
      exact ⟨item, .tail _ hitem, part, hpart, hb⟩

theorem exists_part (h : Gathered P t items answers) {item : α} (hitem : item ∈ items) :
    ∃ part, P item part t ∧ ∀ b ∈ part, b ∈ answers := by
  induction h with
  | nil => cases hitem
  | cons hfirst _ ih =>
    rcases List.mem_cons.mp hitem with rfl | hitem
    · exact ⟨_, hfirst, fun b hb => List.mem_append_left _ hb⟩
    · obtain ⟨part, hpart, hsub⟩ := ih hitem
      exact ⟨part, hpart, fun b hb => List.mem_append_right _ (hsub b hb)⟩

end Gathered

/-! ## The queries -/

theorem forceOperand (hC : Checks C I) (hs : I s) (ty : TypeId) (depth : Nat) :
    Ensures C I s (Flow.forceOperand C ty depth) fun forced t =>
      C.forceType ty depth s = (.complete forced, t) where
  inv := hC.later s _ hs (.forceType .refl ty depth)
  grows := hC.evaluates.forceType_grows s ty depth
  post _ hforced := Prod.ext hforced rfl

theorem flowRelated (hC : Checks C I) (hs : I s) (source target : TypeId) (depth : Nat) :
    Ensures C I s (Flow.flowRelated C source target .subtype depth) fun related _ =>
      related = true → Accepts C I depth source target := by
  have hlater : Later C.toRelationContext s
      (Flow.flowRelated C source target .subtype depth s).2 := by
    have hrun := Advances.relateInner (C := C.toRelationContext) 101 (Relation.root depth) source
      target .subtype s
    unfold Flow.flowRelated relateTypesAtEvaluationDepth
    unfold Relation.root at hrun
    split
    next heq => rwa [heq] at hrun
    next heq => rwa [heq] at hrun
  refine ⟨hC.later s _ hs hlater, hlater.extends hC.evaluates, ?_⟩
  rintro related hcomplete rfl
  exact ⟨s, _, hs, Prod.ext hcomplete rfl⟩

/-! ## New types -/

section denotation

variable {V : Type} {R : Reading V}

theorem intern (hC : Checks C I) (hs : I s) {k : TypeKind} (hchildren : k.children = [])
    (hunion : ∀ members, k ≠ .union members) :
    Ensures C I s (Flow.make C (·.intern k)) fun id t =>
      (C.types t).Contains id ∧ (C.types t).kind id = k := by
  have hwf := hC.wellFormed s hs
  refine make hC hs (extends_intern _ k)
    (hwf.intern (by simp [hchildren]) fun members hk => absurd hk (hunion members)) ?_
  intro t ht
  rw [ht]
  exact hwf.toConsistent.kind_intern k

theorem union (hC : Checks C I) (hs : I s) {members : List TypeId} (policy : UnionPolicy)
    (hmembers : ∀ m ∈ members, (C.types s).Contains m) :
    Ensures C I s (Flow.make C (·.union members policy)) fun id t =>
      (C.types t).Contains id ∧ (R.Models (C.types t) →
        ∀ v, R.inhabits v id ↔ ∃ m ∈ members, R.inhabits v m) := by
  have hwf := hC.wellFormed s hs
  refine make hC hs (extends_combine _ _) (hwf.union hmembers) fun t ht => ?_
  rw [ht]
  exact ⟨contains_combine hwf.toConsistent fun id hid => contains_normalizeUnion hwf hmembers hid,
    fun hR v => hR.inhabits_union hwf hmembers⟩

theorem intersection (hC : Checks C I) (hs : I s) {members : List TypeId}
    (hmembers : ∀ m ∈ members, (C.types s).Contains m) :
    Ensures C I s (Flow.make C (·.intersection members)) fun id t =>
      (C.types t).Contains id ∧ (R.Models (C.types t) →
        ∀ v, R.inhabits v id ↔ ∀ m ∈ members, R.inhabits v m) := by
  have hwf := hC.wellFormed s hs
  refine make hC hs (extends_combine _ _) (hwf.intersection hmembers) fun t ht => ?_
  rw [ht]
  exact ⟨contains_combine hwf.toConsistent
    fun id hid => contains_normalizeIntersection hwf hmembers hid,
    fun hR v => hR.inhabits_intersection hwf⟩

end denotation

end Ensures

/-! ## Surroundings that evaluate nothing -/

def inertFlow (strict : Bool) : FlowContext TypeStore where
  toRelationContext := inertContext strict
  withTypes _ store := store
  types_withTypes _ _ := rfl

/-- A union with a type that the store does not have is an error type. -/
theorem TypeStore.WellFormed.union_of_any {s : TypeStore} (h : s.WellFormed)
    (members : List TypeId) (policy : UnionPolicy) : (s.union members policy).2.WellFormed := by
  by_cases hmembers : ∀ m ∈ members, s.Contains m
  · exact h.union hmembers
  · obtain ⟨m, hm, hnot⟩ : ∃ m ∈ members, ¬ s.Contains m := by simpa using hmembers
    have hkind : s.kind m = .error := List.getD_eq_default _ _ (by simpa [Contains] using hnot)
    have hflat : m ∈ members.flatMap s.unionMembers :=
      List.mem_flatMap.mpr ⟨m, hm, by simp [unionMembers, hkind]⟩
    unfold TypeStore.union
    rw [normalizeUnion_eq]
    split
    · exact h
    · split
      · exact h
      · split
        · exact h
        next hnone =>
          have herror := List.find?_eq_none.mp hnone m hflat
          simp [hkind, TypeKind.isError] at herror

theorem checks_inertFlow (strict : Bool) : Checks (inertFlow strict) TypeStore.WellFormed where
  evaluates := evaluates_inertContext strict
  wellFormed _ hs := hs
  later s t hs h := by
    induction h with
    | refl => exact hs
    | @forceType t _ ty depth ih =>
      have hforce : ((inertContext strict).forceType ty depth t).2 = t := by
        simp only [inertContext]
        split <;> rfl
      exact hforce.symm ▸ ih
    | classConstructorSignature _ declaration ih => exact ih
    | canonicalUnion _ members ih => exact ih.union_of_any members .canonical
  withTypes _ _ _ _ hwf := hwf

end Tsz.Semantics
