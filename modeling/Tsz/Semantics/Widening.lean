import Tsz.Semantics.UnionNormalForm

/-!
# Widening literals

Where a type can be observed to change, the fresh literals in it become their primitive types,
also inside of arrays and unions. Widening interns the types that it rebuilds.

## Main definitions

* `widenedLiteralType` — a type with its fresh literals widened.
* `ReachesThrough` — the positions of a type that widening looks at.

## Main results

* `widenedLiteralType_eq` — the bound on the nesting does not matter.
-/

namespace Tsz.Semantics

open Sorting

namespace TypeStore

/-- Widen types one after the other. -/
def widenAll (widen : TypeStore → TypeId → TypeId × TypeStore) :
    TypeStore → List TypeId → List TypeId × TypeStore
  | s, [] => ([], s)
  | s, member :: rest =>
    let (widened, t) := widen s member
    let (more, u) := widenAll widen t rest
    (widened :: more, u)

/-- The first argument bounds the nesting of arrays and unions. -/
def widenedLiteralTypeWithin : Nat → TypeStore → TypeId → TypeId × TypeStore
  | 0, s, id => (id, s)
  | levels + 1, s, id =>
    match s.kind id with
    | .literalString _ .fresh | .deferred .utf16StringLiteral => (s.builtins.string, s)
    | .literalNumber _ .fresh => (s.builtins.number, s)
    | .literalBoolean _ .fresh => (s.builtins.boolean, s)
    | .deferred .bigIntLiteral => (s.builtins.bigInt, s)
    | .array element =>
      let (widened, t) := widenedLiteralTypeWithin levels s element
      if widened = element then (id, t) else t.intern (.array widened)
    | .union members =>
      let (widened, t) := widenAll (widenedLiteralTypeWithin levels) s members
      if widened = members then (id, t) else t.union widened .canonical
    | _ => (id, s)

-- The equations are made here once, not by several of the proofs below at the same time.
example (s : TypeStore) (id : TypeId) : widenedLiteralTypeWithin 0 s id = (id, s) := by
  rw [widenedLiteralTypeWithin]

/-- Types refer to earlier ones, so that there are enough levels. -/
def widenedLiteralType (s : TypeStore) (id : TypeId) : TypeId × TypeStore :=
  widenedLiteralTypeWithin (id.index + 1) s id

/-! ## Types refer to earlier ones -/

variable {s t : TypeStore}

def ChildrenEarlier (s : TypeStore) : Prop :=
  ∀ id, s.Contains id → ∀ child ∈ (s.kind id).children, child.index < id.index

theorem ChildrenEarlier.push (h : ChildrenEarlier s) {k : TypeKind}
    (hk : ∀ child ∈ k.children, s.Contains child) (interned : List (TypeKind × TypeId)) :
    ChildrenEarlier { s.push k with interned := interned } := by
  intro id hid child hchild
  rcases contains_push.mp hid with hold | hnew
  · refine h id hold child ?_
    rwa [← kind_push_of_contains (k := k) hold]
  · obtain rfl : id = ⟨s.kinds.length⟩ := congrArg TypeId.mk hnew
    exact hk child (by rwa [← kind_push_last (s := s) (k := k)])

theorem ChildrenEarlier.intern (h : ChildrenEarlier s) {k : TypeKind}
    (hk : ∀ child ∈ k.children, s.Contains child) : ChildrenEarlier (s.intern k).2 := by
  rcases s.intern_cases k with ⟨_, -, heq⟩ | ⟨-, heq⟩
  · rwa [heq]
  · rw [heq]
    exact h.push hk _

theorem ChildrenEarlier.combine (h : ChildrenEarlier s) {wrap : List TypeId → TypeKind}
    (hwrap : ∀ ms, (wrap ms).children = ms) {n : Normalized}
    (hn : ∀ id ∈ n.ids, s.Contains id) : ChildrenEarlier (s.combine wrap n).2 := by
  cases n with
  | existing id => exact h
  | combined ms => exact h.intern (by rwa [hwrap])

theorem Reachable.childrenEarlier (h : Reachable s) : ChildrenEarlier s := by
  induction h with
  | new =>
    intro id hid child hchild
    have hnone : ∀ i < 13, (TypeStore.new.kind ⟨i⟩).children = [] := by decide
    rw [hnone id.index hid] at hchild
    cases hchild
  | intern _ hk _ _ ih => exact ih.intern hk
  | @freshDeferred s d _ hd ih =>
    have hnone : (TypeKind.deferred d).children = [] := by
      cases d <;> simp_all [TypeKind.children, DeferredType.children, isFreshDeferred]
    exact ih.push (k := .deferred d) (by simp [hnone]) s.interned
  | union hs hms ih =>
    exact ih.combine (fun _ => rfl) fun _ => contains_normalizeUnion hs.wellFormed hms
  | intersection hs hms ih =>
    exact ih.combine (fun _ => rfl) fun _ => contains_normalizeIntersection hs.wellFormed hms

/-! ## What one step of widening does -/

/-- The primitive type of a literal that widens. -/
def literalBase (builtins : BuiltinTypes) : TypeKind → Option TypeId
  | .literalString _ .fresh | .deferred .utf16StringLiteral => some builtins.string
  | .literalNumber _ .fresh => some builtins.number
  | .literalBoolean _ .fresh => some builtins.boolean
  | .deferred .bigIntLiteral => some builtins.bigInt
  | _ => none

/-- The kinds in which widening looks for literals. -/
def holdsTypes : TypeKind → Bool
  | .array _ | .union _ => true
  | _ => false

theorem widenedLiteralTypeWithin_literal {levels : Nat} {id base : TypeId}
    (h : literalBase s.builtins (s.kind id) = some base) :
    widenedLiteralTypeWithin (levels + 1) s id = (base, s) := by
  unfold literalBase at h
  rw [widenedLiteralTypeWithin]
  split at h <;> simp_all

theorem widenedLiteralTypeWithin_array {levels : Nat} {id element : TypeId}
    (h : s.kind id = .array element) :
    widenedLiteralTypeWithin (levels + 1) s id =
      let (widened, t) := widenedLiteralTypeWithin levels s element
      if widened = element then (id, t) else t.intern (.array widened) := by
  rw [widenedLiteralTypeWithin, h]

theorem widenedLiteralTypeWithin_union {levels : Nat} {id : TypeId} {members : List TypeId}
    (h : s.kind id = .union members) :
    widenedLiteralTypeWithin (levels + 1) s id =
      let (widened, t) := widenAll (widenedLiteralTypeWithin levels) s members
      if widened = members then (id, t) else t.union widened .canonical := by
  rw [widenedLiteralTypeWithin, h]

theorem widenedLiteralTypeWithin_other {levels : Nat} {id : TypeId}
    (h : literalBase s.builtins (s.kind id) = none) (hholds : holdsTypes (s.kind id) = false) :
    widenedLiteralTypeWithin (levels + 1) s id = (id, s) := by
  rw [widenedLiteralTypeWithin]
  split <;> simp_all [literalBase, holdsTypes]

/-- The four things that widening does with a type. -/
theorem kind_cases (builtins : BuiltinTypes) (k : TypeKind) :
    (∃ base, literalBase builtins k = some base) ∨ (∃ element, k = .array element) ∨
      (∃ members, k = .union members) ∨ literalBase builtins k = none ∧ holdsTypes k = false := by
  cases hbase : literalBase builtins k with
  | some base => exact .inl ⟨base, rfl⟩
  | none => cases k <;> simp [holdsTypes]

/-! ## Widening extends the store -/

/-- The store is still one of a run, and has the new type. -/
def Continues (s : TypeStore) (result : TypeId × TypeStore) : Prop :=
  Extends s result.2 ∧ Reachable result.2 ∧ result.2.Contains result.1

theorem WellFormed.index_literalBase (h : WellFormed s) {k : TypeKind} {base : TypeId}
    (hbase : literalBase s.builtins k = some base) : base.index < 13 := by
  rw [h.grown.builtins] at hbase
  unfold literalBase at hbase
  split at hbase <;> cases hbase <;> decide

theorem continues_widenAll {widen : TypeStore → TypeId → TypeId × TypeStore}
    {members : List TypeId} (hs : Reachable s) (hmembers : ∀ m ∈ members, s.Contains m)
    (hwiden : ∀ t, Extends s t → Reachable t → ∀ m ∈ members, Continues t (widen t m)) :
    Extends s (widenAll widen s members).2 ∧ Reachable (widenAll widen s members).2 ∧
      ∀ m ∈ (widenAll widen s members).1, (widenAll widen s members).2.Contains m := by
  induction members generalizing s with
  | nil => exact ⟨.refl s, hs, nofun⟩
  | cons member rest ih =>
    obtain ⟨hgrow, ht, hcontains⟩ := hwiden s (.refl s) hs member List.mem_cons_self
    obtain ⟨hgrow', hu, hrest⟩ := ih ht
      (fun m hm => hgrow.contains (hmembers m (List.mem_cons_of_mem _ hm)))
      fun t hext ht m hm => hwiden t (hgrow.trans hext) ht m (List.mem_cons_of_mem _ hm)
    refine ⟨hgrow.trans hgrow', hu, fun m hm => ?_⟩
    rcases List.mem_cons.mp hm with rfl | hm
    · exact hgrow'.contains hcontains
    · exact hrest m hm

theorem continues_widenedLiteralTypeWithin (levels : Nat) (hs : Reachable s) {id : TypeId}
    (hid : s.Contains id) : Continues s (widenedLiteralTypeWithin levels s id) := by
  induction levels generalizing s id with
  | zero => exact ⟨.refl s, hs, hid⟩
  | succ levels ih =>
    rcases kind_cases s.builtins (s.kind id) with
      ⟨base, hbase⟩ | ⟨element, hkind⟩ | ⟨members, hkind⟩ | ⟨hbase, hholds⟩
    · rw [widenedLiteralTypeWithin_literal hbase]
      have hbuiltin := hs.wellFormed.builtin (hs.wellFormed.index_literalBase hbase)
      exact ⟨.refl s, hs, hbuiltin.1⟩
    · rw [widenedLiteralTypeWithin_array hkind]
      have helement : s.Contains element :=
        hs.wellFormed.children id hid element (by rw [hkind]; exact List.mem_singleton_self _)
      obtain ⟨hgrow, ht, hcontains⟩ := ih hs helement
      dsimp only
      split
      · exact ⟨hgrow, ht, hgrow.contains hid⟩
      · refine ⟨hgrow.trans (extends_intern _ _), ht.intern ?_ nofun nofun,
          (ht.wellFormed.kind_intern _).1⟩
        simpa [TypeKind.children] using hcontains
    · rw [widenedLiteralTypeWithin_union hkind]
      have hmembers : ∀ m ∈ members, s.Contains m := fun m hm =>
        hs.wellFormed.children id hid m (by rwa [hkind])
      obtain ⟨hgrow, ht, hcontains⟩ := continues_widenAll hs hmembers fun t hext ht m hm =>
        ih ht (hext.contains (hmembers m hm))
      dsimp only
      split
      · exact ⟨hgrow, ht, hgrow.contains hid⟩
      · exact ⟨hgrow.trans (extends_combine _ _), ht.union hcontains,
          contains_combine ht.wellFormed.toConsistent fun _ =>
            contains_normalizeUnion ht.wellFormed hcontains⟩
    · rw [widenedLiteralTypeWithin_other hbase hholds]
      exact ⟨.refl s, hs, hid⟩

/-! ## The bound on the nesting -/

theorem widenAll_congr {widen widen' : TypeStore → TypeId → TypeId × TypeStore}
    {members : List TypeId} (hs : Reachable s)
    (hwiden : ∀ t, Extends s t → Reachable t → ∀ m ∈ members,
      widen t m = widen' t m ∧ Continues t (widen t m)) :
    widenAll widen s members = widenAll widen' s members := by
  induction members generalizing s with
  | nil => rfl
  | cons member rest ih =>
    obtain ⟨heq, hgrow, ht, -⟩ := hwiden s (.refl s) hs member List.mem_cons_self
    have hrest := ih ht fun t hext ht m hm =>
      hwiden t (hgrow.trans hext) ht m (List.mem_cons_of_mem _ hm)
    simp only [widenAll, ← heq, hrest]

/-- Once there are more levels than types in front of a type, their number does not matter. -/
theorem widenedLiteralTypeWithin_levels {levels levels' : Nat} (hs : Reachable s) {id : TypeId}
    (hid : s.Contains id) (h : id.index < levels) (h' : id.index < levels') :
    widenedLiteralTypeWithin levels s id = widenedLiteralTypeWithin levels' s id := by
  induction levels generalizing levels' s id with
  | zero => omega
  | succ levels ih =>
    obtain ⟨levels', rfl⟩ : ∃ n, levels' = n + 1 := ⟨levels' - 1, by omega⟩
    have hearlier := hs.childrenEarlier id hid
    have hchildren := hs.wellFormed.children id hid
    rcases kind_cases s.builtins (s.kind id) with
      ⟨base, hbase⟩ | ⟨element, hkind⟩ | ⟨members, hkind⟩ | ⟨hbase, hholds⟩
    · rw [widenedLiteralTypeWithin_literal hbase, widenedLiteralTypeWithin_literal hbase]
    · have hmem : element ∈ (s.kind id).children := by
        rw [hkind]
        exact List.mem_singleton_self _
      have hlt := hearlier element hmem
      have heq : widenedLiteralTypeWithin levels s element =
          widenedLiteralTypeWithin levels' s element :=
        ih hs (hchildren element hmem) (by omega) (by omega)
      rw [widenedLiteralTypeWithin_array hkind, widenedLiteralTypeWithin_array hkind, heq]
    · have hall : widenAll (widenedLiteralTypeWithin levels) s members =
          widenAll (widenedLiteralTypeWithin levels') s members := by
        refine widenAll_congr hs fun t hext ht m hm => ?_
        have hmem : m ∈ (s.kind id).children := by rwa [hkind]
        have hlt := hearlier m hmem
        have hcontains := hext.contains (hchildren m hmem)
        exact ⟨ih ht hcontains (by omega) (by omega),
          continues_widenedLiteralTypeWithin levels ht hcontains⟩
      rw [widenedLiteralTypeWithin_union hkind, widenedLiteralTypeWithin_union hkind, hall]
    · rw [widenedLiteralTypeWithin_other hbase hholds, widenedLiteralTypeWithin_other hbase hholds]

theorem continues_widenedLiteralType (hs : Reachable s) {id : TypeId} (hid : s.Contains id) :
    Continues s (s.widenedLiteralType id) := continues_widenedLiteralTypeWithin _ hs hid

theorem widenedLiteralTypeWithin_eq {levels : Nat} (hs : Reachable s) {id : TypeId}
    (hid : s.Contains id) (h : id.index < levels) :
    widenedLiteralTypeWithin levels s id = s.widenedLiteralType id :=
  widenedLiteralTypeWithin_levels hs hid h (Nat.lt_succ_self _)

theorem widenedLiteralType_array (hs : Reachable s) {id element : TypeId} (hid : s.Contains id)
    (hkind : s.kind id = .array element) :
    s.widenedLiteralType id =
      let (widened, t) := s.widenedLiteralType element
      if widened = element then (id, t) else t.intern (.array widened) := by
  have hmem : element ∈ (s.kind id).children := by
    rw [hkind]
    exact List.mem_singleton_self _
  rw [widenedLiteralType, widenedLiteralTypeWithin_array hkind,
    widenedLiteralTypeWithin_eq hs (hs.wellFormed.children id hid element hmem)
      (hs.childrenEarlier id hid element hmem)]

theorem widenedLiteralType_union (hs : Reachable s) {id : TypeId} {members : List TypeId}
    (hid : s.Contains id) (hkind : s.kind id = .union members) :
    s.widenedLiteralType id =
      let (widened, t) := widenAll widenedLiteralType s members
      if widened = members then (id, t) else t.union widened .canonical := by
  rw [widenedLiteralType, widenedLiteralTypeWithin_union hkind]
  have hall : widenAll (widenedLiteralTypeWithin id.index) s members =
      widenAll widenedLiteralType s members := by
    refine widenAll_congr hs fun t hext ht m hm => ?_
    have hmem : m ∈ (s.kind id).children := by rwa [hkind]
    have hcontains := hext.contains (hs.wellFormed.children id hid m hmem)
    exact ⟨widenedLiteralTypeWithin_eq ht hcontains (hs.childrenEarlier id hid m hmem),
      continues_widenedLiteralTypeWithin _ ht hcontains⟩
  rw [hall]

/-- Widening without a bound on the nesting. -/
theorem widenedLiteralType_eq (hs : Reachable s) {id : TypeId} (hid : s.Contains id) :
    s.widenedLiteralType id =
      match s.kind id with
      | .literalString _ .fresh | .deferred .utf16StringLiteral => (s.builtins.string, s)
      | .literalNumber _ .fresh => (s.builtins.number, s)
      | .literalBoolean _ .fresh => (s.builtins.boolean, s)
      | .deferred .bigIntLiteral => (s.builtins.bigInt, s)
      | .array element =>
        let (widened, t) := s.widenedLiteralType element
        if widened = element then (id, t) else t.intern (.array widened)
      | .union members =>
        let (widened, t) := widenAll widenedLiteralType s members
        if widened = members then (id, t) else t.union widened .canonical
      | _ => (id, s) := by
  cases hkind : s.kind id with
  | array element => exact widenedLiteralType_array hs hid hkind
  | union members => exact widenedLiteralType_union hs hid hkind
  | literalBoolean _ provenance | literalNumber _ provenance | literalString _ provenance =>
    cases provenance <;> rw [widenedLiteralType, widenedLiteralTypeWithin, hkind]
  | deferred query => cases query <;> rw [widenedLiteralType, widenedLiteralTypeWithin, hkind]
  | _ => rw [widenedLiteralType, widenedLiteralTypeWithin, hkind]

/-! ## What is left to widen -/

/-- The second type stands in the first, under unions and array elements. -/
inductive ReachesThrough (s : TypeStore) : TypeId → TypeId → Prop
  | refl (id) : ReachesThrough s id id
  | array {id element inner} : s.kind id = .array element → ReachesThrough s element inner →
    ReachesThrough s id inner
  | union {id members member inner} : s.kind id = .union members → member ∈ members →
    ReachesThrough s member inner → ReachesThrough s id inner

/-- Nothing in the type widens. -/
def IsWidened (s : TypeStore) (id : TypeId) : Prop :=
  ∀ inner, ReachesThrough s id inner → literalBase s.builtins (s.kind inner) = none

theorem isWidened_array {id element : TypeId} (hkind : s.kind id = .array element) :
    IsWidened s id ↔ IsWidened s element := by
  constructor
  · exact fun h inner hreach => h inner (.array hkind hreach)
  · rintro h inner (_ | ⟨hkind', hreach⟩ | ⟨hkind', -, -⟩)
    · rw [hkind]
      rfl
    · cases hkind.symm.trans hkind'
      exact h inner hreach
    · cases hkind.symm.trans hkind'

theorem isWidened_union {id : TypeId} {members : List TypeId}
    (hkind : s.kind id = .union members) :
    IsWidened s id ↔ ∀ m ∈ members, IsWidened s m := by
  constructor
  · exact fun h m hm inner hreach => h inner (.union hkind hm hreach)
  · rintro h inner (_ | ⟨hkind', -⟩ | ⟨hkind', hm, hreach⟩)
    · rw [hkind]
      rfl
    · cases hkind.symm.trans hkind'
    · cases hkind.symm.trans hkind'
      exact h _ hm inner hreach

theorem isWidened_of_other {id : TypeId} (hbase : literalBase s.builtins (s.kind id) = none)
    (hholds : holdsTypes (s.kind id) = false) : IsWidened s id := by
  rintro inner (_ | ⟨hkind, -⟩ | ⟨hkind, -, -⟩)
  · exact hbase
  · simp [hkind, holdsTypes] at hholds
  · simp [hkind, holdsTypes] at hholds

theorem IsWidened.literalBase {id : TypeId} (h : IsWidened s id) :
    literalBase s.builtins (s.kind id) = none :=
  h id (.refl id)

theorem ReachesThrough.contains (hs : Consistent s) {id inner : TypeId} (hid : s.Contains id)
    (h : ReachesThrough s id inner) : s.Contains inner := by
  induction h with
  | refl => exact hid
  | array hkind _ ih =>
    exact ih (hs.children _ hid _ (by rw [hkind]; exact List.mem_singleton_self _))
  | union hkind hmem _ ih => exact ih (hs.children _ hid _ (by rwa [hkind]))

theorem reachesThrough_of_extends (hs : Consistent s) (h : Extends s t) {id inner : TypeId}
    (hid : s.Contains id) : ReachesThrough t id inner ↔ ReachesThrough s id inner := by
  constructor
  · intro hreach
    induction hreach with
    | refl => exact .refl _
    | array hkind _ ih =>
      rw [h.kind hid] at hkind
      exact .array hkind (ih (hs.children _ hid _ (by rw [hkind]; exact List.mem_singleton_self _)))
    | union hkind hmem _ ih =>
      rw [h.kind hid] at hkind
      exact .union hkind hmem (ih (hs.children _ hid _ (by rwa [hkind])))
  · intro hreach
    induction hreach with
    | refl => exact .refl _
    | array hkind _ ih =>
      exact .array ((h.kind hid).trans hkind)
        (ih (hs.children _ hid _ (by rw [hkind]; exact List.mem_singleton_self _)))
    | union hkind hmem _ ih =>
      exact .union ((h.kind hid).trans hkind) hmem (ih (hs.children _ hid _ (by rwa [hkind])))

/-- A larger store has nothing more in a type. -/
theorem isWidened_of_extends (hs : Consistent s) (h : Extends s t) {id : TypeId}
    (hid : s.Contains id) : IsWidened t id ↔ IsWidened s id := by
  refine forall_congr' fun inner => ?_
  rw [reachesThrough_of_extends hs h hid]
  refine imp_congr_right fun hreach => ?_
  rw [h.kind (hreach.contains hs hid), h.builtins]

theorem widenAll_of_forall {widen : TypeStore → TypeId → TypeId × TypeStore}
    {members : List TypeId} (h : ∀ m ∈ members, widen s m = (m, s)) :
    widenAll widen s members = (members, s) := by
  induction members with
  | nil => rfl
  | cons member rest ih =>
    rw [widenAll, h member List.mem_cons_self]
    simp only [ih fun m hm => h m (List.mem_cons_of_mem _ hm)]

/-- A type with nothing to widen stays as it is. -/
theorem widenedLiteralType_of_isWidened (hs : Reachable s) {id : TypeId} (hid : s.Contains id)
    (h : IsWidened s id) : s.widenedLiteralType id = (id, s) := by
  induction hn : id.index using Nat.strong_induction_on generalizing id with
  | _ n ih =>
    subst hn
    have hchildren := hs.wellFormed.children id hid
    have hearlier := hs.childrenEarlier id hid
    rcases kind_cases s.builtins (s.kind id) with
      ⟨base, hbase⟩ | ⟨element, hkind⟩ | ⟨members, hkind⟩ | ⟨hbase, hholds⟩
    · cases h.literalBase.symm.trans hbase
    · have hmem : element ∈ (s.kind id).children := by
        rw [hkind]
        exact List.mem_singleton_self _
      rw [widenedLiteralType_array hs hid hkind,
        ih _ (hearlier element hmem) (hchildren element hmem) ((isWidened_array hkind).mp h) rfl]
      exact if_pos rfl
    · have hall : widenAll widenedLiteralType s members = (members, s) := by
        refine widenAll_of_forall fun m hm => ?_
        have hmem : m ∈ (s.kind id).children := by rwa [hkind]
        exact ih _ (hearlier m hmem) (hchildren m hmem) ((isWidened_union hkind).mp h m hm) rfl
      rw [widenedLiteralType_union hs hid hkind, hall]
      exact if_pos rfl
    · rw [widenedLiteralType, widenedLiteralTypeWithin_other hbase hholds]

/-- Builtin types have nothing to widen. -/
theorem isWidened_builtin (hs : WellFormed s) {id : TypeId} (hid : id.index < 13) :
    IsWidened s id := by
  have hnone : ∀ i < 13, literalBase new.builtins (new.kind ⟨i⟩) = none ∧
      holdsTypes (new.kind ⟨i⟩) = false := by decide
  obtain ⟨hbase, hholds⟩ := hnone id.index hid
  have hkind := (hs.builtin hid).2
  refine isWidened_of_other ?_ ?_
  · rw [hkind, hs.grown.builtins]
    exact hbase
  · rw [hkind]
    exact hholds

/-- A union brings nothing to widen into types that have nothing. -/
theorem isWidened_union_of_forall (hs : Reachable s) {members : List TypeId}
    {policy : UnionPolicy} (hmembers : ∀ m ∈ members, s.Contains m)
    (h : ∀ m ∈ members, IsWidened s m) :
    IsWidened (s.union members policy).2 (s.union members policy).1 := by
  have hids : ∀ id ∈ (s.normalizeUnion members policy).ids, IsWidened s id := by
    intro id hid
    rcases mem_ids_normalizeUnion hs.wellFormed hid with hid | hid
    · exact isWidened_builtin hs.wellFormed hid
    · obtain ⟨m, hm, hid⟩ := List.mem_flatMap.mp hid
      unfold unionMembers at hid
      split at hid
      · next nested hkind => exact (isWidened_union hkind).mp (h m hm) id hid
      · rw [List.mem_singleton.mp hid]
        exact h m hm
  have hkind := kind_combine hs.wellFormed.toConsistent .union (s.normalizeUnion members policy)
  have hgrow := extends_combine (s := s) .union (s.normalizeUnion members policy)
  have hcontains : ∀ id ∈ (s.normalizeUnion members policy).ids, s.Contains id :=
    fun _ => contains_normalizeUnion hs.wellFormed hmembers
  unfold TypeStore.union
  cases hn : s.normalizeUnion members policy with
  | existing id =>
    rw [hn] at hids
    exact hids id (List.mem_singleton_self id)
  | combined ms =>
    rw [hn] at hids hkind hgrow hcontains
    refine (isWidened_union hkind).mpr fun m hm => ?_
    exact (isWidened_of_extends hs.wellFormed.toConsistent hgrow (hcontains m hm)).mpr (hids m hm)

theorem isWidened_widenAll {members : List TypeId} (hs : Reachable s)
    (hmembers : ∀ m ∈ members, s.Contains m)
    (hwiden : ∀ t, Extends s t → Reachable t → ∀ m ∈ members,
      IsWidened (t.widenedLiteralType m).2 (t.widenedLiteralType m).1) :
    ∀ m ∈ (widenAll widenedLiteralType s members).1,
      IsWidened (widenAll widenedLiteralType s members).2 m := by
  induction members generalizing s with
  | nil => exact nofun
  | cons member rest ih =>
    have hmember := hwiden s (.refl s) hs member List.mem_cons_self
    obtain ⟨hgrow, ht, hcontains⟩ := continues_widenedLiteralType hs
      (hmembers member List.mem_cons_self)
    have hrest' : ∀ m ∈ rest, (s.widenedLiteralType member).2.Contains m :=
      fun m hm => hgrow.contains (hmembers m (List.mem_cons_of_mem _ hm))
    have hrest := ih ht hrest' fun t hext ht m hm =>
      hwiden t (hgrow.trans hext) ht m (List.mem_cons_of_mem _ hm)
    have hgrow' := (continues_widenAll ht hrest' fun t hext ht m hm =>
      continues_widenedLiteralType ht (hext.contains (hrest' m hm))).1
    intro m hm
    rcases List.mem_cons.mp hm with rfl | hm
    · exact (isWidened_of_extends ht.wellFormed.toConsistent hgrow' hcontains).mpr hmember
    · exact hrest m hm

/-- Nothing in a widened type widens. -/
theorem isWidened_widenedLiteralType (hs : Reachable s) {id : TypeId} (hid : s.Contains id) :
    IsWidened (s.widenedLiteralType id).2 (s.widenedLiteralType id).1 := by
  induction hn : id.index using Nat.strong_induction_on generalizing s id with
  | _ n ih =>
    subst hn
    have hchildren := hs.wellFormed.children id hid
    have hearlier := hs.childrenEarlier id hid
    rcases kind_cases s.builtins (s.kind id) with
      ⟨base, hbase⟩ | ⟨element, hkind⟩ | ⟨members, hkind⟩ | ⟨hbase, hholds⟩
    · rw [widenedLiteralType, widenedLiteralTypeWithin_literal hbase]
      exact isWidened_builtin hs.wellFormed (hs.wellFormed.index_literalBase hbase)
    · have hmem : element ∈ (s.kind id).children := by
        rw [hkind]
        exact List.mem_singleton_self _
      have helement := ih _ (hearlier element hmem) hs (hchildren element hmem) rfl
      obtain ⟨hgrow, ht, hcontains⟩ := continues_widenedLiteralType hs (hchildren element hmem)
      rw [widenedLiteralType_array hs hid hkind]
      dsimp only
      split
      next heq =>
        rw [heq] at helement
        exact (isWidened_array ((hgrow.kind hid).trans hkind)).mpr helement
      next =>
        refine (isWidened_array (ht.wellFormed.kind_intern _).2).mpr ?_
        exact (isWidened_of_extends ht.wellFormed.toConsistent (extends_intern _ _)
          hcontains).mpr helement
    · have hmembers : ∀ m ∈ members, s.Contains m := fun m hm => hchildren m (by rwa [hkind])
      have hall := isWidened_widenAll hs hmembers fun t hext ht m hm =>
        ih _ (hearlier m (by rwa [hkind])) ht (hext.contains (hmembers m hm)) rfl
      obtain ⟨hgrow, ht, hcontains⟩ := continues_widenAll hs hmembers fun t hext ht m hm =>
        continues_widenedLiteralType ht (hext.contains (hmembers m hm))
      rw [widenedLiteralType_union hs hid hkind]
      dsimp only
      split
      next heq =>
        rw [heq] at hall
        exact (isWidened_union ((hgrow.kind hid).trans hkind)).mpr hall
      next => exact isWidened_union_of_forall ht hcontains hall
    · rw [widenedLiteralType, widenedLiteralTypeWithin_other hbase hholds]
      exact isWidened_of_other hbase hholds

end TypeStore

end Tsz.Semantics
