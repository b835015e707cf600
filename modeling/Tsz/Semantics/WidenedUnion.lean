import Mathlib.Data.List.Find
import Tsz.Semantics.Widening

/-!
# Widening and unions

The union of widened types is the widened union, as long as widening leaves the order of the
members alone.

## Main definitions

* `widened` — the widened type of a type, in a store that has it.
* `WidensInOrder` — widening does not bring types of one key into another order.

## Main results

* `widenedLiteralType_union_iff` — when widening commutes with a union.
-/

namespace Tsz.Semantics

open Sorting

namespace TypeStore

variable {s t : TypeStore}

/-! ## Stores that have the widened types -/

def widened (t : TypeStore) (id : TypeId) : TypeId := (t.widenedLiteralType id).1

/-- Widening the type finds everything that it needs. -/
def Widens (t : TypeStore) (id : TypeId) : Prop :=
  t.Contains id ∧ t.widenedLiteralType id = (t.widened id, t)

theorem widenAll_of_extends {widen : TypeStore → TypeId → TypeId × TypeStore}
    {members : List TypeId} (hs : Reachable s) (hmembers : ∀ m ∈ members, s.Contains m)
    (hcontinues : ∀ u, Extends s u → Reachable u → ∀ m ∈ members, Continues u (widen u m))
    (hwiden : ∀ u, Extends s u → Reachable u → ∀ m ∈ members, Extends (widen u m).2 t →
      widen t m = ((widen u m).1, t))
    (h : Extends (widenAll widen s members).2 t) :
    widenAll widen t members = ((widenAll widen s members).1, t) := by
  induction members generalizing s with
  | nil => rfl
  | cons member rest ih =>
    obtain ⟨hgrow, hu, hcontains⟩ := hcontinues s (.refl s) hs member List.mem_cons_self
    have hrest : ∀ m ∈ rest, (widen s member).2.Contains m :=
      fun m hm => hgrow.contains (hmembers m (List.mem_cons_of_mem _ hm))
    have hcontinues' : ∀ u, Extends (widen s member).2 u → Reachable u → ∀ m ∈ rest,
        Continues u (widen u m) := fun u hext hu m hm =>
      hcontinues u (hgrow.trans hext) hu m (List.mem_cons_of_mem _ hm)
    have hgrow' := (continues_widenAll hu hrest hcontinues').1
    have hmember := hwiden s (.refl s) hs member List.mem_cons_self (hgrow'.trans h)
    have hmore := ih hu hrest hcontinues' (fun u hext hu m hm =>
      hwiden u (hgrow.trans hext) hu m (List.mem_cons_of_mem _ hm)) h
    rw [widenAll, hmember]
    simp only [hmore, widenAll]

/-- In every later store, a type that was widened widens to the same type. -/
theorem widenedLiteralType_of_extends (hs : Reachable s) (ht : Reachable t) {id : TypeId}
    (hid : s.Contains id) (h : Extends (s.widenedLiteralType id).2 t) :
    t.widenedLiteralType id = ((s.widenedLiteralType id).1, t) := by
  induction hn : id.index using Nat.strong_induction_on generalizing s id with
  | _ n ih =>
    subst hn
    have hgrow : Extends s t := (continues_widenedLiteralType hs hid).1.trans h
    have hid' := hgrow.contains hid
    have hchildren := hs.wellFormed.children id hid
    have hearlier := hs.childrenEarlier id hid
    rcases kind_cases s.builtins (s.kind id) with
      ⟨base, hbase⟩ | ⟨element, hkind⟩ | ⟨members, hkind⟩ | ⟨hbase, hholds⟩
    · have hbase' : literalBase t.builtins (t.kind id) = some base := by
        rwa [hgrow.kind hid, hgrow.builtins]
      rw [widenedLiteralType, widenedLiteralType, widenedLiteralTypeWithin_literal hbase,
        widenedLiteralTypeWithin_literal hbase']
    · have hmem : element ∈ (s.kind id).children := by
        rw [hkind]
        exact List.mem_singleton_self _
      rw [widenedLiteralType_array hs hid hkind] at h ⊢
      rw [widenedLiteralType_array ht hid' ((hgrow.kind hid).trans hkind)]
      dsimp only at h ⊢
      split at h
      next heq =>
        rw [ih _ (hearlier element hmem) hs (hchildren element hmem) h rfl]
        simp [heq]
      next hne =>
        rw [ih _ (hearlier element hmem) hs (hchildren element hmem)
          ((extends_intern _ _).trans h) rfl]
        simp only [hne, if_false]
        exact intern_of_extends h
    · have hmembers : ∀ m ∈ members, s.Contains m := fun m hm => hchildren m (by rwa [hkind])
      have hcontinues : ∀ u, Extends s u → Reachable u → ∀ m ∈ members,
          Continues u (u.widenedLiteralType m) := fun u hext hu m hm =>
        continues_widenedLiteralType hu (hext.contains (hmembers m hm))
      obtain ⟨-, hu, hcontains⟩ := continues_widenAll hs hmembers hcontinues
      have hall : Extends (widenAll widenedLiteralType s members).2 t →
          widenAll widenedLiteralType t members =
            ((widenAll widenedLiteralType s members).1, t) :=
        widenAll_of_extends hs hmembers hcontinues fun u hext hu m hm hlater =>
          ih _ (hearlier m (by rwa [hkind])) hu (hext.contains (hmembers m hm)) hlater rfl
      rw [widenedLiteralType_union hs hid hkind] at h ⊢
      rw [widenedLiteralType_union ht hid' ((hgrow.kind hid).trans hkind)]
      dsimp only at h ⊢
      split at h
      next heq =>
        rw [hall h]
        simp [heq]
      next hne =>
        have hgrow' : Extends (widenAll widenedLiteralType s members).2 t :=
          (extends_combine _ _).trans h
        rw [hall hgrow']
        simp only [hne, if_false]
        rw [TypeStore.union, normalizeUnion_of_extends hgrow' hu.wellFormed ht.wellFormed hcontains]
        exact combine_of_extends _ _ h
    · have hbase' : literalBase t.builtins (t.kind id) = none := by
        rwa [hgrow.kind hid, hgrow.builtins]
      have hholds' : holdsTypes (t.kind id) = false := by rwa [hgrow.kind hid]
      rw [widenedLiteralType, widenedLiteralType, widenedLiteralTypeWithin_other hbase hholds,
        widenedLiteralTypeWithin_other hbase' hholds']

theorem widens_of_extends (hs : Reachable s) (ht : Reachable t) {id : TypeId}
    (hid : s.Contains id) (h : Extends (s.widenedLiteralType id).2 t) :
    Widens t id ∧ t.widened id = (s.widenedLiteralType id).1 := by
  have hwiden := widenedLiteralType_of_extends hs ht hid h
  have hfst : t.widened id = (s.widenedLiteralType id).1 := by rw [widened, hwiden]
  exact ⟨⟨((continues_widenedLiteralType hs hid).1.trans h).contains hid, hfst ▸ hwiden⟩, hfst⟩

theorem widenAll_of_extends_self (ht : Reachable t) {members : List TypeId}
    (hmembers : ∀ m ∈ members, t.Contains m)
    (h : Extends (widenAll widenedLiteralType t members).2 t) :
    (∀ m ∈ members, Widens t m) ∧
      widenAll widenedLiteralType t members = (members.map t.widened, t) := by
  induction members with
  | nil => exact ⟨nofun, rfl⟩
  | cons member rest ih =>
    have hmember := hmembers member List.mem_cons_self
    obtain ⟨hgrow, hu, -⟩ := continues_widenedLiteralType ht hmember
    have hlater := (continues_widenAll hu
      (fun m hm => hgrow.contains (hmembers m (List.mem_cons_of_mem _ hm))) fun u hext hu m hm =>
        continues_widenedLiteralType hu
          (hext.contains (hgrow.contains (hmembers m (List.mem_cons_of_mem _ hm))))).1
    obtain ⟨hwidens, -⟩ := widens_of_extends ht ht hmember (hlater.trans h)
    rw [widenAll, hwidens.2] at h ⊢
    obtain ⟨hall, heq⟩ := ih (fun m hm => hmembers m (List.mem_cons_of_mem _ hm)) h
    exact ⟨List.forall_mem_cons.mpr ⟨hwidens, hall⟩, by simp [heq]⟩

/-- What the widened type of a type looks like. -/
theorem Widens.cases (ht : Reachable t) {id : TypeId} (h : Widens t id) :
    (∃ base, literalBase t.builtins (t.kind id) = some base ∧ t.widened id = base) ∨
      (∃ element element', t.kind id = .array element ∧
        t.kind (t.widened id) = .array element') ∨
      (∃ members, t.kind id = .union members ∧ (∀ m ∈ members, Widens t m) ∧
        (members.map t.widened = members ∧ t.widened id = id ∨
          t.union (members.map t.widened) .canonical = (t.widened id, t))) ∨
      literalBase t.builtins (t.kind id) = none ∧ holdsTypes (t.kind id) = false ∧
        t.widened id = id := by
  obtain ⟨hid, hwiden⟩ := h
  rcases kind_cases t.builtins (t.kind id) with
    ⟨base, hbase⟩ | ⟨element, hkind⟩ | ⟨members, hkind⟩ | ⟨hbase, hholds⟩
  · exact .inl ⟨base, hbase, by
      rw [widened, widenedLiteralType, widenedLiteralTypeWithin_literal hbase]⟩
  · rw [widenedLiteralType_array ht hid hkind] at hwiden
    dsimp only at hwiden
    have helement : t.Contains element :=
      ht.wellFormed.children id hid element (by rw [hkind]; exact List.mem_singleton_self _)
    obtain ⟨hgrow, hu, -⟩ := continues_widenedLiteralType ht helement
    refine .inr (.inl ?_)
    split at hwiden
    · exact ⟨element, element, hkind, by rw [← (Prod.mk.inj hwiden).1, hkind]⟩
    · refine ⟨element, (t.widenedLiteralType element).1, hkind, ?_⟩
      have := (hu.wellFormed.kind_intern (.array (t.widenedLiteralType element).1)).2
      rwa [hwiden] at this
  · rw [widenedLiteralType_union ht hid hkind] at hwiden
    dsimp only at hwiden
    have hmembers : ∀ m ∈ members, t.Contains m := fun m hm =>
      ht.wellFormed.children id hid m (by rwa [hkind])
    refine .inr (.inr (.inl ⟨members, hkind, ?_⟩))
    have hlater : Extends (widenAll widenedLiteralType t members).2 t := by
      split at hwiden
      · rw [congrArg Prod.snd hwiden]
      · have := extends_combine (s := (widenAll widenedLiteralType t members).2) .union
          (normalizeUnion (widenAll widenedLiteralType t members).2
            (widenAll widenedLiteralType t members).1 .canonical)
        rwa [← TypeStore.union, hwiden] at this
    obtain ⟨hall, heq⟩ := widenAll_of_extends_self ht hmembers hlater
    rw [heq] at hwiden
    refine ⟨hall, ?_⟩
    split at hwiden
    · next hsame => exact .inl ⟨hsame, (congrArg Prod.fst hwiden).symm⟩
    · exact .inr hwiden
  · exact .inr (.inr (.inr ⟨hbase, hholds, by
      rw [widened, widenedLiteralType, widenedLiteralTypeWithin_other hbase hholds]⟩))

/-- Only unions widen to unions. -/
theorem Widens.kind_ne_union (ht : Reachable t) {id : TypeId} (h : Widens t id)
    (hkind : ∀ ms, t.kind id ≠ .union ms) (ms : List TypeId) : t.kind (t.widened id) ≠ .union ms := by
  rcases h.cases ht with ⟨base, hbase, heq⟩ | ⟨_, _, _, hkind'⟩ | ⟨members, hkind', -⟩ | ⟨-, -, heq⟩
  · have hnone : ∀ i < 13, holdsTypes (new.kind ⟨i⟩) = false := by decide
    have hindex := ht.wellFormed.index_literalBase hbase
    rw [heq, (ht.wellFormed.builtin hindex).2]
    intro hunion
    have := hnone base.index hindex
    simp [hunion, holdsTypes] at this
  · rw [hkind']
    exact TypeKind.noConfusion
  · exact absurd hkind' (hkind members)
  · rw [heq]
    exact hkind ms

/-! ## The flattened list -/

/-- The listed types are not unions, and their widened types are there. -/
structure FlatWidens (t : TypeStore) (flattened : List TypeId) : Prop where
  widens : ∀ id ∈ flattened, Widens t id
  flat : ∀ id ∈ flattened, ∀ ms, t.kind id ≠ .union ms

section

variable {flattened : List TypeId}

theorem FlatWidens.of_subset {more : List TypeId} (h : FlatWidens t flattened)
    (hmore : ∀ id ∈ more, id ∈ flattened) : FlatWidens t more :=
  ⟨fun id hid => h.widens id (hmore id hid), fun id hid => h.flat id (hmore id hid)⟩

/-- A listed type widens to its primitive, is an array, or stays. -/
theorem FlatWidens.cases (ht : Reachable t) (h : FlatWidens t flattened) {id : TypeId}
    (hid : id ∈ flattened) :
    (∃ base, literalBase t.builtins (t.kind id) = some base ∧ t.widened id = base) ∨
      (∃ element element', t.kind id = .array element ∧
        t.kind (t.widened id) = .array element') ∨
      literalBase t.builtins (t.kind id) = none ∧ t.widened id = id := by
  rcases (h.widens id hid).cases ht with hbase | harray | ⟨members, hkind, -⟩ | ⟨hbase, -, heq⟩
  · exact .inl hbase
  · exact .inr (.inl harray)
  · exact absurd hkind (h.flat id hid members)
  · exact .inr (.inr ⟨hbase, heq⟩)

/-- What is asked of a widened list is asked of the list. -/
theorem anyKind_map_widened {p q : TypeKind → Bool}
    (h : ∀ id ∈ flattened, p (t.kind (t.widened id)) = q (t.kind id)) :
    t.anyKind (flattened.map t.widened) p = t.anyKind flattened q := by
  rw [Bool.eq_iff_iff, anyKind_eq_true, anyKind_eq_true]
  constructor
  · rintro ⟨_, hmem, hp⟩
    obtain ⟨id, hid, rfl⟩ := List.mem_map.mp hmem
    exact ⟨id, hid, h id hid ▸ hp⟩
  · rintro ⟨id, hid, hq⟩
    exact ⟨t.widened id, List.mem_map_of_mem hid, (h id hid).symm ▸ hq⟩

/-- The literals that widen to `string`, and `string`. -/
@[simp]
def becomesString : TypeKind → Bool
  | .string | .literalString _ .fresh | .deferred .utf16StringLiteral => true
  | _ => false

@[simp]
def becomesNumber : TypeKind → Bool
  | .number | .literalNumber _ .fresh => true
  | _ => false

@[simp]
def becomesBoolean : TypeKind → Bool
  | .boolean | .literalBoolean _ .fresh => true
  | _ => false

@[simp]
def isRegularBoolean (value : Bool) : TypeKind → Bool
  | .literalBoolean v .regular => v == value
  | _ => false

/-- How the kind of the widened type follows from the kind of the type. -/
structure WidenedKind (k k' : TypeKind) : Prop where
  any : k' = .any ↔ k = .any
  unknown : k' = .unknown ↔ k = .unknown
  never : k' = .never ↔ k = .never
  error : k'.isError = k.isError
  string : k' = .string ↔ becomesString k
  number : k' = .number ↔ becomesNumber k
  boolean : k' = .boolean ↔ becomesBoolean k
  literal : ∀ value, k'.isBooleanLiteral value = isRegularBoolean value k

theorem widenedKind_self {builtins : BuiltinTypes} {k : TypeKind}
    (h : literalBase builtins k = none) : WidenedKind k k := by
  cases k with
  | literalBoolean _ provenance | literalNumber _ provenance | literalString _ provenance =>
    cases provenance with
    | fresh => cases h
    | regular => constructor <;> simp [TypeKind.isBooleanLiteral]
  | deferred query =>
    cases query with
    | bigIntLiteral | utf16StringLiteral => cases h
    | _ => constructor <;> simp [TypeKind.isBooleanLiteral]
  | _ => constructor <;> simp [TypeKind.isBooleanLiteral]

theorem widenedKind_base (ht : WellFormed t) {k : TypeKind} {base : TypeId}
    (h : literalBase t.builtins k = some base) : WidenedKind k (t.kind base) := by
  unfold literalBase at h
  split at h <;> cases h
  · rw [(ht.kind_builtin (·.string) (k := .string) (by decide)).2]
    constructor <;> simp [TypeKind.isBooleanLiteral, TypeKind.isError]
  · rw [(ht.kind_builtin (·.string) (k := .string) (by decide)).2]
    constructor <;> simp [TypeKind.isBooleanLiteral, TypeKind.isError]
  · rw [(ht.kind_builtin (·.number) (k := .number) (by decide)).2]
    constructor <;> simp [TypeKind.isBooleanLiteral, TypeKind.isError]
  · rw [(ht.kind_builtin (·.boolean) (k := .boolean) (by decide)).2]
    constructor <;> simp [TypeKind.isBooleanLiteral, TypeKind.isError]
  · rw [(ht.kind_builtin (·.bigInt) (k := .bigInt) (by decide)).2]
    constructor <;> simp [TypeKind.isBooleanLiteral, TypeKind.isError]

theorem FlatWidens.kind (ht : Reachable t) (h : FlatWidens t flattened) {id : TypeId}
    (hid : id ∈ flattened) : WidenedKind (t.kind id) (t.kind (t.widened id)) := by
  rcases h.cases ht hid with ⟨base, hbase, heq⟩ | ⟨element, element', hkind, hkind'⟩ | ⟨hbase, heq⟩
  · rw [heq]
    exact widenedKind_base ht.wellFormed hbase
  · rw [hkind, hkind']
    constructor <;> simp [TypeKind.isBooleanLiteral, TypeKind.isError]
  · rw [heq]
    exact widenedKind_self hbase

theorem anyKind_string_map_widened (ht : Reachable t) (h : FlatWidens t flattened) :
    t.anyKind (flattened.map t.widened) (· = .string) = t.anyKind flattened becomesString :=
  anyKind_map_widened fun _ hid => by
    rw [Bool.eq_iff_iff, decide_eq_true_eq, (h.kind ht hid).string]

theorem anyKind_number_map_widened (ht : Reachable t) (h : FlatWidens t flattened) :
    t.anyKind (flattened.map t.widened) (· = .number) = t.anyKind flattened becomesNumber :=
  anyKind_map_widened fun _ hid => by
    rw [Bool.eq_iff_iff, decide_eq_true_eq, (h.kind ht hid).number]

theorem hasBoolean_map_widened (ht : Reachable t) (h : FlatWidens t flattened) :
    t.hasBoolean (flattened.map t.widened) = (t.anyKind flattened becomesBoolean ||
      t.anyKind flattened (isRegularBoolean true) && t.anyKind flattened (isRegularBoolean false)) := by
  have hboolean : t.anyKind (flattened.map t.widened) (· = .boolean) =
      t.anyKind flattened becomesBoolean :=
    anyKind_map_widened fun _ hid => by
      rw [Bool.eq_iff_iff, decide_eq_true_eq, (h.kind ht hid).boolean]
  rw [hasBoolean, hboolean, anyKind_map_widened fun _ hid => (h.kind ht hid).literal true,
    anyKind_map_widened fun _ hid => (h.kind ht hid).literal false]

/-- What widens to a base type is left, or the base type is. -/
theorem anyKind_becomes_unionList (ht : WellFormed t) (policy : UnionPolicy)
    {becomes : TypeKind → Bool} (hbecomes : becomes = becomesString ∨ becomes = becomesNumber) :
    t.anyKind (t.unionList policy flattened) becomes = t.anyKind flattened becomes := by
  rw [Bool.eq_iff_iff, anyKind_eq_true, anyKind_eq_true]
  constructor
  · rintro ⟨id, hid, hkind⟩
    rcases mem_unionList_cases ht hid with ⟨hid, -⟩ | ⟨hid, -⟩
    · exact ⟨id, hid, hkind⟩
    · rcases hbecomes with rfl | rfl <;> simp [hid] at hkind
  · rintro ⟨id, hid, hkind⟩
    by_cases hsurvives : t.survives flattened id
    · exact ⟨id, mem_unionList.mpr (.inl ⟨hid, hsurvives⟩), hkind⟩
    · rcases absorbed ht policy hsurvives with hnever | ⟨_, _, hliteral, w, hw, hbase⟩ |
          ⟨_, _, hliteral, w, hw, hbase⟩ | ⟨_, _, hliteral, -⟩
      · rcases hbecomes with rfl | rfl <;> simp [hnever] at hkind
      · rcases hbecomes with rfl | rfl
        · exact ⟨w, hw, by simp [hbase]⟩
        · simp [hliteral] at hkind
      · rcases hbecomes with rfl | rfl
        · simp [hliteral] at hkind
        · exact ⟨w, hw, by simp [hbase]⟩
      · rcases hbecomes with rfl | rfl <;> simp [hliteral] at hkind

theorem isBooleanLiteral_of_isRegularBoolean {k : TypeKind} {value : Bool}
    (h : isRegularBoolean value k) : k.isBooleanLiteral value := by
  unfold isRegularBoolean at h
  split at h
  · exact h
  · cases h

theorem hasBoolean_of_regular (h : t.anyKind flattened (isRegularBoolean true) ∧
    t.anyKind flattened (isRegularBoolean false)) : t.hasBoolean flattened := by
  have hliteral : ∀ value, t.anyKind flattened (isRegularBoolean value) →
      t.anyKind flattened (·.isBooleanLiteral value) := by
    intro value hvalue
    obtain ⟨id, hid, hregular⟩ := anyKind_eq_true.mp hvalue
    exact anyKind_eq_true.mpr ⟨id, hid, isBooleanLiteral_of_isRegularBoolean hregular⟩
  rw [hasBoolean, hliteral true h.1, hliteral false h.2, Bool.and_self, Bool.or_true]

theorem anyKind_becomesBoolean_unionList (ht : WellFormed t) (policy : UnionPolicy)
    (h : t.anyKind flattened becomesBoolean) :
    t.anyKind (t.unionList policy flattened) becomesBoolean := by
  obtain ⟨id, hid, hkind⟩ := anyKind_eq_true.mp h
  by_cases hsurvives : t.survives flattened id
  · exact anyKind_eq_true.mpr ⟨id, mem_unionList.mpr (.inl ⟨hid, hsurvives⟩), hkind⟩
  · rcases absorbed ht policy hsurvives with hnever | ⟨_, _, hliteral, -⟩ |
        ⟨_, _, hliteral, -⟩ | ⟨_, _, hliteral, w, hw, hbase⟩
    · simp [hnever] at hkind
    · simp [hliteral] at hkind
    · simp [hliteral] at hkind
    · exact anyKind_eq_true.mpr ⟨w, hw, by simp [hbase]⟩

theorem exists_boolean_of_hasBoolean (ht : WellFormed t) (policy : UnionPolicy)
    (h : t.hasBoolean flattened) : ∃ id ∈ t.unionList policy flattened, t.kind id = .boolean := by
  rw [← anyKind_boolean_unionList ht policy] at h
  obtain ⟨id, hid, hkind⟩ := anyKind_eq_true.mp h
  exact ⟨id, hid, of_decide_eq_true hkind⟩

/-- What is left widens to `boolean`, or to both of its literals, as the list does. -/
theorem hasBoolean_map_widened_unionList (ht : Reachable t) (h : FlatWidens t flattened)
    {policy : UnionPolicy} (hleft : FlatWidens t (t.unionList policy flattened)) :
    t.hasBoolean ((t.unionList policy flattened).map t.widened) =
      t.hasBoolean (flattened.map t.widened) := by
  have hwell := ht.wellFormed
  rw [hasBoolean_map_widened ht h, hasBoolean_map_widened ht hleft, Bool.eq_iff_iff,
    Bool.or_eq_true, Bool.or_eq_true, Bool.and_eq_true, Bool.and_eq_true]
  constructor
  · rintro (hbecomes | ⟨htrue, hfalse⟩)
    · obtain ⟨id, hid, hkind⟩ := anyKind_eq_true.mp hbecomes
      rcases mem_unionList_cases hwell hid with ⟨hid, -⟩ | ⟨-, hliterals⟩
      · exact .inl (anyKind_eq_true.mpr ⟨id, hid, hkind⟩)
      · obtain ⟨m, hm, p, hp⟩ := hliterals true
        obtain ⟨m', hm', p', hp'⟩ := hliterals false
        cases p with
        | fresh => exact .inl (anyKind_eq_true.mpr ⟨m, hm, by simp [hp]⟩)
        | regular =>
          cases p' with
          | fresh => exact .inl (anyKind_eq_true.mpr ⟨m', hm', by simp [hp']⟩)
          | regular =>
            exact .inr ⟨anyKind_eq_true.mpr ⟨m, hm, by simp [hp]⟩,
              anyKind_eq_true.mpr ⟨m', hm', by simp [hp']⟩⟩
    · have hboth := hasBoolean_of_regular ⟨htrue, hfalse⟩
      obtain ⟨id, hid, hregular⟩ := anyKind_eq_true.mp htrue
      obtain ⟨id', hid', hregular'⟩ := anyKind_eq_true.mp hfalse
      exact absurd ⟨anyKind_eq_true.mpr ⟨id, hid, isBooleanLiteral_of_isRegularBoolean hregular⟩,
        anyKind_eq_true.mpr ⟨id', hid', isBooleanLiteral_of_isRegularBoolean hregular'⟩⟩
        (not_both_booleans hwell policy flattened)
  · rintro (hbecomes | hregular)
    · exact .inl (anyKind_becomesBoolean_unionList hwell policy hbecomes)
    · obtain ⟨id, hid, hkind⟩ := exists_boolean_of_hasBoolean hwell policy
        (hasBoolean_of_regular hregular)
      exact .inl (anyKind_eq_true.mpr ⟨id, hid, by simp [hkind]⟩)

theorem survives_map_widened_unionList (ht : Reachable t) (h : FlatWidens t flattened)
    {policy : UnionPolicy} (hleft : FlatWidens t (t.unionList policy flattened)) :
    t.survives ((t.unionList policy flattened).map t.widened) =
      t.survives (flattened.map t.widened) := by
  funext id
  rw [survives_eq, survives_eq, hasBoolean_map_widened_unionList ht h hleft,
    anyKind_string_map_widened ht h, anyKind_string_map_widened ht hleft,
    anyKind_number_map_widened ht h, anyKind_number_map_widened ht hleft,
    anyKind_becomes_unionList ht.wellFormed policy (.inl rfl),
    anyKind_becomes_unionList ht.wellFormed policy (.inr rfl)]

theorem mergesBooleans_map_widened_unionList (ht : Reachable t) {policy : UnionPolicy}
    (hleft : FlatWidens t (t.unionList policy flattened)) :
    t.mergesBooleans ((t.unionList policy flattened).map t.widened) = false := by
  refine Bool.eq_false_iff.mpr fun hmerges => ?_
  rw [mergesBooleans, Bool.and_eq_true, Bool.and_eq_true,
    anyKind_map_widened fun _ hid => (hleft.kind ht hid).literal true,
    anyKind_map_widened fun _ hid => (hleft.kind ht hid).literal false] at hmerges
  obtain ⟨id, hid, hregular⟩ := anyKind_eq_true.mp hmerges.1.2
  obtain ⟨id', hid', hregular'⟩ := anyKind_eq_true.mp hmerges.2
  exact not_both_booleans ht.wellFormed policy flattened
    ⟨anyKind_eq_true.mpr ⟨id, hid, isBooleanLiteral_of_isRegularBoolean hregular⟩,
      anyKind_eq_true.mpr ⟨id', hid', isBooleanLiteral_of_isRegularBoolean hregular'⟩⟩

/-- The builtin types widen to themselves. -/
theorem widens_builtin (ht : Reachable t) {id : TypeId} (hid : id.index < 13) :
    Widens t id ∧ t.widened id = id := by
  have hcontains := (ht.wellFormed.builtin hid).1
  have hwiden := widenedLiteralType_of_isWidened ht hcontains (isWidened_builtin ht.wellFormed hid)
  have hfst : t.widened id = id := by rw [widened, hwiden]
  exact ⟨⟨hcontains, hfst.symm ▸ hwiden⟩, hfst⟩

theorem index_boolean (ht : WellFormed t) : t.builtins.boolean.index < 13 := by
  rw [ht.grown.builtins]
  decide

theorem FlatWidens.unionList (ht : Reachable t) (h : FlatWidens t flattened)
    (policy : UnionPolicy) : FlatWidens t (t.unionList policy flattened) := by
  have hcases : ∀ id ∈ t.unionList policy flattened,
      id ∈ flattened ∨ id = t.builtins.boolean := by
    intro id hid
    rcases mem_unionList.mp hid with ⟨hid, -⟩ | hid
    · exact .inl hid
    · exact .inr (mem_mergedBoolean.mp hid).2
  refine ⟨fun id hid => ?_, fun id hid ms => ?_⟩
  · rcases hcases id hid with hid | rfl
    · exact h.widens id hid
    · exact (widens_builtin ht (index_boolean ht.wellFormed)).1
  · rcases hcases id hid with hid | rfl
    · exact h.flat id hid ms
    · rw [(ht.wellFormed.kind_builtin (·.boolean) (k := .boolean) (by decide)).2]
      exact nofun

/-! ## Types that are left -/

/-- What the widened union keeps the union kept, unless it widened to a base type. -/
theorem survives_of_survives_widened (ht : Reachable t) (h : FlatWidens t flattened) {id : TypeId}
    (hid : id ∈ flattened) (hsurvives : t.survives (flattened.map t.widened) (t.widened id)) :
    t.survives flattened id ∨ t.kind (t.widened id) = .string ∨
      t.kind (t.widened id) = .number ∨ t.kind (t.widened id) = .boolean := by
  have hwell := ht.wellFormed
  have hkind := h.kind ht hid
  refine or_iff_not_imp_left.mpr fun hdropped => ?_
  rw [survives_eq, anyKind_string_map_widened ht h, anyKind_number_map_widened ht h,
    ← hasBoolean_map_widened_unionList ht h (h.unionList ht .canonical),
    hasBoolean_map_widened ht (h.unionList ht .canonical),
    ← anyKind_becomes_unionList hwell .canonical (.inl rfl),
    ← anyKind_becomes_unionList hwell .canonical (.inr rfl)] at hsurvives
  simp only [Bool.and_eq_true, Bool.not_eq_true', Bool.and_eq_false_iff, decide_eq_true_eq,
    Bool.or_eq_false_iff] at hsurvives
  obtain ⟨⟨⟨hnever, hstring⟩, hnumber⟩, hboolean⟩ := hsurvives
  have hself : literalBase t.builtins (t.kind id) = none → (∀ element, t.kind id ≠ .array element) →
      t.widened id = id := by
    intro hnone hnotarray
    rcases h.cases ht hid with ⟨_, hbase, -⟩ | ⟨element, _, hkind, -⟩ | ⟨-, heq⟩
    · cases hnone.symm.trans hbase
    · exact absurd hkind (hnotarray element)
    · exact heq
  rcases absorbed hwell .canonical hdropped with hlisted | ⟨a, p, hliteral, w, hw, hbase⟩ |
      ⟨a, p, hliteral, w, hw, hbase⟩ | ⟨a, p, hliteral, w, hw, hbase⟩
  · exact absurd (hkind.never.mpr hlisted) hnever
  · cases p with
    | fresh => exact .inl (hkind.string.mpr (by simp [hliteral]))
    | regular =>
      have heq := hself (by rw [hliteral]; rfl) (by simp [hliteral])
      rw [heq, hliteral] at hstring
      have hany : t.anyKind (t.unionList .canonical flattened) becomesString = true :=
        anyKind_eq_true.mpr ⟨w, hw, by simp [hbase]⟩
      simp [hany, TypeKind.isLiteralString] at hstring
  · cases p with
    | fresh => exact .inr (.inl (hkind.number.mpr (by simp [hliteral])))
    | regular =>
      have heq := hself (by rw [hliteral]; rfl) (by simp [hliteral])
      rw [heq, hliteral] at hnumber
      have hany : t.anyKind (t.unionList .canonical flattened) becomesNumber = true :=
        anyKind_eq_true.mpr ⟨w, hw, by simp [hbase]⟩
      simp [hany, TypeKind.isLiteralNumber] at hnumber
  · cases p with
    | fresh => exact .inr (.inr (hkind.boolean.mpr (by simp [hliteral])))
    | regular =>
      have heq := hself (by rw [hliteral]; rfl) (by simp [hliteral])
      rw [heq, hliteral] at hboolean
      have hany : t.anyKind (t.unionList .canonical flattened) becomesBoolean = true :=
        anyKind_eq_true.mpr ⟨w, hw, by simp [hbase]⟩
      simp [hany, TypeKind.isLiteralBoolean] at hboolean

theorem Widens.contains (ht : Reachable t) {id : TypeId} (h : Widens t id) :
    t.Contains (t.widened id) := by
  have := (continues_widenedLiteralType ht h.1).2.2
  rwa [h.2] at this

/-- A base type that the list widens to is one that its union widens to. -/
theorem mem_map_widened_unionList_of_base (ht : Reachable t) (h : FlatWidens t flattened)
    {id : TypeId} (hid : id ∈ flattened)
    (hbase : t.kind (t.widened id) = .string ∨ t.kind (t.widened id) = .number ∨
      t.kind (t.widened id) = .boolean) :
    t.widened id ∈ (t.unionList .canonical flattened).map t.widened := by
  have hwell := ht.wellFormed
  have hleft := h.unionList ht .canonical
  have hsame : ∀ other ∈ t.unionList .canonical flattened,
      t.kind (t.widened other) = t.kind (t.widened id) →
        t.widened id ∈ (t.unionList .canonical flattened).map t.widened := by
    intro other hother heq
    have hfresh : isFreshDeferred (t.kind (t.widened other)) = false := by
      rw [heq]
      rcases hbase with hkind | hkind | hkind <;> rw [hkind] <;> rfl
    have := hwell.eq_of_kind_eq ((hleft.widens other hother).contains ht)
      ((h.widens id hid).contains ht) hfresh heq
    exact this ▸ List.mem_map_of_mem hother
  have hkind := h.kind ht hid
  rcases hbase with hbase | hbase | hbase
  · have hany := anyKind_eq_true.mpr ⟨id, hid, hkind.string.mp hbase⟩
    rw [← anyKind_becomes_unionList hwell .canonical (.inl rfl)] at hany
    obtain ⟨other, hother, hbecomes⟩ := anyKind_eq_true.mp hany
    exact hsame other hother (((hleft.kind ht hother).string.mpr hbecomes).trans hbase.symm)
  · have hany := anyKind_eq_true.mpr ⟨id, hid, hkind.number.mp hbase⟩
    rw [← anyKind_becomes_unionList hwell .canonical (.inr rfl)] at hany
    obtain ⟨other, hother, hbecomes⟩ := anyKind_eq_true.mp hany
    exact hsame other hother (((hleft.kind ht hother).number.mpr hbecomes).trans hbase.symm)
  · have hany := anyKind_eq_true.mpr ⟨id, hid, hkind.boolean.mp hbase⟩
    obtain ⟨other, hother, hbecomes⟩ := anyKind_eq_true.mp
      (anyKind_becomesBoolean_unionList hwell .canonical hany)
    exact hsame other hother (((hleft.kind ht hother).boolean.mpr hbecomes).trans hbase.symm)

theorem contains_map_widened (ht : Reachable t) (h : FlatWidens t flattened) {id : TypeId}
    (hid : id ∈ flattened.map t.widened) : t.Contains id := by
  obtain ⟨other, hother, rfl⟩ := List.mem_map.mp hid
  exact (h.widens other hother).contains ht

/-- The widened members of the union are left where those of the list are. -/
theorem mem_surviving_map_widened_unionList (ht : Reachable t) (h : FlatWidens t flattened)
    {id : TypeId} :
    id ∈ t.surviving ((t.unionList .canonical flattened).map t.widened) ↔
      id ∈ t.surviving (flattened.map t.widened) := by
  have hwell := ht.wellFormed
  have hleft := h.unionList ht .canonical
  have hbuiltin := (hwell.kind_builtin (·.boolean) (k := .boolean) (by decide)).2
  have hsurvives := survives_map_widened_unionList ht h hleft
  have hmerges := mergesBooleans_map_widened_unionList ht hleft
  rw [surviving, surviving, List.mem_append, List.mem_append, List.mem_filter, List.mem_filter,
    mem_mergedBoolean, mem_mergedBoolean, hsurvives, hmerges]
  constructor
  · rintro (⟨hid, hleaves⟩ | ⟨hfalse, -⟩)
    · obtain ⟨other, hother, rfl⟩ := List.mem_map.mp hid
      rcases mem_unionList.mp hother with ⟨hother, -⟩ | hmerged
      · exact .inl ⟨List.mem_map_of_mem hother, hleaves⟩
      · have heq := (mem_mergedBoolean.mp hmerged).2
        have hself : t.widened other = t.builtins.boolean := by
          rw [heq]
          exact (widens_builtin ht (index_boolean hwell)).2
        rw [hself]
        have hboolean : t.hasBoolean (flattened.map t.widened) := by
          rw [← hasBoolean_map_widened_unionList ht h hleft, hasBoolean_map_widened ht hleft,
            Bool.or_eq_true]
          exact .inl (anyKind_eq_true.mpr ⟨other, hother, by simp [heq, hbuiltin]⟩)
        cases hlisted : t.anyKind (flattened.map t.widened) (· = .boolean) with
        | true =>
          obtain ⟨id, hid, hkind⟩ := anyKind_eq_true.mp hlisted
          have hid' := eq_builtin_boolean hwell (contains_map_widened ht h hid)
            (of_decide_eq_true hkind)
          exact .inl ⟨hid' ▸ hid, survives_of_kind hbuiltin (by simp) rfl rfl rfl⟩
        | false =>
          refine .inr ⟨?_, rfl⟩
          rw [mergesBooleans_eq, hlisted, hboolean]
          rfl
    · cases hfalse
  · rintro (⟨hid, hleaves⟩ | ⟨hmerged, rfl⟩)
    · left
      refine ⟨?_, hleaves⟩
      obtain ⟨other, hother, rfl⟩ := List.mem_map.mp hid
      rcases survives_of_survives_widened ht h hother hleaves with hkept | hbase
      · exact List.mem_map_of_mem (mem_unionList.mpr (.inl ⟨hother, hkept⟩))
      · exact mem_map_widened_unionList_of_base ht h hother hbase
    · left
      rw [mergesBooleans, Bool.and_eq_true, Bool.and_eq_true,
        anyKind_map_widened fun _ hid => (h.kind ht hid).literal true,
        anyKind_map_widened fun _ hid => (h.kind ht hid).literal false] at hmerged
      obtain ⟨other, hother, hkind⟩ := exists_boolean_of_hasBoolean hwell .canonical
        (hasBoolean_of_regular ⟨hmerged.1.2, hmerged.2⟩)
      have heq := eq_builtin_boolean hwell (hleft.widens other hother).1 hkind
      have hself := (widens_builtin ht (index_boolean hwell)).2
      refine ⟨?_, survives_of_kind hbuiltin (by simp) rfl rfl rfl⟩
      have := List.mem_map_of_mem (f := t.widened) hother
      rwa [heq, hself] at this

/-! ## The order of the members -/

/-- The key of one of the types that literals widen to. -/
def IsBaseKey (t : TypeStore) (key : TypeOrderKey) : Prop :=
  ∃ base, (base = t.builtins.string ∨ base = t.builtins.number ∨ base = t.builtins.boolean) ∧
    key = t.stableOrderKey base 0

/-- The keys of the base types are theirs alone. -/
theorem IsBaseKey.unique (ht : WellFormed t) {key : TypeOrderKey} (h : IsBaseKey t key) :
    ∃ base, ∀ id, t.Contains id → t.stableOrderKey id 0 = key → id = base := by
  obtain ⟨base, hbase, rfl⟩ := h
  have hkinds : t.Contains base ∧
      (t.kind base = .string ∨ t.kind base = .number ∨ t.kind base = .boolean) := by
    rcases hbase with rfl | rfl | rfl
    · have := ht.kind_builtin (·.string) (k := .string) (by decide)
      exact ⟨this.1, .inl this.2⟩
    · have := ht.kind_builtin (·.number) (k := .number) (by decide)
      exact ⟨this.1, .inr (.inl this.2)⟩
    · have := ht.kind_builtin (·.boolean) (k := .boolean) (by decide)
      exact ⟨this.1, .inr (.inr this.2)⟩
  obtain ⟨hcontains, hkind⟩ := hkinds
  refine ⟨base, fun id hid hkey => ?_⟩
  rw [stableOrderKey_root, stableOrderKey_root] at hkey
  have heq : t.kind id = t.kind base := by
    rcases hkind with hkind | hkind | hkind <;> rw [hkind] at hkey ⊢ <;>
    · cases hid : t.kind id with
      | invalid reason =>
        rw [hid] at hkey
        cases reason <;> simp [TypeKind.orderKey, TypeOrderKey.variant, TypeOrderVariant.ctorIdx]
          at hkey
      | _ =>
        first
        | rfl
        | rw [hid] at hkey
          simp [TypeKind.orderKey, TypeOrderKey.variant, TypeOrderVariant.ctorIdx] at hkey
  refine ht.eq_of_kind_eq hid hcontains ?_ heq
  rw [heq]
  rcases hkind with hkind | hkind | hkind <;> rw [hkind] <;> rfl

/-- The listed types whose widened types have the key and are left in their union. -/
def widensToKey (t : TypeStore) (flattened : List TypeId) (key : TypeOrderKey) : List TypeId :=
  flattened.filter fun id => t.survives (flattened.map t.widened) (t.widened id) &&
    t.stableOrderKey (t.widened id) 0 = key

/-- In the order of their own keys the types of a key widen to the same types, one after the
other, as in the listed order. -/
def KeepsOrder (t : TypeStore) (flattened : List TypeId) (key : TypeOrderKey) : Prop :=
  ((sortByKey (t.stableOrderKey · 0) (t.widensToKey flattened key)).map t.widened).eraseDups =
    ((t.widensToKey flattened key).map t.widened).eraseDups

theorem keepsOrder_of_isBaseKey (ht : Reachable t) (h : FlatWidens t flattened)
    {key : TypeOrderKey} (hkey : IsBaseKey t key) :
    ((t.surviving ((t.unionList .canonical flattened).map t.widened)).filter
        (t.stableOrderKey · 0 = key)).eraseDups =
      ((t.surviving (flattened.map t.widened)).filter (t.stableOrderKey · 0 = key)).eraseDups ∧
      KeepsOrder t flattened key := by
  have hwell := ht.wellFormed
  obtain ⟨base, hbase⟩ := hkey.unique hwell
  have hall : ∀ ids : List TypeId, (∀ id ∈ ids, t.Contains id) →
      ∀ id ∈ (t.surviving ids).filter (t.stableOrderKey · 0 = key), id = base := by
    intro ids hids id hid
    obtain ⟨hid, heq⟩ := List.mem_filter.mp hid
    exact hbase id (contains_of_mem_surviving hwell hids hid) (of_decide_eq_true heq)
  have hkeys : ∀ ids : List TypeId, (∀ id ∈ ids, id ∈ t.widensToKey flattened key) →
      ∀ id ∈ ids.map t.widened, id = base := by
    intro ids hids id hid
    obtain ⟨other, hother, rfl⟩ := List.mem_map.mp hid
    obtain ⟨hother, heq⟩ := List.mem_filter.mp (hids other hother)
    exact hbase _ ((h.widens other hother).contains ht)
      (of_decide_eq_true (Bool.and_eq_true_iff.mp heq).2)
  constructor
  · refine eraseDups_eq_of_forall_eq (b := base) ?_ ?_ ?_
    · exact hall _ fun id => contains_map_widened ht (h.unionList ht .canonical)
    · exact hall _ fun id => contains_map_widened ht h
    · simp only [List.mem_filter, mem_surviving_map_widened_unionList ht h]
  · refine eraseDups_eq_of_forall_eq (b := base) ?_ ?_ ?_
    · exact hkeys _ fun id hid => (mem_sortByKey _).mp hid
    · exact hkeys _ fun id hid => hid
    · simp only [List.mem_map, mem_sortByKey]

/-- The widened types of another key come from types that are left. -/
theorem survives_of_mem_widensToKey (ht : Reachable t) (h : FlatWidens t flattened)
    {key : TypeOrderKey} (hkey : ¬ IsBaseKey t key) {id : TypeId}
    (hid : id ∈ t.widensToKey flattened key) : t.survives flattened id := by
  have hwell := ht.wellFormed
  obtain ⟨hid, hleaves⟩ := List.mem_filter.mp hid
  obtain ⟨hleaves, heq⟩ := Bool.and_eq_true_iff.mp hleaves
  refine (survives_of_survives_widened ht h hid hleaves).resolve_right fun hbase => hkey ?_
  have hsame : ∀ base, t.Contains base ∧ t.kind base = t.kind (t.widened id) →
      t.widened id = base := fun base hbase' => by
    refine hwell.eq_of_kind_eq ((h.widens id hid).contains ht) hbase'.1 ?_ hbase'.2.symm
    rcases hbase with hkind | hkind | hkind <;> rw [hkind] <;> rfl
  refine ⟨t.widened id, ?_, (of_decide_eq_true heq).symm⟩
  rcases hbase with hkind | hkind | hkind
  · exact .inl (hsame _ (hkind ▸ hwell.kind_builtin (·.string) (by decide)))
  · exact .inr (.inl (hsame _ (hkind ▸ hwell.kind_builtin (·.number) (by decide))))
  · exact .inr (.inr (hsame _ (hkind ▸ hwell.kind_builtin (·.boolean) (by decide))))

theorem keepsOrder_iff_of_not_isBaseKey (ht : Reachable t) (h : FlatWidens t flattened)
    {key : TypeOrderKey} (hkey : ¬ IsBaseKey t key) :
    ((t.surviving ((t.unionList .canonical flattened).map t.widened)).filter
        (t.stableOrderKey · 0 = key)).eraseDups =
      ((t.surviving (flattened.map t.widened)).filter (t.stableOrderKey · 0 = key)).eraseDups ↔
      KeepsOrder t flattened key := by
  have hwell := ht.wellFormed
  have hleft := h.unionList ht .canonical
  have hboolean : t.stableOrderKey t.builtins.boolean 0 ≠ key :=
    fun heq => hkey ⟨_, .inr (.inr rfl), heq.symm⟩
  have hself := (widens_builtin ht (index_boolean hwell)).2
  have hnone : ∀ ids, (t.mergedBoolean ids).filter (t.stableOrderKey · 0 = key) = [] :=
    fun ids => filter_mergedBoolean fun _ => by simpa using hboolean
  have hmap : ∀ ids : List TypeId,
      ((ids.map t.widened).filter (t.survives (flattened.map t.widened))).filter
          (t.stableOrderKey · 0 = key) =
        (ids.filter fun id => t.survives (flattened.map t.widened) (t.widened id) &&
          t.stableOrderKey (t.widened id) 0 = key).map t.widened := by
    intro ids
    rw [List.filter_filter, List.filter_map]
    simp only [Function.comp_def, Bool.and_comm]
  have hkept : (t.surviving flattened).filter (fun id =>
      t.survives (flattened.map t.widened) (t.widened id) &&
        t.stableOrderKey (t.widened id) 0 = key) = t.widensToKey flattened key := by
    rw [surviving, List.filter_append, filter_mergedBoolean fun _ => by simp [hself, hboolean],
      List.append_nil, List.filter_filter]
    refine List.filter_congr fun id hid => ?_
    rw [Bool.eq_iff_iff, Bool.and_eq_true]
    refine ⟨And.left, fun hleaves => ⟨hleaves, ?_⟩⟩
    exact survives_of_mem_widensToKey ht h hkey (List.mem_filter.mpr ⟨hid, hleaves⟩)
  have hlist : (t.unionList .canonical flattened).filter (fun id =>
      t.survives (flattened.map t.widened) (t.widened id) &&
        t.stableOrderKey (t.widened id) 0 = key) =
      (sortByKey (t.stableOrderKey · 0) (t.widensToKey flattened key)).eraseDups := by
    rw [unionList_eq, filter_eraseDups, arrange, filter_sortByKey_comm, hkept]
  simp only [surviving, survives_map_widened_unionList ht h hleft, List.filter_append, hnone,
    List.append_nil, hmap, hlist, eraseDups_map_eraseDups]
  rfl

theorem unionList_map_widened_iff (ht : Reachable t) (h : FlatWidens t flattened) :
    t.unionList .canonical ((t.unionList .canonical flattened).map t.widened) =
        t.unionList .canonical (flattened.map t.widened) ↔
      ∀ key, KeepsOrder t flattened key := by
  rw [unionList_eq _ ((t.unionList .canonical flattened).map t.widened),
    unionList_eq _ (flattened.map t.widened)]
  refine Iff.trans eraseDups_sortByKey_eq_iff (forall_congr' fun key => ?_)
  by_cases hkey : IsBaseKey t key
  · obtain ⟨heq, hkeeps⟩ := keepsOrder_of_isBaseKey ht h hkey
    exact iff_of_true heq hkeeps
  · exact keepsOrder_iff_of_not_isBaseKey ht h hkey

/-! ## Unions of widened types -/

/-- The union of the widened list absorbs as the union of the list. -/
theorem absorbs_map_widened (ht : Reachable t) (h : FlatWidens t flattened) :
    t.anyKind (flattened.map t.widened) (· = .any) = t.anyKind flattened (· = .any) ∧
      t.anyKind (flattened.map t.widened) (· = .unknown) = t.anyKind flattened (· = .unknown) ∧
      (flattened.map t.widened).find? (fun id => (t.kind id).isError) =
        flattened.find? fun id => (t.kind id).isError := by
  refine ⟨?_, ?_, ?_⟩
  · exact anyKind_map_widened fun _ hid => by
      rw [Bool.eq_iff_iff, decide_eq_true_eq, decide_eq_true_eq, (h.kind ht hid).any]
  · exact anyKind_map_widened fun _ hid => by
      rw [Bool.eq_iff_iff, decide_eq_true_eq, decide_eq_true_eq, (h.kind ht hid).unknown]
  · rw [List.find?_map]
    have hsame : flattened.find? ((fun id => (t.kind id).isError) ∘ t.widened) =
        flattened.find? fun id => (t.kind id).isError :=
      List.find?_congr fun id hid => (h.kind ht hid).error
    rw [hsame]
    cases herror : flattened.find? fun id => (t.kind id).isError with
    | none => rfl
    | some error =>
      have hkind : (t.kind error).isError := by simpa using List.find?_some herror
      rcases h.cases ht (List.mem_of_find?_eq_some herror) with
        ⟨base, hbase, -⟩ | ⟨_, _, harray, -⟩ | ⟨-, heq⟩
      · cases hlisted : t.kind error <;> simp_all [literalBase, TypeKind.isError]
      · simp [harray, TypeKind.isError] at hkind
      · rw [Option.map_some, heq]

theorem FlatWidens.flatMap_unionMembers (ht : Reachable t) (h : FlatWidens t flattened) :
    (flattened.map t.widened).flatMap t.unionMembers = flattened.map t.widened := by
  have hself : ∀ id ∈ flattened.map t.widened, t.unionMembers id = [id] := by
    intro id hid
    obtain ⟨other, hother, rfl⟩ := List.mem_map.mp hid
    exact unionMembers_of_ne_union
      ((h.widens other hother).kind_ne_union ht (h.flat other hother))
  rw [List.flatMap_congr hself]
  simp

end

theorem Widens.flatWidens (ht : Reachable t) {id : TypeId} (h : Widens t id) :
    FlatWidens t (t.unionMembers id) := by
  by_cases hunion : ∃ ms, t.kind id = .union ms
  · obtain ⟨ms, hkind⟩ := hunion
    have hmembers : t.unionMembers id = ms := by rw [unionMembers, hkind]
    rw [hmembers]
    refine ⟨?_, fun m hm => ((ht.wellFormed.unions id ms h.1 hkind).2 m hm).union⟩
    rcases h.cases ht with ⟨_, hbase, -⟩ | ⟨_, _, harray, -⟩ | ⟨ms', hkind', hall, -⟩ | ⟨-, hholds, -⟩
    · simp [hkind, literalBase] at hbase
    · cases hkind.symm.trans harray
    · cases hkind.symm.trans hkind'
      exact hall
    · simp [hkind, holdsTypes] at hholds
  · have hnot : ∀ ms, t.kind id ≠ .union ms := fun ms hms => hunion ⟨ms, hms⟩
    rw [unionMembers_of_ne_union hnot]
    constructor
    · simpa using h
    · simpa using hnot

/-- A widened union can stand for its widened members. -/
theorem normalizeFlat_append_unionMembers_widened (ht : Reachable t) {id : TypeId}
    (h : Widens t id) {front rest : List TypeId}
    (hids' : ∀ id ∈ front ++ rest, t.Contains id) :
    t.normalizeFlat .canonical (front ++ (t.unionMembers (t.widened id) ++ rest)) =
      t.normalizeFlat .canonical (front ++ ((t.unionMembers id).map t.widened ++ rest)) := by
  have hflat := h.flatWidens ht
  by_cases hnot : ∀ ms, t.kind id ≠ .union ms
  · rw [unionMembers_of_ne_union hnot, unionMembers_of_ne_union (h.kind_ne_union ht hnot),
      List.map_singleton]
  · obtain ⟨ms, hkind⟩ := not_forall_not.mp hnot
    have hmembers : t.unionMembers id = ms := by rw [unionMembers, hkind]
    rw [hmembers] at hflat ⊢
    rcases h.cases ht with ⟨_, hbase, -⟩ | ⟨_, _, harray, -⟩ |
        ⟨ms', hkind', -, ⟨hsame, heq⟩ | hunion⟩ | ⟨-, hholds, -⟩
    · simp [hkind, literalBase] at hbase
    · cases hkind.symm.trans harray
    · cases hkind.symm.trans hkind'
      rw [heq, hmembers, hsame]
    · cases hkind.symm.trans hkind'
      have hcontains : ∀ m ∈ ms.map t.widened, t.Contains m :=
        fun m => contains_map_widened ht hflat
      have hids : t.unionMembers (t.widened id) =
          (t.normalizeFlat .canonical (ms.map t.widened)).ids := by
        have := unionMembers_union ht.wellFormed .canonical hcontains
        rwa [hunion, normalizeUnion_eq_normalizeFlat, hflat.flatMap_unionMembers ht] at this
      rw [hids]
      exact normalizeFlat_append_ids_append ht.wellFormed
        (fun id hid => by
          rcases List.mem_append.mp hid with hid | hid
          · exact hids' id (List.mem_append_left _ hid)
          · rcases List.mem_append.mp hid with hid | hid
            · exact hcontains id hid
            · exact hids' id (List.mem_append_right _ hid)) (.inl rfl)
    · simp [hkind, holdsTypes] at hholds

/-- The union of widened types lists what the types list. -/
theorem normalizeUnion_map_widened (ht : Reachable t) {members : List TypeId}
    (h : ∀ m ∈ members, Widens t m) :
    t.normalizeUnion (members.map t.widened) .canonical =
      t.normalizeFlat .canonical ((members.flatMap t.unionMembers).map t.widened) := by
  have hall : ∀ front : List TypeId, (∀ id ∈ front, t.Contains id) →
      t.normalizeFlat .canonical (front ++ (members.map t.widened).flatMap t.unionMembers) =
        t.normalizeFlat .canonical
          (front ++ (members.flatMap t.unionMembers).map t.widened) := by
    induction members with
    | nil => exact fun _ _ => rfl
    | cons member rest ih =>
      intro front hfront
      have hmember := h member List.mem_cons_self
      have hrest := fun m hm => h m (List.mem_cons_of_mem _ hm)
      have hcontains : ∀ id ∈ (t.unionMembers member).map t.widened, t.Contains id :=
        fun id => contains_map_widened ht (hmember.flatWidens ht)
      rw [List.map_cons, List.flatMap_cons, List.flatMap_cons, List.map_append,
        normalizeFlat_append_unionMembers_widened ht hmember ?_, ← List.append_assoc,
        ih hrest _ ?_, List.append_assoc]
      · intro id hid
        rcases List.mem_append.mp hid with hid | hid
        · exact hfront id hid
        · exact hcontains id hid
      · intro id hid
        rcases List.mem_append.mp hid with hid | hid
        · exact hfront id hid
        · obtain ⟨m, hm, hid⟩ := List.mem_flatMap.mp hid
          obtain ⟨other, hother, rfl⟩ := List.mem_map.mp hm
          exact contains_unionMembers ht.wellFormed.toConsistent ((hrest other hother).contains ht)
            hid
  rw [normalizeUnion_eq_normalizeFlat]
  exact hall [] nofun

theorem flatWidens_flatMap (ht : Reachable t) {members : List TypeId}
    (h : ∀ m ∈ members, Widens t m) : FlatWidens t (members.flatMap t.unionMembers) := by
  constructor
  · intro id hid
    obtain ⟨m, hm, hid⟩ := List.mem_flatMap.mp hid
    exact ((h m hm).flatWidens ht).widens id hid
  · intro id hid
    obtain ⟨m, hm, hid⟩ := List.mem_flatMap.mp hid
    exact ((h m hm).flatWidens ht).flat id hid

theorem unionList_singleton {policy : UnionPolicy} {id : TypeId} (h : t.kind id ≠ .never) :
    t.unionList policy [id] = [id] := by
  have hsurvives : t.survives [id] id = true := by
    rw [survives_eq, hasBoolean]
    simp only [anyKind_singleton]
    cases hkind : t.kind id <;>
      simp_all [TypeKind.isLiteralString, TypeKind.isLiteralNumber, TypeKind.isLiteralBoolean,
        TypeKind.isBooleanLiteral]
  have hmerges : t.mergesBooleans [id] = false := by
    unfold mergesBooleans
    simp only [anyKind_singleton]
    cases hkind : t.kind id <;> simp [TypeKind.isBooleanLiteral]
  have hsurviving : t.surviving [id] = [id] := by simp [surviving, mergedBoolean, hsurvives, hmerges]
  rw [unionList_eq, hsurviving]
  cases policy <;> exact eraseDups_of_nodup (List.nodup_singleton id)

theorem not_never_of_mem_unionList (ht : WellFormed t) {policy : UnionPolicy}
    {flattened : List TypeId} {id : TypeId} (hid : id ∈ t.unionList policy flattened) :
    t.kind id ≠ .never := by
  rcases mem_unionList_cases ht hid with ⟨-, hkind⟩ | ⟨hkind, -⟩
  · exact hkind
  · rw [hkind]
    exact nofun

/-- The union that was combined from what is left widens to the union of what that widens to. -/
theorem combine_ofList_map_widened (ht : Reachable t) {flattened : List TypeId} {id : TypeId}
    (hflat : FlatWidens t flattened) (hid : Widens t id)
    (hany : t.anyKind flattened (· = .any) = false)
    (hunknown : t.anyKind flattened (· = .unknown) = false)
    (herror : flattened.find? (fun id => (t.kind id).isError) = none)
    (hunion : t.combine .union
      (.ofList t.builtins.never (t.unionList .canonical flattened)) = (id, t)) :
    t.combine .union (.ofList t.builtins.never (t.unionList .canonical
      ((t.unionList .canonical flattened).map t.widened))) = (t.widened id, t) := by
  have hwell := ht.wellFormed
  have hleft := hflat.unionList ht .canonical
  cases hlist : t.unionList .canonical flattened with
  | nil =>
    rw [hlist] at hunion
    have hnever : id = t.builtins.never := (Prod.mk.inj hunion).1.symm
    have hself : t.widened t.builtins.never = t.builtins.never :=
      (widens_builtin ht (by rw [hwell.grown.builtins]; decide)).2
    have hnil : t.unionList .canonical [] = [] := by
      simp [unionList, mergedBoolean, mergesBooleans, arrange, sortByKey]
    rw [List.map_nil, hnil, hnever, hself]
    rfl
  | cons first rest =>
    cases rest with
    | nil =>
      rw [hlist] at hunion hleft
      have hfirst : id = first := (Prod.mk.inj hunion).1.symm
      subst hfirst
      have hmem : id ∈ t.unionList .canonical flattened := by rw [hlist]; exact List.mem_cons_self
      have hnever : t.kind (t.widened id) ≠ .never := fun hkind =>
        not_never_of_mem_unionList hwell hmem ((hleft.kind ht List.mem_cons_self).never.mp hkind)
      rw [List.map_singleton, unionList_singleton hnever]
      rfl
    | cons second more =>
      rw [← hlist]
      have hcombined : Normalized.ofList t.builtins.never (t.unionList .canonical flattened) =
          .combined (t.unionList .canonical flattened) := by rw [hlist]; rfl
      rw [hcombined] at hunion
      have hkind : t.kind id = .union (t.unionList .canonical flattened) := by
        have := (hwell.kind_intern (.union (t.unionList .canonical flattened))).2
        rw [← combine, hunion] at this
        exact this
      rcases hid.cases ht with ⟨_, hbase, -⟩ | ⟨_, _, harray, -⟩ |
          ⟨ms', hkind', -, ⟨hsame, heq⟩ | hwidened⟩ | ⟨-, hholds, -⟩
      · simp [hkind, literalBase] at hbase
      · cases hkind.symm.trans harray
      · cases hkind.symm.trans hkind'
        rw [hsame, unionList_unionList hwell, hcombined, heq]
        exact hunion
      · cases hkind.symm.trans hkind'
        obtain ⟨hany', hunknown', herror'⟩ := unabsorbed_unionList hwell .canonical hany
          hunknown herror
        obtain ⟨hanymap, hunknownmap, herrormap⟩ := absorbs_map_widened ht hleft
        rw [TypeStore.union, normalizeUnion_eq_normalizeFlat, hleft.flatMap_unionMembers ht,
          normalizeFlat_of_unabsorbed (hanymap.trans hany') (hunknownmap.trans hunknown')
            (herrormap.trans herror')] at hwidened
        exact hwidened
      · simp [hkind, holdsTypes] at hholds

/-- What combines to one type is one normal form. -/
theorem combine_union_inj (ht : WellFormed t) {n n' : Normalized} {id : TypeId}
    (hn : ∀ other, n = .existing other → ∀ ms, t.kind other ≠ .union ms)
    (hn' : ∀ other, n' = .existing other → ∀ ms, t.kind other ≠ .union ms)
    (h : t.combine .union n = (id, t)) (h' : t.combine .union n' = (id, t)) : n = n' := by
  have hkind := kind_combine ht.toConsistent .union n
  have hkind' := kind_combine ht.toConsistent .union n'
  rw [h] at hkind
  rw [h'] at hkind'
  cases n with
  | existing other =>
    cases n' with
    | existing other' =>
      rw [(Prod.mk.inj h).1, (Prod.mk.inj h').1]
    | combined ms' =>
      have hother : other = id := (Prod.mk.inj h).1
      exact absurd hkind' (hother ▸ hn other rfl ms')
  | combined ms =>
    cases n' with
    | existing other' =>
      have hother : other' = id := (Prod.mk.inj h').1
      exact absurd hkind (hother ▸ hn' other' rfl ms)
    | combined ms' => rw [TypeKind.union.inj (hkind.symm.trans hkind')]

/-- Widening does not bring types of one key into another order, or something absorbs the
union. -/
def WidensInOrder (t : TypeStore) (members : List TypeId) : Prop :=
  t.anyKind (members.flatMap t.unionMembers) (· = .any) ∨
    t.anyKind (members.flatMap t.unionMembers) (· = .unknown) ∨
    t.anyKind (members.flatMap t.unionMembers) (·.isError) ∨
    ∀ key, KeepsOrder t (members.flatMap t.unionMembers) key

theorem FlatWidens.kind_ne_union_of_mem (ht : Reachable t) {flattened : List TypeId}
    (h : FlatWidens t flattened) {policy : UnionPolicy} {id : TypeId}
    (hid : id ∈ t.unionList policy (flattened.map t.widened)) (ms : List TypeId) :
    t.kind id ≠ .union ms := by
  rcases mem_unionList_cases ht.wellFormed hid with ⟨hid, -⟩ | ⟨hkind, -⟩
  · obtain ⟨other, hother, rfl⟩ := List.mem_map.mp hid
    exact (h.widens other hother).kind_ne_union ht (h.flat other hother) ms
  · rw [hkind]
    exact nofun

theorem nonunion_of_ofList (ht : WellFormed t) {ids : List TypeId}
    (hids : ∀ id ∈ ids, ∀ ms, t.kind id ≠ .union ms) {id : TypeId}
    (h : Normalized.ofList t.builtins.never ids = .existing id) (ms : List TypeId) :
    t.kind id ≠ .union ms := by
  have hmem : id ∈ (Normalized.ofList t.builtins.never ids).ids := by
    rw [h]
    exact List.mem_singleton_self id
  rcases Normalized.mem_ids_ofList hmem with rfl | hmem
  · rw [(ht.kind_builtin (·.never) (k := .never) (by decide)).2]
    exact nofun
  · exact hids id hmem ms

/-- In a store that has everything, the union widens to the union of the widened types exactly
when widening keeps the order. -/
theorem widened_eq_union_iff (ht : Reachable t) {members : List TypeId} {id result : TypeId}
    (h : ∀ m ∈ members, Widens t m) (hunion : t.union members .canonical = (id, t))
    (hid : Widens t id) (hresult : t.union (members.map t.widened) .canonical = (result, t)) :
    t.widened id = result ↔ WidensInOrder t members := by
  have hwell := ht.wellFormed
  have hflat := flatWidens_flatMap ht h
  have hleft := hflat.unionList ht .canonical
  unfold WidensInOrder
  obtain ⟨hanymap, hunknownmap, herrormap⟩ := absorbs_map_widened ht hflat
  rw [TypeStore.union, normalizeUnion_eq_normalizeFlat] at hunion
  rw [TypeStore.union, normalizeUnion_map_widened ht h] at hresult
  set flattened := members.flatMap t.unionMembers
  cases hany : t.anyKind flattened (· = .any) with
  | true =>
    refine iff_of_true ?_ (.inl rfl)
    rw [normalizeFlat, hany, if_pos rfl] at hunion
    rw [normalizeFlat, hanymap, hany, if_pos rfl] at hresult
    rw [← (Prod.mk.inj hunion).1, ← (Prod.mk.inj hresult).1]
    exact (widens_builtin ht (by rw [hwell.grown.builtins]; decide)).2
  | false =>
    cases hunknown : t.anyKind flattened (· = .unknown) with
    | true =>
      refine iff_of_true ?_ (.inr (.inl rfl))
      rw [normalizeFlat, hany, hunknown, if_neg Bool.false_ne_true, if_pos rfl] at hunion
      rw [normalizeFlat, hanymap, hunknownmap, hany, hunknown, if_neg Bool.false_ne_true, if_pos rfl] at hresult
      rw [← (Prod.mk.inj hunion).1, ← (Prod.mk.inj hresult).1]
      exact (widens_builtin ht (by rw [hwell.grown.builtins]; decide)).2
    | false =>
      cases herror : flattened.find? fun id => (t.kind id).isError with
      | some error =>
        have hkind : (t.kind error).isError := by simpa using List.find?_some herror
        have hmem := List.mem_of_find?_eq_some herror
        refine iff_of_true ?_ (.inr (.inr (.inl (anyKind_eq_true.mpr ⟨error, hmem, hkind⟩))))
        rw [normalizeFlat, hany, hunknown, if_neg Bool.false_ne_true, if_neg Bool.false_ne_true, herror] at hunion
        rw [normalizeFlat, hanymap, hunknownmap, hany, hunknown, if_neg Bool.false_ne_true, if_neg Bool.false_ne_true,
          herrormap, herror] at hresult
        have heq : error = id := (Prod.mk.inj hunion).1
        have heq' : error = result := (Prod.mk.inj hresult).1
        rcases hflat.cases ht hmem with ⟨_, hbase, -⟩ | ⟨_, _, harray, -⟩ | ⟨-, hself⟩
        · cases hlisted : t.kind error <;> simp_all [literalBase, TypeKind.isError]
        · simp [harray, TypeKind.isError] at hkind
        · rw [← heq, ← heq', hself]
      | none =>
        have hnone : t.anyKind flattened (·.isError) = false :=
          anyKind_eq_false.mpr fun id hid =>
            Bool.eq_false_iff.mpr (List.find?_eq_none.mp herror id hid)
        simp only [hnone, Bool.false_eq_true, false_or]
        rw [normalizeFlat_of_unabsorbed hany hunknown herror] at hunion
        rw [normalizeFlat_of_unabsorbed (hanymap.trans hany) (hunknownmap.trans hunknown)
          (herrormap.trans herror)] at hresult
        have hwidened := combine_ofList_map_widened ht hflat hid hany hunknown herror hunion
        rw [← unionList_map_widened_iff ht hflat]
        have hempty : t.unionList .canonical ((t.unionList .canonical flattened).map t.widened) =
            [] ↔ t.unionList .canonical (flattened.map t.widened) = [] := by
          simp only [List.eq_nil_iff_forall_not_mem, unionList_eq, List.mem_eraseDups,
            (arrange_perm .canonical _).mem_iff]
          rw [← unionList_eq]
          simp only [mem_surviving_map_widened_unionList ht hflat]
        rw [← Normalized.ofList_eq_iff hempty]
        constructor
        · rintro rfl
          exact combine_union_inj hwell
            (fun _ => nonunion_of_ofList hwell fun _ => hleft.kind_ne_union_of_mem ht)
            (fun _ => nonunion_of_ofList hwell fun _ => hflat.kind_ne_union_of_mem ht)
            hwidened hresult
        · intro heq
          rw [heq, hresult] at hwidened
          exact (Prod.mk.inj hwidened).1.symm

def isFreshLiteral : TypeKind → Bool
  | .literalBoolean _ .fresh | .literalNumber _ .fresh | .literalString _ .fresh => true
  | _ => false

theorem not_isFreshLiteral {builtins : BuiltinTypes} {k : TypeKind}
    (h : literalBase builtins k = none) : isFreshLiteral k = false := by
  unfold isFreshLiteral
  split <;> simp_all [literalBase]

/-- Both sides of the law, computed one after the other: the widened union, and the union of the
widened types. -/
def widenUnion (s : TypeStore) (members : List TypeId) : (TypeId × TypeId) × TypeStore :=
  let (id, t) := s.union members .canonical
  let (left, u) := t.widenedLiteralType id
  let (widened, v) := widenAll widenedLiteralType u members
  let (right, w) := v.union widened .canonical
  ((left, right), w)

/-- Widening is idempotent and leaves no fresh literal, and it commutes with a canonical union
exactly when it keeps the order of the members. -/
theorem widenedLiteralType_laws_iff (hs : Reachable s) :
    (∀ id, s.Contains id → ∀ result t, s.widenedLiteralType id = (result, t) →
      t.widenedLiteralType result = (result, t) ∧
        ∀ inner, ReachesThrough t result inner → isFreshLiteral (t.kind inner) = false) ∧
    ∀ members, (∀ m ∈ members, s.Contains m) → ∀ left right t,
      s.widenUnion members = ((left, right), t) → (left = right ↔ WidensInOrder t members) := by
  constructor
  · intro id hid result t hresult
    obtain ⟨-, ht, hcontains⟩ := continues_widenedLiteralType hs hid
    have hwidened := isWidened_widenedLiteralType hs hid
    rw [hresult] at ht hcontains hwidened
    exact ⟨widenedLiteralType_of_isWidened ht hcontains hwidened,
      fun inner hinner => not_isFreshLiteral (hwidened inner hinner)⟩
  · intro members hmembers left right t hrun
    rcases hunion : s.union members .canonical with ⟨id, t₁⟩
    rcases hleft : t₁.widenedLiteralType id with ⟨left', t₂⟩
    rcases hall : widenAll widenedLiteralType t₂ members with ⟨widened, t₃⟩
    rcases hright : t₃.union widened .canonical with ⟨right', t₄⟩
    obtain ⟨⟨rfl, rfl⟩, rfl⟩ : (left' = left ∧ right' = right) ∧ t₄ = t := by
      simpa [widenUnion, hunion, hleft, hall, hright] using hrun
    -- Each step extends the store before it.
    have hgrow₁ : Extends s t₁ := by
      have := extends_combine (s := s) .union (s.normalizeUnion members .canonical)
      rwa [← TypeStore.union, hunion] at this
    have ht₁ : Reachable t₁ := by
      have hafter : Reachable (s.union members .canonical).2 := hs.union hmembers
      rwa [hunion] at hafter
    have hid : t₁.Contains id := by
      have hafter : (s.union members .canonical).2.Contains (s.union members .canonical).1 :=
        contains_combine hs.wellFormed.toConsistent fun _ =>
          contains_normalizeUnion hs.wellFormed hmembers
      rwa [hunion] at hafter
    obtain ⟨hgrow₂, ht₂, -⟩ := continues_widenedLiteralType ht₁ hid
    rw [hleft] at hgrow₂ ht₂
    have hmembers₂ : ∀ m ∈ members, t₂.Contains m :=
      fun m hm => (hgrow₁.trans hgrow₂).contains (hmembers m hm)
    have hcontinues : ∀ u, Extends t₂ u → Reachable u → ∀ m ∈ members,
        Continues u (u.widenedLiteralType m) := fun u hext hu m hm =>
      continues_widenedLiteralType hu (hext.contains (hmembers₂ m hm))
    obtain ⟨hgrow₃, ht₃, hwidened⟩ := continues_widenAll ht₂ hmembers₂ hcontinues
    rw [hall] at hgrow₃ ht₃ hwidened
    have hgrow₄ : Extends t₃ t₄ := by
      have := extends_combine (s := t₃) .union (t₃.normalizeUnion widened .canonical)
      rwa [← TypeStore.union, hright] at this
    have ht₄ : Reachable t₄ := by
      have hafter : Reachable (t₃.union widened .canonical).2 := ht₃.union hwidened
      rwa [hright] at hafter
    -- The last store answers as each of them did.
    have hunion₄ : t₄.union members .canonical = (id, t₄) := by
      have hlater := hgrow₂.trans (hgrow₃.trans hgrow₄)
      rw [TypeStore.union, normalizeUnion_of_extends (hgrow₁.trans hlater) hs.wellFormed
        ht₄.wellFormed hmembers]
      have := combine_of_extends (s := s) (t := t₄) members .canonical (by rwa [hunion])
      rwa [hunion] at this
    obtain ⟨hwidens, hleft₄⟩ := widens_of_extends ht₁ ht₄ hid
      (by rw [hleft]; exact hgrow₃.trans hgrow₄)
    replace hleft₄ : t₄.widened id = left' := by rw [hleft₄, hleft]
    have hall₄ : widenAll widenedLiteralType t₄ members = (widened, t₄) := by
      have := widenAll_of_extends (t := t₄) ht₂ hmembers₂ hcontinues (fun u hext hu m hm hlater =>
        widenedLiteralType_of_extends hu ht₄ (hext.contains (hmembers₂ m hm)) hlater)
        (by rwa [hall])
      rwa [hall] at this
    obtain ⟨hmembers₄, hwidened₄⟩ := widenAll_of_extends_self ht₄
      (fun m hm => (hgrow₃.trans hgrow₄).contains (hmembers₂ m hm)) (by rw [hall₄])
    have hsame : widened = members.map t₄.widened := by
      rw [hall₄] at hwidened₄
      exact (Prod.mk.inj hwidened₄).1
    have hright₄ : t₄.union (members.map t₄.widened) .canonical = (right', t₄) := by
      rw [← hsame, TypeStore.union, normalizeUnion_of_extends hgrow₄ ht₃.wellFormed ht₄.wellFormed
        hwidened]
      have := combine_of_extends (s := t₃) (t := t₄) widened .canonical (by rw [hright])
      rwa [hright] at this
    rw [← hleft₄]
    exact widened_eq_union_iff ht₄ hmembers₄ hunion₄ hwidens hright₄

theorem widenedLiteralType_laws_booleanLiterals :
    (∀ id, booleanLiterals.Contains id → ∀ result t,
      booleanLiterals.widenedLiteralType id = (result, t) →
        t.widenedLiteralType result = (result, t) ∧
          ∀ inner, ReachesThrough t result inner → isFreshLiteral (t.kind inner) = false) ∧
    ∀ members, (∀ m ∈ members, booleanLiterals.Contains m) → ∀ left right t,
      booleanLiterals.widenUnion members = ((left, right), t) →
        (left = right ↔ WidensInOrder t members) :=
  widenedLiteralType_laws_iff reachable_booleanLiterals

/-! ### Arrays of one key -/

/-- The arrays `(true | { a: number; b: string })[]` and `(boolean | { b: string; a: number })[]`,
the `true` fresh. -/
def unorderedArrays : TypeStore :=
  let literal := twoPropertyOrders.intern (.literalBoolean true .fresh)
  let first := literal.2.union [literal.1, ⟨13⟩] .canonical
  let second := first.2.union [first.2.builtins.boolean, ⟨14⟩] .canonical
  ((second.2.intern (.array first.1)).2.intern (.array second.1)).2

theorem reachable_unorderedArrays : Reachable unorderedArrays :=
  .intern (.intern (.union (.union (.intern reachable_twoPropertyOrders (by decide +kernel) nofun
    nofun) (by decide +kernel)) (by decide +kernel)) (by decide +kernel) nofun nofun)
    (by decide +kernel) nofun nofun

/-- The arrays change places when they are widened before the union is made. -/
theorem widenUnion_unorderedArrays :
    ¬ ∀ s : TypeStore, Reachable s → ∀ members, (∀ m ∈ members, s.Contains m) →
      (s.widenUnion members).1.1 = (s.widenUnion members).1.2 := by
  intro h
  have := h unorderedArrays reachable_unorderedArrays [⟨19⟩, ⟨18⟩] (by decide +kernel)
  exact absurd this (by decide +kernel)

end TypeStore

end Tsz.Semantics
