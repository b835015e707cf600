import Mathlib.Logic.Equiv.Basic
import Tsz.Semantics.OrderKey

/-!
# Renaming stores

Two stores can hold the same types under different ids, because they allocated them in a
different order or in between others. A `Renaming` takes the ids of one to those of the
other; ordering keys do not see it.
-/

namespace Tsz.Semantics

open Sorting TypeOrderKey

/-! ## Kinds -/

section congruence

variable {f g : TypeId → TypeId}

theorem Signature.rename_congr {signature : Signature}
    (h : ∀ c ∈ signature.children, f c = g c) : signature.rename f = signature.rename g := by
  simp only [Signature.children, List.mem_append, List.mem_map, List.mem_singleton] at h
  have hparameters : signature.parameters.map (ParameterType.rename f) =
      signature.parameters.map (ParameterType.rename g) :=
    List.map_congr_left fun p hp => by simp [ParameterType.rename, h _ (.inl ⟨p, hp, rfl⟩)]
  simp [Signature.rename, hparameters, h _ (.inr rfl)]

theorem ObjectShape.rename_congr {shape : ObjectShape} (h : ∀ c ∈ shape.children, f c = g c) :
    shape.rename f = shape.rename g := by
  simp only [ObjectShape.children, List.mem_append, List.mem_map, List.mem_flatMap] at h
  have hproperties : shape.properties.map (Property.rename f) =
      shape.properties.map (Property.rename g) :=
    List.map_congr_left fun p hp => by
      simp [Property.rename, h _ (.inl (.inl ⟨p, hp, rfl⟩))]
  have hsignature : ∀ signature, signature ∈ shape.callSignatures ∨
      signature ∈ shape.constructSignatures → signature.rename f = signature.rename g :=
    fun signature hs => Signature.rename_congr fun c hc => h c (.inl (.inr ⟨signature, hs, hc⟩))
  have hcall : shape.callSignatures.map (Signature.rename f) =
      shape.callSignatures.map (Signature.rename g) :=
    List.map_congr_left fun signature hs => hsignature signature (.inl hs)
  have hconstruct : shape.constructSignatures.map (Signature.rename f) =
      shape.constructSignatures.map (Signature.rename g) :=
    List.map_congr_left fun signature hs => hsignature signature (.inr hs)
  have hindex : shape.indexSignatures.map (IndexSignature.rename f) =
      shape.indexSignatures.map (IndexSignature.rename g) :=
    List.map_congr_left fun index hi => by
      simp [IndexSignature.rename, h _ (.inr ⟨index, hi, rfl⟩)]
  simp [ObjectShape.rename, hproperties, hcall, hconstruct, hindex]

theorem DeferredType.mapTypes_congr {T U : Type} {f g : T → U} {d : DeferredType T}
    (h : ∀ c ∈ d.children, f c = g c) : d.mapTypes f = d.mapTypes g := by
  cases d <;> simp_all [DeferredType.children, DeferredType.mapTypes]
  all_goals first | exact Option.map_congr h | exact Option.map_congr h.2.2

theorem TypeKind.rename_congr {k : TypeKind} (h : ∀ c ∈ k.children, f c = g c) :
    k.rename f = k.rename g := by
  cases k with
  | invalid reason => cases reason <;> simp_all [TypeKind.children, TypeKind.rename, InvalidType.rename]
  | object shape => exact congrArg _ (ObjectShape.rename_congr h)
  | classInstance declaration name arguments properties =>
    simp only [TypeKind.children, List.mem_append] at h
    simp only [TypeKind.rename, ObjectShape.rename_congr fun c hc => h c (.inr hc),
      List.map_congr_left fun c hc => h c (.inl hc)]
  | function signature => exact congrArg _ (Signature.rename_congr h)
  | shapeFunction signature => exact congrArg _ (Signature.rename_congr h)
  | deferred query => exact congrArg _ (DeferredType.mapTypes_congr h)
  | _ => simp_all [TypeKind.children, TypeKind.rename]

end congruence

/-! ## Keys -/

section key

variable {f : TypeId → TypeId} {nested nested' : TypeId → TypeOrderKey}

theorem Signature.orderKey_rename {signature : Signature}
    (h : ∀ c ∈ signature.children, nested' (f c) = nested c) :
    (signature.rename f).orderKey nested' = signature.orderKey nested := by
  simp only [Signature.children, List.mem_append, List.mem_map, List.mem_singleton] at h
  simp only [Signature.orderKey, Signature.rename, List.map_map, h _ (.inr rfl)]
  refine congrArg (fun keys => sequence [_, sequence keys, _])
    (List.map_congr_left fun p hp => ?_)
  simp [ParameterType.rename, h _ (.inl ⟨p, hp, rfl⟩)]

theorem propertiesOrderKey_rename {properties : List Property}
    (h : ∀ p ∈ properties, nested' (f p.ty) = nested p.ty) :
    propertiesOrderKey nested' (properties.map (Property.rename f)) =
      propertiesOrderKey nested properties := by
  simp only [propertiesOrderKey, List.map_map]
  refine congrArg (fun keys => sequence (sortByKey id keys))
    (List.map_congr_left fun p hp => ?_)
  simp [Property.rename, h p hp]

theorem ObjectShape.properties_rename {shape : ObjectShape}
    (h : ∀ c ∈ shape.children, nested' (f c) = nested c) :
    propertiesOrderKey nested' (shape.rename f).properties =
      propertiesOrderKey nested shape.properties :=
  propertiesOrderKey_rename fun p hp => h _ <| by
    simp only [ObjectShape.children, List.mem_append, List.mem_map]
    exact .inl (.inl ⟨p, hp, rfl⟩)

theorem ObjectShape.signatures_rename {shape : ObjectShape}
    (h : ∀ c ∈ shape.children, nested' (f c) = nested c) {signatures : List Signature}
    (hsub : signatures ⊆ shape.callSignatures ++ shape.constructSignatures) :
    (signatures.map (Signature.rename f)).map (Signature.orderKey nested') =
      signatures.map (Signature.orderKey nested) := by
  rw [List.map_map]
  refine List.map_congr_left fun signature hs => Signature.orderKey_rename fun c hc => h c ?_
  simp only [ObjectShape.children, List.mem_append, List.mem_flatMap]
  exact .inl (.inr ⟨signature, List.mem_append.mp (hsub hs), hc⟩)

theorem ObjectShape.indexSignatures_rename {shape : ObjectShape}
    (h : ∀ c ∈ shape.children, nested' (f c) = nested c) :
    (shape.rename f).indexSignatures.map (IndexSignature.orderKey nested') =
      shape.indexSignatures.map (IndexSignature.orderKey nested) := by
  rw [ObjectShape.rename, List.map_map]
  refine List.map_congr_left fun index hi => ?_
  have : nested' (f index.value) = nested index.value := h _ <| by
    simp only [ObjectShape.children, List.mem_append, List.mem_map]
    exact .inr ⟨index, hi, rfl⟩
  simp [IndexSignature.rename, IndexSignature.orderKey, this]

theorem DeferredType.mapTypes_mapTypes {T U V : Type} {f : T → U} {g : U → V} {h : T → V}
    {d : DeferredType T} (hd : ∀ c ∈ d.children, g (f c) = h c) :
    (d.mapTypes f).mapTypes g = d.mapTypes h := by
  rw [DeferredType.mapTypes_comp]
  exact DeferredType.mapTypes_congr hd

/-- The key of a kind does not depend on the ids it uses, only on the keys behind them. -/
theorem TypeKind.orderKey_rename {deferred deferred' : TypeId → TypeOrderKey} {k : TypeKind}
    (h : ∀ c ∈ k.children, nested' (f c) = nested c)
    (hdeferred : ∀ c ∈ k.children, deferred' (f c) = deferred c) :
    (k.rename f).orderKey nested' deferred' = k.orderKey nested deferred := by
  have hlist : ∀ ids : List TypeId, (∀ c ∈ ids, nested' (f c) = nested c) →
      (ids.map f).map nested' = ids.map nested := by
    intro ids hids
    rw [List.map_map]
    exact List.map_congr_left hids
  cases k with
  | invalid reason =>
    cases reason <;>
      simp_all [TypeKind.children, TypeKind.rename, InvalidType.rename, TypeKind.orderKey]
  | tuple elements | union elements | intersection elements =>
    simp only [TypeKind.rename, TypeKind.orderKey, hlist elements h]
  | array element => simp_all [TypeKind.children, TypeKind.rename, TypeKind.orderKey]
  | libraryReference declaration name arguments =>
    simp only [TypeKind.rename, TypeKind.orderKey, hlist arguments h]
  | object shape =>
    simp only [TypeKind.rename, TypeKind.orderKey, ObjectShape.properties_rename h,
      ObjectShape.indexSignatures_rename h]
    simp only [ObjectShape.rename, ObjectShape.signatures_rename h (List.subset_append_left _ _),
      ObjectShape.signatures_rename h (List.subset_append_right _ _)]
  | classInstance declaration name arguments properties =>
    simp only [TypeKind.children, List.mem_append] at h
    simp only [TypeKind.rename, TypeKind.orderKey,
      ObjectShape.properties_rename fun c hc => h c (.inr hc),
      hlist arguments fun c hc => h c (.inl hc)]
  | function signature =>
    exact congrArg (fun key => variant .function [_, key]) (Signature.orderKey_rename h)
  | shapeFunction signature =>
    exact congrArg (fun key => variant .shapeFunction [key]) (Signature.orderKey_rename h)
  | deferred query =>
    simp only [TypeKind.rename, TypeKind.orderKey, DeferredType.mapTypes_mapTypes hdeferred]
  | _ => rfl

end key

/-! ## Stores -/

namespace TypeStore

/-- Ids of one store taken to ids of the same types in another. -/
structure Renaming (s t : TypeStore) where
  toFun : TypeId → TypeId
  injective : Function.Injective toFun
  contains : ∀ id, s.Contains id → t.Contains (toFun id)
  kind : ∀ id, s.Contains id → t.kind (toFun id) = (s.kind id).rename toFun

namespace Renaming

variable {s t : TypeStore}

/-- A store that grew keeps its ids. -/
def ofExtends (h : Extends s t) : Renaming s t where
  toFun := id
  injective := Function.injective_id
  contains _ := h.contains
  kind i hi := by rw [id, h.kind hi, TypeKind.rename_id]

theorem orderKeyWithin_eq (hs : Consistent s) (r : Renaming s t) (levels : Nat) {i : TypeId}
    (hi : s.Contains i) : t.orderKeyWithin levels (r.toFun i) = s.orderKeyWithin levels i := by
  induction levels using Nat.twoStepInduction generalizing i with
  | zero => rfl
  | one =>
    rw [orderKeyWithin, orderKeyWithin, r.kind i hi]
    exact TypeKind.orderKey_rename (fun _ _ => rfl) (fun _ _ => rfl)
  | more levels ih ih' =>
    rw [orderKeyWithin, orderKeyWithin, r.kind i hi]
    exact TypeKind.orderKey_rename (fun c hc => ih' (hs.children i hi c hc))
      (fun c hc => ih (hs.children i hi c hc))

/-- Ordering keys do not depend on allocation. -/
theorem stableOrderKey_eq (hs : Consistent s) (r : Renaming s t) (depth : Nat) {i : TypeId}
    (hi : s.Contains i) : t.stableOrderKey (r.toFun i) depth = s.stableOrderKey i depth :=
  r.orderKeyWithin_eq hs (65 - depth) hi

/-- The second renaming extends the first. -/
def Agrees {s' t' : TypeStore} (r : Renaming s t) (r' : Renaming s' t') : Prop :=
  ∀ id, s.Contains id → r'.toFun id = r.toFun id

/-- Give one more id of the first store a name. The new name is taken from whatever id had
it before, which is none of the ids of the store. -/
def retarget (r : Renaming s t) (i j : TypeId) : TypeId → TypeId :=
  Equiv.swap (r.toFun i) j ∘ r.toFun

theorem retarget_injective (r : Renaming s t) (i j : TypeId) :
    Function.Injective (r.retarget i j) :=
  (Equiv.swap _ _).injective.comp r.injective

theorem retarget_self (r : Renaming s t) (i j : TypeId) : r.retarget i j i = j :=
  Equiv.swap_apply_left _ _

theorem retarget_of_ne (r : Renaming s t) {i j k : TypeId} (hki : k ≠ i) (hkj : r.toFun k ≠ j) :
    r.retarget i j k = r.toFun k :=
  Equiv.swap_apply_of_ne_of_ne (fun h => hki (r.injective h)) hkj

/-- Interning the same kind in two stores extends their renaming to the two ids. -/
theorem intern (hs : Consistent s) (ht : Consistent t) (r : Renaming s t) {k : TypeKind}
    (hk : ∀ c ∈ k.children, s.Contains c) (hfresh : isFreshDeferred k = false) :
    ∃ r' : Renaming (s.intern k).2 (t.intern (k.rename r.toFun)).2, r.Agrees r' ∧
      r'.toFun (s.intern k).1 = (t.intern (k.rename r.toFun)).1 := by
  have hfresh' : isFreshDeferred (k.rename r.toFun) = false := by
    cases k with
    | deferred query => cases query <;> exact hfresh
    | _ => rfl
  have hgrow := t.extends_intern (k.rename r.toFun)
  have hj := ht.kind_intern (k.rename r.toFun)
  rcases s.intern_cases k with ⟨i, hi, heq⟩ | ⟨hnone, heq⟩
  · obtain ⟨hicontains, hikind⟩ := hs.interned k i hi
    have hlookup : t.interned.lookup (k.rename r.toFun) = some (r.toFun i) := by
      have := ht.shared _ (r.contains i hicontains)
      rw [r.kind i hicontains, hikind] at this
      exact this hfresh'
    have heq' : t.intern (k.rename r.toFun) = (r.toFun i, t) := by
      rw [TypeStore.intern, hlookup]
    rw [heq, heq']
    exact ⟨r, fun _ _ => rfl, rfl⟩
  · -- the new id of the first store is named after the id of the kind in the second
    set j := (t.intern (k.rename r.toFun)).1 with hjdef
    have hagrees : ∀ i, s.Contains i → r.retarget ⟨s.kinds.length⟩ j i = r.toFun i := by
      intro i hi
      refine r.retarget_of_ne ?_ fun hij => ?_
      · rintro rfl
        exact Nat.lt_irrefl _ hi
      · have hkind : (s.kind i).rename r.toFun = k.rename r.toFun := by
          rw [← r.kind i hi, ← hgrow.kind (r.contains i hi), hij, hj.2]
        have hik := TypeKind.rename_injective r.injective hkind
        have := hs.shared i hi (hik ▸ hfresh)
        rw [hik, hnone] at this
        cases this
    have hrename : ∀ l : TypeKind, (∀ c ∈ l.children, s.Contains c) →
        l.rename (r.retarget ⟨s.kinds.length⟩ j) = l.rename r.toFun :=
      fun l hl => TypeKind.rename_congr fun c hc => hagrees c (hl c hc)
    rw [heq]
    refine ⟨⟨r.retarget ⟨s.kinds.length⟩ j, r.retarget_injective _ _, ?_, ?_⟩, hagrees,
      r.retarget_self _ _⟩
    · intro i hi
      rcases contains_push.mp hi with hi | hi
      · rw [hagrees i hi]
        exact hgrow.contains (r.contains i hi)
      · obtain rfl : i = ⟨s.kinds.length⟩ := congrArg TypeId.mk hi
        rw [r.retarget_self]
        exact hj.1
    · intro i hi
      rcases contains_push.mp hi with hi | hi
      · have hkind : (s.push k).kind i = s.kind i := kind_push_of_contains hi
        rw [hagrees i hi, hgrow.kind (r.contains i hi), r.kind i hi]
        exact (hrename _ (hs.children i hi)).symm.trans (congrArg _ hkind.symm)
      · obtain rfl : i = ⟨s.kinds.length⟩ := congrArg TypeId.mk hi
        have hkind : (s.push k).kind ⟨s.kinds.length⟩ = k := kind_push_last
        rw [r.retarget_self, hj.2]
        exact (hrename k hk).symm.trans (congrArg _ hkind.symm)

end Renaming

end TypeStore

end Tsz.Semantics
