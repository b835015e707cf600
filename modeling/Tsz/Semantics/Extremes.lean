import Tsz.Semantics.Combination
import Tsz.Semantics.RelationRuns

/-!
# The greatest and the least types

`never` is below and `unknown` above every type that has been evaluated, wherever in a comparison
the two meet. `any` is above every type in assignments only.

## Main results

* `relates_extremes` — the laws of `never`, `unknown`, `any` and the empty object type.
-/

namespace Tsz.Semantics

open TypeStore Tsz.Semantics.Relation

variable {σ : Type} {C : RelationContext σ} {s : σ} {r : Relation} {levels : Nat}
  {source target : TypeId} {mode : RelationMode}

/-! ## Comparisons that succeed -/

/-- Evaluating a type leads to a type that stands for itself and is not an invalid one. -/
def Completes (C : RelationContext σ) (depth : Nat) (s : σ) (ty forced : TypeId) (t : σ) : Prop :=
  C.forceType ty depth s = (.complete forced, t) ∧ (C.types t).Settled forced ∧
    isInvalid ((C.types t).kind forced) = false

/-- Only deferred types are evaluated, and the queries only add types. -/
structure Evaluates (C : RelationContext σ) : Prop where
  forcesDeferred : ForcesDeferred C
  forceType_grows : ∀ s t depth, Extends (C.types s) (C.types (C.forceType t depth s).2)
  classConstructorSignature_grows : ∀ s declaration,
    Extends (C.types s) (C.types (C.classConstructorSignature declaration s).2)
  canonicalUnion_grows : ∀ s members,
    Extends (C.types s) (C.types (C.canonicalUnion members s).2)

theorem Later.extends (hC : Evaluates C) {t : σ} (h : Later C s t) :
    Extends (C.types s) (C.types t) := by
  induction h with
  | refl => exact .refl _
  | forceType _ ty depth ih => exact ih.trans (hC.forceType_grows _ ty depth)
  | classConstructorSignature _ declaration ih =>
    exact ih.trans (hC.classConstructorSignature_grows _ declaration)
  | canonicalUnion _ members ih => exact ih.trans (hC.canonicalUnion_grows _ members)

theorem Completes.eq_of_settled (hC : ForcesDeferred C) {depth : Nat} {ty forced : TypeId} {t : σ}
    (h : Completes C depth s ty forced t) (hty : (C.types s).Settled ty) : forced = ty ∧ t = s := by
  have hforce := h.1
  rw [hC s ty depth hty] at hforce
  cases hforce
  exact ⟨rfl, rfl⟩

theorem Completes.extends (hC : Evaluates C) {depth : Nat} {ty forced : TypeId} {t : σ}
    (h : Completes C depth s ty forced t) : Extends (C.types s) (C.types t) := by
  have hgrows := hC.forceType_grows s ty depth
  rwa [h.1] at hgrows

theorem TypeStore.Settled.mono {store store' : TypeStore} {ty : TypeId} (hty : store.Settled ty)
    (hcontains : store.Contains ty) (h : Extends store store') : store'.Settled ty := by
  intro query
  rw [h.kind hcontains]
  exact hty query

/-- A kind other than that of an unknown id. -/
theorem TypeStore.contains_of_kind_ne_error {store : TypeStore} {ty : TypeId}
    (h : store.kind ty ≠ .error) : store.Contains ty := by
  by_contra hnot
  exact h (List.getD_eq_default _ _ (Nat.le_of_not_lt hnot))

theorem relates_self (ty : TypeId) : Relates C levels r s ty ty mode := by
  refine ⟨s, ?_⟩
  unfold relateInner
  split
  next => rfl
  next h => exact absurd rfl h

theorem assignmentSource_of_settled_target {store : TypeStore} (htarget : store.Settled target)
    (steps : Nat) (source : TypeId) : assignmentSource store target mode steps source = source := by
  cases steps with
  | zero => rfl
  | succ steps =>
    unfold assignmentSource
    split
    next =>
      cases hkind : store.kind target with
      | deferred query => exact absurd hkind (htarget query)
      | _ => simp
    next => rfl

/-- A pair in progress counts as related. -/
theorem relates_of_mem_active
    (hsettled : (C.types s).Settled source ∨ (C.types s).Settled target)
    (hkeys : anyToKeysOfParameter (C.types s) source target mode = false)
    (hactive : { source, target, mode } ∈ r.active) :
    Relates C (levels + 1) r s source target mode := by
  by_cases hne : source = target
  · exact hne ▸ relates_self source
  have hsource : assignmentSource (C.types s) target mode ((C.types s).kinds.length + 1) source =
      source := by
    rcases hsettled with h | h
    · exact assignmentSource_of_settled h _
    · exact assignmentSource_of_settled_target h _ _
  refine ⟨s, ?_⟩
  unfold relateInner
  rw [if_neg hne, RelationM.runFrom_get_bind]
  simp [hsource, hkeys, hne, hactive]

/-- Two types that stand for themselves compare when the match on their kinds succeeds. -/
theorem relates_of_settled (hC : ForcesDeferred C) (hsource : (C.types s).Settled source)
    (htarget : (C.types s).Settled target)
    (h : ∀ inner : Relation, inner.evaluationDepth = r.evaluationDepth →
      ∃ t, (relateForced C (relateInner C levels inner) source target mode).runFrom s =
        (.ok (), t)) :
    Relates C (levels + 1) r s source target mode := by
  by_cases hne : source = target
  · exact hne ▸ relates_self source
  · by_cases hactive : { source, target, mode } ∈ r.active
    · exact relates_of_mem_active (.inl hsource) (anyToKeysOfParameter_of_settled htarget) hactive
    · obtain ⟨t, ht⟩ := h (inside r source target mode) rfl
      exact ⟨t, (runFrom_relateInner_of_settled hC levels hne hactive hsource htarget).trans ht⟩

/-- The comparison of two different types goes on to evaluate both, if one of them stands for
itself. -/
theorem exists_runFrom_relateActive (levels : Nat) (hne : source ≠ target)
    (hactive : { source, target, mode } ∉ r.active)
    (hsettled : (C.types s).Settled source ∨ (C.types s).Settled target)
    (hkeys : anyToKeysOfParameter (C.types s) source target mode = false) :
    ∃ inner : Relation, inner.evaluationDepth = r.evaluationDepth ∧
      (relateInner C (levels + 1) r source target mode).runFrom s =
        (relateActive C (relateInner C levels inner) inner source target mode).runFrom s := by
  have hsource : assignmentSource (C.types s) target mode ((C.types s).kinds.length + 1) source =
      source := by
    rcases hsettled with h | h
    · exact assignmentSource_of_settled h _
    · exact assignmentSource_of_settled_target h _ _
  have hreference : deferredReference ((C.types s).kind source) = none ∨
      deferredReference ((C.types s).kind target) = none :=
    hsettled.imp deferredReference_of_settled deferredReference_of_settled
  let outer := inside r source target mode
  refine ⟨{ outer with
    sourceReferences := pushReference outer.sourceReferences source
      (deferredReference ((C.types s).kind source))
    targetReferences := pushReference outer.targetReferences target
      (deferredReference ((C.types s).kind target)) }, rfl, ?_⟩
  rw [relateInner, if_neg hne, RelationM.runFrom_get_bind]
  simp only [hsource, hkeys, hne, hactive, if_false, Bool.false_eq_true]
  unfold relateWithReferenceStacks
  rw [RelationM.runFrom_get_bind]
  rcases hreference with h | h
  · simp only [h, Option.bind_none]
    rfl
  · simp only [h, Option.bind_none]
    split
    next hnone => cases hnone
    next => rfl

theorem runFrom_force {ty forced : TypeId} {t : σ}
    (h : C.forceType ty r.evaluationDepth s = (.complete forced, t)) :
    (force C r ty source target).runFrom s = (.ok forced, t) := by
  unfold force
  rw [RelationM.runFrom_modifyGet_bind, h]
  rfl

/-- Two types compare when what they evaluate to does, if one of them stands for itself. -/
theorem relates_of_forced (hC : ForcesDeferred C) {source' target' : TypeId} {s₁ s₂ : σ}
    (hsettled : (C.types s).Settled source ∨ (C.types s).Settled target)
    (hkeys : anyToKeysOfParameter (C.types s) source target mode = false)
    (hsource : C.forceType source r.evaluationDepth s = (.complete source', s₁))
    (htarget : C.forceType target r.evaluationDepth s₁ = (.complete target', s₂))
    (hsource' : (C.types s₂).Settled source') (htarget' : (C.types s₂).Settled target')
    (h : ∀ n r, levels ≤ n →
      ∃ t, (relateForced C (relateInner C n r) source' target' mode).runFrom s₂ = (.ok (), t)) :
    Relates C (levels + 2) r s source target mode := by
  by_cases hne : source = target
  · exact hne ▸ relates_self source
  by_cases hactive : { source, target, mode } ∈ r.active
  · exact relates_of_mem_active hsettled hkeys hactive
  obtain ⟨inner, hdepth, hrun⟩ :=
    exists_runFrom_relateActive (levels + 1) hne hactive hsettled hkeys
  unfold Relates
  rw [hrun, relateActive, RelationM.runFrom_bind, runFrom_force (hdepth ▸ hsource)]
  dsimp only
  rw [RelationM.runFrom_bind, runFrom_force (hdepth ▸ htarget)]
  dsimp only
  split
  · exact relates_of_settled hC hsource' htarget' fun r _ => h levels r (Nat.le_refl _)
  next hsame =>
    obtain ⟨rfl, rfl⟩ : source' = source ∧ target' = target := by
      simpa [not_or] using hsame
    exact h (levels + 1) inner (by omega)

/-! ## The match on absorbing kinds -/

section

variable {relate : TypeId → TypeId → RelationMode → RelationM σ Unit}

theorem runFrom_relateForced_never (hsource : (C.types s).kind source = .never)
    (htarget : isInvalid ((C.types s).kind target) = false) :
    (relateForced C relate source target mode).runFrom s = (.ok (), s) := by
  unfold relateForced
  rw [RelationM.runFrom_get_bind, RelationM.runFrom_get_bind]
  have hvalid : isInvalid .never = false := rfl
  simp [hsource, htarget, hvalid]

theorem runFrom_relateForced_unknown (htarget : (C.types s).kind target = .unknown)
    (hsource : isInvalid ((C.types s).kind source) = false) :
    (relateForced C relate source target mode).runFrom s = (.ok (), s) := by
  unfold relateForced
  rw [RelationM.runFrom_get_bind, RelationM.runFrom_get_bind]
  have hvalid : isInvalid .unknown = false := rfl
  simp [htarget, hsource, hvalid]

theorem runFrom_relateForced_any (htarget : (C.types s).kind target = .any)
    (hsource : isInvalid ((C.types s).kind source) = false) :
    (relateForced C relate source target .assignment).runFrom s = (.ok (), s) := by
  unfold relateForced
  rw [RelationM.runFrom_get_bind, RelationM.runFrom_get_bind]
  have hvalid : isInvalid .any = false := rfl
  simp [htarget, hsource, hvalid]

end

/-! ## Laws of `never`, `unknown` and `any` -/

section

variable (hC : Evaluates C) {ty forced never unknown any : TypeId} {t : σ}

include hC

theorem relates_never (hty : Completes C r.evaluationDepth s ty forced t)
    (hnever : (C.types s).kind never = .never) : Relates C (levels + 2) r s never ty mode := by
  have hsettled : (C.types s).Settled never := by simp [Settled, hnever]
  have hcontains := contains_of_kind_ne_error (by simp [hnever] : (C.types s).kind never ≠ .error)
  have hextends := hty.extends hC
  have hnever' : (C.types t).kind never = .never := (hextends.kind hcontains).trans hnever
  refine relates_of_forced hC.forcesDeferred (.inl hsettled) ?_ (hC.forcesDeferred s never _ hsettled)
    hty.1 (by simp [Settled, hnever']) hty.2.1 fun n r _ => ⟨t, ?_⟩
  · simp [anyToKeysOfParameter, hnever]
  · exact runFrom_relateForced_never hnever' hty.2.2

/-- Above every type: the target is settled and its match succeeds for every source. -/
theorem relates_of_completes {top : TypeId} (hty : Completes C r.evaluationDepth s ty forced t)
    (hcontains : (C.types s).Contains top) (hsettled : (C.types s).Settled top)
    (h : ∀ n r, levels ≤ n →
      ∃ u, (relateForced C (relateInner C n r) forced top mode).runFrom t = (.ok (), u)) :
    Relates C (levels + 2) r s ty top mode := by
  have hextends := hty.extends hC
  have hsettled' := hsettled.mono hcontains hextends
  exact relates_of_forced hC.forcesDeferred (.inr hsettled)
    (anyToKeysOfParameter_of_settled hsettled) hty.1 (hC.forcesDeferred t top _ hsettled')
    hty.2.1 hsettled' h

theorem relates_unknown (hty : Completes C r.evaluationDepth s ty forced t)
    (hunknown : (C.types s).kind unknown = .unknown) :
    Relates C (levels + 2) r s ty unknown mode := by
  have hcontains := contains_of_kind_ne_error (by simp [hunknown] :
    (C.types s).kind unknown ≠ .error)
  have hextends := hty.extends hC
  refine relates_of_completes hC hty hcontains (by simp [Settled, hunknown]) fun n r _ => ⟨t, ?_⟩
  exact runFrom_relateForced_unknown ((hextends.kind hcontains).trans hunknown) hty.2.2

theorem relates_any (hty : Completes C r.evaluationDepth s ty forced t)
    (hany : (C.types s).kind any = .any) : Relates C (levels + 2) r s ty any .assignment := by
  have hcontains := contains_of_kind_ne_error (by simp [hany] : (C.types s).kind any ≠ .error)
  have hextends := hty.extends hC
  refine relates_of_completes hC hty hcontains (by simp [Settled, hany]) fun n r _ => ⟨t, ?_⟩
  exact runFrom_relateForced_any ((hextends.kind hcontains).trans hany) hty.2.2

end

/-! ## The empty object type -/

/-- Arrays, and object types without call, construct and index signatures. -/
def isPropertyBag : TypeKind → Bool
  | .array _ => true
  | .object shape | .classInstance _ _ _ shape =>
    shape.callSignatures.isEmpty && shape.constructSignatures.isEmpty &&
      shape.indexSignatures.isEmpty
  | _ => false

section

variable {relate : TypeId → TypeId → RelationMode → RelationM σ Unit}

theorem runFrom_relateObjectShapes_empty {shape : ObjectShape}
    (hcalls : shape.callSignatures = []) (hconstructs : shape.constructSignatures = [])
    (hindexes : shape.indexSignatures = []) :
    (relateObjectShapes C relate source target shape {} mode).runFrom s = (.ok (), s) := by
  unfold relateObjectShapes
  rw [RelationM.runFrom_get_bind]
  simp [shapeHasUnsupportedCallableMembers, hcalls, hconstructs, hindexes, relateProperties,
    missingProperties, relateEachProperty]

theorem runFrom_relateForced_empty (htarget : (C.types s).kind target = .object {})
    (hsource : isPropertyBag ((C.types s).kind source) = true) :
    (relateForced C relate source target mode).runFrom s = (.ok (), s) := by
  have hshape : objectShape ((C.types s).kind target) = some {} := by rw [htarget]; rfl
  cases hkind : (C.types s).kind source with
  | array element =>
    unfold relateForced
    rw [RelationM.runFrom_get_bind, RelationM.runFrom_get_bind]
    simp [hkind, htarget, isInvalid, objectShape, relateKinds]
  | object shape | classInstance _ _ _ shape =>
    rw [hkind] at hsource
    have hsourceShape : objectShape ((C.types s).kind source) = some shape := by rw [hkind]; rfl
    rw [runFrom_relateForced_of_objectShape hsourceShape hshape]
    simp only [isPropertyBag, Bool.and_eq_true, List.isEmpty_iff] at hsource
    exact runFrom_relateObjectShapes_empty hsource.1.1 hsource.1.2 hsource.2
  | _ =>
    rw [hkind] at hsource
    cases hsource

/-- A union compares when its members do, whatever their order and the state. -/
theorem exists_runFrom_relateUnionMembers
    (hrelate : ∀ source target mode, Advances C (relate source target mode))
    {members : List TypeId} (h : ∀ member ∈ members, ∀ t, Later C s t →
      ∃ u, (relate member target mode).runFrom t = (.ok (), u)) :
    ∃ u, (relateUnionMembers relate source target mode members).runFrom s = (.ok (), u) := by
  induction members generalizing s with
  | nil => exact ⟨s, rfl⟩
  | cons member rest ih =>
    obtain ⟨t, ht⟩ := h member (by simp) s .refl
    have hlater := hrelate member target mode s
    rw [ht] at hlater
    obtain ⟨u, hu⟩ := ih fun other hmem v hv => h other (by simp [hmem]) v (hlater.trans hv)
    exact ⟨u, RelationM.runFrom_bind_eq_ok.mpr
      ⟨(), t, RelationM.runFrom_wrapping_eq_ok.mpr ht, hu⟩⟩

/-- An intersection compares when one of its members does, whatever the state. -/
theorem exists_runFrom_relateAlternatives
    (hrelate : ∀ source target mode, Advances C (relate source target mode))
    {members : List TypeId} (h : ∃ member ∈ members, ∀ t, Later C s t →
      ∃ u, (relate member target mode).runFrom t = (.ok (), u)) :
    ∃ u, (relateAlternatives relate source target members mode true).runFrom s = (.ok (), u) := by
  suffices ∀ selected, ∃ u, (tryAlternatives relate source target mode true members
      selected).runFrom s = (.ok none, u) by
    obtain ⟨u, hu⟩ := this none
    exact ⟨u, RelationM.runFrom_bind_eq_ok.mpr ⟨none, u, hu, rfl⟩⟩
  obtain ⟨chosen, hmem, hchosen⟩ := h
  induction members generalizing s with
  | nil => cases hmem
  | cons member rest ih =>
    intro selected
    unfold tryAlternatives
    rw [RelationM.runFrom_bind, RelationM.runFrom_tryCatch]
    simp only [if_true]
    rw [RelationM.runFrom_bind]
    rcases hrun : (relate member target mode).runFrom s with ⟨error | _, t⟩
    · have hlater := hrelate member target mode s
      rw [hrun] at hlater
      rcases List.mem_cons.mp hmem with rfl | hmem
      · obtain ⟨u, hu⟩ := hchosen s .refl
        rw [hrun] at hu
        cases hu
      · exact ih hmem (fun v hv => hchosen v (hlater.trans hv)) _
    · exact ⟨t, rfl⟩

end

/-- What compares with the empty object type once it is evaluated. -/
def FitsEmptyObject (store : TypeStore) (ty : TypeId) : Prop :=
  isPropertyBag (store.kind ty) = true ∨
    (∃ members, store.kind ty = .union members ∧
      ∀ member ∈ members, isPropertyBag (store.kind member) = true) ∨
    ∃ members, store.kind ty = .intersection members ∧
      ∃ member ∈ members, isPropertyBag (store.kind member) = true

section

variable (hC : Evaluates C) {empty : TypeId}

include hC

theorem relates_of_isPropertyBag (hempty : (C.types s).kind empty = .object {})
    (hsource : isPropertyBag ((C.types s).kind source) = true) {t : σ} (ht : Later C s t) :
    Relates C (levels + 1) r t source empty mode := by
  have hextends := ht.extends hC
  have hempty' := (hextends.kind (contains_of_kind_ne_error (by simp [hempty]))).trans hempty
  have hcontains : (C.types s).Contains source := by
    refine contains_of_kind_ne_error fun herror => ?_
    rw [herror] at hsource
    cases hsource
  rw [← hextends.kind hcontains] at hsource
  refine relates_of_settled hC.forcesDeferred ?_ (by simp [Settled, hempty']) fun r _ =>
    ⟨t, runFrom_relateForced_empty hempty' hsource⟩
  intro query hkind
  rw [hkind] at hsource
  cases hsource

theorem relates_empty {ty forced : TypeId} {t : σ}
    (hty : Completes C r.evaluationDepth s ty forced t)
    (hempty : (C.types s).kind empty = .object {}) (hfits : FitsEmptyObject (C.types t) forced) :
    Relates C (levels + 3) r s ty empty mode := by
  have hcontains := contains_of_kind_ne_error (by simp [hempty] :
    (C.types s).kind empty ≠ .error)
  have hempty' := ((hty.extends hC).kind hcontains).trans hempty
  refine relates_of_completes hC hty hcontains (by simp [Settled, hempty]) fun n r hn => ?_
  obtain ⟨n, rfl⟩ : ∃ m, n = m + 1 := ⟨n - 1, by omega⟩
  rcases hfits with hbag | ⟨members, hkind, hmembers⟩ | ⟨members, hkind, member, hmem, hbag⟩
  · exact ⟨t, runFrom_relateForced_empty hempty' hbag⟩
  · have hrun : (relateForced C (relateInner C (n + 1) r) forced empty mode).runFrom t =
        (relateUnionMembers (relateInner C (n + 1) r) forced empty mode
          (sortMembers (C.types t) members)).runFrom t := by
      unfold relateForced
      rw [RelationM.runFrom_get_bind, RelationM.runFrom_get_bind]
      simp [hkind, hempty', isInvalid, objectShape, relateKinds]
    rw [hrun]
    refine exists_runFrom_relateUnionMembers (Advances.relateInner _ _) fun member hmem u hu => ?_
    exact relates_of_isPropertyBag hC hempty'
      (hmembers member ((List.perm_insertionSort _ _).mem_iff.mp hmem)) hu
  · have hrun : (relateForced C (relateInner C (n + 1) r) forced empty mode).runFrom t =
        (relateAlternatives (relateInner C (n + 1) r) forced empty members mode true).runFrom t := by
      unfold relateForced
      rw [RelationM.runFrom_get_bind, RelationM.runFrom_get_bind]
      simp [hkind, hempty', isInvalid, objectShape, relateKinds]
    rw [hrun]
    exact exists_runFrom_relateAlternatives (Advances.relateInner _ _)
      ⟨member, hmem, fun u hu => relates_of_isPropertyBag hC hempty' hbag hu⟩

end

/-! ## Functions -/

/-- The kinds of functions. -/
def TypeKind.IsFunction (k : TypeKind) (signature : Signature) : Prop :=
  k = .function signature ∨ k = .shapeFunction signature

/-- The signature with another type for one of its parameters. -/
def Signature.withParameter (signature : Signature) (index : Nat) (ty : TypeId) : Signature :=
  { signature with parameters := signature.parameters.modify index fun p => { p with ty } }

theorem signatureArityFailure_of_length_le {store : TypeStore} {left right : Signature}
    (h : left.parameters.length ≤ right.parameters.length) :
    signatureArityFailure store source target left right = none := by
  unfold signatureArityFailure
  refine if_neg ?_
  have hcount := (List.length_filter_le (fun parameter => !left.untypedJavaScript &&
    !parameter.optional && !parameter.rest && decide (store.kind parameter.ty ≠ .void))
    left.parameters).trans h
  simp only [Bool.and_eq_true, decide_eq_true_eq, not_and]
  intro _
  omega

section

variable {relate : TypeId → TypeId → RelationMode → RelationM σ Unit} {left right : Signature}

/-- Function types compare when their signatures do. -/
theorem exists_runFrom_relateForced_function
    (hsource : ((C.types s).kind source).IsFunction left)
    (htarget : ((C.types s).kind target).IsFunction right)
    (h : ∃ t, (relateSignatures C relate source target left right mode).runFrom s = (.ok (), t)) :
    ∃ t, (relateForced C relate source target mode).runFrom s = (.ok (), t) := by
  obtain ⟨t, ht⟩ := h
  refine ⟨t, ?_⟩
  unfold relateForced
  rw [RelationM.runFrom_get_bind, RelationM.runFrom_get_bind]
  rcases hsource with hsource | hsource <;> rcases htarget with htarget | htarget <;>
    simp [hsource, htarget, isInvalid, objectShape, relateKinds, RelationM.runFrom_tryCatch, ht]

theorem runFrom_relateParameters_self (source target : TypeId)
    (hself : ∀ ty mode s, (relate ty ty mode).runFrom s = (.ok (), s))
    (index : Nat) (parameters : List ParameterType) (s : σ) :
    (relateParameters relate source target index (parameters.zip parameters)).runFrom s =
      (.ok (), s) := by
  induction parameters generalizing index with
  | nil => rfl
  | cons parameter rest ih =>
    exact RelationM.runFrom_bind_eq_ok.mpr
      ⟨(), s, RelationM.runFrom_wrapping_eq_ok.mpr (hself _ _ _), ih _⟩

/-- Only the parameter with another type is compared. -/
theorem exists_runFrom_relateParameters_modify (source target : TypeId)
    (hself : ∀ ty mode s, (relate ty ty mode).runFrom s = (.ok (), s))
    {parameters : List ParameterType} {index : Nat} {parameter : ParameterType} {ty : TypeId}
    (hparameter : parameters[index]? = some parameter)
    (h : ∃ t, (relate parameter.ty ty .subtype).runFrom s = (.ok (), t)) (start : Nat) :
    ∃ t, (relateParameters relate source target start
      ((parameters.modify index fun p => { p with ty }).zip parameters)).runFrom s =
        (.ok (), t) := by
  induction parameters generalizing index start with
  | nil => simp at hparameter
  | cons first rest ih =>
    cases index with
    | zero =>
      obtain rfl : first = parameter := by simpa using hparameter
      obtain ⟨t, ht⟩ := h
      exact ⟨t, RelationM.runFrom_bind_eq_ok.mpr
        ⟨(), t, RelationM.runFrom_wrapping_eq_ok.mpr ht, runFrom_relateParameters_self source target hself _ _ _⟩⟩
    | succ index =>
      obtain ⟨t, ht⟩ := ih (by simpa using hparameter) (start + 1)
      exact ⟨t, RelationM.runFrom_bind_eq_ok.mpr
        ⟨(), s, RelationM.runFrom_wrapping_eq_ok.mpr (hself _ _ _), ht⟩⟩

theorem exists_runFrom_relateSignatures {t : σ}
    (hlength : left.parameters.length ≤ right.parameters.length)
    (hparameters : (relateParameters relate source target 0
      (left.parameters.zip right.parameters)).runFrom s = (.ok (), t))
    (hreturn : ∃ u, (relate left.returnType right.returnType mode).runFrom t = (.ok (), u)) :
    ∃ u, (relateSignatures C relate source target left right mode).runFrom s = (.ok (), u) := by
  unfold relateSignatures
  rw [RelationM.runFrom_get_bind]
  dsimp only
  rw [signatureArityFailure_of_length_le hlength]
  dsimp only
  by_cases hvoid : (C.types t).kind right.returnType = .void
  · refine ⟨t, RelationM.runFrom_bind_eq_ok.mpr ⟨(), t, hparameters, ?_⟩⟩
    rw [RelationM.runFrom_get_bind, if_pos hvoid]
    rfl
  · obtain ⟨u, hu⟩ := hreturn
    refine ⟨u, RelationM.runFrom_bind_eq_ok.mpr ⟨(), t, hparameters, ?_⟩⟩
    rw [RelationM.runFrom_get_bind, if_neg hvoid]
    exact RelationM.runFrom_wrapping_eq_ok.mpr hu

theorem runFrom_relateInner_self (levels : Nat) (r : Relation) (ty : TypeId) (mode : RelationMode) (s : σ) :
    (relateInner C levels r ty ty mode).runFrom s = (.ok (), s) := by
  unfold relateInner
  split
  next => rfl
  next h => exact absurd rfl h

end

theorem TypeKind.IsFunction.settled {store : TypeStore} {ty : TypeId} {signature : Signature}
    (h : (store.kind ty).IsFunction signature) : store.Settled ty := by
  intro query hkind
  rcases h with h | h <;> rw [hkind] at h <;> cases h

section

variable (hC : Evaluates C) {function changed forced : TypeId} {signature : Signature} {t : σ}

include hC

/-- A function may be given a parameter that accepts everything. -/
theorem relates_withParameter {unknown : TypeId} {index : Nat} {parameter : ParameterType}
    (hfunction : ((C.types s).kind function).IsFunction signature)
    (hparameter : signature.parameters[index]? = some parameter)
    (hty : Completes C r.evaluationDepth s parameter.ty forced t)
    (hunknown : (C.types s).kind unknown = .unknown)
    (hchanged : ((C.types s).kind changed).IsFunction (signature.withParameter index unknown)) :
    Relates C (levels + 3) r s changed function mode := by
  refine relates_of_settled hC.forcesDeferred hchanged.settled hfunction.settled
    fun inner hdepth => ?_
  obtain ⟨u, hu⟩ := exists_runFrom_relateParameters_modify changed function
    (runFrom_relateInner_self (levels + 2) inner) hparameter (relates_unknown hC (hdepth ▸ hty) hunknown) 0
  exact exists_runFrom_relateForced_function hchanged hfunction
    (exists_runFrom_relateSignatures (by simp [Signature.withParameter]) hu
      ⟨u, runFrom_relateInner_self _ _ _ _ _⟩)

/-- A function may be replaced by one that never returns. -/
theorem relates_withReturn {never : TypeId}
    (hfunction : ((C.types s).kind function).IsFunction signature)
    (hty : Completes C r.evaluationDepth s signature.returnType forced t)
    (hnever : (C.types s).kind never = .never)
    (hchanged : ((C.types s).kind changed).IsFunction { signature with returnType := never }) :
    Relates C (levels + 3) r s changed function mode := by
  refine relates_of_settled hC.forcesDeferred hchanged.settled hfunction.settled
    fun inner hdepth => ?_
  have hparameters := runFrom_relateParameters_self changed function
    (runFrom_relateInner_self (C := C) (levels + 2) inner) 0 signature.parameters s
  exact exists_runFrom_relateForced_function hchanged hfunction
    (exists_runFrom_relateSignatures (Nat.le_refl _) hparameters
      (relates_never hC (hdepth ▸ hty) hnever))

end

/-! ## The laws together -/

/-- What holds of a type that evaluates to another, wherever three levels are left: `never` is
below and `unknown` above it, `any` is above it in assignments, the empty object type is above
property bags, and functions vary accordingly. -/
theorem relates_extremes (hC : Evaluates C) (levels : Nat) (r : Relation) (mode : RelationMode)
    {s t : σ} {ty forced : TypeId} (hty : Completes C r.evaluationDepth s ty forced t) :
    (∀ never, (C.types s).kind never = .never → Relates C (levels + 3) r s never ty mode) ∧
    (∀ unknown, (C.types s).kind unknown = .unknown →
      Relates C (levels + 3) r s ty unknown mode) ∧
    (∀ any, (C.types s).kind any = .any → Relates C (levels + 3) r s ty any .assignment) ∧
    (∀ empty, (C.types s).kind empty = .object {} → FitsEmptyObject (C.types t) forced →
      Relates C (levels + 3) r s ty empty mode) ∧
    (∀ function changed signature index parameter unknown,
      ((C.types s).kind function).IsFunction signature →
      signature.parameters[index]? = some parameter → parameter.ty = ty →
      (C.types s).kind unknown = .unknown →
      ((C.types s).kind changed).IsFunction (signature.withParameter index unknown) →
      Relates C (levels + 3) r s changed function mode) ∧
    ∀ function changed signature never,
      ((C.types s).kind function).IsFunction signature → signature.returnType = ty →
      (C.types s).kind never = .never →
      ((C.types s).kind changed).IsFunction { signature with returnType := never } →
      Relates C (levels + 3) r s changed function mode := by
  refine ⟨fun never => relates_never hC hty, fun unknown => relates_unknown hC hty,
    fun any => relates_any hC hty, fun empty => relates_empty hC hty, ?_, ?_⟩
  · rintro function changed signature index parameter unknown hfunction hparameter rfl
    exact relates_withParameter hC hfunction hparameter hty
  · rintro function changed signature never hfunction rfl
    exact relates_withReturn hC hfunction hty

theorem evaluates_inertContext (strict : Bool) : Evaluates (inertContext strict) where
  forcesDeferred := forcesDeferred_inertContext strict
  forceType_grows s ty depth := by
    simp only [inertContext]
    split <;> exact .refl _
  classConstructorSignature_grows _ _ := .refl _
  canonicalUnion_grows s members := extends_combine _ _

theorem relates_extremes_number :
    Relates (inertContext true) 101 (root 0) TypeStore.new TypeStore.new.builtins.never
        TypeStore.new.builtins.number .subtype ∧
      Relates (inertContext true) 101 (root 0) TypeStore.new TypeStore.new.builtins.number
        TypeStore.new.builtins.unknown .subtype := by
  have hnumber : Completes (inertContext true) (root 0).evaluationDepth TypeStore.new
      TypeStore.new.builtins.number TypeStore.new.builtins.number TypeStore.new := by
    have hkind : TypeStore.new.kind TypeStore.new.builtins.number = .number := by decide
    refine ⟨rfl, fun query h => ?_, by decide⟩
    rw [show (inertContext true).types TypeStore.new = TypeStore.new from rfl, hkind] at h
    cases h
  have hlaws := relates_extremes (evaluates_inertContext true) 98 (root 0) .subtype hnumber
  exact ⟨hlaws.1 _ (by decide), hlaws.2.1 _ (by decide)⟩

/-! ### Where the laws of `any` and of the empty object type end -/

/-- `(a: number) => void`, `(a: any) => void` and `{}`, in a store. -/
def functionsStore : TypeStore :=
  let s := TypeStore.new
  let function (ty : TypeId) : TypeKind :=
    .function ⟨none, false, [⟨some "a", ty, false, false⟩], s.builtins.void⟩
  ((((s.intern (function s.builtins.number)).2).intern (function s.builtins.any)).2.intern
    (.object {})).2

/-- As a subtype `number` is not related to `any`, a function that takes `any` is not related to
one that takes a number, and `number` is not related to `{}`. -/
theorem not_relates_any :
    ¬ (Relates (inertContext true) 101 (root 0) functionsStore functionsStore.builtins.number
          functionsStore.builtins.any .subtype ∨
        Relates (inertContext true) 101 (root 0) functionsStore ⟨14⟩ ⟨13⟩ .assignment ∨
        Relates (inertContext true) 101 (root 0) functionsStore functionsStore.builtins.number
          ⟨15⟩ .assignment) := by
  have hfails : ∀ {m : RelationM TypeStore Unit},
      (m.runFrom functionsStore).1.isOk = false → ¬ ∃ t, m.runFrom functionsStore = (.ok (), t) := by
    rintro m h ⟨t, ht⟩
    rw [ht] at h
    cases h
  rintro (h | h | h)
  · exact hfails (by decide +kernel) h
  · exact hfails (by decide +kernel) h
  · exact hfails (by decide +kernel) h

end Tsz.Semantics
