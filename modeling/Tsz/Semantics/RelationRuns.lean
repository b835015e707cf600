import Tsz.Semantics.Relation
import Tsz.Semantics.Union

/-!
# Runs of the relation

A run threads the state of the surroundings through the queries that the comparison makes. It
changes the state through those queries only, and a pair of types that stand for themselves is
decided by the match on their kinds.
-/

namespace Tsz.Semantics

open TypeStore

variable {σ : Type}

/-- Wrapping keeps an incomplete failure and makes no new one. -/
@[simp]
theorem RelationFailure.rank_wrapped (f : RelationFailure) (source target : TypeId)
    {kind : RelationFailureKind} (hkind : kind.propagationRank = 0) :
    (f.wrapped source target kind).kind.propagationRank = f.kind.propagationRank := by
  unfold wrapped
  split
  · rfl
  · next hrank =>
    have hf : f.kind.propagationRank = 0 := by omega
    rw [hf]
    exact hkind

/-- A run from a state. -/
def RelationM.runFrom {α : Type} (m : RelationM σ α) (s : σ) : Except RelationFailure α × σ :=
  StateT.run (ExceptT.run m) s

namespace RelationM

variable {α β : Type} {s : σ}

@[simp]
theorem runFrom_pure (a : α) : runFrom (pure a) s = (.ok a, s) := rfl

@[simp]
theorem runFrom_throw (e : RelationFailure) : runFrom (throw e : RelationM σ α) s = (.error e, s) :=
  rfl

theorem runFrom_bind (m : RelationM σ α) (f : α → RelationM σ β) :
    runFrom (m >>= f) s =
      match runFrom m s with
      | (.ok a, s) => runFrom (f a) s
      | (.error e, s) => (.error e, s) := by
  unfold runFrom
  simp only [ExceptT.run_bind, StateT.run_bind]
  rcases StateT.run (ExceptT.run m) s with ⟨⟨_⟩ | ⟨_⟩, _⟩ <;> rfl

theorem runFrom_tryCatch (m : RelationM σ α) (f : RelationFailure → RelationM σ α) :
    runFrom (tryCatch m f) s =
      match runFrom m s with
      | (.ok a, s) => (.ok a, s)
      | (.error e, s) => runFrom (f e) s := by
  simp only [runFrom, ExceptT.run, tryCatch, tryCatchThe, MonadExceptOf.tryCatch, ExceptT.tryCatch,
    ExceptT.mk, StateT.run_bind]
  rcases StateT.run m s with ⟨⟨_⟩ | ⟨_⟩, _⟩ <;> rfl

@[simp]
theorem runFrom_get_bind (f : σ → RelationM σ α) : runFrom (get >>= f) s = runFrom (f s) s := rfl

@[simp]
theorem runFrom_modifyGet_bind (g : σ → β × σ) (f : β → RelationM σ α) :
    runFrom (modifyGet g >>= f) s = runFrom (f (g s).1) (g s).2 := rfl

/-- A sequence succeeds when its parts do, one after the other. -/
theorem runFrom_bind_eq_ok {m : RelationM σ α} {f : α → RelationM σ β} {b : β} {t : σ} :
    runFrom (m >>= f) s = (.ok b, t) ↔
      ∃ a u, runFrom m s = (.ok a, u) ∧ runFrom (f a) u = (.ok b, t) := by
  rw [runFrom_bind]
  rcases runFrom m s with ⟨_ | a, u⟩
  · simp
  · constructor
    · exact fun h => ⟨a, u, rfl, h⟩
    · rintro ⟨_, _, h, h'⟩
      cases h
      exact h'

theorem exists_of_isOk {m : RelationM σ Unit} (h : (runFrom m s).1.isOk = true) :
    ∃ t, runFrom m s = (.ok (), t) := by
  rcases hrun : runFrom m s with ⟨_ | _, t⟩
  · rw [hrun] at h
    cases h
  · exact ⟨t, rfl⟩

@[simp]
theorem runFrom_wrapping_eq_ok {m : RelationM σ Unit} {source target : TypeId}
    {kind : RelationFailureKind} {t : σ} :
    runFrom (Relation.wrapping source target kind m) s = (.ok (), t) ↔
      runFrom m s = (.ok (), t) := by
  rw [Relation.wrapping, runFrom_tryCatch]
  rcases runFrom m s with ⟨_ | _, u⟩ <;> simp

end RelationM

/-! ## The states of a run -/

/-- The states that the queries of the relation lead to. -/
inductive Later (C : RelationContext σ) (s : σ) : σ → Prop
  | refl : Later C s s
  | forceType {t : σ} (h : Later C s t) (ty : TypeId) (depth : Nat) :
    Later C s (C.forceType ty depth t).2
  | classConstructorSignature {t : σ} (h : Later C s t) (declaration : DeclId) :
    Later C s (C.classConstructorSignature declaration t).2
  | canonicalUnion {t : σ} (h : Later C s t) (members : List TypeId) :
    Later C s (C.canonicalUnion members t).2

theorem Later.trans {C : RelationContext σ} {s t u : σ} (h : Later C s t) (h' : Later C t u) :
    Later C s u := by
  induction h' with
  | refl => exact h
  | forceType _ ty depth ih => exact ih.forceType ty depth
  | classConstructorSignature _ declaration ih => exact ih.classConstructorSignature declaration
  | canonicalUnion _ members ih => exact ih.canonicalUnion members

/-- A run changes the state through queries only. -/
def Advances {α : Type} (C : RelationContext σ) (m : RelationM σ α) : Prop :=
  ∀ s, Later C s (m.runFrom s).2

namespace Advances

variable {C : RelationContext σ} {α β : Type}

theorem pure (a : α) : Advances C (pure a) := fun _ => .refl

theorem throw (e : RelationFailure) : Advances C (throw e : RelationM σ α) := fun _ => .refl

theorem get : Advances C (MonadState.get : RelationM σ σ) := fun _ => .refl

theorem forceType (ty : TypeId) (depth : Nat) :
    Advances C (modifyGet (C.forceType ty depth) : RelationM σ _) :=
  fun _ => .forceType .refl ty depth

theorem classConstructorSignature (declaration : DeclId) :
    Advances C (modifyGet (C.classConstructorSignature declaration) : RelationM σ _) :=
  fun _ => .classConstructorSignature .refl declaration

theorem canonicalUnion (members : List TypeId) :
    Advances C (modifyGet (C.canonicalUnion members) : RelationM σ _) :=
  fun _ => .canonicalUnion .refl members

theorem bind {m : RelationM σ α} {f : α → RelationM σ β} (hm : Advances C m)
    (hf : ∀ a, Advances C (f a)) : Advances C (m >>= f) := by
  intro s
  rw [RelationM.runFrom_bind]
  have hs := hm s
  rcases hrun : m.runFrom s with ⟨_ | a, t⟩
  · rwa [hrun] at hs
  · rw [hrun] at hs
    exact hs.trans (hf a t)

theorem tryCatch {m : RelationM σ α} {f : RelationFailure → RelationM σ α} (hm : Advances C m)
    (hf : ∀ e, Advances C (f e)) : Advances C (tryCatch m f) := by
  intro s
  rw [RelationM.runFrom_tryCatch]
  have hs := hm s
  rcases hrun : m.runFrom s with ⟨e | _, t⟩
  · rw [hrun] at hs
    exact hs.trans (hf e t)
  · rwa [hrun] at hs

theorem ite {c : Prop} [Decidable c] {m m' : RelationM σ α} (h : Advances C m)
    (h' : Advances C m') : Advances C (if c then m else m') := by
  split <;> assumption

theorem wrapping {m : RelationM σ Unit} (hm : Advances C m) (source target : TypeId)
    (kind : RelationFailureKind) : Advances C (Relation.wrapping source target kind m) :=
  hm.tryCatch fun _ => throw _

theorem relationInput (input : Completion α) (source target : TypeId) :
    Advances C (Relation.relationInput input source target : RelationM σ α) := by
  cases input
  · exact pure _
  all_goals exact throw _

theorem force (r : Relation) (ty source target : TypeId) :
    Advances C (Relation.force C r ty source target) :=
  (forceType ty r.evaluationDepth).bind fun _ => relationInput _ source target

section arms

variable {relate : TypeId → TypeId → RelationMode → RelationM σ Unit}
  (h : ∀ source target mode, Advances C (relate source target mode))

include h

theorem relateCovariantTypes (source target : TypeId) (mode : RelationMode)
    (elementFailure : Nat → RelationFailureKind) (index : Nat) (pairs : List (TypeId × TypeId)) :
    Advances C
      (Relation.relateCovariantTypes relate source target mode elementFailure index pairs) := by
  induction pairs generalizing index with
  | nil => exact pure ()
  | cons pair rest ih => exact ((h _ _ _).wrapping _ _ _).bind fun _ => ih _

theorem tryAlternatives (source target : TypeId) (mode : RelationMode) (sourceMembers : Bool)
    (members : List TypeId) (selected : Option (TypeId × RelationFailure)) :
    Advances C
      (Relation.tryAlternatives relate source target mode sourceMembers members selected) := by
  induction members generalizing selected with
  | nil => exact pure _
  | cons member rest ih =>
    unfold Relation.tryAlternatives
    refine bind (tryCatch ?_ fun _ => pure _) fun outcome => ?_
    · exact ite ((h _ _ _).bind fun _ => pure _) ((h _ _ _).bind fun _ => pure _)
    · cases outcome with
      | none => exact pure _
      | some error => exact ih _

theorem relateAlternatives (source target : TypeId) (members : List TypeId) (mode : RelationMode)
    (sourceMembers : Bool) :
    Advances C (Relation.relateAlternatives relate source target members mode sourceMembers) := by
  refine (tryAlternatives h source target mode sourceMembers members none).bind fun found => ?_
  cases found with
  | none => exact pure _
  | some selected => exact ite (throw _) (throw _)

theorem relateEachProperty (source target : TypeId) (sourceProperties : Option (List Property))
    (mode : RelationMode) (targetProperties : List Property) :
    Advances C
      (Relation.relateEachProperty relate source target sourceProperties mode targetProperties) := by
  induction targetProperties with
  | nil => exact pure ()
  | cons targetProperty rest ih =>
    unfold Relation.relateEachProperty
    split
    · exact (pure ()).bind fun _ => ih
    · exact (((h _ _ _).wrapping _ _ _).wrapping _ _ _).bind fun _ => ih

theorem relateProperties (source target : TypeId) (sourceProperties : Option (List Property))
    (targetProperties : List Property) (mode : RelationMode) :
    Advances C
      (Relation.relateProperties relate source target sourceProperties targetProperties mode) := by
  unfold Relation.relateProperties
  split
  · exact relateEachProperty h source target sourceProperties mode targetProperties
  · exact throw _
  · exact throw _

theorem relateToIndex (source target value : TypeId) (mode : RelationMode)
    (properties : List Property) :
    Advances C (Relation.relateToIndex relate source target value mode properties) := by
  induction properties with
  | nil => exact pure ()
  | cons property rest ih => exact ((h _ _ _).wrapping _ _ _).bind fun _ => ih

theorem relateObjectShapes (source target : TypeId) (sourceShape targetShape : ObjectShape)
    (mode : RelationMode) :
    Advances C
      (Relation.relateObjectShapes C relate source target sourceShape targetShape mode) := by
  refine get.bind fun state => ite ((throw _).bind fun _ => ?_) ?_
  all_goals
    refine (relateProperties h source target _ _ mode).bind fun _ => ?_
    split
    · exact pure ()
    · exact ite (relateToIndex h source target _ mode _) (throw _)
    · exact throw _

theorem relateParameters (source target : TypeId) (index : Nat)
    (pairs : List (ParameterType × ParameterType)) :
    Advances C (Relation.relateParameters relate source target index pairs) := by
  induction pairs generalizing index with
  | nil => exact pure ()
  | cons pair rest ih => exact ((h _ _ _).wrapping _ _ _).bind fun _ => ih _

theorem relateSignatures (source target : TypeId) (sourceSignature targetSignature : Signature)
    (mode : RelationMode) :
    Advances C
      (Relation.relateSignatures C relate source target sourceSignature targetSignature mode) := by
  refine get.bind fun state => ?_
  dsimp only
  split
  · exact throw _
  · refine (relateParameters h source target 0 _).bind fun _ => get.bind fun state => ?_
    exact ite (pure ()) ((h _ _ _).wrapping _ _ _)

theorem relateUnionMembers (source target : TypeId) (mode : RelationMode)
    (members : List TypeId) :
    Advances C (Relation.relateUnionMembers relate source target mode members) := by
  induction members with
  | nil => exact pure ()
  | cons member rest ih => exact ((h _ _ _).wrapping _ _ _).bind fun _ => ih

theorem relateToMembers (source : TypeId) (mode : RelationMode) (members : List TypeId) :
    Advances C (Relation.relateToMembers relate source mode members) := by
  induction members with
  | nil => exact pure ()
  | cons member rest ih => exact (h _ _ _).bind fun _ => ih

omit h in
theorem relateClassConstructors (source target : TypeId)
    (sourceDeclaration targetDeclaration : DeclId) :
    Advances C
      (Relation.relateClassConstructors C source target sourceDeclaration targetDeclaration) :=
  (classConstructorSignature sourceDeclaration).bind fun _ =>
    (relationInput _ source target).bind fun _ =>
      (classConstructorSignature targetDeclaration).bind fun _ =>
        (relationInput _ source target).bind fun _ => get.bind fun _ => throw _

theorem relateKinds (source target : TypeId) (mode : RelationMode)
    (sourceKind targetKind : TypeKind) :
    Advances C (Relation.relateKinds C relate source target mode sourceKind targetKind) := by
  unfold Relation.relateKinds
  split
  all_goals first
    | with_reducible exact pure ()
    | with_reducible exact throw _
    | with_reducible exact ite (pure ()) (throw _)
    | exact get.bind fun _ => relateUnionMembers h source target mode _
    | exact relateAlternatives h source target _ mode _
    | exact relateToMembers h source mode _
    | exact (h _ _ _).wrapping _ _ _
    | exact ite (relateCovariantTypes h source target mode _ _ _) (throw _)
    | exact (canonicalUnion _).bind fun _ => (h _ _ _).wrapping _ _ _
    | exact get.bind fun _ => ite (throw _) (relateProperties h source target _ _ mode)
    | exact relateSignatures h source target _ _ mode
    | exact (relateSignatures h source target _ _ mode).tryCatch fun _ => throw _
    | exact relateClassConstructors source target _ _
    | exact get.bind fun _ =>
        ite (ite (throw _) (relateCovariantTypes h source target mode _ _ _)) (throw _)

theorem relateForced (source target : TypeId) (mode : RelationMode) :
    Advances C (Relation.relateForced C relate source target mode) := by
  refine get.bind fun state => get.bind fun state' => ?_
  refine ite (throw _) (ite (pure ()) (ite (pure ()) (ite (throw _) (ite (pure ())
    (ite (pure ()) ?_)))))
  split
  · exact relateObjectShapes h source target _ _ mode
  · exact relateKinds h source target mode _ _

theorem relateActive (r : Relation) (source target : TypeId) (mode : RelationMode) :
    Advances C (Relation.relateActive C relate r source target mode) :=
  (force r source source target).bind fun _ => (force r target source target).bind fun _ =>
    ite (h _ _ _) (relateForced h source target mode)

end arms

theorem relateWithReferenceStacks
    {relate : Relation → TypeId → TypeId → RelationMode → RelationM σ Unit}
    (h : ∀ r source target mode, Advances C (relate r source target mode)) (r : Relation)
    (source target : TypeId) (mode : RelationMode) :
    Advances C (Relation.relateWithReferenceStacks C relate r source target mode) := by
  refine get.bind fun state => ?_
  dsimp only
  split
  · exact ite (pure ()) (throw _)
  · exact relateActive (h _) _ source target mode

theorem relateInner (levels : Nat) (r : Relation) (source target : TypeId)
    (mode : RelationMode) : Advances C (Relation.relateInner C levels r source target mode) := by
  induction levels generalizing r source target mode with
  | zero =>
    unfold Relation.relateInner
    exact ite (pure ()) (throw _)
  | succ levels ih =>
    unfold Relation.relateInner
    refine ite (pure ()) (get.bind fun state => ?_)
    exact ite (pure ()) (ite (pure ()) (ite (pure ()) (relateWithReferenceStacks ih _ _ _ _)))

end Advances

/-! ## Types that stand for themselves -/

/-- A type that is not waiting for its evaluation. -/
def TypeStore.Settled (s : TypeStore) (t : TypeId) : Prop := ∀ query, s.kind t ≠ .deferred query

/-- Only deferred types are evaluated. -/
def ForcesDeferred (C : RelationContext σ) : Prop :=
  ∀ s t depth, (C.types s).Settled t → C.forceType t depth s = (.complete t, s)

/-- Surroundings that evaluate nothing. -/
def inertContext (strict : Bool) : RelationContext TypeStore where
  types := id
  forceType t _ s :=
    match s.kind t with
    | .deferred _ => (.deferred, s)
    | _ => (.complete t, s)
  generativeReferenceSupported _ _ _ := false
  generativeRelationFrameSupported _ _ _ := false
  libraryReferenceArgumentsAreCovariant _ _ := false
  classConstructorSignature _ s := (.deferred, s)
  strictNullChecks _ := strict
  canonicalUnion members s := s.union members .canonical

theorem forcesDeferred_inertContext (strict : Bool) : ForcesDeferred (inertContext strict) := by
  intro s t depth ht
  simp only [inertContext]
  split
  next hkind => exact absurd hkind (ht _)
  next => rfl

/-- The comparison of two types succeeds. -/
def Relates (C : RelationContext σ) (levels : Nat) (r : Relation) (s : σ) (source target : TypeId)
    (mode : RelationMode) : Prop :=
  ∃ t, (Relation.relateInner C levels r source target mode).runFrom s = (.ok (), t)

namespace Relation

variable {C : RelationContext σ} {s : σ} {source target : TypeId} {mode : RelationMode}

theorem assignmentSource_of_settled {store : TypeStore} (hsource : store.Settled source)
    (steps : Nat) : assignmentSource store target mode steps source = source := by
  cases steps with
  | zero => rfl
  | succ steps =>
    unfold assignmentSource
    split
    next hkind => exact absurd hkind (hsource _)
    next => rfl

theorem anyToKeysOfParameter_of_settled {store : TypeStore} (htarget : store.Settled target) :
    anyToKeysOfParameter store source target mode = false := by
  unfold anyToKeysOfParameter
  cases hkind : store.kind target with
  | deferred query => exact absurd hkind (htarget query)
  | _ => simp

theorem deferredReference_of_settled {store : TypeStore} {t : TypeId} (ht : store.Settled t) :
    deferredReference (store.kind t) = none := by
  cases hkind : store.kind t with
  | deferred query => exact absurd hkind (ht query)
  | _ => rfl

theorem settled_of_objectShape {store : TypeStore} {t : TypeId} {shape : ObjectShape}
    (h : objectShape (store.kind t) = some shape) : store.Settled t := by
  intro query hkind
  rw [hkind] at h
  cases h

/-- The relation before any pair is in progress. -/
def root (evaluationDepth : Nat) : Relation where
  active := []
  sourceReferences := .new .relationSource
  targetReferences := .new .relationTarget
  evaluationDepth

/-- The relation inside the comparison of a pair. -/
def inside (r : Relation) (source target : TypeId) (mode : RelationMode) : Relation :=
  { r with active := { source, target, mode } :: r.active }

/-- Two different types that stand for themselves, not yet in progress, are decided by the match
on their kinds. -/
theorem runFrom_relateInner_of_settled (hC : ForcesDeferred C) (levels : Nat) {r : Relation}
    (hne : source ≠ target) (hactive : { source, target, mode } ∉ r.active)
    (hsource : (C.types s).Settled source) (htarget : (C.types s).Settled target) :
    (relateInner C (levels + 1) r source target mode).runFrom s =
      (relateForced C (relateInner C levels (inside r source target mode)) source target
        mode).runFrom s := by
  have hforce : ∀ t, (C.types s).Settled t →
      (force C (inside r source target mode) t source target).runFrom s = (.ok t, s) := by
    intro t ht
    unfold force
    rw [RelationM.runFrom_modifyGet_bind, hC s t _ ht]
    rfl
  unfold relateInner
  rw [if_neg hne, RelationM.runFrom_get_bind]
  simp only [assignmentSource_of_settled hsource, anyToKeysOfParameter_of_settled htarget, hne,
    hactive, if_false, Bool.false_eq_true]
  unfold relateWithReferenceStacks
  rw [RelationM.runFrom_get_bind]
  simp only [deferredReference_of_settled hsource, deferredReference_of_settled htarget,
    Option.bind_none, pushReference]
  unfold relateActive
  rw [RelationM.runFrom_bind]
  have hsourceForce := hforce source hsource
  have htargetForce := hforce target htarget
  unfold inside at hsourceForce htargetForce
  rw [hsourceForce]
  dsimp only
  rw [RelationM.runFrom_bind, htargetForce]
  simp [inside]

theorem runFrom_relateForced_of_objectShape 
    {relate : TypeId → TypeId → RelationMode → RelationM σ Unit}
    {sourceShape targetShape : ObjectShape}
    (hsource : objectShape ((C.types s).kind source) = some sourceShape)
    (htarget : objectShape ((C.types s).kind target) = some targetShape) :
    (relateForced C relate source target mode).runFrom s =
      (relateObjectShapes C relate source target sourceShape targetShape mode).runFrom s := by
  unfold relateForced
  rw [RelationM.runFrom_get_bind, RelationM.runFrom_get_bind]
  cases hsourceKind : (C.types s).kind source <;> rw [hsourceKind] at hsource <;>
    try cases hsource
  all_goals
    cases htargetKind : (C.types s).kind target <;> rw [htargetKind] at htarget <;>
      try cases htarget
  all_goals simp [isInvalid, objectShape]

end Relation

end Tsz.Semantics
