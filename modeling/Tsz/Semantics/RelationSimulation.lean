import Tsz.Recursion.Simulation
import Tsz.Semantics.RelationRuns

/-!
# Simulations of the relation

One comparison run over two kinds of state. Where the surroundings answer alike and the pairs
compared on the way end the same way, so does the comparison itself. What the states keep from
step to step, and what a failure leaves behind, are parameters.
-/

namespace Tsz.Semantics

open Recursion

namespace RelationFailure

def child : RelationFailure → Option RelationFailure
  | mk _ _ _ child => child

/-- A tree of definitive failures only. -/
inductive Definitive : RelationFailure → Prop
  | leaf {source target : TypeId} {kind : RelationFailureKind} (h : kind.propagationRank = 0) :
    Definitive (mk source target kind none)
  | node {source target : TypeId} {kind : RelationFailureKind} {f : RelationFailure}
    (h : kind.propagationRank = 0) (hf : Definitive f) : Definitive (mk source target kind (some f))

/-- Definitive all the way down, or incomplete and alone. -/
def Unmixed (f : RelationFailure) : Prop :=
  f.Definitive ∨ 0 < f.kind.propagationRank ∧ f.child = none

@[simp]
theorem kind_failure (source target : TypeId) (kind : RelationFailureKind) :
    (failure source target kind).kind = kind := rfl

theorem unmixed_failure (source target : TypeId) (kind : RelationFailureKind) :
    (failure source target kind).Unmixed := by
  rcases Nat.eq_zero_or_pos kind.propagationRank with h | h
  · exact .inl (.leaf h)
  · exact .inr ⟨h, rfl⟩

theorem Definitive.rank_eq_zero {f : RelationFailure} (h : f.Definitive) :
    f.kind.propagationRank = 0 := by
  cases h <;> assumption

theorem Unmixed.definitive {f : RelationFailure} (h : f.Unmixed)
    (hrank : f.kind.propagationRank = 0) : f.Definitive := by
  rcases h with h | ⟨h, _⟩
  · exact h
  · omega

theorem Unmixed.wrapped {f : RelationFailure} (h : f.Unmixed) (source target : TypeId)
    {kind : RelationFailureKind} (hkind : kind.propagationRank = 0) :
    (f.wrapped source target kind).Unmixed := by
  unfold RelationFailure.wrapped
  split
  next => exact h
  next hrank => exact .inl (.node hkind (h.definitive (by omega)))

end RelationFailure

variable {σ τ : Type}

/-- The surroundings answer alike in related states and keep them related. -/
structure ContextSimulation (C : RelationContext σ) (C' : RelationContext τ) (I : σ → τ → Prop) :
    Prop where
  types : ∀ s t, I s t → C.types s = C'.types t
  forceType : ∀ s t, I s t → ∀ ty depth,
    (C.forceType ty depth s).1 = (C'.forceType ty depth t).1 ∧
      I (C.forceType ty depth s).2 (C'.forceType ty depth t).2
  generativeReferenceSupported : ∀ s t, I s t →
    C.generativeReferenceSupported s = C'.generativeReferenceSupported t
  generativeRelationFrameSupported : ∀ s t, I s t →
    C.generativeRelationFrameSupported s = C'.generativeRelationFrameSupported t
  libraryReferenceArgumentsAreCovariant : ∀ s t, I s t →
    C.libraryReferenceArgumentsAreCovariant s = C'.libraryReferenceArgumentsAreCovariant t
  classConstructorSignature : ∀ s t, I s t → ∀ declaration,
    (C.classConstructorSignature declaration s).1 = (C'.classConstructorSignature declaration t).1 ∧
      I (C.classConstructorSignature declaration s).2 (C'.classConstructorSignature declaration t).2
  strictNullChecks : ∀ s t, I s t → C.strictNullChecks s = C'.strictNullChecks t
  canonicalUnion : ∀ s t, I s t → ∀ members,
    (C.canonicalUnion members s).1 = (C'.canonicalUnion members t).1 ∧
      I (C.canonicalUnion members s).2 (C'.canonicalUnion members t).2

/-- The surroundings as a part of a larger state. -/
def RelationContext.through (C : RelationContext τ) (part : σ → τ) (update : τ → σ → σ) :
    RelationContext σ where
  types s := C.types (part s)
  forceType ty depth s :=
    ((C.forceType ty depth (part s)).1, update (C.forceType ty depth (part s)).2 s)
  generativeReferenceSupported s := C.generativeReferenceSupported (part s)
  generativeRelationFrameSupported s := C.generativeRelationFrameSupported (part s)
  libraryReferenceArgumentsAreCovariant s := C.libraryReferenceArgumentsAreCovariant (part s)
  classConstructorSignature declaration s :=
    ((C.classConstructorSignature declaration (part s)).1,
      update (C.classConstructorSignature declaration (part s)).2 s)
  strictNullChecks s := C.strictNullChecks (part s)
  canonicalUnion members s :=
    ((C.canonicalUnion members (part s)).1, update (C.canonicalUnion members (part s)).2 s)

/-- The larger state answers as its part does. -/
theorem ContextSimulation.through {C : RelationContext τ} {I : σ → τ → Prop} {part : σ → τ}
    {update : τ → σ → σ} (hpart : ∀ s t, I s t → part s = t)
    (hupdate : ∀ s t t', I s t → I (update t' s) t') :
    ContextSimulation (C.through part update) C I where
  types := by
    intro s t hst
    obtain rfl := hpart s t hst
    rfl
  forceType := by
    intro s t hst ty depth
    obtain rfl := hpart s t hst
    exact ⟨rfl, hupdate _ _ _ hst⟩
  generativeReferenceSupported := by
    intro s t hst
    obtain rfl := hpart s t hst
    rfl
  generativeRelationFrameSupported := by
    intro s t hst
    obtain rfl := hpart s t hst
    rfl
  libraryReferenceArgumentsAreCovariant := by
    intro s t hst
    obtain rfl := hpart s t hst
    rfl
  classConstructorSignature := by
    intro s t hst declaration
    obtain rfl := hpart s t hst
    exact ⟨rfl, hupdate _ _ _ hst⟩
  strictNullChecks := by
    intro s t hst
    obtain rfl := hpart s t hst
    rfl
  canonicalUnion := by
    intro s t hst members
    obtain rfl := hpart s t hst
    exact ⟨rfl, hupdate _ _ _ hst⟩

/-- What holds at a failure: a new failure establishes it, and passing one on keeps it. -/
structure FailureSimulation (I : σ → τ → Prop)
    (E : RelationFailure → σ → RelationFailure → τ → Prop) : Prop where
  thrown : ∀ e s t, e.Unmixed → I s t → E e s e t
  wrapped : ∀ e s f t, E e s f t → ∀ source target kind, kind.propagationRank = 0 →
    E (e.wrapped source target kind) s (f.wrapped source target kind) t
  deferred : ∀ e s f t, E e s f t → ∀ source target,
    E (failure source target .deferred) s (failure source target .deferred) t

/-- The match on the kinds tries the members of a union target or of an intersection source one
after the other. -/
def isChoice (sourceKind targetKind : TypeKind) : Bool :=
  match sourceKind, targetKind with
  | .union _, _ => false
  | _, .union _ => true
  | _, .intersection _ => false
  | .intersection _, _ => true
  | _, _ => false

theorem isChoice_union {kind : TypeKind} {members : List TypeId}
    (h : ∀ members, kind = .union members → False) : isChoice kind (.union members) = true := by
  cases kind <;> simp_all [isChoice]

theorem isChoice_intersection {kind : TypeKind} {members : List TypeId}
    (h : ∀ members, kind = .union members → False)
    (h' : ∀ members, kind = .intersection members → False) :
    isChoice (.intersection members) kind = true := by
  cases kind <;> simp_all [isChoice]

theorem cases_of_isChoice {sourceKind targetKind : TypeKind}
    (h : isChoice sourceKind targetKind = true) :
    (∃ members, targetKind = .union members) ∨ ∃ members, sourceKind = .intersection members := by
  unfold isChoice at h
  split at h <;> simp_all

theorem relateKinds_of_isChoice {sourceKind targetKind : TypeKind}
    (h : isChoice sourceKind targetKind = true) :
    ∃ members sourceMembers, ∀ {τ : Type} (C : RelationContext τ)
      (relate : TypeId → TypeId → RelationMode → RelationM τ Unit) (source target : TypeId)
      (mode : RelationMode),
      Relation.relateKinds C relate source target mode sourceKind targetKind =
        Relation.relateAlternatives relate source target members mode sourceMembers := by
  rcases cases_of_isChoice h with ⟨members, rfl⟩ | ⟨members, rfl⟩
  · refine ⟨members, false, fun C relate source target mode => ?_⟩
    cases sourceKind with
    | union _ => cases h
    | _ => rfl
  · cases targetKind with
    | union targets => exact ⟨targets, false, fun _ _ _ _ _ => rfl⟩
    | intersection _ => cases h
    | _ => exact ⟨members, true, fun _ _ _ _ _ => rfl⟩

theorem unmixed_of_signatureArityFailure {s : TypeStore} {source target : TypeId}
    {sourceSignature targetSignature : Signature} {f : RelationFailure}
    (h : Relation.signatureArityFailure s source target sourceSignature targetSignature = some f) :
    f.Unmixed := by
  simp only [Relation.signatureArityFailure] at h
  split at h
  · cases h
    exact .inl (.node rfl (.leaf rfl))
  · cases h

namespace RelationSimulation

variable {C : RelationContext σ} {C' : RelationContext τ} {I J : σ → τ → Prop}
  {E : RelationFailure → σ → RelationFailure → τ → Prop} {source target : TypeId}
  {mode : RelationMode}

section failures

variable (hE : FailureSimulation I E)

include hE

theorem throw {α : Type} {e : RelationFailure} (he : e.Unmixed) :
    Simulates I J E (throw e : RelationM σ α) (throw e : RelationM τ α) :=
  .throw fun s t hst => hE.thrown e s t he hst

theorem throw_failure {α : Type} (kind : RelationFailureKind) :
    Simulates I J E (MonadExcept.throw (failure source target kind) : RelationM σ α)
      (MonadExcept.throw (failure source target kind) : RelationM τ α) :=
  throw hE (RelationFailure.unmixed_failure source target kind)

theorem wrapping {m : RelationM σ Unit} {m' : RelationM τ Unit} {kind : RelationFailureKind}
    (hm : Simulates I J E m m') (hkind : kind.propagationRank = 0) :
    Simulates I J E (Relation.wrapping source target kind m)
      (Relation.wrapping source target kind m') :=
  hm.tryCatch fun _ _ => .throw fun _ _ h => hE.wrapped _ _ _ _ h _ _ _ hkind

theorem relationInput {α : Type} (input : Completion α) :
    Simulates I I E (Relation.relationInput input source target : RelationM σ α)
      (Relation.relationInput input source target : RelationM τ α) := by
  cases input with
  | complete value => exact .pure (fun _ _ h => h) value
  | deferred => exact throw_failure hE _
  | cycle => exact throw_failure hE _
  | limit => exact throw_failure hE _

theorem force (hC : ContextSimulation C C' I) (r : Relation) (ty : TypeId) :
    Simulates I I E (Relation.force C r ty source target)
      (Relation.force C' r ty source target) :=
  .modifyGet_bind (fun s t hst => hC.forceType s t hst ty r.evaluationDepth)
    fun input => relationInput hE input

end failures

section arms

variable {relate : TypeId → TypeId → RelationMode → RelationM σ Unit}
  {relate' : TypeId → TypeId → RelationMode → RelationM τ Unit}
  (hE : FailureSimulation I E)
  (hrelate : ∀ source target mode,
    Simulates I I E (relate source target mode) (relate' source target mode))

include hE hrelate

theorem relateCovariantTypes {elementFailure : Nat → RelationFailureKind}
    (hkind : ∀ n, (elementFailure n).propagationRank = 0) (index : Nat)
    (pairs : List (TypeId × TypeId)) :
    Simulates I I E
      (Relation.relateCovariantTypes relate source target mode elementFailure index pairs)
      (Relation.relateCovariantTypes relate' source target mode elementFailure index pairs) := by
  induction pairs generalizing index with
  | nil => exact .pure (fun _ _ h => h) ()
  | cons pair rest ih => exact (wrapping hE (hrelate _ _ _) (hkind index)).bind fun _ => ih _

theorem relateEachProperty (sourceProperties : Option (List Property))
    (targetProperties : List Property) :
    Simulates I I E
      (Relation.relateEachProperty relate source target sourceProperties mode targetProperties)
      (Relation.relateEachProperty relate' source target sourceProperties mode
        targetProperties) := by
  induction targetProperties with
  | nil => exact .pure (fun _ _ h => h) ()
  | cons targetProperty rest ih =>
    unfold Relation.relateEachProperty
    split
    · exact (Simulates.pure (fun _ _ h => h) ()).bind fun _ => ih
    · exact (wrapping hE (wrapping hE (hrelate _ _ _) rfl) rfl).bind fun _ => ih

theorem relateProperties (sourceProperties : Option (List Property))
    (targetProperties : List Property) :
    Simulates I I E
      (Relation.relateProperties relate source target sourceProperties targetProperties mode)
      (Relation.relateProperties relate' source target sourceProperties targetProperties mode) := by
  unfold Relation.relateProperties
  split
  · exact relateEachProperty hE hrelate sourceProperties targetProperties
  · exact throw hE ((RelationFailure.unmixed_failure _ _ _).wrapped _ _ rfl)
  · exact throw hE ((RelationFailure.unmixed_failure _ _ _).wrapped _ _ rfl)

theorem relateToIndex (value : TypeId) (properties : List Property) :
    Simulates I I E (Relation.relateToIndex relate source target value mode properties)
      (Relation.relateToIndex relate' source target value mode properties) := by
  induction properties with
  | nil => exact .pure (fun _ _ h => h) ()
  | cons property rest ih => exact (wrapping hE (hrelate _ _ _) rfl).bind fun _ => ih

theorem relateObjectShapes (hC : ContextSimulation C C' I) (sourceShape targetShape : ObjectShape) :
    Simulates I I E
      (Relation.relateObjectShapes C relate source target sourceShape targetShape mode)
      (Relation.relateObjectShapes C' relate' source target sourceShape targetShape mode) := by
  refine .get_bind fun s t hst => ?_
  rw [hC.types s t hst]
  refine .ite (fun _ => (throw_failure hE (J := I) _).bind fun _ => ?_) fun _ => ?_
  all_goals
    refine (relateProperties hE hrelate _ _).bind fun _ => ?_
    split
    · exact .pure (fun _ _ h => h) ()
    · exact .ite (fun _ => relateToIndex hE hrelate _ _) fun _ => throw_failure hE _
    · exact throw_failure hE _

theorem relateParameters (index : Nat) (pairs : List (ParameterType × ParameterType)) :
    Simulates I I E (Relation.relateParameters relate source target index pairs)
      (Relation.relateParameters relate' source target index pairs) := by
  induction pairs generalizing index with
  | nil => exact .pure (fun _ _ h => h) ()
  | cons pair rest ih => exact (wrapping hE (hrelate _ _ _) rfl).bind fun _ => ih _

theorem relateSignatures (hC : ContextSimulation C C' I)
    (sourceSignature targetSignature : Signature) :
    Simulates I I E
      (Relation.relateSignatures C relate source target sourceSignature targetSignature mode)
      (Relation.relateSignatures C' relate' source target sourceSignature targetSignature
        mode) := by
  refine .get_bind fun s t hst => ?_
  rw [hC.types s t hst]
  dsimp only
  split
  next hfailure => exact throw hE (unmixed_of_signatureArityFailure hfailure)
  next =>
    refine (relateParameters hE hrelate 0 _).bind fun _ => .get_bind fun s t hst => ?_
    rw [hC.types s t hst]
    exact .ite (fun _ => .pure (fun _ _ h => h) ()) fun _ => wrapping hE (hrelate _ _ _) rfl

theorem relateUnionMembers (members : List TypeId) :
    Simulates I I E (Relation.relateUnionMembers relate source target mode members)
      (Relation.relateUnionMembers relate' source target mode members) := by
  induction members with
  | nil => exact .pure (fun _ _ h => h) ()
  | cons member rest ih => exact (wrapping hE (hrelate _ _ _) rfl).bind fun _ => ih

omit hE in
theorem relateToMembers (members : List TypeId) :
    Simulates I I E (Relation.relateToMembers relate source mode members)
      (Relation.relateToMembers relate' source mode members) := by
  induction members with
  | nil => exact .pure (fun _ _ h => h) ()
  | cons member rest ih => exact (hrelate _ _ _).bind fun _ => ih

omit hrelate in
theorem relateClassConstructors (hC : ContextSimulation C C' I)
    (sourceDeclaration targetDeclaration : DeclId) :
    Simulates I I E
      (Relation.relateClassConstructors C source target sourceDeclaration targetDeclaration)
      (Relation.relateClassConstructors C' source target sourceDeclaration
        targetDeclaration) := by
  refine .modifyGet_bind (fun s t hst => hC.classConstructorSignature s t hst _) fun _ => ?_
  refine (relationInput hE _).bind fun _ => ?_
  refine .modifyGet_bind (fun s t hst => hC.classConstructorSignature s t hst _) fun _ => ?_
  refine (relationInput hE _).bind fun _ => .get_bind fun s t hst => ?_
  rw [hC.types s t hst]
  refine throw hE ?_
  cases hfailure : Relation.signatureArityFailure (C'.types t) source target _ _ with
  | none => exact RelationFailure.unmixed_failure _ _ _
  | some f => exact unmixed_of_signatureArityFailure hfailure

omit hrelate in
/-- The arms that give up where the signatures do not relate. -/
theorem orDeferred {m : RelationM σ Unit} {m' : RelationM τ Unit} (hm : Simulates I I E m m') :
    Simulates I I E
      (tryCatch m fun _ => MonadExcept.throw (failure source target .deferred))
      (tryCatch m' fun _ => MonadExcept.throw (failure source target .deferred)) :=
  hm.tryCatch fun _ _ => .throw fun _ _ h => hE.deferred _ _ _ _ h _ _

/-- The arms of the match, but for the choice among alternatives. -/
theorem relateKinds (hC : ContextSimulation C C' I) {sourceKind targetKind : TypeKind}
    (hchoice : isChoice sourceKind targetKind = true → ∀ members sourceMembers,
      Simulates I I E (Relation.relateAlternatives relate source target members mode sourceMembers)
        (Relation.relateAlternatives relate' source target members mode sourceMembers)) :
    Simulates I I E (Relation.relateKinds C relate source target mode sourceKind targetKind)
      (Relation.relateKinds C' relate' source target mode sourceKind targetKind) := by
  unfold Relation.relateKinds
  split
  all_goals first
    | exact .pure (fun _ _ h => h) ()
    | exact throw_failure hE _
    | exact .ite (fun _ => .pure (fun _ _ h => h) ()) fun _ => throw_failure hE _
    | exact relateToMembers hrelate _
    | exact wrapping hE (hrelate _ _ _) rfl
    | exact relateSignatures hE hrelate hC _ _
    | exact orDeferred hE (relateSignatures hE hrelate hC _ _)
    | exact relateClassConstructors hE hC _ _
    | skip
  next members =>
    refine .get_bind fun s t hst => ?_
    rw [hC.types s t hst]
    exact relateUnionMembers hE hrelate _
  next hsource => exact hchoice (isChoice_union hsource) _ _
  next htarget => exact hchoice (isChoice_intersection ‹_› ‹_›) _ _
  next => exact .ite (fun _ => relateCovariantTypes hE hrelate (fun _ => rfl) 0 _) fun _ =>
      throw_failure hE _
  next =>
    exact .modifyGet_bind (fun s t hst => hC.canonicalUnion s t hst _) fun _ =>
      wrapping hE (hrelate _ _ _) rfl
  next =>
    refine .get_bind fun s t hst => ?_
    rw [hC.types s t hst]
    exact .ite (fun _ => throw_failure hE _) fun _ => relateProperties hE hrelate _ _
  next =>
    refine .get_bind fun s t hst => ?_
    rw [hC.libraryReferenceArgumentsAreCovariant s t hst]
    refine .ite (fun _ => .ite (fun _ => throw_failure hE _) fun _ => ?_) fun _ =>
      throw_failure hE _
    exact relateCovariantTypes hE hrelate (fun _ => rfl) 0 _

/-- Before the kinds are matched the pair may be decided outright. -/
theorem relateForced (hC : ContextSimulation C C' I) (hJ : ∀ s t, I s t → J s t) {s : σ} {t : τ}
    (hst : I s t)
    (hkinds : Simulates I J E
      (Relation.relateKinds C relate source target mode ((C.types s).kind source)
        ((C.types s).kind target))
      (Relation.relateKinds C' relate' source target mode ((C.types s).kind source)
        ((C.types s).kind target))) :
    Ends J E ((Relation.relateForced C relate source target mode).runFrom s)
      ((Relation.relateForced C' relate' source target mode).runFrom t) := by
  unfold Relation.relateForced
  rw [RelationM.runFrom_get_bind, RelationM.runFrom_get_bind, RelationM.runFrom_get_bind,
    RelationM.runFrom_get_bind, hC.types s t hst, hC.strictNullChecks s t hst]
  rw [hC.types s t hst] at hkinds
  refine Simulates.ite (I := I) (fun _ => throw_failure hE _) (fun _ => ?_) s t hst
  refine .ite (fun _ => .pure hJ ()) fun _ => .ite (fun _ => .pure hJ ()) fun _ => ?_
  refine .ite (fun _ => throw_failure hE _) fun _ => ?_
  refine .ite (fun _ => .pure hJ ()) fun _ => .ite (fun _ => .pure hJ ()) fun _ => ?_
  split
  next sourceShape targetShape _ _ =>
    exact (relateObjectShapes hE hrelate hC sourceShape targetShape).mono (fun _ _ h => h) hJ
      fun _ _ _ _ h => h
  next => exact hkinds

omit hE in
/-- Where a failure leaves the states related, so does trying one alternative after the other. -/
theorem tryAlternatives (hsame : ∀ e s f t, E e s f t → e = f ∧ I s t) (sourceMembers : Bool)
    (members : List TypeId) (selected : Option (TypeId × RelationFailure)) :
    Simulates I I E
      (Relation.tryAlternatives relate source target mode sourceMembers members selected)
      (Relation.tryAlternatives relate' source target mode sourceMembers members selected) := by
  induction members generalizing selected with
  | nil => exact .pure (fun _ _ h => h) _
  | cons member rest ih =>
    unfold Relation.tryAlternatives
    have hcatch : ∀ {α : Type} {m : RelationM σ α} {m' : RelationM τ α} {f f'},
        Simulates I I E m m' → (∀ e e', Simulates (fun s t => E e s e' t) I E (f e) (f' e')) →
          Simulates I I E (MonadExcept.tryCatch m f) (MonadExcept.tryCatch m' f') :=
      fun hm hf => .tryCatch hm hf
    refine Simulates.bind (hcatch ?_ fun e f => ?_) fun outcome => ?_
    · have hmember : ∀ a b, Simulates I I E
          (do relate a b mode; pure (none : Option RelationFailure))
          (do relate' a b mode; pure none) :=
        fun a b => (hrelate a b mode).bind fun _ => .pure (fun _ _ h => h) none
      exact .ite (fun _ => hmember _ _) fun _ => hmember _ _
    · intro s t hfailed
      obtain ⟨rfl, hst⟩ := hsame _ _ _ _ hfailed
      exact .ok _ hst
    · cases outcome with
      | none => exact .pure (fun _ _ h => h) _
      | some error => exact ih _

omit hE in
theorem relateAlternatives (hsame : ∀ e s f t, E e s f t → e = f ∧ I s t)
    (hthrow : ∀ e s t, I s t → E e s e t) (members : List TypeId) (sourceMembers : Bool) :
    Simulates I I E
      (Relation.relateAlternatives relate source target members mode sourceMembers)
      (Relation.relateAlternatives relate' source target members mode sourceMembers) := by
  refine (tryAlternatives hrelate hsame sourceMembers members none).bind fun found => ?_
  cases found with
  | none => exact .pure (fun _ _ h => h) ()
  | some selected =>
    exact .ite (fun _ => .throw fun _ _ h => hthrow _ _ _ h) fun _ =>
      .throw fun _ _ h => hthrow _ _ _ h

end arms

end RelationSimulation

end Tsz.Semantics
