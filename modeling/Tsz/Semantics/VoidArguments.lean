import Tsz.Semantics.CallArity
import Mathlib.Order.Bounds.Defs

/-!
# Which arguments may be left out

An argument may be left out of a call when its type accepts `void`: it is `void`, or a union in
which a member accepts `void` and none absorbs it.

## Main definitions

* `AcceptsVoid` — `void` is among the members of a type and nothing absorbs it.
* `IsCallArity` — what the least and the greatest number of arguments are.

## Main results

* `effectiveCallArity_isCallArity` — the arity that is computed is the one that is meant.
-/

namespace Tsz.Semantics

/-! ## Types that accept `void` -/

section

variable (s : TypeStore) (references : CallArityReferences)

/-- A type stands for what the references lead it to. -/
inductive ResolvesTo : TypeId → CallArityResolution → Prop
  | follow {ty resolved resolution} :
    references.lookup ty = some (.complete (.expanded resolved)) →
    ResolvesTo resolved resolution → ResolvesTo ty resolution
  | opaqueRequired {ty} :
    references.lookup ty = some (.complete .opaqueRequired) → ResolvesTo ty .opaqueRequired
  | restArray {ty element} :
    references.lookup ty = some (.complete (.restArray element)) →
    ResolvesTo ty (.restArray element)
  | here {ty} : references.lookup ty = none → (∀ query, s.kind ty ≠ .deferred query) →
    ResolvesTo ty (.expanded ty)

/-- The kinds that swallow every other member of a union. -/
def TypeKind.AbsorbsUnion : TypeKind → Prop
  | .any | .unknown | .error | .invalid _ => True
  | _ => False

/-- A type that swallows `void` beside it. -/
inductive Absorbs : TypeId → Prop
  | top {ty resolved} : ResolvesTo s references ty (.expanded resolved) →
    (s.kind resolved).AbsorbsUnion → Absorbs ty
  | union {ty resolved members member} : ResolvesTo s references ty (.expanded resolved) →
    s.kind resolved = .union members → member ∈ members → Absorbs member → Absorbs ty

/-- A type whose values include the missing argument. -/
inductive AcceptsVoid : TypeId → Prop
  | void {ty resolved} : ResolvesTo s references ty (.expanded resolved) →
    s.kind resolved = .void → AcceptsVoid ty
  | union {ty resolved members member} : ResolvesTo s references ty (.expanded resolved) →
    s.kind resolved = .union members → member ∈ members → AcceptsVoid member →
    (∀ other ∈ members, ¬ Absorbs s references other) → AcceptsVoid ty

end

section

variable {s : TypeStore} {references : CallArityReferences}

theorem ResolvesTo.unique {ty : TypeId} {resolution resolution' : CallArityResolution}
    (h : ResolvesTo s references ty resolution) (h' : ResolvesTo s references ty resolution') :
    resolution = resolution' := by
  induction h with
  | follow hlookup _ ih =>
    cases h' with
    | follow hlookup' hresolved =>
      rw [hlookup] at hlookup'
      cases hlookup'
      exact ih hresolved
    | opaqueRequired hlookup' | restArray hlookup' | here hlookup' =>
      rw [hlookup] at hlookup'
      cases hlookup'
  | opaqueRequired hlookup | restArray hlookup | here hlookup =>
    cases h' with
    | follow hlookup' | opaqueRequired hlookup' | restArray hlookup' | here hlookup' => grind

theorem resolvesTo_of_callArityTypeFrom {fuel : Nat} {seen : List TypeId} {ty : TypeId}
    {resolution : CallArityResolution}
    (h : callArityTypeFrom s references fuel seen ty = .ok resolution) :
    ResolvesTo s references ty resolution := by
  induction fuel generalizing seen ty with
  | zero => cases h
  | succ fuel ih =>
    rw [callArityTypeFrom] at h
    by_cases hseen : ty ∈ seen
    · rw [if_pos hseen] at h
      cases h
    · rw [if_neg hseen] at h
      split at h
      next resolved hlookup => exact .follow hlookup (ih h)
      next hne hlookup =>
        cases h
        cases resolution with
        | expanded id => exact absurd rfl (hne id)
        | opaqueRequired => exact .opaqueRequired hlookup
        | restArray element => exact .restArray hlookup
      next => cases h
      next hlookup =>
        split at h
        next => cases h
        next => cases h
        next hkind _ =>
          cases h
          exact .here hlookup fun query hdeferred => by grind

theorem resolvesTo_of_callArityType {ty : TypeId} {resolution : CallArityResolution}
    (h : callArityType s references ty = .ok resolution) :
    ResolvesTo s references ty resolution := resolvesTo_of_callArityTypeFrom h

theorem absorbs_iff {ty resolved : TypeId}
    (h : ResolvesTo s references ty (.expanded resolved)) :
    Absorbs s references ty ↔ (s.kind resolved).AbsorbsUnion ∨
      ∃ members, s.kind resolved = .union members ∧ ∃ member ∈ members,
        Absorbs s references member := by
  constructor
  · rintro (⟨h', htop⟩ | ⟨h', hkind, hmem, habsorbs⟩)
    · cases h.unique h'
      exact .inl htop
    · cases h.unique h'
      exact .inr ⟨_, hkind, _, hmem, habsorbs⟩
  · rintro (htop | ⟨members, hkind, member, hmem, habsorbs⟩)
    · exact .top h htop
    · exact .union h hkind hmem habsorbs

theorem acceptsVoid_iff {ty resolved : TypeId}
    (h : ResolvesTo s references ty (.expanded resolved)) :
    AcceptsVoid s references ty ↔ s.kind resolved = .void ∨
      ∃ members, s.kind resolved = .union members ∧
        (∃ member ∈ members, AcceptsVoid s references member) ∧
        ∀ other ∈ members, ¬ Absorbs s references other := by
  constructor
  · rintro (⟨h', hvoid⟩ | ⟨h', hkind, hmem, haccepts, hall⟩)
    · cases h.unique h'
      exact .inl hvoid
    · cases h.unique h'
      exact .inr ⟨_, hkind, ⟨_, hmem, haccepts⟩, hall⟩
  · rintro (hvoid | ⟨members, hkind, ⟨member, hmem, haccepts⟩, hall⟩)
    · exact .void h hvoid
    · exact .union h hkind hmem haccepts hall

theorem AcceptsVoid.not_absorbs {ty : TypeId} (h : AcceptsVoid s references ty) :
    ¬ Absorbs s references ty := by
  cases h with
  | void hresolves hkind => simp [absorbs_iff hresolves, hkind, TypeKind.AbsorbsUnion]
  | union hresolves hkind _ _ hall =>
    simpa [absorbs_iff hresolves, hkind, TypeKind.AbsorbsUnion] using hall

/-- A reference that is not followed to a type neither accepts nor absorbs anything. -/
theorem not_absorbs_of_resolvesTo {ty : TypeId} {resolution : CallArityResolution}
    (h : ResolvesTo s references ty resolution) (hne : ∀ id, resolution ≠ .expanded id) :
    ¬ AcceptsVoid s references ty ∧ ¬ Absorbs s references ty := by
  constructor
  · rintro (⟨h', -⟩ | ⟨h', -⟩) <;> exact hne _ (h.unique h')
  · rintro (⟨h', -⟩ | ⟨h', -⟩) <;> exact hne _ (h.unique h')

/-- What an answer to whether an argument may be left out says of its type. -/
def Describes (s : TypeStore) (references : CallArityReferences) (ty : TypeId) :
    CallOmission → Prop
  | .required => ¬ AcceptsVoid s references ty ∧ ¬ Absorbs s references ty
  | .omittable => AcceptsVoid s references ty
  | .absorbing => Absorbs s references ty

/-- An absorbing answer for a union comes from a member. -/
theorem exists_absorbing_of_unionOmission {omission : TypeId → Except CallArityGap CallOmission}
    {members : List TypeId} {found : CallOmission} {pending : Option CallArityGap}
    (hfound : found ≠ .absorbing)
    (h : unionOmission omission members found pending = .ok .absorbing) :
    ∃ member ∈ members, omission member = .ok .absorbing := by
  induction members generalizing found pending with
  | nil =>
    cases pending with
    | none => exact absurd (Except.ok.inj h) hfound
    | some gap => cases h
  | cons member rest ih =>
    rw [unionOmission] at h
    split at h
    next habsorbing => exact ⟨member, List.mem_cons_self, habsorbing⟩
    next =>
      obtain ⟨other, hmem, hother⟩ := ih (by simp) h
      exact ⟨other, List.mem_cons_of_mem _ hmem, hother⟩
    next =>
      obtain ⟨other, hmem, hother⟩ := ih hfound h
      exact ⟨other, List.mem_cons_of_mem _ hmem, hother⟩
    next =>
      split at h <;>
      · obtain ⟨other, hmem, hother⟩ := ih hfound h
        exact ⟨other, List.mem_cons_of_mem _ hmem, hother⟩

/-- Any other answer for a union needs one for each member. -/
theorem forall_of_unionOmission {omission : TypeId → Except CallArityGap CallOmission}
    {members : List TypeId} {found answer : CallOmission} {pending : Option CallArityGap}
    (hanswer : answer ≠ .absorbing)
    (h : unionOmission omission members found pending = .ok answer) :
    pending = none ∧ (∀ member ∈ members,
        omission member = .ok .required ∨ omission member = .ok .omittable) ∧
      (answer = .omittable ↔
        found = .omittable ∨ ∃ member ∈ members, omission member = .ok .omittable) := by
  induction members generalizing found pending with
  | nil =>
    cases pending with
    | none => simp [← Except.ok.inj h]
    | some gap => cases h
  | cons member rest ih =>
    rw [unionOmission] at h
    split at h
    next => exact absurd (Except.ok.inj h).symm hanswer
    next homittable =>
      obtain ⟨hpending, hall, hiff⟩ := ih h
      exact ⟨hpending, by simpa [homittable] using hall, by simpa [homittable] using hiff⟩
    next hrequired =>
      obtain ⟨hpending, hall, hiff⟩ := ih h
      exact ⟨hpending, by simpa [hrequired] using hall, by simpa [hrequired] using hiff⟩
    next gap hgap =>
      -- A gap stays pending to the end.
      split at h
      next => exact absurd (ih h).1 (by simp)
      next hsome => exact absurd (ih h).1 (by simp at hsome; grind)

theorem describes_of_unionOmission {ty : TypeId} {members : List TypeId}
    {omission : TypeId → Except CallArityGap CallOmission} {answer : CallOmission}
    (habsorbs : Absorbs s references ty ↔ ∃ member ∈ members, Absorbs s references member)
    (haccepts : AcceptsVoid s references ty ↔
      (∃ member ∈ members, AcceptsVoid s references member) ∧
        ∀ other ∈ members, ¬ Absorbs s references other)
    (hmember : ∀ member found, omission member = .ok found →
      Describes s references member found)
    (h : unionOmission omission members .required none = .ok answer) :
    Describes s references ty answer := by
  by_cases hanswer : answer = .absorbing
  · subst hanswer
    obtain ⟨member, hmem, hmember'⟩ := exists_absorbing_of_unionOmission (by simp) h
    exact habsorbs.mpr ⟨member, hmem, hmember _ _ hmember'⟩
  · obtain ⟨-, hall, hiff⟩ := forall_of_unionOmission hanswer h
    have hnone : ∀ member ∈ members, ¬ Absorbs s references member := by
      intro member hmem
      rcases hall member hmem with hrequired | homittable
      · exact (hmember _ _ hrequired).2
      · exact (hmember _ _ homittable).not_absorbs
    have hnot : ¬ Absorbs s references ty := by simpa [habsorbs] using hnone
    cases answer with
    | absorbing => exact absurd rfl hanswer
    | omittable =>
      obtain ⟨member, hmem, homittable⟩ : ∃ member ∈ members,
          omission member = .ok .omittable := by simpa using hiff
      exact haccepts.mpr ⟨⟨member, hmem, hmember _ _ homittable⟩, hnone⟩
    | required =>
      have hno : ¬ ∃ member ∈ members, omission member = .ok .omittable := by simpa using hiff
      refine ⟨fun h => ?_, hnot⟩
      obtain ⟨⟨member, hmem, hvoid⟩, -⟩ := haccepts.mp h
      rcases hall member hmem with hrequired | homittable
      · exact (hmember _ _ hrequired).1 hvoid
      · exact hno ⟨member, hmem, homittable⟩

theorem describes_of_callOmissionFrom {fuel : Nat} {seen : List TypeId} {ty : TypeId}
    {omission : CallOmission}
    (h : callOmissionFrom s references fuel seen ty = .ok omission) :
    Describes s references ty omission := by
  induction fuel generalizing seen ty omission with
  | zero => cases h
  | succ fuel ih =>
    rw [callOmissionFrom] at h
    split at h
    next => cases h
    next resolved hresolved =>
      have hresolves := resolvesTo_of_callArityType hresolved
      by_cases hseen : resolved ∈ seen
      · rw [if_pos hseen] at h
        cases h
      · rw [if_neg hseen] at h
        cases hkind : s.kind resolved with
        | union members =>
          rw [hkind] at h
          have habsorbs : Absorbs s references ty ↔
              ∃ member ∈ members, Absorbs s references member := by
            simp [absorbs_iff hresolves, hkind, TypeKind.AbsorbsUnion]
          have haccepts : AcceptsVoid s references ty ↔
              (∃ member ∈ members, AcceptsVoid s references member) ∧
                ∀ other ∈ members, ¬ Absorbs s references other := by
            simp [acceptsVoid_iff hresolves, hkind]
          exact describes_of_unionOmission habsorbs haccepts (fun member answer => ih) h
        | intersection => rw [hkind] at h; cases h
        | any | unknown | error | invalid =>
          rw [hkind] at h
          cases h
          exact .top hresolves (by rw [hkind]; trivial)
        | _ =>
          rw [hkind] at h
          cases h
          simp [Describes, absorbs_iff hresolves, acceptsVoid_iff hresolves, hkind,
            TypeKind.AbsorbsUnion]
    next resolution hne hresolved =>
      cases h
      exact not_absorbs_of_resolvesTo (resolvesTo_of_callArityType hresolved)
        fun id heq => hne id (by rw [heq])

theorem acceptsVoid_iff_of_callOmission {ty : TypeId} {omission : CallOmission}
    (h : callOmission s references ty = .ok omission) :
    AcceptsVoid s references ty ↔ omission = .omittable := by
  have hdescribes := describes_of_callOmissionFrom h
  cases omission with
  | required => simpa using hdescribes.1
  | omittable => exact iff_of_true hdescribes rfl
  | absorbing => simpa using fun haccepts => haccepts.not_absorbs hdescribes

end

/-! ## The arity of a call -/

section

variable (s : TypeStore) (references : CallArityReferences) (signature : Signature)

/-- The positions of a signature, with the tuple of its rest parameter expanded, and whether the
syntax requires them: untyped JavaScript requires no parameter. -/
def expandedPositions : List (TypeId × Bool) :=
  signature.fixedParameters.map (fun parameter =>
      (parameter.ty, !signature.untypedJavaScript && !parameter.optional)) ++
    (restElements s references signature).map fun element => (element, true)

/-- One past the last position that is required. -/
def pastRequired (positions : List (TypeId × Bool)) : Nat :=
  (positions.rdropWhile fun position => !position.2).length

/-- There is a rest parameter and it does not stand for a tuple. -/
def RestIsOpen : Prop :=
  ∃ rest ∈ signature.parameters, rest.rest = true ∧
    ∀ resolved elements, ResolvesTo s references rest.ty (.expanded resolved) →
      s.kind resolved ≠ .tuple elements

/-- From the count up to the last required position, every argument may be left out. -/
def MayStopAt (positions : List (TypeId × Bool)) (count : Nat) : Prop :=
  count ≤ pastRequired positions ∧ ∀ index position, count ≤ index →
    index < pastRequired positions → positions[index]? = some position →
      AcceptsVoid s references position.1

/-- The least and the greatest number of arguments of a call. -/
structure IsCallArity (minimum : Nat) (maximum : Option Nat) : Prop where
  le : ∀ greatest ∈ maximum, minimum ≤ greatest
  unbounded_iff : maximum = none ↔ RestIsOpen s references signature
  greatest : ∀ greatest ∈ maximum, greatest = (expandedPositions s references signature).length
  least : IsLeast {count | MayStopAt s references (expandedPositions s references signature) count}
    minimum

variable {s references signature}

theorem lt_pastRequired_iff {positions : List (TypeId × Bool)} {index : Nat} :
    index < pastRequired positions ↔ ∃ position ∈ positions.drop index, position.2 = true := by
  rw [pastRequired, lt_length_rdropWhile_iff]
  simp

theorem pastRequired_le_length (positions : List (TypeId × Bool)) :
    pastRequired positions ≤ positions.length :=
  (List.rdropWhile_prefix _ _).length_le

/-- The search starts past the last position that is required. -/
theorem callBase_eq_pastRequired :
    callBase s references signature = pastRequired (expandedPositions s references signature) := by
  refine eq_of_forall_lt_iff fun index => ?_
  rw [lt_pastRequired_iff, expandedPositions, callBase]
  by_cases hempty : restElements s references signature = []
  · simp only [hempty, List.isEmpty_nil, if_true]
    rw [Signature.syntacticMinimum, lt_length_rdropWhile_iff]
    simp [← List.map_drop]
  · simp only [List.isEmpty_iff, hempty, if_false]
    constructor
    · intro hlt
      obtain ⟨front, last, hlast⟩ := (List.eq_nil_or_concat _).resolve_left hempty
      refine ⟨(last, true), ?_, rfl⟩
      rw [hlast, List.concat_eq_append] at hlt ⊢
      rw [List.map_append, ← List.append_assoc,
        List.drop_append_of_le_length (by simp at hlt ⊢; omega)]
      simp
    · rintro ⟨position, hmem, -⟩
      by_contra hle
      rw [List.drop_eq_nil_of_le (by simpa using hle)] at hmem
      cases hmem

theorem callPosition_eq {index : Nat} {position : TypeId × Bool}
    (h : (expandedPositions s references signature)[index]? = some position) :
    callPosition signature.fixedParameters (restElements s references signature) index =
      position.1 := by
  rw [expandedPositions, List.getElem?_append] at h
  rw [callPosition]
  by_cases hlt : index < signature.fixedParameters.length
  · simp_all
    grind
  · simp_all
    grind

/-- The search ends at an argument that may not be left out. -/
theorem callOmission_of_callMinimum {fixed : List ParameterType} {tail : List TypeId}
    {base minimum : Nat} (h : callMinimum s references fixed tail base = .ok (minimum + 1)) :
    minimum < base ∧ ∃ omission, omission ≠ .omittable ∧
      callOmission s references (callPosition fixed tail minimum) = .ok omission := by
  induction base with
  | zero => cases h
  | succ base ih =>
    rw [callMinimum] at h
    split at h
    next => cases h
    next =>
      obtain ⟨hlt, homission⟩ := ih h
      exact ⟨by omega, homission⟩
    next omission hne homission =>
      obtain rfl : base = minimum := by simpa using h
      exact ⟨by omega, omission, fun heq => hne heq, homission⟩

/-- No parameter before the rest parameter is one, and the next one is. -/
theorem drop_fixedParameters (signature : Signature) :
    signature.parameters =
        signature.fixedParameters ++ signature.parameters.drop signature.fixedParameters.length ∧
      (∀ parameter ∈ signature.fixedParameters, parameter.rest = false) ∧
      ∀ rest ∈ (signature.parameters.drop signature.fixedParameters.length).head?,
        rest.rest = true := by
  have hsplit := List.takeWhile_append_dropWhile (p := fun parameter : ParameterType =>
    !parameter.rest) (l := signature.parameters)
  have hdrop : signature.parameters.drop signature.fixedParameters.length =
      signature.parameters.dropWhile fun parameter => !parameter.rest := by
    nth_rewrite 1 [← hsplit]
    exact List.drop_left
  refine ⟨by rw [hdrop]; exact hsplit.symm, fun parameter hmem => ?_, fun rest hmem => ?_⟩
  · simpa using List.mem_takeWhile_imp hmem
  · rw [hdrop] at hmem
    have := List.head?_dropWhile_not (fun parameter : ParameterType => !parameter.rest)
      signature.parameters
    rw [Option.mem_def.mp hmem] at this
    simpa using this

/-- How many positions there are, and whether there is a bound, is what the last parameter
allows. -/
theorem maximum_of_restMaximum {rest : ParameterType} {resolution : CallArityResolution}
    (hdrop : signature.parameters.drop signature.fixedParameters.length = [rest])
    (hrest : callArityType s references rest.ty = .ok resolution) :
    (restMaximum s signature.fixedParameters.length resolution = none ↔
        RestIsOpen s references signature) ∧
      ∀ greatest ∈ restMaximum s signature.fixedParameters.length resolution,
        greatest = (expandedPositions s references signature).length := by
  have hresolves := resolvesTo_of_callArityType hrest
  obtain ⟨hsplit, hfixed, hhead⟩ := drop_fixedParameters signature
  have hopen : RestIsOpen s references signature ↔ ∀ resolved elements,
      ResolvesTo s references rest.ty (.expanded resolved) → s.kind resolved ≠ .tuple elements := by
    rw [RestIsOpen, hsplit, hdrop]
    constructor
    · rintro ⟨parameter, hmem, hparameter, hall⟩
      rcases List.mem_append.mp hmem with hmem | hmem
      · rw [hfixed parameter hmem] at hparameter
        cases hparameter
      · rwa [List.mem_singleton.mp hmem] at hall
    · intro hall
      exact ⟨rest, by simp, hhead rest (by simp [hdrop]), hall⟩
  rw [hopen]
  cases resolution with
  | opaqueRequired | restArray =>
    refine ⟨iff_of_true rfl fun _ _ hexpanded => ?_, fun _ hgreatest => by cases hgreatest⟩
    cases hresolves.unique hexpanded
  | expanded resolved =>
    have hunique : ∀ other, ResolvesTo s references rest.ty (.expanded other) → other = resolved :=
      fun other hother => CallArityResolution.expanded.inj (hother.unique hresolves)
    cases hkind : s.kind resolved with
    | tuple elements =>
      have helements : restElements s references signature = elements := by
        simp only [restElements, hdrop, hrest, hkind]
      refine ⟨iff_of_false (by simp [restMaximum, hkind]) fun hall =>
        hall resolved elements hresolves hkind, fun greatest hgreatest => ?_⟩
      have : signature.fixedParameters.length + elements.length = greatest := by
        simpa [restMaximum, hkind] using hgreatest
      simp [expandedPositions, helements, ← this]
    | _ =>
      refine ⟨iff_of_true (by simp [restMaximum, hkind]) fun other elements hother => ?_,
        by simp [restMaximum, hkind]⟩
      rw [hunique other hother, hkind]
      exact TypeKind.noConfusion

theorem effectiveCallArity_isCallArity {minimum : Nat} {maximum : Option Nat}
    (h : effectiveCallArity s references signature = .ok (minimum, maximum)) :
    IsCallArity s references signature minimum maximum := by
  obtain ⟨hminimum, hmaximum⟩ := effectiveCallArity_cases h
  rw [callBase_eq_pastRequired] at hminimum
  have hbase := pastRequired_le_length (expandedPositions s references signature)
  have hle : minimum ≤ pastRequired (expandedPositions s references signature) := by
    cases minimum with
    | zero => omega
    | succ minimum => exact (callOmission_of_callMinimum hminimum).1
  have hbound : (maximum = none ↔ RestIsOpen s references signature) ∧
      ∀ greatest ∈ maximum, greatest = (expandedPositions s references signature).length := by
    rcases hmaximum with ⟨hdrop, rfl⟩ | ⟨rest, resolution, hdrop, hrest, rfl⟩
    · obtain ⟨hsplit, hfixed, -⟩ := drop_fixedParameters signature
      rw [hdrop, List.append_nil] at hsplit
      constructor
      · refine iff_of_false nofun ?_
        rintro ⟨rest, hmem, hrest, -⟩
        rw [hsplit] at hmem
        rw [hfixed rest hmem] at hrest
        cases hrest
      · intro greatest hgreatest
        rw [← Option.some.inj hgreatest, hsplit]
        simp [expandedPositions, restElements, ← hsplit]
    · exact maximum_of_restMaximum hdrop hrest
  refine ⟨fun greatest hgreatest => ?_, hbound.1, hbound.2, ⟨hle, ?_⟩, ?_⟩
  · rw [hbound.2 greatest hgreatest]
    omega
  · intro index position hindex hlt hposition
    have homittable := (callMinimum_le_iff hminimum).mp le_rfl index hindex hlt
    rw [callPosition_eq hposition] at homittable
    exact (acceptsVoid_iff_of_callOmission homittable).mpr rfl
  · rintro count ⟨-, hstop⟩
    by_contra hlt
    obtain ⟨minimum, rfl⟩ : ∃ n, minimum = n + 1 := ⟨minimum - 1, by omega⟩
    obtain ⟨hminimum, omission, hne, homission⟩ := callOmission_of_callMinimum hminimum
    have hposition : (expandedPositions s references signature)[minimum]? =
        some ((expandedPositions s references signature)[minimum]) :=
      List.getElem?_eq_getElem (by omega)
    rw [callPosition_eq hposition] at homission
    exact hne ((acceptsVoid_iff_of_callOmission homission).mp
      (hstop minimum _ (by omega) hminimum hposition))

theorem effectiveCallArity_isCallArity_voidLast :
    effectiveCallArity TypeStore.new [] voidLast = .ok (1, some 2) ∧
      IsCallArity TypeStore.new [] voidLast 1 (some 2) :=
  have harity : effectiveCallArity TypeStore.new [] voidLast = .ok (1, some 2) := by
    decide +kernel
  ⟨harity, effectiveCallArity_isCallArity harity⟩

end

/-! ### A tuple in untyped JavaScript -/

/-- The positions of a signature, none of which is required in untyped JavaScript. -/
def unrequiredPositions (s : TypeStore) (references : CallArityReferences)
    (signature : Signature) : List (TypeId × Bool) :=
  (expandedPositions s references signature).map fun position =>
    (position.1, !signature.untypedJavaScript && position.2)

/-- `(...rest: [number]) => void` in untyped JavaScript. -/
def untypedTupleRest : Signature where
  genericDeclaration := none
  untypedJavaScript := true
  parameters :=
    [⟨none, (TypeStore.new.intern (.tuple [TypeStore.new.builtins.number])).1, false, true⟩]
  returnType := TypeStore.new.builtins.void

theorem untypedTupleRest_requires_element :
    ¬ ∀ s references signature minimum maximum,
      effectiveCallArity s references signature = .ok (minimum, maximum) →
        IsLeast {count | MayStopAt s references (unrequiredPositions s references signature) count}
          minimum := by
  intro h
  have harity : effectiveCallArity
      (TypeStore.new.intern (.tuple [TypeStore.new.builtins.number])).2 [] untypedTupleRest =
        .ok (1, some 1) := by decide +kernel
  have hpositions : pastRequired (unrequiredPositions
      (TypeStore.new.intern (.tuple [TypeStore.new.builtins.number])).2 [] untypedTupleRest) = 0 := by
    decide +kernel
  have := (h _ _ _ _ _ harity).1.1
  rw [hpositions] at this
  cases this

end Tsz.Semantics
