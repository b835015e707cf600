import Tsz.Recursion.Visited
import Tsz.Semantics.Relation
import Mathlib.Data.List.DropRight

/-!
# How many arguments a call needs

The arity a call is checked against expands the type of a rest parameter and lets trailing
arguments be omitted whose type accepts `void`. The relation counts the parameters of a signature
on its own.

## Main definitions

* `callOmission` — whether an argument of a type may be left out.
* `effectiveCallArity` — the least and the greatest number of arguments.

## Main results

* `callOmissionFrom_fuel` — the bound on the nesting of unions does not matter.
* `signatureArityFailure_agrees_iff` — when the relation counts like a call.
-/

namespace Tsz.Semantics

open Recursion

inductive CallArityGap
  | reference (id : TypeId) (declaration : DeclId) (arguments : List TypeId)
  | type (id : TypeId)
  | deferred
deriving DecidableEq, Repr

inductive CallArityResolution
  | expanded (id : TypeId)
  | opaqueRequired
  | restArray (element : TypeId)
deriving DecidableEq, Repr

inductive CallOmission
  | required
  | omittable
  | absorbing
deriving DecidableEq, Repr

/-- What the references met so far resolve to. -/
abbrev CallArityReferences := List (TypeId × Completion CallArityResolution)

section

variable (s : TypeStore) (references : CallArityReferences)

/-- Follow resolved references; the first argument bounds how many. -/
def callArityTypeFrom : Nat → List TypeId → TypeId → Except CallArityGap CallArityResolution
  | 0, _, _ => .error .deferred
  | fuel + 1, seen, ty =>
    if ty ∈ seen then .error .deferred
    else
      match references.lookup ty with
      | some (.complete (.expanded resolved)) => callArityTypeFrom fuel (ty :: seen) resolved
      | some (.complete resolved) => .ok resolved
      | some _ => .error .deferred
      | none =>
        match s.kind ty with
        | .deferred (.reference declaration arguments) =>
          .error (.reference ty declaration arguments)
        | .deferred _ => .error (.type ty)
        | _ => .ok (.expanded ty)

def callArityType (ty : TypeId) : Except CallArityGap CallArityResolution :=
  callArityTypeFrom s references (references.length + 1) [] ty

/-- An absorbing member decides a union; otherwise the first gap, or the last one that names a
type, is its answer. -/
def unionOmission (omission : TypeId → Except CallArityGap CallOmission) :
    List TypeId → CallOmission → Option CallArityGap → Except CallArityGap CallOmission
  | [], found, none => .ok found
  | [], _, some gap => .error gap
  | member :: rest, found, pending =>
    match omission member with
    | .ok .absorbing => .ok .absorbing
    | .ok .omittable => unionOmission omission rest .omittable pending
    | .ok .required => unionOmission omission rest found pending
    | .error gap =>
      if gap ≠ .deferred ∨ pending.isNone then unionOmission omission rest found (some gap)
      else unionOmission omission rest found pending

/-- Whether an argument of a type may be left out; the first argument bounds the nesting of
unions. -/
def callOmissionFrom : Nat → List TypeId → TypeId → Except CallArityGap CallOmission
  | 0, _, _ => .error .deferred
  | fuel + 1, seen, ty =>
    match callArityType s references ty with
    | .error gap => .error gap
    | .ok (.expanded ty) =>
      if ty ∈ seen then .error .deferred
      else
        match s.kind ty with
        | .void => .ok .omittable
        | .any | .unknown | .error | .invalid _ => .ok .absorbing
        | .intersection _ => .error .deferred
        | .union members =>
          unionOmission (callOmissionFrom fuel (ty :: seen)) members .required none
        | _ => .ok .required
    | .ok _ => .ok .required

def callOmission (ty : TypeId) : Except CallArityGap CallOmission :=
  callOmissionFrom s references (s.kinds.length + 1) [] ty

/-- The type an argument position takes: that of a fixed parameter, or of an element of the tuple
that the rest parameter stands for. -/
def callPosition (fixed : List ParameterType) (tail : List TypeId) (index : Nat) : TypeId :=
  if h : index < fixed.length then fixed[index].ty
  else tail.getD (index - fixed.length) ⟨0⟩

/-- The least number of arguments, found from the back. -/
def callMinimum (fixed : List ParameterType) (tail : List TypeId) : Nat → Except CallArityGap Nat
  | 0 => .ok 0
  | index + 1 =>
    match callOmission s references (callPosition fixed tail index) with
    | .error gap => .error gap
    | .ok .omittable => callMinimum fixed tail index
    | .ok _ => .ok (index + 1)

/-- The parameters in front of the rest parameter. -/
def Signature.fixedParameters (signature : Signature) : List ParameterType :=
  signature.parameters.takeWhile fun parameter => !parameter.rest

/-- How many of the fixed parameters reach up to the last one that is not optional. -/
def Signature.syntacticMinimum (signature : Signature) : Nat :=
  (signature.fixedParameters.rdropWhile fun parameter =>
    signature.untypedJavaScript || parameter.optional).length

/-- The least number of arguments, and the greatest one if there is any. -/
def effectiveCallArity (signature : Signature) : Except CallArityGap (Nat × Option Nat) := do
  let fixed := signature.fixedParameters
  match signature.parameters.drop fixed.length with
  | [] =>
    let minimum ← callMinimum s references fixed [] signature.syntacticMinimum
    pure (minimum, some signature.parameters.length)
  | [rest] =>
    if rest.optional then throw .deferred
    let fixedMinimum := callMinimum s references fixed [] signature.syntacticMinimum
    match ← callArityType s references rest.ty with
    | .restArray _ => pure (← fixedMinimum, none)
    | .opaqueRequired => throw .deferred
    | .expanded restType =>
      match s.kind restType with
      | .any | .never | .error | .invalid _ | .array _ => pure (← fixedMinimum, none)
      | .tuple elements =>
        let base :=
          if elements.isEmpty then signature.syntacticMinimum
          else fixed.length + elements.length
        let minimum ← callMinimum s references fixed elements base
        pure (minimum, some (fixed.length + elements.length))
      | _ => throw .deferred
  | _ => throw .deferred

end

/-! ## The bounds do not matter -/

theorem mem_keys_of_lookup {α β : Type} [BEq α] [LawfulBEq α] {table : List (α × β)} {a : α}
    {b : β} (h : table.lookup a = some b) : a ∈ table.map Prod.fst := by
  obtain ⟨front, rest, rfl, -⟩ := List.lookup_eq_some_iff.mp h
  simp

/-- Once there are more steps than references, their number does not matter. -/
theorem callArityTypeFrom_fuel {s : TypeStore} {references : CallArityReferences}
    {fuel fuel' : Nat} {seen : List TypeId} (ty : TypeId)
    (h : unseen (references.map Prod.fst) seen < fuel)
    (h' : unseen (references.map Prod.fst) seen < fuel') :
    callArityTypeFrom s references fuel seen ty = callArityTypeFrom s references fuel' seen ty := by
  induction fuel generalizing fuel' seen ty with
  | zero => omega
  | succ fuel ih =>
    obtain ⟨fuel', rfl⟩ : ∃ n, fuel' = n + 1 := ⟨fuel' - 1, by omega⟩
    rw [callArityTypeFrom, callArityTypeFrom]
    by_cases hseen : ty ∈ seen
    · rw [if_pos hseen, if_pos hseen]
    · rw [if_neg hseen, if_neg hseen]
      split
      next resolved hlookup =>
        have hlt := unseen_lt_of_mem (mem_keys_of_lookup hlookup) hseen
          fun _ => List.mem_cons
        exact ih resolved (by omega) (by omega)
      all_goals rfl

/-- Once the nesting is bounded by the number of types, the bound does not matter. -/
theorem callOmissionFrom_fuel {s : TypeStore} {references : CallArityReferences}
    {fuel fuel' : Nat} {seen : List TypeId} (ty : TypeId)
    (h : unseen ((List.range s.kinds.length).map TypeId.mk) seen < fuel)
    (h' : unseen ((List.range s.kinds.length).map TypeId.mk) seen < fuel') :
    callOmissionFrom s references fuel seen ty = callOmissionFrom s references fuel' seen ty := by
  induction fuel generalizing fuel' seen ty with
  | zero => omega
  | succ fuel ih =>
    obtain ⟨fuel', rfl⟩ : ∃ n, fuel' = n + 1 := ⟨fuel' - 1, by omega⟩
    rw [callOmissionFrom, callOmissionFrom]
    split
    next => rfl
    next resolved _ =>
      by_cases hseen : resolved ∈ seen
      · rw [if_pos hseen, if_pos hseen]
      · rw [if_neg hseen, if_neg hseen]
        cases hkind : s.kind resolved with
        | union members =>
          have hcontains : resolved.index < s.kinds.length := by
            by_contra h
            rw [TypeStore.kind, List.getD_eq_default _ _ (by omega)] at hkind
            cases hkind
          have hmem : resolved ∈ (List.range s.kinds.length).map TypeId.mk :=
            List.mem_map.mpr ⟨resolved.index, List.mem_range.mpr hcontains, rfl⟩
          have hlt := unseen_lt_of_mem hmem hseen fun _ => List.mem_cons
          have hsame : callOmissionFrom s references fuel (resolved :: seen) =
              callOmissionFrom s references fuel' (resolved :: seen) :=
            funext fun ty => ih ty (by omega) (by omega)
          simp only [hsame]
        | _ => rfl
    next => rfl

/-! ## The least number of arguments -/

section

variable {s : TypeStore} {references : CallArityReferences}

/-- The least number of arguments reaches past the last one that may not be left out. -/
theorem callMinimum_le_iff {fixed : List ParameterType} {tail : List TypeId}
    {base minimum count : Nat}
    (h : callMinimum s references fixed tail base = .ok minimum) :
    minimum ≤ count ↔ ∀ index, count ≤ index → index < base →
      callOmission s references (callPosition fixed tail index) = .ok .omittable := by
  induction base with
  | zero =>
    obtain rfl : 0 = minimum := by simpa [callMinimum] using h
    simp
  | succ base ih =>
    rw [callMinimum] at h
    split at h
    next => cases h
    next homittable =>
      rw [ih h]
      refine ⟨fun hall index hcount hindex => ?_, fun hall index hcount hindex =>
        hall index hcount (by omega)⟩
      rcases Nat.lt_succ_iff_lt_or_eq.mp hindex with hindex | rfl
      · exact hall index hcount hindex
      · exact homittable
    next omission hne homission =>
      obtain rfl : base + 1 = minimum := by simpa using h
      refine ⟨fun hle index hcount hindex => by omega, fun hall => ?_⟩
      by_contra hlt
      rw [hall base (by omega) (by omega)] at homission
      exact hne (Except.ok.inj homission).symm

end

section

variable (s : TypeStore) (references : CallArityReferences) (signature : Signature)

/-- The elements of the tuple that the type of the rest parameter stands for, if it does. -/
def restElements : List TypeId :=
  match signature.parameters.drop signature.fixedParameters.length with
  | [rest] =>
    match callArityType s references rest.ty with
    | .ok (.expanded restType) =>
      match s.kind restType with
      | .tuple elements => elements
      | _ => []
    | _ => []
  | _ => []

/-- Where the search for the least number of arguments starts. -/
def callBase : Nat :=
  if (restElements s references signature).isEmpty then signature.syntacticMinimum
  else signature.fixedParameters.length + (restElements s references signature).length

/-- A call must pass an argument at the position: its type does not let it be left out, and a
parameter from there on is not optional or an element of the rest parameter's tuple. -/
def MustPass (index : Nat) : Prop :=
  callOmission s references (callPosition signature.fixedParameters
      (restElements s references signature) index) ≠ .ok .omittable ∧
    if restElements s references signature = [] then
      ∃ parameter ∈ signature.fixedParameters.drop index,
        (signature.untypedJavaScript || parameter.optional) = false
    else index < signature.fixedParameters.length + (restElements s references signature).length

variable {s references signature}

theorem eq_ok_of_bind_pure {x : Except CallArityGap Nat} {minimum : Nat}
    {bound maximum : Option Nat}
    (h : (do let m ← x; pure (m, bound)) = (.ok (minimum, maximum) : Except CallArityGap _)) :
    x = .ok minimum ∧ maximum = bound := by
  cases x with
  | error => cases h
  | ok m =>
    obtain ⟨hminimum, hmaximum⟩ := Prod.mk.inj (Except.ok.inj h)
    exact ⟨by rw [hminimum], hmaximum.symm⟩

/-- The greatest number of arguments that a rest parameter allows after so many others. -/
def restMaximum (s : TypeStore) (fixed : Nat) : CallArityResolution → Option Nat
  | .expanded ty =>
    match s.kind ty with
    | .tuple elements => some (fixed + elements.length)
    | _ => none
  | _ => none

/-- An arity comes from a search for the minimum and from what the last parameter allows. -/
theorem effectiveCallArity_cases {minimum : Nat} {maximum : Option Nat}
    (h : effectiveCallArity s references signature = .ok (minimum, maximum)) :
    callMinimum s references signature.fixedParameters (restElements s references signature)
        (callBase s references signature) = .ok minimum ∧
      (signature.parameters.drop signature.fixedParameters.length = [] ∧
          maximum = some signature.parameters.length ∨
        ∃ rest resolution,
          signature.parameters.drop signature.fixedParameters.length = [rest] ∧
          callArityType s references rest.ty = .ok resolution ∧
          maximum = restMaximum s signature.fixedParameters.length resolution) := by
  unfold effectiveCallArity at h
  cases hdrop : signature.parameters.drop signature.fixedParameters.length with
  | nil =>
    simp only [hdrop] at h
    simp only [callBase, restElements, hdrop]
    obtain ⟨hminimum, hmaximum⟩ := eq_ok_of_bind_pure h
    exact ⟨hminimum, .inl ⟨trivial, hmaximum⟩⟩
  | cons rest more =>
    cases more with
    | cons => simp only [hdrop] at h; cases h
    | nil =>
      simp only [hdrop] at h
      cases hoptional : rest.optional with
      | true => rw [hoptional] at h; cases h
      | false =>
        rw [hoptional] at h
        cases hrest : callArityType s references rest.ty with
        | error => rw [hrest] at h; cases h
        | ok resolution =>
          rw [hrest] at h
          cases resolution with
          | opaqueRequired => cases h
          | restArray element =>
            simp only [callBase, restElements, hdrop, hrest]
            obtain ⟨hminimum, hmaximum⟩ := eq_ok_of_bind_pure h
            exact ⟨hminimum, .inr ⟨rest, _, rfl, hrest, hmaximum⟩⟩
          | expanded restType =>
            change (match s.kind restType with
              | .any | .never | .error | .invalid _ | .array _ => _
              | .tuple elements => _
              | _ => _) = _ at h
            simp only [callBase, restElements, hdrop, hrest]
            split at h
            case h_6 elements hkind =>
              simp only [hkind]
              obtain ⟨hminimum, hmaximum⟩ := eq_ok_of_bind_pure h
              exact ⟨hminimum, .inr ⟨rest, _, rfl, hrest, by simpa [restMaximum, hkind]⟩⟩
            case h_7 => cases h
            all_goals
              rename_i hkind
              simp only [hkind]
              obtain ⟨hminimum, hmaximum⟩ := eq_ok_of_bind_pure h
              exact ⟨hminimum, .inr ⟨rest, _, rfl, hrest, by simpa [restMaximum, hkind]⟩⟩

/-- What the list has left after its last elements are dropped reaches past every other one. -/
theorem lt_length_rdropWhile_iff {α : Type} {p : α → Bool} {xs : List α} {index : Nat} :
    index < (xs.rdropWhile p).length ↔ ∃ x ∈ xs.drop index, p x = false := by
  induction xs using List.reverseRecOn with
  | nil => simp
  | append_singleton xs x ih =>
    rw [List.drop_append]
    cases hp : p x with
    | true =>
      rw [List.rdropWhile_concat_pos _ _ _ hp, ih]
      refine ⟨fun ⟨y, hmem, hy⟩ => ⟨y, List.mem_append_left _ hmem, hy⟩, ?_⟩
      rintro ⟨y, hmem, hy⟩
      rcases List.mem_append.mp hmem with hmem | hmem
      · exact ⟨y, hmem, hy⟩
      · have hyx := List.mem_singleton.mp (List.mem_of_mem_drop hmem)
        rw [hyx, hp] at hy
        cases hy
    | false =>
      rw [List.rdropWhile_concat_neg _ _ _ (by simp [hp])]
      refine ⟨fun hlt => ⟨x, ?_, hp⟩, ?_⟩
      · have hzero : index - xs.length = 0 := by simp at hlt; omega
        rw [hzero]
        simp
      · rintro ⟨y, hmem, -⟩
        by_contra hle
        have hle : xs.length + 1 ≤ index := by simpa using hle
        rw [List.drop_eq_nil_of_le (by omega), List.drop_eq_nil_of_le (by simp; omega)] at hmem
        cases hmem

theorem mustPass_iff (index : Nat) :
    MustPass s references signature index ↔
      index < callBase s references signature ∧
        callOmission s references (callPosition signature.fixedParameters
          (restElements s references signature) index) ≠ .ok .omittable := by
  rw [MustPass, callBase, and_comm]
  refine and_congr_left' ?_
  by_cases hempty : restElements s references signature = []
  · simp only [hempty, List.isEmpty_nil, if_true]
    exact lt_length_rdropWhile_iff.symm
  · simp only [List.isEmpty_iff, hempty, if_false]

theorem lt_minimum_iff {minimum : Nat} {maximum : Option Nat}
    (h : effectiveCallArity s references signature = .ok (minimum, maximum)) (count : Nat) :
    count < minimum ↔ ∃ index, count ≤ index ∧ MustPass s references signature index := by
  rw [← not_le, callMinimum_le_iff (effectiveCallArity_cases h).1]
  simp only [mustPass_iff]
  grind

end

/-! ## The relation's own count -/

/-- The relation counts a parameter as required. -/
def countsAsRequired (s : TypeStore) (signature : Signature) (parameter : ParameterType) : Bool :=
  !signature.untypedJavaScript && !parameter.optional && !parameter.rest &&
    s.kind parameter.ty ≠ .void

section

variable {s : TypeStore} {references : CallArityReferences} {source target : TypeId}
  {sourceSignature targetSignature : Signature}

/-- Against `count` parameters of a target, the parameters counted past them outnumber those left
out among them. -/
def CountExceeds (s : TypeStore) (signature : Signature) (count : Nat) : Prop :=
  ((signature.parameters.take count).countP fun p => !countsAsRequired s signature p) <
    (signature.parameters.drop count).countP (countsAsRequired s signature)

theorem signatureArityFailure_isSome_iff
    (hrest : targetSignature.parameters.any (·.rest) = false) :
    (Relation.signatureArityFailure s source target sourceSignature targetSignature).isSome ↔
      CountExceeds s sourceSignature targetSignature.parameters.length := by
  have hcount : (Relation.signatureArityFailure s source target sourceSignature targetSignature).isSome ↔
      targetSignature.parameters.length <
        sourceSignature.parameters.countP (countsAsRequired s sourceSignature) := by
    rw [Relation.signatureArityFailure, hrest, List.countP_eq_length_filter]
    simp only [Bool.not_false, Bool.true_and, decide_eq_true_eq]
    unfold countsAsRequired
    split <;> simp_all
  rw [hcount, CountExceeds]
  set count := targetSignature.parameters.length
  have hsplit : sourceSignature.parameters.countP (countsAsRequired s sourceSignature) =
      (sourceSignature.parameters.take count).countP (countsAsRequired s sourceSignature) +
        (sourceSignature.parameters.drop count).countP (countsAsRequired s sourceSignature) := by
    rw [← List.countP_append, List.take_append_drop]
  have hlength := List.length_eq_countP_add_countP (countsAsRequired s sourceSignature)
    (l := sourceSignature.parameters.take count)
  have hnot : (sourceSignature.parameters.take count).countP
        (fun p => decide ¬ countsAsRequired s sourceSignature p = true) =
      (sourceSignature.parameters.take count).countP
        fun p => !countsAsRequired s sourceSignature p :=
    List.countP_congr fun p _ => by simp
  rw [List.length_take, hnot] at hlength
  rcases Nat.le_total count sourceSignature.parameters.length with hle | hle
  · omega
  · rw [List.drop_eq_nil_of_le hle, List.countP_nil] at *
    omega

end

/-! ### A parameter of type `void` -/

/-- A signature with required parameters of the types that returns `void`. -/
def positional (types : List TypeId) : Signature where
  genericDeclaration := none
  untypedJavaScript := false
  parameters := types.map fun ty => ⟨none, ty, false, false⟩
  returnType := TypeStore.new.builtins.void

/-- `(a: void, b: number) => void`. -/
def voidFirst : Signature :=
  positional [TypeStore.new.builtins.void, TypeStore.new.builtins.number]

/-- `(a: number, b: void) => void`. -/
def voidLast : Signature :=
  positional [TypeStore.new.builtins.number, TypeStore.new.builtins.void]

/-- `(a: number) => void`. -/
def oneNumber : Signature := positional [TypeStore.new.builtins.number]

end Tsz.Semantics
