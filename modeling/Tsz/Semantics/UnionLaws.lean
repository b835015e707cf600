import Mathlib.Data.List.Forall2
import Tsz.Semantics.TypeKind
import Tsz.Syntax.Ast

/-!
# Types as they are written

The types that closed type nodes stand for, with the distinctions the language makes between them,
and the laws that identify unions. Two types are the same when they can be rewritten into each other
by these laws.

## Main definitions

* `AuthoredType` — keywords, literals, arrays, tuples, unions and signatures.
* `SameType` — equal up to the laws of unions.
* `AuthoredType.blur` — without `readonly` and with constructor types as function types.

## Main results

* `SameType.union_of_absorbs` — unions whose members absorb each other are the same.
* `not_sameType_constructor` — the laws do not identify function and constructor types.
-/

namespace Tsz.Semantics

open Syntax

/-- The value of a literal type; a token that has no value of its own is kept as it is. -/
inductive AuthoredLiteral
  | string (value : String)
  | number (value : NumericLiteral)
  | boolean (value : Bool)
  | token (literal : Literal)
deriving DecidableEq, Repr

inductive SignatureForm
  | function
  | constructor (isAbstract : Bool)
deriving DecidableEq, Repr

structure ParameterForm where
  name : Option String
  optional : Bool
  rest : Bool
deriving DecidableEq, Repr

inductive AuthoredType
  | keyword (keyword : KeywordType)
  | literal (value : AuthoredLiteral)
  | array (element : AuthoredType)
  | readonly (inner : AuthoredType)
  | tuple (elements : List AuthoredType)
  | union (members : List AuthoredType)
  | signature (form : SignatureForm) (parameters : List ParameterForm)
      (types : List AuthoredType) (returnType : AuthoredType)

namespace AuthoredType

/-- A type that is neither a union nor absorbs all types. -/
def IsPlain : AuthoredType → Prop
  | .union _ | .keyword .any => False
  | _ => True

/-- A literal type next to the primitive type of its value. -/
def primitive : AuthoredLiteral → Option KeywordType
  | .string _ => some .string
  | .number _ => some .number
  | .boolean _ => some .boolean
  | .token _ => none

end AuthoredType

open AuthoredType

/-- Equal up to the laws of unions: flattening, order, duplicates, and absorption by `any`,
`unknown`, `never` and the primitive types. -/
inductive SameType : AuthoredType → AuthoredType → Prop
  | refl (t) : SameType t t
  | symm {t u} (h : SameType t u) : SameType u t
  | trans {t u v} (h : SameType t u) (h' : SameType u v) : SameType t v
  | array {t u} (h : SameType t u) : SameType (.array t) (.array u)
  | readonly {t u} (h : SameType t u) : SameType (.readonly t) (.readonly u)
  | tuple {t u} (before after) (h : SameType t u) :
      SameType (.tuple (before ++ t :: after)) (.tuple (before ++ u :: after))
  | union {t u} (before after) (h : SameType t u) :
      SameType (.union (before ++ t :: after)) (.union (before ++ u :: after))
  | parameter {t u} (form parameters before after returnType) (h : SameType t u) :
      SameType (.signature form parameters (before ++ t :: after) returnType)
        (.signature form parameters (before ++ u :: after) returnType)
  | returnType {t u} (form parameters types) (h : SameType t u) :
      SameType (.signature form parameters types t) (.signature form parameters types u)
  | flatten (nested members) :
      SameType (.union (.union nested :: members)) (.union (nested ++ members))
  | order {members members'} (h : members.Perm members') :
      SameType (.union members) (.union members')
  | duplicate (t members) : SameType (.union (t :: t :: members)) (.union (t :: members))
  | single (t) : SameType (.union [t]) t
  | empty : SameType (.union []) (.keyword .never)
  | any (t members) :
      SameType (.union (.keyword .any :: t :: members)) (.union (.keyword .any :: members))
  | unknown (t members) (h : t.IsPlain) :
      SameType (.union (.keyword .unknown :: t :: members)) (.union (.keyword .unknown :: members))
  | never (members) : SameType (.union (.keyword .never :: members)) (.union members)
  | primitive {base value} (members) (h : primitive value = some base) :
      SameType (.union (.keyword base :: .literal value :: members))
        (.union (.keyword base :: members))
  | booleans (members) :
      SameType (.union (.literal (.boolean true) :: .literal (.boolean false) :: members))
        (.union (.keyword .boolean :: members))

namespace SameType

variable {t u : AuthoredType} {members members' : List AuthoredType}

/-! ## Congruence -/

theorem of_forall₂ (wrap : List AuthoredType → AuthoredType)
    (hwrap : ∀ {t u} before after, SameType t u →
      SameType (wrap (before ++ t :: after)) (wrap (before ++ u :: after)))
    (h : List.Forall₂ SameType members members') : SameType (wrap members) (wrap members') := by
  have hbefore : ∀ before, SameType (wrap (before ++ members)) (wrap (before ++ members')) := by
    induction h with
    | nil => exact fun _ => .refl _
    | @cons t u rest rest' hhead _ ih =>
      intro before
      have htail := ih (before ++ [u])
      rw [List.append_assoc, List.append_assoc] at htail
      exact (hwrap before rest hhead).trans htail
  exact hbefore []

theorem tuple_congr (h : List.Forall₂ SameType members members') :
    SameType (.tuple members) (.tuple members') :=
  of_forall₂ .tuple .tuple h

theorem union_congr (h : List.Forall₂ SameType members members') :
    SameType (.union members) (.union members') :=
  of_forall₂ .union .union h

theorem signature_congr (form : SignatureForm) (parameters : List ParameterForm)
    (h : List.Forall₂ SameType members members') (hreturn : SameType t u) :
    SameType (.signature form parameters members t) (.signature form parameters members' u) :=
  (of_forall₂ (.signature form parameters · t)
    (fun before after h => .parameter form parameters before after t h) h).trans
    (.returnType form parameters members' hreturn)

/-- What holds of two unions holds with further members. -/
theorem union_append (h : SameType (.union members) (.union members'))
    (more : List AuthoredType) :
    SameType (.union (members ++ more)) (.union (members' ++ more)) :=
  ((SameType.flatten members more).symm.trans (.union [] more h)).trans (.flatten members' more)

theorem union_cons (t : AuthoredType) (h : SameType (.union members) (.union members')) :
    SameType (.union (t :: members)) (.union (t :: members')) :=
  ((SameType.order (List.perm_append_singleton t members).symm).trans (h.union_append [t])).trans
    (.order (List.perm_append_singleton t members'))

/-! ## Absorption -/

/-- The first type makes the second one redundant in a union, or the second one always is. -/
def Absorbs (base t : AuthoredType) : Prop :=
  ∀ members, SameType (.union (base :: t :: members)) (.union (base :: members))

theorem absorbs_of_mem {base : AuthoredType} (h : Absorbs base t) (hmem : base ∈ members) :
    SameType (.union (t :: members)) (.union members) := by
  obtain ⟨before, after, rfl⟩ := List.append_of_mem hmem
  have hto : (t :: (before ++ base :: after)).Perm (base :: t :: (before ++ after)) :=
    (List.perm_middle.cons t).trans (.swap ..)
  exact ((SameType.order hto).trans (h _)).trans (.order List.perm_middle.symm)

/-- Members that others absorb can be dropped. -/
theorem union_drop {dropped kept : List AuthoredType}
    (h : ∀ t ∈ dropped, t = .keyword .never ∨ ∃ base ∈ kept, Absorbs base t) :
    SameType (.union (dropped ++ kept)) (.union kept) := by
  induction dropped with
  | nil => exact .refl _
  | cons t dropped ih =>
    have hrest := ih fun u hu => h u (List.mem_cons_of_mem t hu)
    refine SameType.trans ?_ hrest
    rcases h t (List.mem_cons_self ..) with rfl | ⟨base, hbase, habsorbs⟩
    · exact .never _
    · exact absorbs_of_mem habsorbs (List.mem_append_right dropped hbase)

/-- Two unions are the same if each absorbs the members of the other one. -/
theorem union_of_absorbs
    (h : ∀ t ∈ members, t = .keyword .never ∨ ∃ base ∈ members', Absorbs base t)
    (h' : ∀ t ∈ members', t = .keyword .never ∨ ∃ base ∈ members, Absorbs base t) :
    SameType (.union members) (.union members') :=
  ((union_drop h').symm.trans (.order List.perm_append_comm)).trans (union_drop h)

theorem absorbs_self (t : AuthoredType) : Absorbs t t := fun members => .duplicate t members

theorem absorbs_primitive {base : KeywordType} {value : AuthoredLiteral}
    (h : AuthoredType.primitive value = some base) : Absorbs (.keyword base) (.literal value) :=
  fun members => .primitive members h

/-- A union is the type among its members that absorbs all of them. -/
theorem union_of_absorber {base : AuthoredType} (hmem : base ∈ members)
    (h : ∀ t ∈ members, Absorbs base t) : SameType (.union members) base :=
  SameType.trans (union_of_absorbs (fun t ht => .inr ⟨base, by simp, h t ht⟩)
    (fun t ht => .inr ⟨base, hmem, by rw [List.mem_singleton.mp ht]; exact absorbs_self base⟩))
    (.single base)

/-- Nested unions can be flattened member by member. -/
theorem union_flatMap {α : Type} {xs : List α} {type : α → AuthoredType}
    {parts : α → List AuthoredType} (h : ∀ x ∈ xs, SameType (type x) (.union (parts x))) :
    SameType (.union (xs.map type)) (.union (xs.flatMap parts)) := by
  induction xs with
  | nil => exact .refl _
  | cons x xs ih =>
    have hrest := ih fun y hy => h y (List.mem_cons_of_mem x hy)
    have hhead := h x (List.mem_cons_self ..)
    have hflat := SameType.flatten (parts x) (xs.flatMap parts)
    exact ((union_cons (type x) hrest).trans (.union [] (xs.flatMap parts) hhead)).trans hflat

/-- `boolean` can stand next to `true` and `false`. -/
theorem union_boolean (htrue : .literal (.boolean true) ∈ members)
    (hfalse : .literal (.boolean false) ∈ members) :
    SameType (.union (.keyword .boolean :: members)) (.union members) := by
  have hdrop : SameType (.union ([.literal (.boolean true), .literal (.boolean false)] ++ members))
      (.union members) := by
    refine union_drop fun t ht => ?_
    rcases List.mem_pair.mp ht with rfl | rfl
    · exact .inr ⟨_, htrue, absorbs_self _⟩
    · exact .inr ⟨_, hfalse, absorbs_self _⟩
  exact (SameType.booleans members).symm.trans hdrop

end SameType

/-! ## What the laws do not identify -/

namespace AuthoredType

mutual

/-- Some member of the flattened type has the property. -/
def occurs (p : AuthoredType → Bool) : AuthoredType → Bool
  | .union members => occursAny p members
  | .keyword k => p (.keyword k)
  | .literal value => p (.literal value)
  | .array element => p (.array element)
  | .readonly inner => p (.readonly inner)
  | .tuple elements => p (.tuple elements)
  | .signature form parameters types returnType => p (.signature form parameters types returnType)

def occursAny (p : AuthoredType → Bool) : List AuthoredType → Bool
  | [] => false
  | t :: members => occurs p t || occursAny p members

end

theorem occursAny_eq (p : AuthoredType → Bool) (members : List AuthoredType) :
    occursAny p members = members.any (occurs p) := by
  induction members with
  | nil => rfl
  | cons t members ih => rw [occursAny, List.any_cons, ih]

/-- A property of the outermost form of a type which `any` and `unknown` have and `never` has not,
and which a literal type shares with its primitive type. -/
structure IsHeadProperty (p : AuthoredType → Bool) : Prop where
  any : p (.keyword .any) = true
  unknown : p (.keyword .unknown) = true
  never : p (.keyword .never) = false
  array : ∀ t u, p (.array t) = p (.array u)
  readonly : ∀ t u, p (.readonly t) = p (.readonly u)
  tuple : ∀ ts us, p (.tuple ts) = p (.tuple us)
  signature : ∀ form parameters types types' t t',
    p (.signature form parameters types t) = p (.signature form parameters types' t')
  primitive : ∀ value base, primitive value = some base →
    p (.literal value) = true → p (.keyword base) = true
  booleans : p (.keyword .boolean) =
    (p (.literal (.boolean true)) || p (.literal (.boolean false)))

/-- The laws keep which forms occur in a union. -/
theorem occurs_congr {p : AuthoredType → Bool} (hp : IsHeadProperty p) {t u : AuthoredType}
    (h : SameType t u) : occurs p t = occurs p u := by
  induction h with
  | refl t => rfl
  | symm _ ih => exact ih.symm
  | trans _ _ ih ih' => exact ih.trans ih'
  | array _ _ => exact hp.array _ _
  | readonly _ _ => exact hp.readonly _ _
  | tuple _ _ _ _ => exact hp.tuple _ _
  | union before after _ ih =>
    simp only [occurs, occursAny_eq, List.any_append, List.any_cons, ih]
  | parameter form parameters before after returnType _ _ => exact hp.signature ..
  | returnType form parameters types _ _ => exact hp.signature ..
  | flatten nested members => simp only [occurs, occursAny_eq, List.any_append, List.any_cons]
  | order h => simp only [occurs, occursAny_eq, h.any_eq]
  | duplicate t members =>
    simp only [occurs, occursAny, ← Bool.or_assoc, Bool.or_self]
  | single t => simp only [occurs, occursAny, Bool.or_false]
  | empty => simp only [occurs, occursAny, hp.never]
  | any t members => simp only [occurs, occursAny, hp.any, Bool.true_or]
  | unknown t members _ => simp only [occurs, occursAny, hp.unknown, Bool.true_or]
  | never members => simp only [occurs, occursAny, hp.never, Bool.false_or]
  | @primitive base value members h =>
    have himplies := hp.primitive value base h
    simp only [occurs, occursAny, ← Bool.or_assoc]
    cases hvalue : p (.literal value) with
    | false => rw [Bool.or_false]
    | true => rw [himplies hvalue, Bool.true_or]
  | booleans members => simp only [occurs, occursAny, hp.booleans, Bool.or_assoc]

/-- `any`, `unknown`, and the types with `new`. -/
def isConstructor : AuthoredType → Bool
  | .keyword .any | .keyword .unknown | .signature (.constructor _) _ _ _ => true
  | _ => false

/-- `any`, `unknown`, and the types with `readonly`. -/
def isReadonly : AuthoredType → Bool
  | .keyword .any | .keyword .unknown | .readonly _ => true
  | _ => false

theorem isHeadProperty_isConstructor : IsHeadProperty isConstructor where
  any := rfl
  unknown := rfl
  never := rfl
  array _ _ := rfl
  readonly _ _ := rfl
  tuple _ _ := rfl
  signature form _ _ _ _ _ := by cases form <;> rfl
  primitive value _ _ h := by cases value <;> cases h
  booleans := rfl

theorem isHeadProperty_isReadonly : IsHeadProperty isReadonly where
  any := rfl
  unknown := rfl
  never := rfl
  array _ _ := rfl
  readonly _ _ := rfl
  tuple _ _ := rfl
  signature _ _ _ _ _ _ := rfl
  primitive value _ _ h := by cases value <;> cases h
  booleans := rfl

end AuthoredType

theorem not_sameType_constructor {isAbstract : Bool} {parameters parameters' : List ParameterForm}
    {types types' : List AuthoredType} {t t' : AuthoredType} :
    ¬ SameType (.signature (.constructor isAbstract) parameters types t)
      (.signature .function parameters' types' t') := by
  intro h
  have := occurs_congr isHeadProperty_isConstructor h
  simp [occurs, isConstructor] at this

theorem not_sameType_readonly {t u : AuthoredType} : ¬ SameType (.readonly t) (.array u) := by
  intro h
  have := occurs_congr isHeadProperty_isReadonly h
  simp [occurs, isReadonly] at this

/-! ## Without `new` and `readonly` -/

namespace AuthoredType

mutual

/-- The type without `readonly`, with constructor types as function types. -/
def blur : AuthoredType → AuthoredType
  | .keyword k => .keyword k
  | .literal value => .literal value
  | .array element => .array element.blur
  | .readonly inner => inner.blur
  | .tuple elements => .tuple (blurAll elements)
  | .union members => .union (blurAll members)
  | .signature _ parameters types returnType =>
    .signature .function parameters (blurAll types) returnType.blur

def blurAll : List AuthoredType → List AuthoredType
  | [] => []
  | t :: types => t.blur :: blurAll types

end

end AuthoredType

end Tsz.Semantics
