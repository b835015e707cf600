import Mathlib.Data.Set.Basic
import Tsz.Semantics.Combination
import Tsz.Semantics.FlowNarrowing

/-!
# Types as sets of values

An object type contains every value that has at least its properties, of their types; a union
contains what some member contains, and an intersection what all of them do.

## Main definitions

* `Reading` — values, and the types each of them has.
* `Reading.Models` — a reading that fits the types of a store.

## Main results

* `Reading.Models.inhabits_union`, `Reading.Models.inhabits_intersection` — what the normalised
  combinations contain.
-/

namespace Tsz.Semantics

open Tsz.Semantics.Relation (objectShape)

inductive Primitive
  | undefined
  | null
  | boolean (value : Bool)
  | number (value : NumericLiteral)
  | bigInt (value : Int)
  | string (value : String)
  | symbol (id : Nat)
deriving DecidableEq

def Primitive.typeof : Primitive → TypeofWitness
  | .undefined => .undefined
  | .null => .object
  | .boolean _ => .boolean
  | .number _ => .number
  | .bigInt _ => .bigInt
  | .string _ => .string
  | .symbol _ => .symbol

/-- Values are primitive or objects, some of which are callable; both have properties. -/
structure Reading (V : Type) where
  primitive : V → Option Primitive
  callable : V → Bool
  property : V → String → Option V
  inhabits : V → TypeId → Prop
  /-- Every primitive is a value. -/
  ofPrimitive : Primitive → V
  primitive_ofPrimitive : ∀ p, primitive (ofPrimitive p) = some p

/-- The primitive values of a type, where it has no others. -/
def TypeKind.primitives : TypeKind → Option (Set Primitive)
  | .void | .undefined => some {.undefined}
  | .null => some {.null}
  | .boolean => some (Set.range .boolean)
  | .number => some (Set.range .number)
  | .bigInt => some (Set.range .bigInt)
  | .string => some (Set.range .string)
  | .symbol => some (Set.range .symbol)
  | .literalBoolean value _ => some {.boolean value}
  | .literalNumber value _ => some {.number value}
  | .literalString value _ => some {.string value}
  | _ => none

def TypeKind.isAbsorbing : TypeKind → Bool
  | .any | .unknown | .error | .invalid _ => true
  | _ => false

def ObjectShape.isCallable (shape : ObjectShape) : Bool :=
  !shape.callSignatures.isEmpty || !shape.constructSignatures.isEmpty

namespace Reading

variable {V : Type} (R : Reading V)

def typeof (v : V) : TypeofWitness :=
  match R.primitive v with
  | some p => p.typeof
  | none => if R.callable v then .function else .object

/-- The value has at least the properties, of their types. -/
def HasProperties (v : V) (properties : List Property) : Prop :=
  R.primitive v ≠ some .undefined ∧ R.primitive v ≠ some .null ∧
    ∀ p ∈ properties, match R.property v p.name with
      | some w => R.inhabits w p.ty
      | none => p.optional = true

/-- What the types of a store contain. -/
structure Models (s : TypeStore) : Prop where
  never : ∀ id v, s.Contains id → s.kind id = .never → ¬ R.inhabits v id
  absorbing : ∀ id v, s.Contains id → (s.kind id).isAbsorbing → R.inhabits v id
  primitives : ∀ id v ps, s.Contains id → (s.kind id).primitives = some ps →
    (R.inhabits v id ↔ ∃ p ∈ ps, R.primitive v = some p)
  union : ∀ id v members, s.Contains id → s.kind id = .union members →
    (R.inhabits v id ↔ ∃ m ∈ members, R.inhabits v m)
  intersection : ∀ id v members, s.Contains id → s.kind id = .intersection members →
    (R.inhabits v id ↔ ∀ m ∈ members, R.inhabits v m)
  objectKeyword : ∀ id v, s.Contains id → s.kind id = .objectKeyword →
    (R.inhabits v id ↔ R.primitive v = none)
  object : ∀ id v shape, s.Contains id → objectShape (s.kind id) = some shape →
    shape.isCallable = false → shape.indexSignatures = [] →
    (R.inhabits v id ↔ R.HasProperties v shape.properties)
  callable : ∀ id v shape, s.Contains id → objectShape (s.kind id) = some shape →
    shape.isCallable → R.inhabits v id → R.typeof v = .function
  function : ∀ id v signature, s.Contains id →
    (s.kind id = .function signature ∨ s.kind id = .shapeFunction signature) →
    R.inhabits v id → R.typeof v = .function
  constructor : ∀ id v declaration name, s.Contains id →
    s.kind id = .classConstructor declaration name → R.inhabits v id → R.typeof v = .function
  array : ∀ id v element, s.Contains id → s.kind id = .array element → R.inhabits v id →
    R.typeof v = .object
  tuple : ∀ id v elements, s.Contains id → s.kind id = .tuple elements → R.inhabits v id →
    R.typeof v = .object

namespace Models

open Sorting TypeStore

variable {R : Reading V} {s t : TypeStore} {id : TypeId} {v : V}

/-- A reading of a store reads the stores it grew out of. -/
theorem of_extends (h : R.Models t) (hs : Extends s t) : R.Models s where
  never id v hid hkind := h.never id v (hs.contains hid) (hs.kind hid ▸ hkind)
  absorbing id v hid hkind := h.absorbing id v (hs.contains hid) (hs.kind hid ▸ hkind)
  primitives id v ps hid hkind := h.primitives id v ps (hs.contains hid) (hs.kind hid ▸ hkind)
  union id v ms hid hkind := h.union id v ms (hs.contains hid) (hs.kind hid ▸ hkind)
  intersection id v ms hid hkind := h.intersection id v ms (hs.contains hid) (hs.kind hid ▸ hkind)
  objectKeyword id v hid hkind := h.objectKeyword id v (hs.contains hid) (hs.kind hid ▸ hkind)
  object id v shape hid hkind := h.object id v shape (hs.contains hid) (hs.kind hid ▸ hkind)
  callable id v shape hid hkind := h.callable id v shape (hs.contains hid) (hs.kind hid ▸ hkind)
  function id v signature hid hkind :=
    h.function id v signature (hs.contains hid) (hs.kind hid ▸ hkind)
  constructor id v declaration name hid hkind :=
    h.constructor id v declaration name (hs.contains hid) (hs.kind hid ▸ hkind)
  array id v element hid hkind := h.array id v element (hs.contains hid) (hs.kind hid ▸ hkind)
  tuple id v elements hid hkind := h.tuple id v elements (hs.contains hid) (hs.kind hid ▸ hkind)

theorem inhabits_unionMembers (h : R.Models s) (hid : s.Contains id) :
    (∃ m ∈ s.unionMembers id, R.inhabits v m) ↔ R.inhabits v id := by
  unfold unionMembers
  split
  · next members hkind => exact (h.union id v members hid hkind).symm
  · simp

theorem inhabits_flatMap (h : R.Models s) {members : List TypeId}
    (hmembers : ∀ m ∈ members, s.Contains m) :
    (∃ id ∈ members.flatMap s.unionMembers, R.inhabits v id) ↔ ∃ m ∈ members, R.inhabits v m := by
  constructor
  · rintro ⟨id, hid, hv⟩
    obtain ⟨m, hm, hid⟩ := List.mem_flatMap.mp hid
    exact ⟨m, hm, (h.inhabits_unionMembers (hmembers m hm)).mp ⟨id, hid, hv⟩⟩
  · rintro ⟨m, hm, hv⟩
    obtain ⟨id, hid, hv⟩ := (h.inhabits_unionMembers (hmembers m hm)).mpr hv
    exact ⟨id, List.mem_flatMap.mpr ⟨m, hm, hid⟩, hv⟩

/-- The values of a literal are values of its base type. -/
theorem inhabits_of_literal (h : R.Models s) {base : TypeId} {ps qs : Set Primitive}
    (hid : s.Contains id) (hkind : (s.kind id).primitives = some ps) (hbase : s.Contains base)
    (hbaseKind : (s.kind base).primitives = some qs) (hsub : ps ⊆ qs) (hv : R.inhabits v id) :
    R.inhabits v base := by
  obtain ⟨p, hp, hprimitive⟩ := (h.primitives id v ps hid hkind).mp hv
  exact (h.primitives base v qs hbase hbaseKind).mpr ⟨p, hsub hp, hprimitive⟩

theorem contains_of_mem_unionList (hwf : s.WellFormed) {flattened : List TypeId}
    (hflattened : ∀ id ∈ flattened, s.Contains id) {policy : UnionPolicy}
    (hid : id ∈ s.unionList policy flattened) : s.Contains id := by
  rcases mem_unionList_cases hwf hid with ⟨hid, -⟩ | ⟨hkind, -⟩
  · exact hflattened id hid
  · by_contra hnot
    rw [kind, List.getD_eq_default _ _ (by simpa [Contains] using hnot)] at hkind
    cases hkind

/-- What the normalisation of a union drops has no values that are not left. -/
theorem inhabits_unionList (h : R.Models s) (hwf : s.WellFormed) {flattened : List TypeId}
    (hflattened : ∀ id ∈ flattened, s.Contains id) (policy : UnionPolicy) :
    (∃ m ∈ s.unionList policy flattened, R.inhabits v m) ↔ ∃ id ∈ flattened, R.inhabits v id := by
  have hcontains {m : TypeId} (hm : m ∈ s.unionList policy flattened) : s.Contains m :=
    contains_of_mem_unionList hwf hflattened hm
  constructor
  · rintro ⟨m, hm, hv⟩
    rcases mem_unionList_cases hwf hm with ⟨hflat, -⟩ | ⟨hkind, hliterals⟩
    · exact ⟨m, hflat, hv⟩
    · obtain ⟨p, ⟨value, rfl⟩, hprimitive⟩ :=
        (h.primitives m v (Set.range .boolean) (hcontains hm) (by rw [hkind]; rfl)).mp hv
      obtain ⟨literal, hliteral, provenance, hkind⟩ := hliterals value
      refine ⟨literal, hliteral, ?_⟩
      exact (h.primitives literal v {.boolean value} (hflattened _ hliteral)
        (by rw [hkind]; rfl)).mpr ⟨_, rfl, hprimitive⟩
  · rintro ⟨id, hid, hv⟩
    by_cases hsurvives : s.survives flattened id
    · exact ⟨id, mem_unionList.mpr (.inl ⟨hid, hsurvives⟩), hv⟩
    rcases absorbed hwf policy hsurvives with hkind | ⟨a, p, hkind, w, hw, hbase⟩ |
      ⟨a, p, hkind, w, hw, hbase⟩ | ⟨a, p, hkind, w, hw, hbase⟩
    · exact absurd hv (h.never id v (hflattened id hid) hkind)
    all_goals
      refine ⟨w, hw, h.inhabits_of_literal (hflattened id hid) (by rw [hkind]; rfl) (hcontains hw)
        (by rw [hbase]; rfl) ?_ hv⟩
      simp

theorem inhabits_ofList_union (hwf : s.WellFormed) {ids : List TypeId}
    (h : R.Models (s.combine .union (.ofList s.builtins.never ids)).2) :
    R.inhabits v (s.combine .union (.ofList s.builtins.never ids)).1 ↔
      ∃ id ∈ ids, R.inhabits v id := by
  match ids with
  | [] =>
    have hnever := hwf.kind_builtin (·.never) (k := .never) (by decide)
    exact iff_of_false (h.never _ v hnever.1 hnever.2) (by simp)
  | [id] => simp [Normalized.ofList, combine]
  | id :: id' :: ids =>
    obtain ⟨hcontains, hkind⟩ := hwf.toConsistent.kind_intern (.union (id :: id' :: ids))
    exact h.union _ v _ hcontains hkind

theorem inhabits_ofList_intersection (hwf : s.WellFormed) {ids : List TypeId}
    (h : R.Models (s.combine .intersection (.ofList s.builtins.unknown ids)).2) :
    R.inhabits v (s.combine .intersection (.ofList s.builtins.unknown ids)).1 ↔
      ∀ id ∈ ids, R.inhabits v id := by
  match ids with
  | [] =>
    have hunknown := hwf.kind_builtin (·.unknown) (k := .unknown) (by decide)
    exact iff_of_true (h.absorbing _ v hunknown.1 (hunknown.2 ▸ rfl)) (by simp)
  | [id] => simp [Normalized.ofList, combine]
  | id :: id' :: ids =>
    obtain ⟨hcontains, hkind⟩ := hwf.toConsistent.kind_intern (.intersection (id :: id' :: ids))
    exact h.intersection _ v _ hcontains hkind

/-- A union contains what its members contain. -/
theorem inhabits_union (hwf : s.WellFormed) {members : List TypeId}
    (hmembers : ∀ m ∈ members, s.Contains m) {policy : UnionPolicy}
    (h : R.Models (s.union members policy).2) :
    R.inhabits v (s.union members policy).1 ↔ ∃ m ∈ members, R.inhabits v m := by
  have hs : R.Models s := h.of_extends (extends_combine _ _)
  have hflattened : ∀ id ∈ members.flatMap s.unionMembers, s.Contains id := by
    intro id hid
    obtain ⟨m, hm, hid⟩ := List.mem_flatMap.mp hid
    exact contains_unionMembers hwf.toConsistent (hmembers m hm) hid
  have habsorbing {id other : TypeId} (hid : id ∈ members.flatMap s.unionMembers)
      (hkind : (s.kind id).isAbsorbing) (hother : s.Contains other)
      (hkind' : (s.kind other).isAbsorbing) :
      R.inhabits v other ↔ ∃ m ∈ members, R.inhabits v m := by
    refine iff_of_true (hs.absorbing other v hother hkind') ((hs.inhabits_flatMap hmembers).mp ?_)
    exact ⟨id, hid, hs.absorbing id v (hflattened id hid) hkind⟩
  unfold TypeStore.union at h ⊢
  rw [normalizeUnion_eq] at h ⊢
  cases hany : s.anyKind (members.flatMap s.unionMembers) (· = .any) with
  | true =>
    obtain ⟨id, hid, hkind⟩ := anyKind_eq_true.mp hany
    have hbuiltin := hwf.kind_builtin (·.any) (k := .any) (by decide)
    exact habsorbing hid (by simp_all [TypeKind.isAbsorbing]) hbuiltin.1 (hbuiltin.2 ▸ rfl)
  | false =>
    cases hunknown : s.anyKind (members.flatMap s.unionMembers) (· = .unknown) with
    | true =>
      obtain ⟨id, hid, hkind⟩ := anyKind_eq_true.mp hunknown
      have hbuiltin := hwf.kind_builtin (·.unknown) (k := .unknown) (by decide)
      exact habsorbing hid (by simp_all [TypeKind.isAbsorbing]) hbuiltin.1 (hbuiltin.2 ▸ rfl)
    | false =>
      simp only [hany, hunknown, Bool.false_eq_true, if_false] at h ⊢
      cases herror : (members.flatMap s.unionMembers).find? fun id => (s.kind id).isError with
      | some error =>
        have hid := List.mem_of_find?_eq_some herror
        have hkind : (s.kind error).isAbsorbing := by
          have := List.find?_some herror
          cases hkind : s.kind error <;> simp_all [TypeKind.isError, TypeKind.isAbsorbing]
        exact habsorbing hid hkind (hflattened error hid) hkind
      | none =>
        rw [herror] at h
        exact (inhabits_ofList_union hwf h).trans
          ((hs.inhabits_unionList hwf hflattened policy).trans (hs.inhabits_flatMap hmembers))

/-- An intersection contains what all its members contain. -/
theorem inhabits_intersection (hwf : s.WellFormed) {members : List TypeId}
    (h : R.Models (s.intersection members).2) :
    R.inhabits v (s.intersection members).1 ↔ ∀ m ∈ members, R.inhabits v m := by
  refine (inhabits_ofList_intersection hwf h).trans ?_
  simp only [mem_destutter, mem_sortByKey]

end Models

end Reading

/-! ## Every store has a reading -/

inductive JsValue
  | primitive (value : Primitive)
  | object (callable : Bool) (properties : List (String × JsValue))

namespace JsValue

def asPrimitive : JsValue → Option Primitive
  | primitive value => some value
  | object _ _ => none

def isCallable : JsValue → Bool
  | primitive _ => false
  | object callable _ => callable

def property : JsValue → String → Option JsValue
  | primitive _, _ => none
  | object _ properties, name => properties.lookup name

/-- The values of the types of a store; types that are not evaluated have none. -/
inductive Inhabits (s : TypeStore) : JsValue → TypeId → Prop
  | absorbing {v : JsValue} {id : TypeId} (hkind : (s.kind id).isAbsorbing) : Inhabits s v id
  | primitive {p : Primitive} {id : TypeId} {ps : Set Primitive}
    (hkind : (s.kind id).primitives = some ps) (hp : p ∈ ps) : Inhabits s (.primitive p) id
  | union {v : JsValue} {id m : TypeId} {members : List TypeId}
    (hkind : s.kind id = .union members) (hm : m ∈ members) (hv : Inhabits s v m) : Inhabits s v id
  | intersection {v : JsValue} {id : TypeId} {members : List TypeId}
    (hkind : s.kind id = .intersection members) (hv : ∀ m ∈ members, Inhabits s v m) :
    Inhabits s v id
  | objectKeyword {callable : Bool} {properties : List (String × JsValue)} {id : TypeId}
    (hkind : s.kind id = .objectKeyword) : Inhabits s (.object callable properties) id
  | object {v : JsValue} {id : TypeId} {shape : ObjectShape}
    (hkind : objectShape (s.kind id) = some shape)
    (hcallable : shape.isCallable → v.isCallable)
    (hundefined : v.asPrimitive ≠ some .undefined) (hnull : v.asPrimitive ≠ some .null)
    (hmissing : ∀ p ∈ shape.properties, v.property p.name = none → p.optional)
    (hproperties : ∀ p ∈ shape.properties, ∀ w, v.property p.name = some w → Inhabits s w p.ty) :
    Inhabits s v id
  | function {properties : List (String × JsValue)} {id : TypeId}
    (hkind : (flowTypeDomain (s.kind id)).1 = some .function)
    (hshape : objectShape (s.kind id) = none) : Inhabits s (.object true properties) id
  | array {properties : List (String × JsValue)} {id : TypeId}
    (hkind : (∃ element, s.kind id = .array element) ∨ ∃ elements, s.kind id = .tuple elements) :
    Inhabits s (.object false properties) id

end JsValue

def standardReading (s : TypeStore) : Reading JsValue where
  primitive := JsValue.asPrimitive
  callable := JsValue.isCallable
  property := JsValue.property
  inhabits := JsValue.Inhabits s
  ofPrimitive := .primitive
  primitive_ofPrimitive _ := rfl

theorem JsValue.typeof_of_isCallable (s : TypeStore) {v : JsValue} (hv : v.isCallable = true) :
    (standardReading s).typeof v = .function := by
  cases v with
  | primitive p => cases hv
  | object callable properties =>
    cases hv
    rfl

theorem models_standardReading (s : TypeStore) : (standardReading s).Models s where
  never id v _ hkind hv := by
    cases hv <;> simp_all [TypeKind.isAbsorbing, TypeKind.primitives, objectShape, flowTypeDomain]
  absorbing id v _ hkind := .absorbing hkind
  primitives id v ps _ hkind := by
    constructor
    · intro hv
      cases hv with
      | primitive hkind' hp => exact ⟨_, Option.some.inj (hkind'.symm.trans hkind) ▸ hp, rfl⟩
      | _ =>
        cases hk : s.kind id <;>
          simp_all [TypeKind.isAbsorbing, TypeKind.primitives, objectShape, flowTypeDomain]
    · rintro ⟨p, hp, hprimitive⟩
      cases v with
      | primitive q =>
        cases hprimitive
        exact .primitive hkind hp
      | object callable properties => cases hprimitive
  union id v members _ hkind := by
    constructor
    · intro hv
      cases hv <;>
        simp_all [TypeKind.isAbsorbing, TypeKind.primitives, objectShape, flowTypeDomain]
      exact ⟨_, ‹_ ∈ members›, ‹_›⟩
    · rintro ⟨m, hm, hv⟩
      exact .union hkind hm hv
  intersection id v members _ hkind := by
    constructor
    · intro hv
      cases hv <;>
        simp_all [TypeKind.isAbsorbing, TypeKind.primitives, objectShape, flowTypeDomain]
      assumption
    · exact fun hv => .intersection hkind hv
  objectKeyword id v _ hkind := by
    constructor
    · intro hv
      cases hv <;>
        simp_all [TypeKind.isAbsorbing, TypeKind.primitives, objectShape, flowTypeDomain]
      rfl
    · intro hv
      cases v with
      | primitive p => cases hv
      | object callable properties => exact .objectKeyword hkind
  object id v shape _ hkind hcallable _ := by
    constructor
    · intro hv
      cases hv with
      | object hkind' _ hundefined hnull hmissing hproperties =>
        obtain rfl := Option.some.inj (hkind'.symm.trans hkind)
        refine ⟨hundefined, hnull, fun p hp => ?_⟩
        cases hproperty : v.property p.name with
        | none => simpa [standardReading, hproperty] using hmissing p hp hproperty
        | some w => simpa [standardReading, hproperty] using hproperties p hp w hproperty
      | _ =>
        cases hk : s.kind id <;>
          simp_all [TypeKind.isAbsorbing, TypeKind.primitives, objectShape, flowTypeDomain]
    · rintro ⟨hundefined, hnull, hproperties⟩
      refine .object hkind (by simp [hcallable]) hundefined hnull ?_ ?_
      · intro p hp hmissing
        simpa [standardReading, hmissing] using hproperties p hp
      · intro p hp w hw
        simpa [standardReading, hw] using hproperties p hp
  callable id v shape _ hkind hcallable hv := by
    cases hv with
    | object hkind' hcallable' =>
      obtain rfl := Option.some.inj (hkind'.symm.trans hkind)
      exact v.typeof_of_isCallable s (hcallable' hcallable)
    | _ =>
      cases hk : s.kind id <;>
        simp_all [TypeKind.isAbsorbing, TypeKind.primitives, objectShape, flowTypeDomain]
  function id v signature _ hkind hv := by
    cases hv with
    | function => rfl
    | _ =>
      rcases hkind with hkind | hkind <;>
        simp_all [TypeKind.isAbsorbing, TypeKind.primitives, objectShape]
  constructor id v declaration name _ hkind hv := by
    cases hv with
    | function => rfl
    | _ => simp_all [TypeKind.isAbsorbing, TypeKind.primitives, objectShape]
  array id v element _ hkind hv := by
    cases hv with
    | array => rfl
    | _ => simp_all [TypeKind.isAbsorbing, TypeKind.primitives, objectShape, flowTypeDomain]
  tuple id v elements _ hkind hv := by
    cases hv with
    | array => rfl
    | _ => simp_all [TypeKind.isAbsorbing, TypeKind.primitives, objectShape, flowTypeDomain]

end Tsz.Semantics
