import Tsz.Semantics.FlowNarrowing
import Tsz.Semantics.UnionNormalForm

/-!
# Reading a property

A property is looked up in four places: for a member expression, for a property query that was
deferred, for an indexed access type, and for an element access. Each of them has its own view of
optional properties and of callable members.

## Main definitions

* `propertyType`, `evaluateProperty`, `evaluateIndexedAccess`, `evaluateElementAccess` — the four.
* `Agree` — all complete with one type, or none is complete.
-/

namespace Tsz.Semantics

open Sorting

/-! ## The union of one type -/

namespace TypeStore

variable {s : TypeStore}

/-- The members of a union that was kept in the order of the source may stand in another order than
their keys. -/
def InKeyOrder (s : TypeStore) (id : TypeId) : Prop :=
  ∀ members, s.kind id = .union members →
    sortByKey (s.stableOrderKey · 0) members = members

theorem normalizeUnion_singleton_of_union (hs : Reachable s) {id : TypeId} {members : List TypeId}
    (hid : s.Contains id) (hkind : s.kind id = .union members) :
    s.normalizeUnion [id] .canonical = .combined (sortByKey (s.stableOrderKey · 0) members) := by
  have hwell := hs.wellFormed
  obtain ⟨s₀, listed, policy, hgrow, hs₀, hlisted, horigin⟩ := hs.union_origin hid hkind
  rw [← normalizeUnion_of_extends hgrow hs₀.wellFormed hwell hlisted] at horigin
  have htwo := (isUnionNormal_of_combined hwell (fun m hm => hgrow.contains (hlisted m hm))
    horigin).two_le
  obtain ⟨hnodup, hflat⟩ := hwell.unions id members hid hkind
  have hsurviving : s.surviving members = members := by
    rw [← unionList_of_combined horigin]
    exact surviving_unionList hwell policy _
  have hlist : s.unionList .canonical members = sortByKey (s.stableOrderKey · 0) members := by
    rw [unionList_eq, hsurviving]
    exact eraseDups_of_nodup ((sortByKey_perm _ members).nodup_iff.mpr hnodup)
  have hmembers : [id].flatMap s.unionMembers = members := by
    simp [unionMembers, hkind]
  rw [normalizeUnion_eq_normalizeFlat, hmembers,
    normalizeFlat_of_unabsorbed (anyKind_eq_false.mpr fun m hm => ?_)
      (anyKind_eq_false.mpr fun m hm => ?_) (List.find?_eq_none.mpr fun m hm => ?_), hlist]
  · refine Normalized.ofList_eq_combined.mpr ⟨rfl, ?_⟩
    rwa [(sortByKey_perm _ members).length_eq]
  · simpa using (hflat m hm).any
  · simpa using (hflat m hm).unknown
  · simpa using (hflat m hm).error

theorem not_both_booleanLiterals (k : TypeKind) :
    (k.isBooleanLiteral true && k.isBooleanLiteral false) = false := by
  unfold TypeKind.isBooleanLiteral
  split <;> simp

/-- A type does not absorb itself. -/
theorem survives_singleton {id : TypeId} (h : s.kind id ≠ .never) : s.survives [id] id := by
  have habsorbs : ∀ {p : TypeKind → Bool} {base : TypeKind}, p base = false →
      (p (s.kind id) && decide (s.kind id = base)) = false := by
    intro p base hp
    by_cases hbase : s.kind id = base
    · simp [hbase, hp]
    · simp [hbase]
  simp only [survives_eq, hasBoolean, anyKind_singleton, not_both_booleanLiterals, Bool.or_false]
  rw [habsorbs rfl, habsorbs rfl, habsorbs rfl]
  simp [h]

theorem normalizeUnion_singleton_of_ne_union (hs : Reachable s) {id : TypeId}
    (hid : s.Contains id) (hkind : ∀ members, s.kind id ≠ .union members) :
    s.normalizeUnion [id] .canonical = .existing id := by
  have hwell := hs.wellFormed
  have hbuiltin : ∀ {name : BuiltinTypes → TypeId} {k : TypeKind},
      s.Contains (name s.builtins) ∧ s.kind (name s.builtins) = k → s.kind id = k →
        isFreshDeferred k = false → name s.builtins = id :=
    fun h hk hfresh => hwell.eq_of_kind_eq h.1 hid (h.2 ▸ hfresh) (h.2.trans hk.symm)
  have hmembers : [id].flatMap s.unionMembers = [id] := by
    simp [unionMembers_of_ne_union hkind]
  rw [normalizeUnion_eq_normalizeFlat, hmembers, normalizeFlat]
  simp only [anyKind_singleton, decide_eq_true_eq]
  split
  next hany =>
    rw [hbuiltin (hwell.kind_builtin (·.any) (k := .any) (by decide)) hany rfl]
  next =>
    split
    next hunknown =>
      rw [hbuiltin (hwell.kind_builtin (·.unknown) (k := .unknown) (by decide)) hunknown rfl]
    next =>
      split
      next error herror =>
        rw [List.mem_singleton.mp (List.mem_of_find?_eq_some herror)]
      next =>
        by_cases hnever : s.kind id = .never
        · have hlist : s.unionList .canonical [id] = [] := by
            simp [unionList_eq, surviving, survives, mergedBoolean, mergesBooleans,
              anyKind_singleton, hnever, arrange, sortByKey, TypeKind.isBooleanLiteral]
          rw [hlist, ← hbuiltin (hwell.kind_builtin (·.never) (k := .never) (by decide)) hnever rfl]
          rfl
        · have hmerges : s.mergesBooleans [id] = false := by
            simp only [mergesBooleans, anyKind_singleton, Bool.and_assoc, not_both_booleanLiterals,
              Bool.and_false]
          have harrange : s.arrange .canonical (s.surviving [id]) = [id] := by
            simp [surviving, mergedBoolean, survives_singleton hnever, hmerges, arrange, sortByKey]
          have hlist : s.unionList .canonical [id] = [id] := by
            rw [unionList_eq, harrange]
            exact eraseDups_of_nodup (List.nodup_singleton id)
          rw [hlist]
          rfl

/-- The union of one type is that type, but for a union that is not in the order of its keys. -/
theorem union_singleton_iff (hs : Reachable s) {id : TypeId} (hid : s.Contains id) :
    (s.union [id] .canonical).1 = id ↔ s.InKeyOrder id := by
  have hwell := hs.wellFormed
  by_cases hunion : ∃ members, s.kind id = .union members
  · obtain ⟨members, hkind⟩ := hunion
    rw [TypeStore.union, normalizeUnion_singleton_of_union hs hid hkind, combine]
    constructor
    · intro hintern members' hkind'
      obtain rfl : members = members' := TypeKind.union.inj (hkind.symm.trans hkind')
      have hinterned := (hwell.kind_intern
        (.union (sortByKey (s.stableOrderKey · 0) members))).2
      rw [hintern, (s.extends_intern _).kind hid, hkind] at hinterned
      exact (TypeKind.union.inj hinterned).symm
    · intro horder
      have hlookup := hwell.shared id hid (by rw [hkind]; rfl)
      rw [horder members hkind, ← hkind, intern, hlookup]
  · have hkind : ∀ members, s.kind id ≠ .union members := fun members h => hunion ⟨members, h⟩
    rw [TypeStore.union, normalizeUnion_singleton_of_ne_union hs hid hkind, combine]
    exact ⟨fun _ members h => absurd h (hkind members), fun _ => rfl⟩

end TypeStore

/-! ## Shapes -/

def ElementAccessMode.isRead : ElementAccessMode → Bool
  | .read => true
  | _ => false

def ElementAccessMode.isWrite : ElementAccessMode → Bool
  | .write | .evolvingArrayWrite => true
  | _ => false

namespace ObjectShape

def findProperty (shape : ObjectShape) (name : String) : Option Property :=
  shape.properties.find? fun property => property.name = name

def index (shape : ObjectShape) (key : IndexKeyKind) : Option IndexSignature :=
  shape.indexSignatures.find? fun index => index.key = key

end ObjectShape

def isShapeFunction : TypeKind → Bool
  | .shapeFunction _ => true
  | _ => false

def isNumberLike : TypeKind → Bool
  | .number | .literalNumber _ _ => true
  | _ => false

def isPropertyKeyLike : TypeKind → Bool
  | .string | .number | .literalString _ _ | .literalNumber _ _ => true
  | _ => false

/-- What the projections ask of the checker: the types, the evaluation of deferred types, the
option that decides about missing keys, and the spelling of numbers. -/
structure ProjectionContext (σ : Type) where
  types : σ → TypeStore
  withTypes : σ → TypeStore → σ
  types_withTypes : ∀ s store, types (withTypes s store) = store
  forceDeferred : TypeId → DeferredType TypeId → Nat → CheckerM σ TypeId
  noImplicitAny : Bool
  libraryValueElement : DeclId → TypeId → CheckerM σ TypeId
  display : NumericLiteral → String
  arrayIndex : NumericLiteral → Option Nat
  isNumericLiteralName : String → Bool
  canonicalArrayIndex : String → Option Nat

namespace Projection

open CheckerM

variable {σ : Type} (C : ProjectionContext σ)

def types : CheckerM σ TypeStore := do pure (C.types (← get))

def make (operation : TypeStore → TypeId × TypeStore) : CheckerM σ TypeId := fun s =>
  let (id, store) := operation (C.types s)
  (.complete id, C.withTypes s store)

def forceType (ty : TypeId) (depth : Nat) : CheckerM σ TypeId := do
  match (← types C).kind ty with
  | .deferred query => C.forceDeferred ty query depth
  | _ => pure ty

/-- The property of a member expression. The callee of a call may be a method. -/
def propertyType (object : TypeId) (name : String) (allowShapeCallable : Bool) :
    CheckerM σ (Option TypeId) := do
  let object ← forceType C object 0
  let s ← types C
  match s.kind object with
  | .object shape | .classInstance _ _ _ shape =>
    match shape.findProperty name with
    | some property =>
      if !allowShapeCallable && isShapeFunction (s.kind property.ty) then incomplete
      else pure (some property.ty)
    | none =>
      match shape.index .string with
      | some index =>
        if !allowShapeCallable && isShapeFunction (s.kind index.value) then incomplete
        else pure (some index.value)
      | none => pure none
  | .any => pure (some s.builtins.any)
  | .error | .invalid _ => pure (some object)
  | _ => incomplete

def evaluateProperty (object : TypeId) (name : String) (depth : Nat) : CheckerM σ TypeId := do
  let object ← forceType C object depth
  let s ← types C
  match s.kind object with
  | .object shape | .classInstance _ _ _ shape =>
    match shape.findProperty name with
    | some property =>
      if isShapeFunction (s.kind property.ty) then incomplete else pure property.ty
    | none =>
      match shape.index .string with
      | some index => if isShapeFunction (s.kind index.value) then incomplete else pure index.value
      | none => make C (·.intern (.invalid (.missingProperty object name)))
  | .any => pure s.builtins.any
  | .error | .invalid _ => pure object
  | _ => incomplete

/-- The names that an index type stands for. -/
def indexKeys (s : TypeStore) (index : TypeId) : Option (List String) :=
  match s.kind index with
  | .literalString key _ => some [key]
  | .union members =>
    members.mapM fun member =>
      match s.kind member with
      | .literalString key _ => some key
      | _ => none
  | _ => none

/-- The types under some names, and the names without one. -/
def indexValues (s : TypeStore) (shape : ObjectShape) :
    List String → CheckerM σ (List TypeId × List String)
  | [] => pure ([], [])
  | key :: rest => do
    let value := ((shape.findProperty key).map (·.ty)).or ((shape.index .string).map (·.value))
    match value with
    | some value =>
      if isShapeFunction (s.kind value) then incomplete
      else
        let (values, missing) ← indexValues s shape rest
        pure (value :: values, missing)
    | none =>
      let (values, missing) ← indexValues s shape rest
      pure (values, key :: missing)

def evaluateIndexedAccess (object index : TypeId) (depth : Nat) : CheckerM σ TypeId := do
  let object ← forceType C object depth
  let index ← forceType C index depth
  let s ← types C
  match s.kind object with
  | .object shape | .classInstance _ _ _ shape =>
    match indexKeys s index with
    | some keys =>
      let (values, missing) ← indexValues s shape keys
      if missing.isEmpty then make C (·.union values .canonical)
      else make C (·.intern (.invalid (.missingProperties object missing)))
    | none => incomplete
  | .any => pure s.builtins.any
  | .error => pure s.builtins.error
  | .invalid _ => pure object
  | _ => incomplete

/-! ### Element access -/

def property (shape : ObjectShape) (key : String) (mode : ElementAccessMode) :
    Option (Completion TypeId) :=
  (shape.findProperty key).map fun property =>
    if property.optional || mode.isWrite && property.readonly then .deferred
    else .complete property.ty

def indexValue (shape : ObjectShape) (key : IndexKeyKind) (mode : ElementAccessMode) :
    Option (Completion TypeId) :=
  (shape.index key).map fun index =>
    if mode.isWrite && index.readonly then .deferred else .complete index.value

def isNumberIndexType (kind : TypeKind) : Bool :=
  kind = .any || isNumberLike kind ||
    match kind with
    | .literalString value _ => C.isNumericLiteralName value
    | _ => false

def exactTupleIndex (index : Option Nat) (elements : List TypeId) : Completion TypeId :=
  match index.bind fun index => elements[index]? with
  | some element => .complete element
  | none => .deferred

/-- An answer that is already there. -/
def answer (completion : Completion TypeId) : CheckerM σ TypeId := fun s => (completion, s)

def tupleElementAccess (elements : List TypeId) (index : TypeId) (mode : ElementAccessMode) :
    CheckerM σ TypeId := do
  match (← types C).kind index with
  | .literalNumber index _ => answer (exactTupleIndex (C.arrayIndex index) elements)
  | .literalString index _ => answer (exactTupleIndex (C.canonicalArrayIndex index) elements)
  | .number | .any =>
    if mode.isRead then make C (·.union elements .canonical) else incomplete
  | _ => incomplete

/-- An index that a shape has no answer for. -/
def unknownIndex (kind : TypeKind) : CheckerM σ TypeId := do
  if !C.noImplicitAny && isPropertyKeyLike kind then pure (← types C).builtins.any
  else incomplete

/-- The element of a shape, with a number of levels left for unions of indices. -/
def objectElementAccess (shape : ObjectShape) (mode : ElementAccessMode) :
    Nat → TypeId → CheckerM σ TypeId
  | 0, _ => incomplete
  | levels + 1, index => do
    let s ← types C
    let orUnknown (value : Option (Completion TypeId)) : CheckerM σ TypeId :=
      match value with
      | some completion => answer completion
      | none => unknownIndex C (s.kind index)
    match s.kind index with
    | .literalString key _ =>
      orUnknown ((property shape key mode).or (indexValue shape .string mode))
    | .literalNumber key _ =>
      orUnknown (((property shape (C.display key) mode).or (indexValue shape .number mode)).or
        (indexValue shape .string mode))
    | .string => orUnknown (indexValue shape .string mode)
    | .number =>
      orUnknown ((indexValue shape .number mode).or (indexValue shape .string mode))
    | .any =>
      orUnknown (((indexValue shape .number mode).or (indexValue shape .string mode)).or
        (some (.complete s.builtins.any)))
    | .error | .invalid _ => pure index
    | .union members =>
      if mode.isRead then
        let values ← gather
          (fun member => do pure [← objectElementAccess shape mode levels member]) members
        make C (·.union values .canonical)
      else unknownIndex C (s.kind index)
    | kind => unknownIndex C kind

/-- The element of a type, with a number of levels left for unions of objects. -/
def evaluateResolvedElementAccess (index : TypeId) (mode : ElementAccessMode) :
    Nat → TypeId → CheckerM σ TypeId
  | 0, _ => incomplete
  | levels + 1, object => do
    let s ← types C
    let indexKind := s.kind index
    if indexKind.isError then pure index
    else
      match s.kind object with
      | .any => pure s.builtins.any
      | .error | .invalid _ => pure object
      | .never => pure s.builtins.never
      | .array element =>
        if isNumberIndexType C indexKind then
          if mode = .evolvingArrayWrite && s.kind element = .never then incomplete
          else pure element
        else unknownIndex C indexKind
      | .tuple elements => tupleElementAccess C elements index mode
      | .string | .literalString _ _ =>
        if mode.isRead && isNumberIndexType C indexKind then pure s.builtins.string
        else if mode.isRead then unknownIndex C indexKind
        else incomplete
      | .classConstructor declaration _ => C.libraryValueElement declaration index
      | .object shape | .classInstance _ _ _ shape =>
        objectElementAccess C shape mode (s.kinds.length + 1) index
      | .union members =>
        if mode.isRead then
          let values ← gather
            (fun member => do pure [← evaluateResolvedElementAccess index mode levels member])
            members
          make C (·.union values .canonical)
        else incomplete
      | _ => incomplete

def evaluateElementAccess (object index : TypeId) (mode : ElementAccessMode) (depth : Nat) :
    CheckerM σ TypeId := do
  let object ← forceType C object depth
  let index ← forceType C index depth
  let s ← types C
  evaluateResolvedElementAccess C index mode (s.kinds.length + 1) object

/-! ## What each of them answers -/

/-- What a shape has under a name, and whether it may be absent: a property, or else the value of
the string index. -/
def lookup (shape : ObjectShape) (name : String) : Option (TypeId × Bool) :=
  match shape.findProperty name with
  | some property => some (property.ty, property.optional)
  | none => (shape.index .string).map fun index => (index.value, false)

variable {C} {s : σ} {object index : TypeId} {shape : ObjectShape} {name : String}
  {value : TypeId} {optional : Bool}

theorem cases_of_objectShape {kind : TypeKind} (h : Relation.objectShape kind = some shape) :
    kind = .object shape ∨ ∃ declaration name arguments,
      kind = .classInstance declaration name arguments shape := by
  unfold Relation.objectShape at h
  split at h <;> simp_all

theorem bind_of_complete {α β : Type} {m : CheckerM σ α} {a : α} {t : σ} (h : m s = (.complete a, t))
    (f : α → CheckerM σ β) : (m >>= f) s = f a t := by
  rw [CheckerM.bind_run, h]

theorem types_bind {β : Type} (f : TypeStore → CheckerM σ β) :
    (types C >>= f) s = f (C.types s) s := rfl

theorem forceType_of_settled {ty : TypeId} (h : (C.types s).Settled ty) (depth : Nat) :
    forceType C ty depth s = (.complete ty, s) := by
  rw [forceType, types_bind]
  cases hkind : (C.types s).kind ty with
  | deferred query => exact absurd hkind (h query)
  | _ => rfl

theorem cases_of_lookup (h : lookup shape name = some (value, optional)) :
    (∃ property, shape.findProperty name = some property ∧ property.ty = value ∧
      property.optional = optional) ∨
    shape.findProperty name = none ∧ optional = false ∧
      ∃ index, shape.index .string = some index ∧ index.value = value := by
  unfold lookup at h
  split at h
  next property hproperty =>
    cases h
    exact .inl ⟨property, hproperty, rfl, rfl⟩
  next hproperty =>
    obtain ⟨index, hindex, hvalue⟩ := Option.map_eq_some_iff.mp h
    cases hvalue
    exact .inr ⟨hproperty, rfl, index, hindex, rfl⟩

section shape

variable (hshape : Relation.objectShape ((C.types s).kind object) = some shape)
  (hlookup : lookup shape name = some (value, optional))

include hshape hlookup

theorem propertyType_of_lookup (allowShapeCallable : Bool) :
    (propertyType C object name allowShapeCallable s).1 =
      if !allowShapeCallable && isShapeFunction ((C.types s).kind value) then .deferred
      else .complete (some value) := by
  rw [propertyType,
    bind_of_complete (forceType_of_settled (Relation.settled_of_objectShape hshape) 0), types_bind]
  rcases cases_of_objectShape hshape with hkind | ⟨_, _, _, hkind⟩
  all_goals
    simp only [hkind]
    rcases cases_of_lookup hlookup with ⟨_, hproperty, rfl, _⟩ | ⟨hproperty, _, _, hindex, rfl⟩
    · simp only [hproperty]
      split <;> rfl
    · simp only [hproperty, hindex]
      split <;> rfl

theorem evaluateProperty_of_lookup (depth : Nat) :
    (evaluateProperty C object name depth s).1 =
      if isShapeFunction ((C.types s).kind value) then .deferred else .complete value := by
  rw [evaluateProperty,
    bind_of_complete (forceType_of_settled (Relation.settled_of_objectShape hshape) depth),
    types_bind]
  rcases cases_of_objectShape hshape with hkind | ⟨_, _, _, hkind⟩
  all_goals
    simp only [hkind]
    rcases cases_of_lookup hlookup with ⟨_, hproperty, rfl, _⟩ | ⟨hproperty, _, _, hindex, rfl⟩
    · simp only [hproperty]
      split <;> rfl
    · simp only [hproperty, hindex]
      split <;> rfl

variable {provenance : LiteralProvenance}
  (hindex : (C.types s).kind index = .literalString name provenance)

include hindex

theorem evaluateIndexedAccess_of_lookup (depth : Nat) :
    (evaluateIndexedAccess C object index depth s).1 =
      if isShapeFunction ((C.types s).kind value) then .deferred
      else .complete ((C.types s).union [value] .canonical).1 := by
  have hsettled : (C.types s).Settled index := by
    intro query hkind
    rw [hkind] at hindex
    cases hindex
  have hvalue : ((shape.findProperty name).map (·.ty)).or
      ((shape.index .string).map (·.value)) = some value := by
    rcases cases_of_lookup hlookup with ⟨_, hproperty, rfl, _⟩ | ⟨hproperty, _, _, hindex, rfl⟩
    · simp [hproperty]
    · simp [hproperty, hindex]
  rw [evaluateIndexedAccess,
    bind_of_complete (forceType_of_settled (Relation.settled_of_objectShape hshape) depth),
    bind_of_complete (forceType_of_settled hsettled depth), types_bind]
  rcases cases_of_objectShape hshape with hkind | ⟨_, _, _, hkind⟩
  all_goals
    simp only [hkind, indexKeys, hindex, indexValues, hvalue]
    split <;> rfl

theorem evaluateElementAccess_of_lookup (depth : Nat) :
    (evaluateElementAccess C object index .read depth s).1 =
      if optional then .deferred else .complete value := by
  have hsettled : (C.types s).Settled index := by
    intro query hkind
    rw [hkind] at hindex
    cases hindex
  have hvalue : (property shape name .read).or (indexValue shape .string .read) =
      some (if optional then .deferred else .complete value) := by
    rcases cases_of_lookup hlookup with
      ⟨_, hproperty, rfl, rfl⟩ | ⟨hproperty, rfl, _, hindex, rfl⟩
    · simp [property, hproperty, ElementAccessMode.isWrite]
    · simp [property, indexValue, hproperty, hindex, ElementAccessMode.isWrite]
  rw [evaluateElementAccess,
    bind_of_complete (forceType_of_settled (Relation.settled_of_objectShape hshape) depth),
    bind_of_complete (forceType_of_settled hsettled depth), types_bind]
  rcases cases_of_objectShape hshape with hkind | ⟨_, _, _, hkind⟩
  all_goals
    rw [evaluateResolvedElementAccess, types_bind]
    simp only [hkind, hindex, TypeKind.isError, Bool.false_eq_true, if_false]
    rw [objectElementAccess, types_bind]
    simp only [hindex, hvalue]
    rfl

end shape

/-! ## Agreement -/

/-- All answers are one type, or none of them is a type. -/
def Agree (answers : List (Completion (Option TypeId))) : Prop :=
  (∃ ty, ∀ a ∈ answers, a = .complete (some ty)) ∨
    ∀ a ∈ answers, ∀ ty, a ≠ .complete (some ty)

/-- The four ways to read a property, each from the same state. -/
def answers (C : ProjectionContext σ) (object index : TypeId) (name : String)
    (allowShapeCallable : Bool) (depth : Nat) (s : σ) : List (Completion (Option TypeId)) :=
  [(propertyType C object name allowShapeCallable s).1,
    ((some <$> evaluateProperty C object name depth) s).1,
    ((some <$> evaluateIndexedAccess C object index depth) s).1,
    ((some <$> evaluateElementAccess C object index .read depth) s).1]

theorem map_some_fst (m : CheckerM σ TypeId) :
    ((some <$> m) s).1 = match (m s).1 with
      | .complete ty => .complete (some ty)
      | .deferred => .deferred
      | .cycle => .cycle
      | .limit => .limit := by
  change ((m >>= fun ty => pure (some ty)) s).1 = _
  simp only [bind]
  rcases m s with ⟨_ | _ | _ | _, _⟩ <;> rfl

theorem contains_of_lookup (hwell : (C.types s).Consistent)
    (hobject : (C.types s).Contains object)
    (hshape : Relation.objectShape ((C.types s).kind object) = some shape)
    (hlookup : lookup shape name = some (value, optional)) : (C.types s).Contains value := by
  have hchildren : value ∈ shape.children := by
    unfold ObjectShape.children
    rcases cases_of_lookup hlookup with ⟨p, hproperty, rfl, _⟩ | ⟨_, _, i, hindex, rfl⟩
    · exact List.mem_append_left _ (List.mem_append_left _
        (List.mem_map_of_mem (List.mem_of_find?_eq_some hproperty)))
    · exact List.mem_append_right _ (List.mem_map_of_mem (List.mem_of_find?_eq_some hindex))
  refine hwell.children object hobject value ?_
  rcases cases_of_objectShape hshape with hkind | ⟨_, _, _, hkind⟩ <;> rw [hkind]
  · exact hchildren
  · exact List.mem_append_right _ hchildren

/-- A property that has a value is read alike in all four places where it is not optional, its value
is not a method and not a union kept in another order than that of its keys. A method stays
incomplete everywhere where it is optional and not called. -/
theorem projections_agree_iff (C : ProjectionContext σ) {s : σ} (hs : (C.types s).Reachable)
    {object index : TypeId} {shape : ObjectShape} {name : String} {provenance : LiteralProvenance}
    {value : TypeId} {optional : Bool} (hobject : (C.types s).Contains object)
    (hshape : Relation.objectShape ((C.types s).kind object) = some shape)
    (hindex : (C.types s).kind index = .literalString name provenance)
    (hlookup : lookup shape name = some (value, optional)) (allowShapeCallable : Bool)
    (depth : Nat) :
    Agree (answers C object index name allowShapeCallable depth s) ↔
      if isShapeFunction ((C.types s).kind value) then
        optional = true ∧ allowShapeCallable = false
      else optional = false ∧ (C.types s).InKeyOrder value := by
  have hvalue := contains_of_lookup hs.wellFormed.toConsistent hobject hshape hlookup
  have hunion := TypeStore.union_singleton_iff hs hvalue
  have hmember := propertyType_of_lookup hshape hlookup allowShapeCallable
  have hquery := evaluateProperty_of_lookup hshape hlookup depth
  have hindexed := evaluateIndexedAccess_of_lookup hshape hlookup hindex depth
  have helement := evaluateElementAccess_of_lookup hshape hlookup hindex depth
  unfold answers
  rw [map_some_fst, map_some_fst, map_some_fst, hmember, hquery, hindexed, helement]
  cases hcallable : isShapeFunction ((C.types s).kind value) with
  | true => cases optional <;> cases allowShapeCallable <;> simp [Agree]
  | false =>
    cases optional with
    | true => simp [Agree]
    | false =>
      rw [← hunion]
      simp [Agree]

/-! ### Shapes with one property -/

/-- A checker that evaluates nothing and knows no numbers. -/
def storeContext : ProjectionContext TypeStore where
  types s := s
  withTypes _ s := s
  types_withTypes _ _ := rfl
  forceDeferred _ _ _ := incomplete
  noImplicitAny := true
  libraryValueElement _ _ := incomplete
  display _ := ""
  arrayIndex _ := none
  isNumericLiteralName _ := false
  canonicalArrayIndex _ := none

def numberShape (optional : Bool) : ObjectShape where
  properties := [{ name := "k", ty := TypeStore.new.builtins.number, optional, readonly := false }]

/-- The type `{ k: number }` or `{ k?: number }`, and the type `"k"`. -/
def numberShapes (optional : Bool) : TypeStore :=
  ((TypeStore.new.intern (.object (numberShape optional))).2.intern (.literalString "k" .regular)).2

theorem reachable_numberShapes (optional : Bool) : (numberShapes optional).Reachable := by
  cases optional <;> exact .intern (.intern .new (by decide) nofun nofun) (by decide) nofun nofun

theorem projections_agree_numberShape :
    Agree (answers storeContext ⟨13⟩ ⟨14⟩ "k" false 0 (numberShapes false)) := by
  have hobject : (numberShapes false).Contains ⟨13⟩ := by decide
  have hshape : Relation.objectShape ((numberShapes false).kind ⟨13⟩) = some (numberShape false) := by
    decide +kernel
  have hindex : (numberShapes false).kind ⟨14⟩ = .literalString "k" .regular := by decide +kernel
  have hlookup : lookup (numberShape false) "k" = some (TypeStore.new.builtins.number, false) := by
    decide
  have hkind : (numberShapes false).kind TypeStore.new.builtins.number = .number := by decide
  refine (projections_agree_iff storeContext (reachable_numberShapes false) hobject hshape hindex
    hlookup false 0).mpr ?_
  change if isShapeFunction ((numberShapes false).kind TypeStore.new.builtins.number) then _ else
    false = false ∧ (numberShapes false).InKeyOrder TypeStore.new.builtins.number
  rw [hkind]
  exact ⟨rfl, fun members h => nomatch hkind.symm.trans h⟩

/-- The property of `{ k?: number }` is `number` where it is a member, a query or an indexed access
type, and incomplete where it is an element access. -/
theorem projections_disagree_optional :
    (numberShapes true).Reachable ∧
      Relation.objectShape ((numberShapes true).kind ⟨13⟩) = some (numberShape true) ∧
      (((numberShape true).properties.map (·.name)).Nodup) ∧
      (numberShapes true).kind ⟨14⟩ = .literalString "k" .regular ∧
      lookup (numberShape true) "k" = some (TypeStore.new.builtins.number, true) ∧
      ¬ Agree (answers storeContext ⟨13⟩ ⟨14⟩ "k" false 0 (numberShapes true)) := by
  have hanswers : answers storeContext ⟨13⟩ ⟨14⟩ "k" false 0 (numberShapes true) =
      [.complete (some ⟨8⟩), .complete (some ⟨8⟩), .complete (some ⟨8⟩), .deferred] := by
    decide +kernel
  refine ⟨reachable_numberShapes true, by decide +kernel, by decide, by decide +kernel,
    by decide, ?_⟩
  simp [hanswers, Agree]

end Projection

end Tsz.Semantics
