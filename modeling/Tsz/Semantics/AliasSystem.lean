import Tsz.Recursion.Plan
import Tsz.Semantics.Combination
import Tsz.Semantics.Relation

/-!
# Systems of type aliases

Types that refer to each other through aliases without parameters, and the rules by which
the match of the relation compares two of them.
-/

namespace Tsz.Semantics

open Recursion

/-- Primitives, literals, arrays, tuples, unions, objects with required properties and
nothing else, and references to aliases without parameters. -/
def TypeKind.isPlain : TypeKind → Bool
  | .any | .unknown | .never | .void | .undefined | .null | .boolean | .number | .string
  | .bigInt | .objectKeyword | .symbol | .literalBoolean _ _ | .literalNumber _ _
  | .literalString _ _ | .array _ | .tuple _ | .union _ | .deferred (.reference _ []) => true
  | .object shape =>
    shape.properties.all (fun property => !property.optional) && shape.callSignatures.isEmpty &&
      shape.constructSignatures.isEmpty && shape.indexSignatures.isEmpty
  | _ => false

def TypeKind.isReference : TypeKind → Bool
  | .deferred (.reference _ _) => true
  | _ => false

/-- The types of a system, closed under taking parts, and what the aliases stand for. -/
structure AliasSystem where
  store : TypeStore
  wellFormed : store.WellFormed
  types : Set TypeId
  boolean_mem : store.builtins.boolean ∈ types
  body : DeclId → TypeId
  contains : ∀ t ∈ types, store.Contains t
  plain : ∀ t ∈ types, (store.kind t).isPlain
  children : ∀ t ∈ types, ∀ c ∈ (store.kind t).children, c ∈ types
  body_mem : ∀ t ∈ types, ∀ d, store.kind t = .deferred (.reference d []) → body d ∈ types
  body_resolved : ∀ t ∈ types, ∀ d, store.kind t = .deferred (.reference d []) →
    (store.kind (body d)).isReference = false

namespace AliasSystem

variable (sys : AliasSystem)

/-- What a reference stands for. -/
def resolve : TypeKind → TypeKind
  | .deferred (.reference d []) => sys.store.kind (sys.body d)
  | k => k

/-- The canonical union of some types. -/
def unionKind (members : List TypeId) : TypeKind :=
  match sys.store.normalizeUnion members .canonical with
  | .existing id => sys.store.kind id
  | .combined members => .union members

/-- The properties both shapes have, paired. -/
def commonProperties (source target : ObjectShape) : List (TypeKind × TypeKind) :=
  target.properties.filterMap fun targetProperty =>
    (source.properties.find? fun property => property.name = targetProperty.name).map
      fun sourceProperty =>
        (sys.store.kind sourceProperty.ty, sys.store.kind targetProperty.ty)

/-- The match on two kinds. -/
def matchRules (k l : TypeKind) : Plan (TypeKind × TypeKind) :=
  let kind := sys.store.kind
  match k, l with
  | .literalString _ _, .string | .literalNumber _ _, .number | .literalBoolean _ _, .boolean
  | .object _, .objectKeyword | .array _, .objectKeyword | .tuple _, .objectKeyword =>
    .decided .ok
  | .literalString left _, .literalString right _ =>
    .decided (if left = right then .ok else .failure 0)
  | .literalNumber left _, .literalNumber right _ =>
    .decided (if left = right then .ok else .failure 0)
  | .literalBoolean left _, .literalBoolean right _ =>
    .decided (if left = right then .ok else .failure 0)
  | .union members, _ =>
    .all ((Relation.sortMembers sys.store members).map fun member => (kind member, l))
  | _, .union members => .any (members.map fun member => (k, kind member))
  | .object source, .object target =>
    if Relation.missingProperties (some source.properties) target.properties = [] then
      .all (sys.commonProperties source target)
    else .decided (.failure 0)
  | .array left, .array right => .all [(kind left, kind right)]
  | .array _, .object shape =>
    .decided (if shape.properties.isEmpty then .ok
      else .failure RelationFailureKind.deferred.propagationRank)
  | .tuple left, .tuple right =>
    if left.length = right.length then
      .all ((left.zip right).map fun parts => (kind parts.1, kind parts.2))
    else .decided (.failure 0)
  | .tuple elements, .array element => .all [(sys.unionKind elements, kind element)]
  | _, _ => .decided (.failure 0)

/-- The structural rules for two kinds that are not references. -/
def structuralRules (strict : Bool) (k l : TypeKind) : Plan (TypeKind × TypeKind) :=
  if k = .never ∨ l = .unknown then .decided .ok
  else if l = .never then .decided (.failure 0)
  else if !strict && (k = .null || k = .undefined) then .decided .ok
  else sys.matchRules k l

/-- How one comparison leads to others: equal types are related, references are replaced by
what they stand for, and the match decides the rest. -/
def rules (strict : Bool) : TypeKind × TypeKind → Plan (TypeKind × TypeKind)
  | (k, l) =>
    if k = l then .decided .ok
    else if k.isReference || l.isReference then .all [(sys.resolve k, sys.resolve l)]
    else sys.structuralRules strict k l

/-- The greatest relation on the types that is closed under the rules. -/
def Related (strict : Bool) (source target : TypeId) : Prop :=
  (sys.store.kind source, sys.store.kind target) ∈ Greatest (sys.rules strict)

/-- Some comparison that the two types lead to is one of an array with an object that has
properties. -/
def ComparesArrayWithObject (strict : Bool) (source target : TypeId) : Prop :=
  ∃ element shape, shape.properties ≠ [] ∧
    Unfolds (sys.rules strict) (sys.store.kind source, sys.store.kind target)
      (.array element, .object shape)

end AliasSystem

/-- The surroundings of the relation resolve the aliases of a system, in all states that
satisfy `I`: types are only added, a reference is forced to what its alias stands for unless
the budget of the evaluator runs out, and unions are those of the store. -/
structure ResolvesAliases {σ : Type} (C : RelationContext σ) (I : σ → Prop) (sys : AliasSystem)
    (strict : Bool) : Prop where
  wellFormed : ∀ s, I s → (C.types s).WellFormed
  types_extend : ∀ s, I s → TypeStore.Extends sys.store (C.types s)
  strictNullChecks : ∀ s, I s → C.strictNullChecks s = strict
  force_resolved : ∀ s t depth, I s → (∀ query, (C.types s).kind t ≠ .deferred query) →
    C.forceType t depth s = (.complete t, s)
  force_reference : ∀ s t depth d, I s → (C.types s).kind t = .deferred (.reference d []) →
    ((C.forceType t depth s).1 = .complete (sys.body d) ∨ (C.forceType t depth s).1 = .limit) ∧
      I (C.forceType t depth s).2 ∧
      TypeStore.Extends (C.types s) (C.types (C.forceType t depth s).2)
  union : ∀ s members, I s → (∀ m ∈ members, m ∈ sys.types) →
    I (C.canonicalUnion members s).2 ∧
      ((C.canonicalUnion members s).1, C.types (C.canonicalUnion members s).2) =
        (C.types s).union members .canonical

namespace AliasSystem

/-- Surroundings that know nothing but the aliases of the system. -/
def context (sys : AliasSystem) (strict : Bool) : RelationContext TypeStore where
  types := id
  forceType t _ s :=
    match s.kind t with
    | .deferred (.reference d []) => (.complete (sys.body d), s)
    | .deferred _ => (.deferred, s)
    | _ => (.complete t, s)
  generativeReferenceSupported _ _ _ := false
  generativeRelationFrameSupported _ _ _ := false
  libraryReferenceArgumentsAreCovariant _ _ := false
  classConstructorSignature _ s := (.deferred, s)
  strictNullChecks _ := strict
  canonicalUnion members s := s.union members .canonical

theorem resolvesAliases_context (sys : AliasSystem) (strict : Bool) :
    ResolvesAliases (sys.context strict)
      (fun s => s.WellFormed ∧ TypeStore.Extends sys.store s) sys strict where
  wellFormed _ hs := hs.1
  types_extend _ hs := hs.2
  strictNullChecks _ _ := rfl
  force_resolved s t depth _ hresolved := by
    unfold context
    simp only
    split
    · next d hkind => exact absurd hkind (hresolved _)
    · next query _ hkind => exact absurd hkind (hresolved _)
    · rfl
  force_reference s t depth d hs hkind := by
    have hforce : (sys.context strict).forceType t depth s = (.complete (sys.body d), s) := by
      simp only [context, id] at hkind ⊢
      rw [hkind]
    rw [hforce]
    exact ⟨.inl rfl, hs, .refl _⟩
  union s members hs hmembers := by
    have hcontains : ∀ m ∈ members, s.Contains m :=
      fun m hm => hs.2.contains (sys.contains m (hmembers m hm))
    exact ⟨⟨hs.1.union hcontains, hs.2.trans (TypeStore.extends_combine _ _)⟩, rfl⟩

end AliasSystem

end Tsz.Semantics
