import Tsz.Semantics.RelationRuns

/-!
# Narrowing

What the flow of control says about a type: narrowing by `typeof`, by equality with strings, and
by a type predicate.

## Main definitions

* `CheckerM` — queries that may stay incomplete.
* `narrowTypeof`, `narrowStringLiterals` — the members of a type that pass a test.
* `predicateLeaf` — what a type predicate leaves of a type on either branch.
-/

namespace Tsz.Semantics

inductive TypeofWitness
  | undefined
  | object
  | boolean
  | number
  | bigInt
  | string
  | symbol
  | function
deriving DecidableEq, Repr

def TypeofWitness.index : TypeofWitness → Nat
  | .undefined => 0
  | .object => 1
  | .boolean => 2
  | .number => 3
  | .bigInt => 4
  | .string => 5
  | .symbol => 6
  | .function => 7

def TypeofWitness.bit (witness : TypeofWitness) : BitVec 8 := 1#8 <<< witness.index

structure TypeofWitnessSet where
  bits : BitVec 8
deriving DecidableEq, Repr

def TypeofWitnessSet.contains (values : TypeofWitnessSet) (witness : TypeofWitness) : Bool :=
  values.bits &&& witness.bit ≠ 0

/-- What `typeof` answers for the values of a type, and whether the type is open: whether other
values than the ones it is made for may have it. -/
def flowTypeDomain : TypeKind → Option TypeofWitness × Bool
  | .string | .literalString _ _ => (some .string, false)
  | .number | .literalNumber _ _ => (some .number, false)
  | .bigInt => (some .bigInt, false)
  | .boolean | .literalBoolean _ _ => (some .boolean, false)
  | .symbol => (some .symbol, false)
  | .null => (some .object, false)
  | .undefined => (some .undefined, false)
  | .objectKeyword => (none, true)
  | .array _ | .tuple _ | .classInstance _ _ _ _ => (some .object, true)
  | .object shape =>
    (some (if shape.callSignatures.isEmpty && shape.constructSignatures.isEmpty then .object
      else .function), true)
  | .classConstructor _ _ | .function _ | .shapeFunction _ => (some .function, true)
  | _ => (none, false)

/-! ## Queries -/

/-- A query of the checker; a part that is not complete ends it. -/
def CheckerM (σ α : Type) := σ → Completion α × σ

namespace CheckerM

variable {σ α β : Type}

instance : Monad (CheckerM σ) where
  pure a s := (.complete a, s)
  bind m f s :=
    match m s with
    | (.complete a, s) => f a s
    | (.deferred, s) => (.deferred, s)
    | (.cycle, s) => (.cycle, s)
    | (.limit, s) => (.limit, s)

theorem bind_run (m : CheckerM σ α) (f : α → CheckerM σ β) (s : σ) :
    (m >>= f) s = match m s with
      | (.complete a, s) => f a s
      | (.deferred, s) => (.deferred, s)
      | (.cycle, s) => (.cycle, s)
      | (.limit, s) => (.limit, s) := rfl

def get : CheckerM σ σ := fun s => (.complete s, s)

def incomplete : CheckerM σ α := fun s => (.deferred, s)

/-- What the items of a list give, one after the other. -/
def gather (f : α → CheckerM σ (List β)) : List α → CheckerM σ (List β)
  | [] => pure []
  | item :: rest => do
    let first ← f item
    let others ← gather f rest
    pure (first ++ others)

end CheckerM

/-- The surroundings of the relation, and how the checker adds types to them. -/
structure FlowContext (σ : Type) extends RelationContext σ where
  withTypes : σ → TypeStore → σ
  types_withTypes : ∀ s store, types (withTypes s store) = store

namespace Flow

open CheckerM

variable {σ : Type} (C : FlowContext σ)

def make (operation : TypeStore → TypeId × TypeStore) : CheckerM σ TypeId := fun s =>
  let (id, store) := operation (C.types s)
  (.complete id, C.withTypes s store)

def types : CheckerM σ TypeStore := do pure (C.types (← get))

def forceOperand (ty : TypeId) (depth : Nat) : CheckerM σ TypeId := C.forceType ty depth

/-! ## Type predicates -/

/-- What a failed comparison says of two types. -/
def notRelated : RelationFailureKind → Completion Bool
  | .invalidProjection | .deferred => .deferred
  | .cycle => .cycle
  | .complexityLimit => .limit
  | _ => .complete false

def flowRelated (source target : TypeId) (mode : RelationMode) (depth : Nat) : CheckerM σ Bool :=
  fun s =>
    match (relateTypesAtEvaluationDepth C.toRelationContext source target mode depth).runFrom s with
    | (.ok (), s) => (.complete true, s)
    | (.error failure, s) => (notRelated failure.kind, s)

/-- The types that unions and `boolean` are made of, down to a number of levels. -/
def predicateConstituents : Nat → TypeId → CheckerM σ (List TypeId)
  | 0, ty => pure [ty]
  | levels + 1, ty => do
    match (← types C).kind ty with
    | .union members => gather (predicateConstituents levels) members
    | .boolean => do
      let no ← make C (·.intern (.literalBoolean false .regular))
      let yes ← make C (·.intern (.literalBoolean true .regular))
      pure [no, yes]
    | _ => pure [ty]

def scalar (kind : TypeKind) : Option TypeofWitness :=
  match flowTypeDomain kind with
  | (witness, false) => witness
  | _ => none

def predicateTypesAreDisjoint (left right : TypeKind) : Bool :=
  match left, right with
  | .literalBoolean left _, .literalBoolean right _ => left ≠ right
  | .literalNumber left _, .literalNumber right _ => left ≠ right
  | .literalString left _, .literalString right _ => left ≠ right
  | left, right =>
    match scalar left, scalar right with
    | some left, some right => left ≠ right
    | _, _ => false

def isIntersection : TypeKind → Bool
  | .intersection _ => true
  | _ => false

/-- How a constituent of the type compares with one of the asserted type: which of the two is
the smaller one, or whether they have values in common. -/
inductive Comparison
  | member
  | candidate
  | disjoint
  | overlapping
deriving DecidableEq, Repr

def comparePair (depth : Nat) (member candidate : TypeId) : CheckerM σ Comparison := do
  if ← flowRelated C member candidate .subtype depth then pure .member
  else if ← flowRelated C candidate member .subtype depth then pure .candidate
  else
    let s ← types C
    if isIntersection (s.kind member) || isIntersection (s.kind candidate) then incomplete
    else if predicateTypesAreDisjoint (s.kind member) (s.kind candidate) then pure .disjoint
    else pure .overlapping

/-- Every constituent of the one type with every constituent of the other. -/
def comparePairs (depth : Nat) (source candidates : List TypeId) :
    CheckerM σ (List (TypeId × TypeId × Comparison)) :=
  gather (fun member =>
    gather (fun candidate => do
      let comparison ← comparePair C depth member candidate
      pure [(member, candidate, comparison)]) candidates) source

/-- The smaller type of a pair. -/
def smaller : TypeId × TypeId × Comparison → Option TypeId
  | (member, _, .member) => some member
  | (_, candidate, .candidate) => some candidate
  | _ => none

/-- What a predicate leaves of a type on its two branches where that does not take a look at the
constituents. -/
def predicateShortcut (s : TypeStore) (ty asserted : TypeId) : Option (TypeId × TypeId) :=
  let never := s.builtins.never
  if ty = asserted then some (ty, never)
  else
    match s.kind ty, s.kind asserted with
    | _, .error | _, .invalid _ | .never, _ => some (ty, ty)
    | .unknown, .any => some (asserted, never)
    | .error, _ | .invalid _, _ | .any, _ | .unknown, _ => some (asserted, ty)
    | _, .any | _, .unknown => some (ty, never)
    | _, .never => some (never, ty)
    | _, _ => none

def isOpen (kind : TypeKind) : Bool := (flowTypeDomain kind).2

def truePart (ty asserted : TypeId) (source candidates : List TypeId)
    (comparisons : List (TypeId × TypeId × Comparison)) : CheckerM σ TypeId := do
  let s ← types C
  let overlap := comparisons.filterMap smaller
  if !overlap.isEmpty then make C (·.union overlap .preserveAuthoredStructuralOrder)
  else if comparisons.all fun (_, _, comparison) => comparison ≠ .overlapping then
    pure s.builtins.never
  else
    match source, candidates with
    | [member], [candidate] =>
      if isOpen (s.kind member) || isOpen (s.kind candidate) then
        make C (·.intersection [ty, asserted])
      else incomplete
    | _, _ => incomplete

/-- The constituents that are not part of the true branch. -/
def retain (depth : Nat) (truePart : TypeId) (truePartIsIncomplete : Bool) :
    List TypeId → CheckerM σ (List TypeId) :=
  gather fun member => do
    if ← flowRelated C member truePart .subtype depth then pure []
    else if truePartIsIncomplete || isIntersection ((← types C).kind member) then incomplete
    else pure [member]

/-- A type and an asserted type taken apart and compared, with what the true branch leaves. -/
structure PredicateParts where
  source : List TypeId
  candidates : List TypeId
  comparisons : List (TypeId × TypeId × Comparison)
  truePart : TypeId
deriving DecidableEq, Repr

def predicateParts (ty asserted : TypeId) (depth : Nat) : CheckerM σ PredicateParts := do
  let s ← types C
  let source ← predicateConstituents C (s.kinds.length + 1) ty
  let candidates ← predicateConstituents C (s.kinds.length + 1) asserted
  let comparisons ← comparePairs C depth source candidates
  let truePart ← truePart C ty asserted source candidates comparisons
  pure { source, candidates, comparisons, truePart }

def predicateLeaf (ty asserted : TypeId) (truthy : Bool) (depth : Nat) : CheckerM σ TypeId := do
  match predicateShortcut (← types C) ty asserted with
  | some (whenTrue, whenFalse) => pure (if truthy then whenTrue else whenFalse)
  | none =>
    let parts ← predicateParts C ty asserted depth
    if truthy then pure parts.truePart
    else
      let truePartIsIncomplete := isIntersection ((← types C).kind parts.truePart)
      let retained ← retain C depth parts.truePart truePartIsIncomplete parts.source
      make C (·.union retained .preserveAuthoredStructuralOrder)

/-! ## Tests on the members of a type -/

/-- The members that are tested one by one, if any. -/
def flowMembers (s : TypeStore) (ty : TypeId) : Option (List TypeId) :=
  match s.kind ty with
  | .union members => some members
  | .never | .error | .invalid _ => none
  | _ => some [ty]

/-- A type, and each of its members with what a test leaves of it. -/
def testedMembers (ty : TypeId) (depth : Nat)
    (test : TypeId → Nat → CheckerM σ (Option TypeId)) :
    CheckerM σ (TypeId × Option (List (TypeId × Option TypeId))) := do
  let ty ← forceOperand C ty depth
  match flowMembers (← types C) ty with
  | none => pure (ty, none)
  | some members => do
    let tested ← gather (fun member => do pure [(member, ← test member (depth + 1))]) members
    pure (ty, some tested)

/-- The members that pass a test, which may put another type in the place of a member. -/
def mapFlowType (ty : TypeId) (depth : Nat) (test : TypeId → Nat → CheckerM σ (Option TypeId)) :
    CheckerM σ TypeId := do
  match ← testedMembers C ty depth test with
  | (ty, none) => pure ty
  | (_, some tested) => make C (·.union (tested.filterMap (·.2)) .canonical)

def typeofTest (included : Bool) (values : TypeofWitnessSet) (member : TypeId) (depth : Nat) :
    CheckerM σ (Option TypeId) := do
  let forced ← forceOperand C member depth
  match (flowTypeDomain ((← types C).kind forced)).1 with
  | some witness => pure (if values.contains witness = included then some member else none)
  | none => incomplete

def narrowTypeof (ty : TypeId) (included : Bool) (values : TypeofWitnessSet) (depth : Nat) :
    CheckerM σ TypeId :=
  mapFlowType C ty depth (typeofTest C included values)

/-- The test of a property that discriminates the members. -/
def discriminantTest (name : String) (included : Bool) (values : List String) (member : TypeId)
    (depth : Nat) : CheckerM σ (Option TypeId) := do
  let forced ← forceOperand C member depth
  match Relation.objectShape ((← types C).kind forced) with
  | none => incomplete
  | some shape =>
    match shape.properties.find? fun property => property.name = name && !property.optional with
    | none => incomplete
    | some property => do
      let value ← forceOperand C property.ty (depth + 1)
      match (← types C).kind value with
      | .literalString value _ =>
        pure (if decide (value ∈ values) = included then some member else none)
      | _ => incomplete

/-- Whether strings are only some of the values of a type. -/
def isTop : TypeKind → Bool
  | .unknown | .string => true
  | .object shape => shape = {}
  | _ => false

def internAll (values : List String) : CheckerM σ (List TypeId) :=
  gather (fun value => do pure [← make C (·.intern (.literalString value .regular))]) values

def stringTest (included : Bool) (values : List String) (ty : TypeId) (depth : Nat) :
    CheckerM σ (Option TypeId) := do
  let ty ← forceOperand C ty depth
  let kind := (← types C).kind ty
  let select (matched : Bool) : Option TypeId := if matched = included then some ty else none
  if isTop kind then
    if !included then pure (some ty)
    else do
      let literals ← internAll C values
      let narrowed ← make C (·.union literals .canonical)
      pure (some narrowed)
  else
    match kind with
    | .literalString value _ => pure (select (value ∈ values))
    | .any | .never | .error | .invalid _ => pure (some ty)
    | .void | .undefined | .null | .boolean | .number | .bigInt | .symbol | .literalBoolean _ _
    | .literalNumber _ _ => pure (select false)
    | _ => incomplete

def narrowStringLiterals (ty : TypeId) (property : Option String) (included : Bool)
    (values : List String) (depth : Nat) : CheckerM σ TypeId :=
  match property with
  | some name => mapFlowType C ty depth (discriminantTest C name included values)
  | none => mapFlowType C ty depth (stringTest C included values)

end Flow

end Tsz.Semantics
