import Tsz.Semantics.OrderKey

/-!
# Unions and intersections

`union` flattens its members one level, lets `any`, `unknown` and error types absorb the
rest, drops what is subsumed, and sorts what is left by its ordering keys. `intersection`
only sorts its members and drops repeated neighbours.
-/

namespace Tsz.Semantics

open Sorting

inductive UnionPolicy
  | canonical
  | preserveAuthoredStructuralOrder
deriving DecidableEq, Repr

namespace TypeKind

def isError : TypeKind → Bool
  | .error | .invalid _ => true
  | _ => false

def isLiteralString : TypeKind → Bool
  | .literalString _ _ => true
  | _ => false

def isLiteralNumber : TypeKind → Bool
  | .literalNumber _ _ => true
  | _ => false

def isLiteralBoolean : TypeKind → Bool
  | .literalBoolean _ _ => true
  | _ => false

def isBooleanLiteral (value : Bool) : TypeKind → Bool
  | .literalBoolean v _ => v == value
  | _ => false

end TypeKind

namespace TypeStore

variable (s : TypeStore)

/-- What a listed type contributes to a union: the members of a union, or itself. -/
def unionMembers (id : TypeId) : List TypeId :=
  match s.kind id with
  | .union nested => nested
  | _ => [id]

/-- Some type of the list has this kind. -/
def anyKind (ids : List TypeId) (p : TypeKind → Bool) : Bool := ids.any fun id => p (s.kind id)

/-- Literal types next to their base type are subsumed by it. -/
def absorbLiterals (flattened : List TypeId) : List TypeId :=
  let absorbsString := s.anyKind flattened (· = .string)
  let absorbsNumber := s.anyKind flattened (· = .number)
  let absorbsBoolean := s.anyKind flattened (· = .boolean)
  flattened.filter fun id =>
    !((s.kind id).isLiteralString && absorbsString) &&
      !((s.kind id).isLiteralNumber && absorbsNumber) &&
      !((s.kind id).isLiteralBoolean && absorbsBoolean)

/-- `true` and `false` together are `boolean`. -/
def mergeBooleans (flattened : List TypeId) (absorbsBoolean : Bool) : List TypeId :=
  if !absorbsBoolean && s.anyKind flattened (·.isBooleanLiteral true) &&
      s.anyKind flattened (·.isBooleanLiteral false) then
    (flattened.filter fun id => !(s.kind id).isLiteralBoolean) ++ [s.builtins.boolean]
  else flattened

/-- The type a combination stands for: one that exists already, or the combination of at
least two members. -/
inductive Normalized
  | existing (id : TypeId)
  | combined (members : List TypeId)
deriving DecidableEq

def Normalized.ofList (whenEmpty : TypeId) : List TypeId → Normalized
  | [] => .existing whenEmpty
  | [only] => .existing only
  | members => .combined members

def combine (wrap : List TypeId → TypeKind) : Normalized → TypeId × TypeStore
  | .existing id => (id, s)
  | .combined members => s.intern (wrap members)

def normalizeUnion (members : List TypeId) (policy : UnionPolicy) : Normalized :=
  let flattened := members.flatMap s.unionMembers
  if s.anyKind flattened (· = .any) then .existing s.builtins.any
  else if s.anyKind flattened (· = .unknown) then .existing s.builtins.unknown
  else
    match flattened.find? fun id => (s.kind id).isError with
    | some error => .existing error
    | none =>
      let flattened := flattened.filter fun id => s.kind id ≠ .never
      let absorbsBoolean := s.anyKind flattened (· = .boolean)
      let flattened := s.mergeBooleans (s.absorbLiterals flattened) absorbsBoolean
      let flattened := match policy with
        | .canonical => sortByKey (s.stableOrderKey · 0) flattened
        | .preserveAuthoredStructuralOrder => flattened
      .ofList s.builtins.never flattened.eraseDups

def union (members : List TypeId) (policy : UnionPolicy) : TypeId × TypeStore :=
  s.combine .union (s.normalizeUnion members policy)

def normalizeIntersection (members : List TypeId) : Normalized :=
  .ofList s.builtins.unknown
    ((sortByKey (s.stableOrderKey · 0) members).destutter (· ≠ ·))

def intersection (members : List TypeId) : TypeId × TypeStore :=
  s.combine .intersection (s.normalizeIntersection members)

end TypeStore

/-- The stores a run of the program can have: the initial one, and what the operations make
of such a store. Unions and intersections are interned by their own operations only. -/
inductive TypeStore.Reachable : TypeStore → Prop
  | new : Reachable new
  | intern {s : TypeStore} {k : TypeKind} (h : Reachable s)
      (hk : ∀ c ∈ k.children, s.Contains c) (hunion : ∀ ms, k ≠ .union ms)
      (hintersection : ∀ ms, k ≠ .intersection ms) : Reachable (s.intern k).2
  | freshDeferred {s : TypeStore} {d : DeferredType TypeId} (h : Reachable s)
      (hd : isFreshDeferred (.deferred d)) : Reachable (s.freshDeferred d).2
  | union {s : TypeStore} {ms : List TypeId} {policy : UnionPolicy} (h : Reachable s)
      (hms : ∀ m ∈ ms, s.Contains m) : Reachable (s.union ms policy).2
  | intersection {s : TypeStore} {ms : List TypeId} (h : Reachable s)
      (hms : ∀ m ∈ ms, s.Contains m) : Reachable (s.intersection ms).2

end Tsz.Semantics
