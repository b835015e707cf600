import Mathlib.Algebra.GroupWithZero.Nat
import Tsz.Semantics.TypeStore

/-!
# Reference expansion stacks

The references a query is expanding. A reference that comes back with arguments that contain
the earlier ones grows without end; the relation cuts it off where both sides grow alike.
-/

namespace Tsz.Semantics

inductive ReferenceDemand
  | shapeSupport
  | requiredType
  | relationSource
  | relationTarget
deriving DecidableEq, Repr

structure ReferenceExpansionKey where
  demand : ReferenceDemand
  reference : TypeId
  declaration : DeclId
  arguments : List TypeId
deriving DecidableEq, Repr

inductive ReferenceRecursion
  | distinct
  | exact
  | generative
  | unsupportedGenerative
deriving DecidableEq, Repr

inductive ExpansionTransform
  | argument (index : Nat)
  | array (element : ExpansionTransform)
deriving DecidableEq, Repr

/-- A revisit that grows, and how each argument wraps the earlier one, if it does so in the
one supported way. -/
structure GenerativeExpansion where
  ancestorIndex : Nat
  transform : Option (List ExpansionTransform)
deriving DecidableEq, Repr

def GenerativeExpansion.sameSupportedTransform (e f : GenerativeExpansion) : Bool :=
  e.transform.isSome && e.transform = f.transform

namespace TypeStore

variable (s : TypeStore)

/-- More steps than a walk that enters every type once can take. -/
def walkBound : Nat := 1 + (s.kinds.map fun k => k.children.length).sum

/-- Whether the types still to visit lead to the needle; the root itself does not count. -/
def walkContains (root needle : TypeId) : Nat → List TypeId → List TypeId → Bool
  | 0, _, _ => false
  | _, [], _ => false
  | steps + 1, ty :: pending, seen =>
    if ty ∈ seen then walkContains root needle steps pending seen
    else if ty = needle ∧ ty ≠ root then true
    else
      walkContains root needle steps ((s.kind ty).children.reverse ++ pending) (ty :: seen)

def typeContainsNested (root needle : TypeId) : Bool :=
  s.walkContains root needle s.walkBound [root] []

/-- Every earlier argument survives in the new ones, at least one below a new wrapper. -/
def argumentsGenerativelyExpand (ancestor current : List TypeId) : Bool :=
  if ancestor.isEmpty || current.isEmpty then false
  else
    ancestor.all (fun prior =>
      current.any fun next => next = prior || s.typeContainsNested next prior) &&
    ancestor.any fun prior =>
      current.any fun next => next ≠ prior && s.typeContainsNested next prior

/-- How a type wraps the argument at a position: in a chain of arrays, or not at all. -/
def expansionTransform (ancestor : TypeId) (position : Nat) :
    Nat → TypeId → Option ExpansionTransform
  | 0, _ => none
  | steps + 1, current =>
    if current = ancestor then some (.argument position)
    else
      match s.kind current with
      | .array element => (expansionTransform ancestor position steps element).map .array
      | _ => none

def positionalArrayTransform (ancestor current : List TypeId) :
    Option (List ExpansionTransform) :=
  if ancestor.length ≠ current.length then none
  else
    ((ancestor.zip current).zipIdx).mapM fun ((prior, next), position) =>
      s.expansionTransform prior position (s.kinds.length + 1) next

end TypeStore

namespace ReferenceExpansionKey

def recursionFrom (s : TypeStore) (key ancestor : ReferenceExpansionKey) : ReferenceRecursion :=
  if key.demand ≠ ancestor.demand ∨ key.declaration ≠ ancestor.declaration then .distinct
  else if key.reference = ancestor.reference ∨ key.arguments = ancestor.arguments then .exact
  else if s.argumentsGenerativelyExpand ancestor.arguments key.arguments then .generative
  else .distinct

end ReferenceExpansionKey

structure ReferenceExpansionStack where
  demand : ReferenceDemand
  frames : List ReferenceExpansionKey
deriving DecidableEq, Repr

namespace ReferenceExpansionStack

def new (demand : ReferenceDemand) : ReferenceExpansionStack := { demand, frames := [] }

def push (stack : ReferenceExpansionStack) (reference : TypeId) (declaration : DeclId)
    (arguments : List TypeId) : ReferenceExpansionStack :=
  { stack with
    frames := stack.frames ++ [{ demand := stack.demand, reference, declaration, arguments }] }

/-- The innermost frame that the reference grows out of. -/
def generativeExpansion (s : TypeStore) (stack : ReferenceExpansionStack) (reference : TypeId)
    (declaration : DeclId) (arguments : List TypeId) : Option GenerativeExpansion :=
  let current : ReferenceExpansionKey := { demand := stack.demand, reference, declaration, arguments }
  stack.frames.zipIdx.reverse.findSome? fun (ancestor, ancestorIndex) =>
    if current.recursionFrom s ancestor = .generative then
      some {
        ancestorIndex
        transform := s.positionalArrayTransform ancestor.arguments current.arguments }
    else none

def expansionSegmentSupports (stack : ReferenceExpansionStack) (expansion : GenerativeExpansion)
    (supported : DeclId → List TypeId → Bool) : Bool :=
  (stack.frames.drop expansion.ancestorIndex).all fun frame =>
    supported frame.declaration frame.arguments

end ReferenceExpansionStack

end Tsz.Semantics
