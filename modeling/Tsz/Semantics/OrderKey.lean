import Mathlib.Data.Sum.Order
import Mathlib.Data.String.Basic
import Tsz.Sorting.KeyTree
import Tsz.Sorting.StableSort
import Tsz.Semantics.TypeStore

/-!
# Ordering keys of types

`stableOrderKey` follows the structure of a type down to a fixed depth. The key is the tree
its derived order compares: the number of the variant in declaration order, then the fields.
-/

namespace Tsz.Semantics

open Sorting

inductive OrderLabel
  | rank (n : Nat)
  | integer (i : Int)
  | text (s : String)

namespace OrderLabel

def toSum : OrderLabel → Nat ⊕ₗ Int ⊕ₗ String
  | rank n => Sum.inlₗ n
  | integer i => Sum.inrₗ (Sum.inlₗ i)
  | text s => Sum.inrₗ (Sum.inrₗ s)

theorem toSum_injective : Function.Injective toSum := by
  rintro (_ | _ | _) (_ | _ | _) h <;> simp_all [toSum]

instance : LinearOrder OrderLabel := LinearOrder.lift' toSum toSum_injective

end OrderLabel

abbrev TypeOrderKey := KeyTree OrderLabel

/-- The variants of the ordering keys, in the order in which they compare. -/
inductive TypeOrderVariant
  | error
  | invalid
  | any
  | unknown
  | string
  | number
  | bigInt
  | symbol
  | literalString
  | literalNumber
  | literalBoolean
  | boolean
  | null
  | undefined
  | void
  | never
  | typeParameter
  | objectKeyword
  | array
  | tuple
  | union
  | intersection
  | object
  | classInstance
  | classConstructor
  | libraryReference
  | function
  | shapeFunction
  | deferred
  | truncated
deriving DecidableEq

namespace TypeOrderKey

def rank (n : Nat) : TypeOrderKey := .node (.rank n) []

def text (s : String) : TypeOrderKey := .node (.text s) []

def bool (b : Bool) : TypeOrderKey := rank b.toNat

/-- Vectors and tuples compare element by element. -/
def sequence (keys : List TypeOrderKey) : TypeOrderKey := .node (.rank 0) keys

def option : Option TypeOrderKey → TypeOrderKey
  | none => .node (.rank 0) []
  | some key => .node (.rank 1) [key]

def decl (declaration : DeclId) : TypeOrderKey :=
  sequence [rank declaration.file.index, rank declaration.index]

def variant (v : TypeOrderVariant) (fields : List TypeOrderKey) : TypeOrderKey :=
  .node (.rank v.ctorIdx) fields

end TypeOrderKey

open TypeOrderKey

/-- The total order of floating point numbers: as signed integers, the lower bits of the
negative ones flipped. -/
def NumericLiteral.totalOrder (literal : NumericLiteral) : Int :=
  (literal.bits ^^^ (literal.bits.sshiftRight 63 >>> 1)).toInt

def NumericLiteral.orderKey (literal : NumericLiteral) : TypeOrderKey :=
  .node (.integer literal.totalOrder) []

def DeferredType.orderKey (d : DeferredType TypeOrderKey) : TypeOrderKey :=
  .node (.rank d.ctorIdx) <|
    match d with
    | .reference declaration arguments => [decl declaration, sequence arguments]
    | .value declaration | .importedTypeQuery declaration => [decl declaration]
    | .flowReference file expression declaration declared =>
      [rank file.index, rank expression.index, decl declaration, declared]
    | .lexicalThis file expression => [rank file.index, rank expression.index]
    | .call callee argumentCount => [callee, rank argumentCount]
    | .construct callee typeArguments arguments =>
      [callee, sequence typeArguments, sequence arguments]
    | .property object name => [object, text name]
    | .elementAccess object index mode => [object, index, rank mode.ctorIdx]
    | .predicate parameter asserted asserts parameterIsBound =>
      [text parameter, option asserted, bool asserts, bool parameterIsBound]
    | .binary operator left right => [rank operator.ctorIdx, left, right]
    | .logical operator left right => [rank operator.ctorIdx, left, right]
    | .unary operator operand => [rank operator.ctorIdx, operand]
    | .keyOf operand => [operand]
    | .conditional check extended whenTrue whenFalse => [check, extended, whenTrue, whenFalse]
    | .mapped constraint nameType template readonly optional =>
      [constraint, option nameType, template, option (readonly.map bool),
        option (optional.map bool)]
    | .indexedAccess object index => [object, index]
    | .genericCall | .bigIntLiteral | .numericRecovery | .utf16StringLiteral | .templateValue
    | .uniqueSymbol | .genericFunction | .objectShape => []

section key

variable (nested : TypeId → TypeOrderKey)

/-- Parameter names and the owner of the type parameters are not part of the key. -/
def Signature.orderKey (signature : Signature) : TypeOrderKey :=
  sequence [
    bool signature.untypedJavaScript,
    sequence (signature.parameters.map fun parameter =>
      sequence [nested parameter.ty, bool parameter.optional, bool parameter.rest]),
    nested signature.returnType]

/-- Properties compare by name, in whatever order the shape lists them. -/
def propertiesOrderKey (properties : List Property) : TypeOrderKey :=
  sequence (sortByKey id (properties.map fun property =>
    sequence [text property.name, nested property.ty, bool property.optional,
      bool property.readonly]))

def IndexSignature.orderKey (index : IndexSignature) : TypeOrderKey :=
  sequence [rank index.key.ctorIdx, nested index.value, bool index.readonly]

/-- The key of a kind, given the keys of the types it refers to; the operands of a deferred
type are one level further down than the other children. -/
def TypeKind.orderKey (deferredNested : TypeId → TypeOrderKey) : TypeKind → TypeOrderKey
  | .error => variant .error []
  | .invalid (.missingProperty ty name) =>
    variant .invalid [nested ty, sequence [text name]]
  | .invalid (.missingProperties ty names) =>
    variant .invalid [nested ty, sequence (names.map text)]
  | .any => variant .any []
  | .unknown => variant .unknown []
  | .never => variant .never []
  | .void => variant .void []
  | .undefined => variant .undefined []
  | .null => variant .null []
  | .boolean => variant .boolean []
  | .number => variant .number []
  | .string => variant .string []
  | .bigInt => variant .bigInt []
  | .objectKeyword => variant .objectKeyword []
  | .symbol => variant .symbol []
  | .literalBoolean value provenance =>
    variant .literalBoolean [bool value, bool (provenance = .regular)]
  | .literalNumber value provenance =>
    variant .literalNumber [value.orderKey, bool (provenance = .regular)]
  | .literalString value provenance =>
    variant .literalString [text value, bool (provenance = .regular)]
  | .typeParameter declaration index _ => variant .typeParameter [decl declaration, rank index]
  | .array element => variant .array [nested element]
  | .tuple elements => variant .tuple [sequence (elements.map nested)]
  | .union members => variant .union [sequence (members.map nested)]
  | .intersection members => variant .intersection [sequence (members.map nested)]
  | .object shape =>
    variant .object [
      propertiesOrderKey nested shape.properties,
      sequence (shape.callSignatures.map (Signature.orderKey nested)),
      sequence (shape.constructSignatures.map (Signature.orderKey nested)),
      sequence (shape.indexSignatures.map (IndexSignature.orderKey nested))]
  | .classInstance declaration _ arguments properties =>
    variant .classInstance [decl declaration, sequence (arguments.map nested),
      propertiesOrderKey nested properties.properties]
  | .classConstructor declaration _ => variant .classConstructor [decl declaration]
  | .libraryReference declaration _ arguments =>
    variant .libraryReference [decl declaration, sequence (arguments.map nested)]
  | .function signature =>
    variant .function [option (signature.genericDeclaration.map decl), signature.orderKey nested]
  | .shapeFunction signature => variant .shapeFunction [signature.orderKey nested]
  | .deferred query => variant .deferred [(query.mapTypes deferredNested).orderKey]

end key

/-- The key of a type with a number of levels left. -/
def TypeStore.orderKeyWithin (s : TypeStore) : Nat → TypeId → TypeOrderKey
  | 0, _ => variant .truncated []
  | 1, id =>
    (s.kind id).orderKey (fun _ => variant .truncated []) (fun _ => variant .truncated [])
  | levels + 2, id =>
    (s.kind id).orderKey (s.orderKeyWithin (levels + 1)) (s.orderKeyWithin levels)

/-- Types deeper than 64 levels are cut off. -/
def TypeStore.stableOrderKey (s : TypeStore) (id : TypeId) (depth : Nat) : TypeOrderKey :=
  s.orderKeyWithin (65 - depth) id

theorem TypeStore.stableOrderKey_root (s : TypeStore) (id : TypeId) :
    s.stableOrderKey id 0 =
      (s.kind id).orderKey (s.orderKeyWithin 64) (s.orderKeyWithin 63) :=
  rfl

end Tsz.Semantics
