import Mathlib.Data.List.Basic
import Tsz.Source

/-!
# Types

The kinds of types a store holds. A kind refers to other types by their ids only.
-/

namespace Tsz.Semantics

structure TypeId where
  index : Nat
deriving DecidableEq, Repr

structure Property where
  name : String
  ty : TypeId
  optional : Bool
  readonly : Bool
deriving DecidableEq, Repr

structure ParameterType where
  name : Option String
  ty : TypeId
  optional : Bool
  rest : Bool
deriving DecidableEq, Repr

structure Signature where
  /-- Declaration that owns the authored type parameters of the signature. -/
  genericDeclaration : Option DeclId
  untypedJavaScript : Bool
  parameters : List ParameterType
  returnType : TypeId
deriving DecidableEq, Repr

inductive IndexKeyKind
  | string
  | number
deriving DecidableEq, Repr

inductive ElementAccessMode
  | read
  | write
  | evolvingArrayWrite
deriving DecidableEq, Repr

structure IndexSignature where
  key : IndexKeyKind
  value : TypeId
  readonly : Bool
deriving DecidableEq, Repr

structure ObjectShape where
  properties : List Property := []
  callSignatures : List Signature := []
  constructSignatures : List Signature := []
  indexSignatures : List IndexSignature := []
deriving DecidableEq, Repr

inductive DeferredBinaryOperator
  | add
  | subtract
  | multiply
  | divide
  | remainder
  | bitwiseAnd
  | bitwiseXor
  | bitwiseOr
  | leftShift
  | signedRightShift
  | unsignedRightShift
deriving DecidableEq, Repr

inductive DeferredLogicalOperator
  | and
  | or
  | nullish
deriving DecidableEq, Repr

inductive DeferredUnaryOperator
  | plus
  | minus
  | bitwiseNot
  | await
  | nonNull
deriving DecidableEq, Repr

inductive DeferredType (T : Type)
  | reference (declaration : DeclId) (arguments : List T)
  | value (declaration : DeclId)
  | importedTypeQuery (declaration : DeclId)
  | flowReference (file : FileId) (expression : NodeId) (declaration : DeclId) (declared : T)
  | lexicalThis (file : FileId) (expression : NodeId)
  | call (callee : T) (argumentCount : Nat)
  | genericCall
  | construct (callee : T) (typeArguments : List T) (arguments : List T)
  | property (object : T) (name : String)
  | elementAccess (object : T) (index : T) (mode : ElementAccessMode)
  | predicate (parameter : String) (asserted : Option T) (asserts : Bool)
      (parameterIsBound : Bool)
  | binary (operator : DeferredBinaryOperator) (left : T) (right : T)
  | logical (operator : DeferredLogicalOperator) (left : T) (right : T)
  | unary (operator : DeferredUnaryOperator) (operand : T)
  | keyOf (operand : T)
  | conditional (check : T) (extended : T) (whenTrue : T) (whenFalse : T)
  | mapped (constraint : T) (nameType : Option T) (value : T) (readonly : Option Bool)
      (optional : Option Bool)
  | indexedAccess (object : T) (index : T)
  | bigIntLiteral
  | numericRecovery
  | utf16StringLiteral
  | templateValue
  | uniqueSymbol
  | genericFunction
  | objectShape
deriving DecidableEq, Repr

inductive InvalidType
  | missingProperty (object : TypeId) (name : String)
  | missingProperties (object : TypeId) (names : List String)
deriving DecidableEq, Repr

/-- Whether a literal type came from inference or from an explicit type position. -/
inductive LiteralProvenance
  | fresh
  | regular
deriving DecidableEq, Repr

/-- A numeric literal is identified by the bits of its value. -/
structure NumericLiteral where
  bits : BitVec 64
deriving DecidableEq, Repr

inductive TypeKind
  | error
  | invalid (reason : InvalidType)
  | any
  | unknown
  | never
  | void
  | undefined
  | null
  | boolean
  | number
  | string
  | bigInt
  | objectKeyword
  | symbol
  | literalBoolean (value : Bool) (provenance : LiteralProvenance)
  | literalNumber (value : NumericLiteral) (provenance : LiteralProvenance)
  | literalString (value : String) (provenance : LiteralProvenance)
  | typeParameter (declaration : DeclId) (index : Nat) (name : String)
  | array (element : TypeId)
  | tuple (elements : List TypeId)
  | union (members : List TypeId)
  | intersection (members : List TypeId)
  | object (shape : ObjectShape)
  | classInstance (declaration : DeclId) (name : String) (arguments : List TypeId)
      (properties : ObjectShape)
  | classConstructor (declaration : DeclId) (name : String)
  | libraryReference (declaration : DeclId) (name : String) (arguments : List TypeId)
  | function (signature : Signature)
  | shapeFunction (signature : Signature)
  | deferred (query : DeferredType TypeId)
deriving DecidableEq, Repr

/-- The answer of a query: a value, or why there is none yet. -/
inductive Completion (α : Type)
  | complete (value : α)
  | deferred
  | cycle
  | limit
deriving DecidableEq, Repr

/-! ## Children -/

def Signature.children (signature : Signature) : List TypeId :=
  signature.parameters.map (·.ty) ++ [signature.returnType]

def ObjectShape.children (shape : ObjectShape) : List TypeId :=
  shape.properties.map (·.ty) ++
    (shape.callSignatures ++ shape.constructSignatures).flatMap Signature.children ++
    shape.indexSignatures.map (·.value)

def DeferredType.children {T : Type} : DeferredType T → List T
  | .reference _ arguments => arguments
  | .call callee _ | .property callee _ => [callee]
  | .elementAccess object index _ => [object, index]
  | .construct callee typeArguments arguments => callee :: (typeArguments ++ arguments)
  | .predicate _ asserted _ _ => asserted.toList
  | .binary _ left right | .logical _ left right => [left, right]
  | .unary _ operand | .keyOf operand => [operand]
  | .conditional check extended whenTrue whenFalse => [check, extended, whenTrue, whenFalse]
  | .mapped constraint nameType template _ _ => constraint :: template :: nameType.toList
  | .indexedAccess object index => [object, index]
  | .flowReference _ _ _ declared => [declared]
  | .value _ | .importedTypeQuery _ | .lexicalThis _ _ | .genericCall | .bigIntLiteral
  | .numericRecovery | .utf16StringLiteral | .templateValue | .uniqueSymbol
  | .genericFunction | .objectShape => []

/-- The types a kind refers to, in the order the store walks them. -/
def TypeKind.children : TypeKind → List TypeId
  | .invalid (.missingProperty ty _) | .invalid (.missingProperties ty _) | .array ty => [ty]
  | .tuple elements | .union elements | .intersection elements => elements
  | .object shape => shape.children
  | .classInstance _ _ arguments properties => arguments ++ properties.children
  | .libraryReference _ _ arguments => arguments
  | .function signature | .shapeFunction signature => signature.children
  | .deferred query => query.children
  | .error | .any | .unknown | .never | .void | .undefined | .null | .boolean | .number
  | .string | .bigInt | .objectKeyword | .symbol | .literalBoolean _ _ | .literalNumber _ _
  | .literalString _ _ | .typeParameter _ _ _ | .classConstructor _ _ => []

/-! ## Renaming the ids a kind refers to -/

section rename

variable (f : TypeId → TypeId)

def Property.rename (property : Property) : Property :=
  { property with ty := f property.ty }

def ParameterType.rename (parameter : ParameterType) : ParameterType :=
  { parameter with ty := f parameter.ty }

def Signature.rename (signature : Signature) : Signature :=
  { signature with
    parameters := signature.parameters.map (ParameterType.rename f)
    returnType := f signature.returnType }

def IndexSignature.rename (signature : IndexSignature) : IndexSignature :=
  { signature with value := f signature.value }

def ObjectShape.rename (shape : ObjectShape) : ObjectShape where
  properties := shape.properties.map (Property.rename f)
  callSignatures := shape.callSignatures.map (Signature.rename f)
  constructSignatures := shape.constructSignatures.map (Signature.rename f)
  indexSignatures := shape.indexSignatures.map (IndexSignature.rename f)

def DeferredType.mapTypes {T U : Type} (map : T → U) : DeferredType T → DeferredType U
  | .reference declaration arguments => .reference declaration (arguments.map map)
  | .value declaration => .value declaration
  | .importedTypeQuery declaration => .importedTypeQuery declaration
  | .flowReference file expression declaration declared =>
    .flowReference file expression declaration (map declared)
  | .lexicalThis file expression => .lexicalThis file expression
  | .call callee argumentCount => .call (map callee) argumentCount
  | .genericCall => .genericCall
  | .construct callee typeArguments arguments =>
    .construct (map callee) (typeArguments.map map) (arguments.map map)
  | .property object name => .property (map object) name
  | .elementAccess object index mode => .elementAccess (map object) (map index) mode
  | .predicate parameter asserted asserts parameterIsBound =>
    .predicate parameter (asserted.map map) asserts parameterIsBound
  | .binary operator left right => .binary operator (map left) (map right)
  | .logical operator left right => .logical operator (map left) (map right)
  | .unary operator operand => .unary operator (map operand)
  | .keyOf operand => .keyOf (map operand)
  | .conditional check extended whenTrue whenFalse =>
    .conditional (map check) (map extended) (map whenTrue) (map whenFalse)
  | .mapped constraint nameType template readonly optional =>
    .mapped (map constraint) (nameType.map map) (map template) readonly optional
  | .indexedAccess object index => .indexedAccess (map object) (map index)
  | .bigIntLiteral => .bigIntLiteral
  | .numericRecovery => .numericRecovery
  | .utf16StringLiteral => .utf16StringLiteral
  | .templateValue => .templateValue
  | .uniqueSymbol => .uniqueSymbol
  | .genericFunction => .genericFunction
  | .objectShape => .objectShape

def InvalidType.rename : InvalidType → InvalidType
  | .missingProperty object name => .missingProperty (f object) name
  | .missingProperties object names => .missingProperties (f object) names

def TypeKind.rename : TypeKind → TypeKind
  | .invalid reason => .invalid (reason.rename f)
  | .array element => .array (f element)
  | .tuple elements => .tuple (elements.map f)
  | .union members => .union (members.map f)
  | .intersection members => .intersection (members.map f)
  | .object shape => .object (shape.rename f)
  | .classInstance declaration name arguments properties =>
    .classInstance declaration name (arguments.map f) (properties.rename f)
  | .libraryReference declaration name arguments =>
    .libraryReference declaration name (arguments.map f)
  | .function signature => .function (signature.rename f)
  | .shapeFunction signature => .shapeFunction (signature.rename f)
  | .deferred query => .deferred (query.mapTypes f)
  | kind => kind

end rename

/-! Renaming composes, so a renaming that has a left inverse loses nothing. -/

section composition

variable (f g : TypeId → TypeId)

theorem Signature.rename_rename (signature : Signature) :
    (signature.rename f).rename g = signature.rename (g ∘ f) := by
  simp [Signature.rename, ParameterType.rename, Function.comp_def]

theorem Signature.rename_id : Signature.rename id = id := by
  have hparameter : ParameterType.rename id = id := rfl
  funext signature
  simp [Signature.rename, hparameter]

theorem ObjectShape.rename_rename (shape : ObjectShape) :
    (shape.rename f).rename g = shape.rename (g ∘ f) := by
  simp [ObjectShape.rename, Property.rename, IndexSignature.rename, Signature.rename_rename,
    Function.comp_def]

theorem ObjectShape.rename_id : ObjectShape.rename id = id := by
  have hproperty : Property.rename id = id := rfl
  have hindex : IndexSignature.rename id = id := rfl
  funext shape
  simp [ObjectShape.rename, hproperty, hindex, Signature.rename_id]

theorem DeferredType.mapTypes_comp {T U V : Type} (map : T → U) (map' : U → V)
    (d : DeferredType T) : (d.mapTypes map).mapTypes map' = d.mapTypes (map' ∘ map) := by
  cases d <;> simp [DeferredType.mapTypes]

theorem DeferredType.mapTypes_id {T : Type} (d : DeferredType T) : d.mapTypes id = d := by
  cases d <;> simp [DeferredType.mapTypes]

theorem InvalidType.rename_rename (reason : InvalidType) :
    (reason.rename f).rename g = reason.rename (g ∘ f) := by
  cases reason <;> rfl

theorem InvalidType.rename_id (reason : InvalidType) : reason.rename id = reason := by
  cases reason <;> rfl

theorem TypeKind.rename_rename (k : TypeKind) : (k.rename f).rename g = k.rename (g ∘ f) := by
  cases k <;> simp [TypeKind.rename, InvalidType.rename_rename, ObjectShape.rename_rename,
    Signature.rename_rename, DeferredType.mapTypes_comp]

theorem TypeKind.rename_id (k : TypeKind) : k.rename id = k := by
  cases k <;> simp [TypeKind.rename, InvalidType.rename_id, ObjectShape.rename_id,
    Signature.rename_id, DeferredType.mapTypes_id]

theorem TypeKind.rename_injective {f : TypeId → TypeId} (hf : Function.Injective f) :
    Function.Injective (TypeKind.rename f) := by
  have : Nonempty TypeId := ⟨⟨0⟩⟩
  obtain ⟨g, hg⟩ := hf.hasLeftInverse
  have hinverse : Function.LeftInverse (TypeKind.rename g) (TypeKind.rename f) := by
    intro k
    rw [TypeKind.rename_rename, hg.comp_eq_id, TypeKind.rename_id]
  exact hinverse.injective

end composition

end Tsz.Semantics
