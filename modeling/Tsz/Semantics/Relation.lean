import Mathlib.Data.List.Sort
import Tsz.Semantics.References

/-!
# The assignability relation

Two types are compared by a match on the pair of their kinds. A pair that is being compared
already counts as related, and nesting deeper than a hundred levels is given up.
-/

namespace Tsz.Semantics

inductive RelationMode
  | subtype
  | assignment
deriving DecidableEq, Repr

inductive RelationFailureKind
  | incompatible
  | signatureArityMismatch (sourceMinimum : Nat) (targetParameterCount : Nat)
  | missingProperty (name : String)
  | missingProperties (names : List String)
  | property (name : String)
  | object
  | arrayElement
  | tupleElement (index : Nat)
  | typeArgument (index : Nat)
  | arrayToTupleLength (required : Nat)
  | unionMember
  | aliasExpansion
  | parameter (index : Nat)
  | return
  | invalidProjection
  | cycle
  | complexityLimit
  | deferred
deriving DecidableEq, Repr

/-- The dominance of incomplete failures; a definitive failure has rank zero. -/
def RelationFailureKind.propagationRank : RelationFailureKind → Nat
  | .invalidProjection => 1
  | .deferred => 2
  | .cycle => 3
  | .complexityLimit => 4
  | _ => 0

inductive RelationFailure
  | mk (source target : TypeId) (kind : RelationFailureKind) (child : Option RelationFailure)
deriving Repr

namespace RelationFailure

def target : RelationFailure → TypeId
  | mk _ target _ _ => target

def kind : RelationFailure → RelationFailureKind
  | mk _ _ kind _ => kind

/-- An incomplete failure is passed on as it is. -/
def wrapped (f : RelationFailure) (source target : TypeId) (kind : RelationFailureKind) :
    RelationFailure :=
  if f.kind.propagationRank > 0 then f else .mk source target kind (some f)

end RelationFailure

def failure (source target : TypeId) (kind : RelationFailureKind) : RelationFailure :=
  .mk source target kind none

/-- What the relation asks of its surroundings: the types, and the queries that may change
the state. -/
structure RelationContext (σ : Type) where
  types : σ → TypeStore
  forceType : TypeId → Nat → σ → Completion TypeId × σ
  generativeReferenceSupported : σ → DeclId → List TypeId → Bool
  generativeRelationFrameSupported : σ → DeclId → List TypeId → Bool
  libraryReferenceArgumentsAreCovariant : σ → DeclId → Bool
  classConstructorSignature : DeclId → σ → Completion Signature × σ
  strictNullChecks : σ → Bool
  canonicalUnion : List TypeId → σ → TypeId × σ

structure RelationQueryKey where
  source : TypeId
  target : TypeId
  mode : RelationMode
deriving DecidableEq, Repr

/-- The pairs and the references in progress. -/
structure Relation where
  active : List RelationQueryKey
  sourceReferences : ReferenceExpansionStack
  targetReferences : ReferenceExpansionStack
  evaluationDepth : Nat

abbrev RelationM (σ : Type) := ExceptT RelationFailure (StateM σ)

namespace Relation

variable {σ : Type} (C : RelationContext σ)

def deferredReference : TypeKind → Option (DeclId × List TypeId)
  | .deferred (.reference declaration arguments) => some (declaration, arguments)
  | _ => none

def isInvalid : TypeKind → Bool
  | .invalid _ => true
  | _ => false

def objectShape : TypeKind → Option ObjectShape
  | .object shape => some shape
  | .classInstance _ _ _ properties => some properties
  | _ => none

/-- In an assignment to a variable, `x || e` counts as `e` where `x` is the variable itself. -/
def assignmentSource (s : TypeStore) (target : TypeId) (mode : RelationMode) :
    Nat → TypeId → TypeId
  | 0, source => source
  | steps + 1, source =>
    match mode, s.kind source with
    | .assignment, .deferred (.logical .or left right) =>
      let sameTarget :=
        (left = target && match s.kind target with | .deferred (.value _) => true | _ => false) ||
        match s.kind target, s.kind left with
        | .deferred (.value targetDeclaration), .deferred (.flowReference _ _ declaration declared) =>
          declaration = targetDeclaration && declared = target
        | _, _ => false
      if sameTarget then assignmentSource s target mode steps right else source
    | _, _ => source

/-- `any` may be assigned to the keys of a type parameter. -/
def anyToKeysOfParameter (s : TypeStore) (source target : TypeId) (mode : RelationMode) : Bool :=
  mode = .assignment && s.kind source = .any &&
    match s.kind target with
    | .deferred (.keyOf operand) =>
      match s.kind operand with
      | .typeParameter _ _ _ => true
      | _ => false
    | _ => false

def relationInput {α : Type} (input : Completion α) (source target : TypeId) : RelationM σ α :=
  match input with
  | .complete value => pure value
  | .deferred => throw (failure source target .deferred)
  | .cycle => throw (failure source target .cycle)
  | .limit => throw (failure source target .complexityLimit)

def force (r : Relation) (ty source target : TypeId) : RelationM σ TypeId := do
  let input ← modifyGet (C.forceType ty r.evaluationDepth)
  relationInput input source target

/-- Pass a failure on as the failure of a part. -/
def wrapping (source target : TypeId) (kind : RelationFailureKind) (m : RelationM σ Unit) :
    RelationM σ Unit :=
  tryCatch m fun error => throw (error.wrapped source target kind)

section arms

/-! Comparing a pair asks the same question of other pairs. -/

variable (relate : TypeId → TypeId → RelationMode → RelationM σ Unit)

def relateCovariantTypes (source target : TypeId) (mode : RelationMode)
    (elementFailure : Nat → RelationFailureKind) : Nat → List (TypeId × TypeId) → RelationM σ Unit
  | _, [] => pure ()
  | index, (sourceType, targetType) :: rest => do
    wrapping source target (elementFailure index) (relate sourceType targetType mode)
    relateCovariantTypes source target mode elementFailure (index + 1) rest

/-- The failure to report of those seen so far, with the alternative it belongs to. -/
def selectFailure (sourceMembers : Bool) (member : TypeId) (error : RelationFailure) :
    Option (TypeId × RelationFailure) → Option (TypeId × RelationFailure)
  | none => some (member, error)
  | some (current, selected) =>
    if error.kind.propagationRank > selected.kind.propagationRank ||
        (sourceMembers && error.kind.propagationRank = 0 && selected.kind.propagationRank = 0)
    then some (member, error)
    else some (current, selected)

def tryAlternatives (source target : TypeId) (mode : RelationMode) (sourceMembers : Bool) :
    List TypeId → Option (TypeId × RelationFailure) →
      RelationM σ (Option (Option (TypeId × RelationFailure)))
  | [], selected => pure (some selected)
  | member :: rest, selected => do
    let outcome ← tryCatch
      (do
        if sourceMembers then relate member target mode else relate source member mode
        pure none)
      fun error => pure (some error)
    match outcome with
    | none => pure none
    | some error =>
      tryAlternatives source target mode sourceMembers rest
        (selectFailure sourceMembers member error selected)

def relateAlternatives (source target : TypeId) (members : List TypeId) (mode : RelationMode)
    (sourceMembers : Bool) : RelationM σ Unit := do
  match ← tryAlternatives relate source target mode sourceMembers members none with
  | none => pure ()
  | some selected =>
    let (member, selected) := selected.getD
      (if sourceMembers then source else target, failure source target .incompatible)
    if sourceMembers || selected.kind.propagationRank > 0 then throw selected
    else
      let selected :=
        if selected.target = member then selected
        else selected.wrapped source member .aliasExpansion
      throw (selected.wrapped source target .unionMember)

/-- Whether the callable members of a shape, or of the shape it is compared with, are beyond
what the relation models. -/
def shapeHasUnsupportedCallableMembers (s : TypeStore) (target : ObjectShape)
    (source : Option ObjectShape) : Bool :=
  if !target.callSignatures.isEmpty || !target.constructSignatures.isEmpty ||
      source.any (fun source =>
        !source.callSignatures.isEmpty || !source.constructSignatures.isEmpty) then
    true
  else
    target.properties.any fun targetProperty =>
      let targetKind := s.kind targetProperty.ty
      match source.bind fun source =>
          source.properties.find? fun property => property.name = targetProperty.name with
      | none =>
        match targetKind with
        | .shapeFunction _ => true
        | _ => false
      | some sourceProperty =>
        match s.kind sourceProperty.ty, targetKind with
        | .shapeFunction source, .function target | .shapeFunction source, .shapeFunction target
        | .function source, .shapeFunction target =>
          source.genericDeclaration.isSome || target.genericDeclaration.isSome
        | .shapeFunction _, _ | _, .shapeFunction _ => true
        | _, _ => false

def relateEachProperty (source target : TypeId) (sourceProperties : Option (List Property))
    (mode : RelationMode) : List Property → RelationM σ Unit
  | [] => pure ()
  | targetProperty :: rest => do
    match sourceProperties.bind fun properties =>
        properties.find? fun property => property.name = targetProperty.name with
    | none => pure ()
    | some sourceProperty =>
      wrapping source target .object <|
        wrapping sourceProperty.ty targetProperty.ty (.property targetProperty.name)
          (relate sourceProperty.ty targetProperty.ty mode)
    relateEachProperty source target sourceProperties mode rest

def missingProperties (sourceProperties : Option (List Property))
    (targetProperties : List Property) : List String :=
  (targetProperties.filter fun targetProperty =>
    !targetProperty.optional &&
      (sourceProperties.all fun properties =>
        !properties.any fun property => property.name = targetProperty.name)).map (·.name)

def relateProperties (source target : TypeId) (sourceProperties : Option (List Property))
    (targetProperties : List Property) (mode : RelationMode) : RelationM σ Unit :=
  match missingProperties sourceProperties targetProperties with
  | [] => relateEachProperty relate source target sourceProperties mode targetProperties
  | [name] =>
    throw ((failure source target (.missingProperty name)).wrapped source target .object)
  | names =>
    throw ((failure source target (.missingProperties names)).wrapped source target .object)

def relateToIndex (source target : TypeId) (value : TypeId) (mode : RelationMode) :
    List Property → RelationM σ Unit
  | [] => pure ()
  | property :: rest => do
    wrapping source target (.property property.name) (relate property.ty value mode)
    relateToIndex source target value mode rest

def relateObjectShapes (source target : TypeId) (sourceShape targetShape : ObjectShape)
    (mode : RelationMode) : RelationM σ Unit := do
  let s := C.types (← get)
  if shapeHasUnsupportedCallableMembers s targetShape (some sourceShape) ||
      !sourceShape.indexSignatures.isEmpty then
    throw (failure source target .deferred)
  relateProperties relate source target (some sourceShape.properties) targetShape.properties mode
  match targetShape.indexSignatures with
  | [] => pure ()
  | [index] =>
    if index.key = .string then
      relateToIndex relate source target index.value mode sourceShape.properties
    else throw (failure source target .deferred)
  | _ => throw (failure source target .deferred)

def signatureArityFailure (s : TypeStore) (source target : TypeId)
    (sourceSignature targetSignature : Signature) : Option RelationFailure :=
  let sourceMinimum := (sourceSignature.parameters.filter fun parameter =>
    !sourceSignature.untypedJavaScript && !parameter.optional && !parameter.rest &&
      s.kind parameter.ty ≠ .void).length
  let targetParameterCount := targetSignature.parameters.length
  if !targetSignature.parameters.any (·.rest) && sourceMinimum > targetParameterCount then
    some (.mk source target .incompatible
      (some (failure source target (.signatureArityMismatch sourceMinimum targetParameterCount))))
  else none

/-- Parameters compare the other way round, always as subtypes. -/
def relateParameters (source target : TypeId) :
    Nat → List (ParameterType × ParameterType) → RelationM σ Unit
  | _, [] => pure ()
  | index, (sourceParameter, targetParameter) :: rest => do
    wrapping source target (.parameter index)
      (relate targetParameter.ty sourceParameter.ty .subtype)
    relateParameters source target (index + 1) rest

def relateSignatures (source target : TypeId) (sourceSignature targetSignature : Signature)
    (mode : RelationMode) : RelationM σ Unit := do
  let s := C.types (← get)
  match signatureArityFailure s source target sourceSignature targetSignature with
  | some failure => throw failure
  | none =>
    relateParameters relate source target 0
      (sourceSignature.parameters.zip targetSignature.parameters)
    let s := C.types (← get)
    if s.kind targetSignature.returnType = .void then pure ()
    else
      wrapping source target .return
        (relate sourceSignature.returnType targetSignature.returnType mode)

/-- `undefined` and `null` are tried before the other members of a union. -/
def memberPriority (s : TypeStore) (member : TypeId) : Nat :=
  match s.kind member with
  | .undefined => 0
  | .null => 1
  | _ => 2

def sortMembers (s : TypeStore) (members : List TypeId) : List TypeId :=
  members.insertionSort fun m n => memberPriority s m ≤ memberPriority s n

def relateUnionMembers (source target : TypeId) (mode : RelationMode) :
    List TypeId → RelationM σ Unit
  | [] => pure ()
  | member :: rest => do
    wrapping source target .unionMember (relate member target mode)
    relateUnionMembers source target mode rest

def relateToMembers (source : TypeId) (mode : RelationMode) : List TypeId → RelationM σ Unit
  | [] => pure ()
  | member :: rest => do
    relate source member mode
    relateToMembers source mode rest

def relateClassConstructors (source target : TypeId) (sourceDeclaration targetDeclaration : DeclId) :
    RelationM σ Unit := do
  let sourceSignature ← modifyGet (C.classConstructorSignature sourceDeclaration)
  let sourceSignature ← relationInput sourceSignature source target
  let targetSignature ← modifyGet (C.classConstructorSignature targetDeclaration)
  let targetSignature ← relationInput targetSignature source target
  let s := C.types (← get)
  throw ((signatureArityFailure s source target sourceSignature targetSignature).getD
    (failure source target .deferred))

/-- The match on the two kinds. -/
def relateKinds (source target : TypeId) (mode : RelationMode) (sourceKind targetKind : TypeKind) :
    RelationM σ Unit := do
  match sourceKind, targetKind with
  | .literalString _ _, .string | .literalNumber _ _, .number | .literalBoolean _ _, .boolean
  | .object _, .objectKeyword | .classInstance _ _ _ _, .objectKeyword
  | .classConstructor _ _, .objectKeyword | .array _, .objectKeyword | .tuple _, .objectKeyword
  | .function _, .objectKeyword | .shapeFunction _, .objectKeyword => pure ()
  | .literalString left _, .literalString right _ =>
    if left = right then pure () else throw (failure source target .incompatible)
  | .literalNumber left _, .literalNumber right _ =>
    if left = right then pure () else throw (failure source target .incompatible)
  | .literalBoolean left _, .literalBoolean right _ =>
    if left = right then pure () else throw (failure source target .incompatible)
  | .union members, _ =>
    let s := C.types (← get)
    relateUnionMembers relate source target mode (sortMembers s members)
  | _, .union members => relateAlternatives relate source target members mode false
  | _, .intersection members => relateToMembers relate source mode members
  | .intersection members, _ => relateAlternatives relate source target members mode true
  | .array left, .array right => wrapping source target .arrayElement (relate left right mode)
  | .array _, .object shape =>
    if shape.properties.isEmpty && shape.callSignatures.isEmpty &&
        shape.constructSignatures.isEmpty && shape.indexSignatures.isEmpty then pure ()
    else throw (failure source target .deferred)
  | .tuple left, .tuple right =>
    if left.length = right.length then
      relateCovariantTypes relate source target mode .tupleElement 0 (left.zip right)
    else throw (failure source target .incompatible)
  | .tuple elements, .array element =>
    let sourceElement ← modifyGet (C.canonicalUnion elements)
    wrapping source target .arrayElement (relate sourceElement element mode)
  | .array _, .tuple required =>
    throw (failure source target (.arrayToTupleLength required.length))
  | _, .classInstance _ _ _ targetShape =>
    let s := C.types (← get)
    if shapeHasUnsupportedCallableMembers s targetShape none ||
        !targetShape.indexSignatures.isEmpty then
      throw (failure source target .deferred)
    else relateProperties relate source target none targetShape.properties mode
  | .function sourceSignature, .function targetSignature =>
    relateSignatures C relate source target sourceSignature targetSignature mode
  | .shapeFunction sourceSignature, .function targetSignature
  | .shapeFunction sourceSignature, .shapeFunction targetSignature
  | .function sourceSignature, .shapeFunction targetSignature =>
    tryCatch (relateSignatures C relate source target sourceSignature targetSignature mode)
      fun _ => throw (failure source target .deferred)
  | .classConstructor sourceDeclaration _, .classConstructor targetDeclaration _ =>
    relateClassConstructors C source target sourceDeclaration targetDeclaration
  | .libraryReference sourceDeclaration _ sourceArguments,
      .libraryReference targetDeclaration _ targetArguments =>
    if sourceDeclaration = targetDeclaration &&
        C.libraryReferenceArgumentsAreCovariant (← get) sourceDeclaration then
      if sourceArguments.length ≠ targetArguments.length then
        throw (failure source target .deferred)
      else
        relateCovariantTypes relate source target mode .typeArgument 0
          (sourceArguments.zip targetArguments)
    else throw (failure source target .deferred)
  | .function _, .object _ | .shapeFunction _, .object _ | .object _, .function _
  | .object _, .shapeFunction _ | .libraryReference _ _ _, _ | _, .libraryReference _ _ _ =>
    throw (failure source target .deferred)
  | _, _ => throw (failure source target .incompatible)

/-- Comparing two types that stand for themselves. -/
def relateForced (source target : TypeId) (mode : RelationMode) : RelationM σ Unit := do
  let s := C.types (← get)
  let strictNullChecks := C.strictNullChecks (← get)
  let sourceKind := s.kind source
  let targetKind := s.kind target
  if isInvalid sourceKind || isInvalid targetKind then
    throw (failure source target .invalidProjection)
  else if sourceKind = .error ∨ targetKind = .error then pure ()
  else if sourceKind = .never ∨ targetKind = .unknown then pure ()
  else if targetKind = .never then throw (failure source target .incompatible)
  else if mode = .assignment ∧ (sourceKind = .any ∨ targetKind = .any) then pure ()
  else if !strictNullChecks && (sourceKind = .null || sourceKind = .undefined) then pure ()
  else
    match objectShape sourceKind, objectShape targetKind with
    | some sourceShape, some targetShape =>
      relateObjectShapes C relate source target sourceShape targetShape mode
    | _, _ => relateKinds C relate source target mode sourceKind targetKind

def relateActive (r : Relation) (source target : TypeId) (mode : RelationMode) :
    RelationM σ Unit := do
  let forcedSource ← force C r source source target
  let forcedTarget ← force C r target source target
  if forcedSource ≠ source ∨ forcedTarget ≠ target then
    relate forcedSource forcedTarget mode
  else relateForced C relate source target mode

end arms

section references

variable (relate : Relation → TypeId → TypeId → RelationMode → RelationM σ Unit)

/-- Whether both sides grow out of earlier references in the same supported way. -/
def supportedExpansion (s : σ) (r : Relation) (source target : Option (DeclId × List TypeId))
    (sourceExpansion targetExpansion : GenerativeExpansion) : Bool :=
  match source, target with
  | some (sourceDeclaration, sourceArguments), some (targetDeclaration, targetArguments) =>
    sourceDeclaration = targetDeclaration &&
      C.generativeReferenceSupported s sourceDeclaration sourceArguments &&
      C.generativeReferenceSupported s targetDeclaration targetArguments &&
      r.sourceReferences.expansionSegmentSupports sourceExpansion
        (fun declaration arguments => declaration = sourceDeclaration &&
          C.generativeRelationFrameSupported s declaration arguments) &&
      r.targetReferences.expansionSegmentSupports targetExpansion
        (fun declaration arguments => declaration = targetDeclaration &&
          C.generativeRelationFrameSupported s declaration arguments) &&
      sourceExpansion.sameSupportedTransform targetExpansion
  | _, _ => false

def pushReference (stack : ReferenceExpansionStack) (reference : TypeId) :
    Option (DeclId × List TypeId) → ReferenceExpansionStack
  | some (declaration, arguments) => stack.push reference declaration arguments
  | none => stack

def relateWithReferenceStacks (r : Relation) (source target : TypeId) (mode : RelationMode) :
    RelationM σ Unit := do
  let state ← get
  let s := C.types state
  let sourceReference := deferredReference (s.kind source)
  let targetReference := deferredReference (s.kind target)
  let sourceExpansion := sourceReference.bind fun (declaration, arguments) =>
    r.sourceReferences.generativeExpansion s source declaration arguments
  let targetExpansion := targetReference.bind fun (declaration, arguments) =>
    r.targetReferences.generativeExpansion s target declaration arguments
  match sourceExpansion, targetExpansion with
  | some sourceExpansion, some targetExpansion =>
    if supportedExpansion C state r sourceReference targetReference sourceExpansion targetExpansion
    then pure ()
    else throw (failure source target .deferred)
  | _, _ =>
    let inner := { r with
      sourceReferences := pushReference r.sourceReferences source sourceReference
      targetReferences := pushReference r.targetReferences target targetReference }
    relateActive C (relate inner) inner source target mode

end references

/-- The comparison with a number of levels left: one hundred and one at the root. -/
def relateInner : Nat → Relation → TypeId → TypeId → RelationMode → RelationM σ Unit
  | levels, r, source, target, mode => do
    if source = target then pure ()
    else
      match levels with
      | 0 => throw (failure source target .complexityLimit)
      | levels + 1 =>
        let s := C.types (← get)
        let source := assignmentSource s target mode (s.kinds.length + 1) source
        if source = target then pure ()
        else if anyToKeysOfParameter s source target mode then pure ()
        else
          let key : RelationQueryKey := { source, target, mode }
          if key ∈ r.active then pure ()
          else
            relateWithReferenceStacks C (relateInner levels)
              { r with active := key :: r.active } source target mode

end Relation

def relateTypesAtEvaluationDepth {σ : Type} (C : RelationContext σ) (source target : TypeId)
    (mode : RelationMode) (evaluationDepth : Nat) : RelationM σ Unit :=
  Relation.relateInner C 101
    { active := []
      sourceReferences := .new .relationSource
      targetReferences := .new .relationTarget
      evaluationDepth }
    source target mode

def relateTypes {σ : Type} (C : RelationContext σ) (source target : TypeId)
    (mode : RelationMode) : RelationM σ Unit :=
  relateTypesAtEvaluationDepth C source target mode 0

end Tsz.Semantics
