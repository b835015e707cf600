import Tsz.Bind.Facts

/-!
# The binder's walk

One walk over a file's tree creates its scopes, declares names in them and records every
reference with the scope it occurs in. A panic of the source (an index out of bounds, a missing
owner) is `none`.
-/

namespace Tsz.Bind

open Syntax

structure Binder where
  file : FileId
  sourceKind : SourceKind
  declarations : List BoundDeclaration := []
  scopes : List Scope
  scopeForNode : NodeId → Option ScopeId := fun _ => none
  typeMembers : NodeId → Option BoundTypeMember := fun _ => none
  anonymousSignatures : NodeId → Option DeclId := fun _ => none
  referenceFacts : List PendingReferenceFact := []
  thisTypeReferences : Span → Option DeclId := fun _ => none
  typeMemberGroups : AList (fun _ : ScopeId × TypeMemberSymbol => List DeclId) := ∅
  classMembers : NodeId → Option BoundClassMember := fun _ => none
  classMemberGroups : AList (fun _ : ScopeId × ClassMemberSymbol => ClassMemberGroupFacts) := ∅
  javascriptPropertyAssignments : List BoundJavaScriptPropertyAssignment := []
  javascriptPropertyUses : List NodeId := []
  javascriptExpandoInitializers : List DeclId := []
  flowFacts : PendingFlowFacts := {}
  unmodeledDeclarationHosts : List UnmodeledDeclarationHostFact

abbrev BindM := StateT Binder Option

/-! ## Scopes and declarations -/

def scopeAt (scope : ScopeId) : BindM Scope := do
  match (← get).scopes[scope.index]? with
  | some found => pure found
  | none => failure

def recordScope (node : NodeId) (scope : ScopeId) : BindM Unit :=
  modify fun b => { b with scopeForNode := Function.update b.scopeForNode node (some scope) }

def updateScope (scope : ScopeId) (f : Scope → Scope) : BindM Unit :=
  modify fun b => { b with scopes := b.scopes.modify scope.index f }

def newScopeWithContext (parent : ScopeId) (owner : Option NodeId)
    (lexicalThis : Option LexicalThisOwner) (thisTypeOwner : Option DeclId) :
    BindM ScopeId := do
  let context ← scopeAt parent
  let id : ScopeId := ⟨(← get).scopes.length⟩
  modify fun b => { b with
    scopes := b.scopes ++ [{
      id, parent := some parent, owner, lexicalThis, thisTypeOwner
      flowContainer := context.flowContainer }] }
  if let some owner := owner then recordScope owner id
  return id

def newScope (parent : ScopeId) (owner : NodeId) : BindM ScopeId := do
  let context ← scopeAt parent
  newScopeWithContext parent (some owner) context.lexicalThis context.thisTypeOwner

def newFlowScope (parent : ScopeId) (owner : NodeId) (lexicalThis : Option LexicalThisOwner)
    (thisTypeOwner : Option DeclId) (kind : FlowContainerKind) : BindM ScopeId := do
  let scope ← newScopeWithContext parent (some owner) lexicalThis thisTypeOwner
  updateScope scope fun s => { s with flowContainer := some ⟨owner, kind⟩ }
  return scope

def newAnonymousScopeWithThisType (parent : ScopeId) (thisTypeOwner : Option DeclId) :
    BindM ScopeId := do
  let context ← scopeAt parent
  newScopeWithContext parent none context.lexicalThis thisTypeOwner

def newAnonymousScope (parent : ScopeId) : BindM ScopeId := do
  let context ← scopeAt parent
  newAnonymousScopeWithThisType parent context.thisTypeOwner

def newTypeLiteralScope (parent : ScopeId) : BindM ScopeId :=
  newAnonymousScopeWithThisType parent none

/-- The walk to the nearest scope with an owner; `fuel` bounds the number of scopes visited. -/
def nearestOwner (scopes : List Scope) : Nat → ScopeId → Option NodeId
  | 0, _ => none
  | fuel + 1, scope => do
    let current ← scopes[scope.index]?
    match current.owner with
    | some owner => some owner
    | none => nearestOwner scopes fuel (← current.parent)

def nearestScopeOwner (scope : ScopeId) : BindM (Option NodeId) := do
  let scopes := (← get).scopes
  return nearestOwner scopes scopes.length scope

def declareUnscoped (scope : ScopeId) (owner : NodeId) (name : String) (nameSpan : Span)
    (kind : DeclarationKind) (meaning : Meaning) : BindM DeclId := do
  let b ← get
  let id : DeclId := ⟨b.file, b.declarations.length⟩
  let declaration : BoundDeclaration := ⟨id, scope, owner, name, nameSpan, kind, meaning⟩
  set { b with declarations := b.declarations ++ [declaration] }
  return id

def declare (scope : ScopeId) (owner : NodeId) (name : String) (nameSpan : Span)
    (kind : DeclarationKind) (meaning : Meaning) : BindM DeclId := do
  let id ← declareUnscoped scope owner name nameSpan kind meaning
  let _ ← scopeAt scope
  updateScope scope fun s => { s with
    names := s.names.insert name ((s.names.lookup name).getD [] ++ [id]) }
  return id

/-- A second parameter of one name and kind keeps its declaration but not the name. -/
def declareParameter (scope : ScopeId) (owner : NodeId) (name : String) (nameSpan : Span)
    (kind : DeclarationKind) (meaning : Meaning) : BindM DeclId := do
  let b ← get
  let current ← scopeAt scope
  let duplicate := ((current.names.lookup name).getD []).any fun id =>
    (b.declarations[id.index]?).any fun declaration => declaration.kind = kind
  if duplicate then declareUnscoped scope owner name nameSpan kind meaning
  else declare scope owner name nameSpan kind meaning

def recordReference (reference : PendingReferenceFact) : BindM Unit :=
  modify fun b => { b with referenceFacts := b.referenceFacts ++ [reference] }

def modifyFlowFacts (f : PendingFlowFacts → PendingFlowFacts) : BindM Unit :=
  modify fun b => { b with flowFacts := f b.flowFacts }

def recordExpandoInitializer (declaration : DeclId) : BindM Unit :=
  modify fun b => { b with
    javascriptExpandoInitializers := b.javascriptExpandoInitializers.insert declaration }

/-! ## Declaration hosts the tree does not model -/

def hostMeanings : UnmodeledDeclarationHostKind → List Meaning
  | .enum | .namespace | .module => [.value, .type]
  | .using => [.value]
  | .externalModule | .global => []

def declareMeanings (scope : ScopeId) (owner : NodeId) (name : String) (nameSpan : Span)
    (kind : DeclarationKind) : List Meaning → BindM Unit
  | [] => pure ()
  | meaning :: meanings => do
    let _ ← declare scope owner name nameSpan kind meaning
    declareMeanings scope owner name nameSpan kind meanings

def declareHost (scope : ScopeId) (owner : NodeId) (host : UnmodeledDeclarationHostFact) :
    BindM Unit :=
  match host.name, host.nameSpan with
  | some name, some nameSpan =>
    declareMeanings scope owner name nameSpan .unmodeledHost (hostMeanings host.kind)
  | _, _ => pure ()

def declareHosts (scope : ScopeId) (owner : NodeId) :
    List UnmodeledDeclarationHostFact → BindM Unit
  | [] => pure ()
  | host :: hosts => do
    declareHost scope owner host
    declareHosts scope owner hosts

/-- A host whose body was skipped hides the statements recovery left inside its extent. -/
def UnmodeledDeclarationHostFact.hides (host : UnmodeledDeclarationHostFact) (span : Span) :
    Bool :=
  host.body = .omitted && host.ownerStart ≠ span.start &&
    host.recoveryExtent.start ≤ span.start && span.start < host.recoveryExtent.stop

/-! ## Imports and export specifiers -/

def declareImports (scope : ScopeId) (owner : NodeId) : List ImportBinding → BindM Unit
  | [] => pure ()
  | binding :: bindings => do
    let meanings : List Meaning := if binding.typeOnly then [.type] else [.value, .type]
    declareMeanings scope owner binding.localName binding.localSpan .import meanings
    declareImports scope owner bindings

def recordSpecifiers (scope : ScopeId) (typeOnly : Bool) : List ExportSpecifier → BindM Unit
  | [] => pure ()
  | specifier :: specifiers => do
    let meaning : Meaning := if typeOnly || specifier.typeOnly then .type else .value
    recordReference (.ofName specifier.localName specifier.localSpan scope meaning false)
    recordSpecifiers scope typeOnly specifiers

/-! ## Assignment targets -/

def simpleAssignmentTarget (expression : Expression) : Option Expression :=
  match expression.peelParentheses with
  | target@⟨_, _, .identifier _ _ _⟩ => some target
  | _ => none

def flowAssignmentRoot : Expression → Option Expression
  | ⟨_, _, .parenthesized inner⟩ => flowAssignmentRoot inner
  | ⟨_, _, .member object _ _⟩ => flowAssignmentRoot object
  | ⟨_, _, .elementAccess object _⟩ => flowAssignmentRoot object
  | target@⟨_, _, .identifier _ _ _⟩ => some target
  | _ => none

def elementAssignmentReceiver (expression : Expression) : Option Expression :=
  match expression.peelParentheses.kind with
  | .elementAccess object _ => simpleAssignmentTarget object
  | _ => none

def isEmptyArrayExpression (expression : Expression) : Bool :=
  match expression.peelParentheses.kind with
  | .array [] => true
  | _ => false

def isJavascriptExpandoInitializer (expression : Expression) : Bool :=
  match expression.peelParentheses.kind with
  | .object [] => true
  | .functionLike _ => true
  | _ => false

/-- The root name and the property names of a chain of member accesses. -/
def propertyPath : Expression → Option (String × List String)
  | ⟨_, _, .parenthesized inner⟩ => propertyPath inner
  | ⟨_, _, .member object name _⟩ => do
    let (root, properties) ← propertyPath object
    return (root, properties ++ [name])
  | ⟨_, _, .identifier name _ _⟩ => some (name, [])
  | _ => none

def javascriptNamedPropertyPath (expression : Expression) :
    Option (String × List String × Span) :=
  match expression.peelParentheses.kind with
  | .member _ _ nameSpan => do
    let (root, properties) ← propertyPath expression
    return (root, properties, nameSpan)
  | _ => none

def assignmentTarget (left : Expression) : Option JavaScriptPropertyAssignmentTarget :=
  match left.peelParentheses.kind with
  | .member _ _ _ => some .namedMember
  | .elementAccess _ index =>
    match index.kind with
    | .literal (.string _) | .literal (.number _) => some .canonicalElementProperty
    | _ => some .ordinaryIndex
  | _ => none

def bindJavascriptPropertyUse (expression : NodeId) : BindM Unit := do
  if (← get).sourceKind.supportsExpressionTypeArguments then pure ()
  else modify fun b => { b with
    javascriptPropertyUses := b.javascriptPropertyUses ++ [expression] }

/-- An empty object or a function makes its declaration an expando. -/
def recordExpandoForm (declaration : DeclId) (initializer : Expression) : BindM Unit :=
  if isJavascriptExpandoInitializer initializer then recordExpandoInitializer declaration
  else pure ()

def declareJavascriptProperty (expression : NodeId) (left right : Expression) (scope : ScopeId) :
    BindM (Option DeclId × List String) :=
  match javascriptNamedPropertyPath left with
  | none => pure (none, [])
  | some (_, properties, nameSpan) => do
    let some last := properties.getLast? | failure
    let declaration ←
      declareUnscoped scope expression last nameSpan .javaScriptPropertyAssignment .value
    recordExpandoForm declaration right
    return (some declaration, properties)

def bindJavascriptPropertyAssignment (expression : NodeId) (left right : Expression)
    (scope : ScopeId) : BindM Unit := do
  if (← get).sourceKind.supportsExpressionTypeArguments then pure ()
  else
    match assignmentTarget left with
    | none => pure ()
    | some target => do
      let root := match flowAssignmentRoot left with
        | some ⟨_, _, .identifier name _ _⟩ => some name
        | _ => none
      let (declaration, properties) ← declareJavascriptProperty expression left right scope
      modify fun b => { b with
        javascriptPropertyAssignments := b.javascriptPropertyAssignments ++
          [⟨left.id, right.id, scope, declaration, root, properties, target⟩] }

def recordMutation (left right : Expression) (operator : AssignmentOperator)
    (control : Option NodeId) (effectSpan : Span) : BindM Unit :=
  match flowAssignmentRoot left with
  | none => pure ()
  | some target =>
    let source := if operator = .assign ∧ (simpleAssignmentTarget left).isSome then
      PendingFlowAssignmentSource.fromExpression right else none
    modifyFlowFacts fun f => { f with
      mutations := f.mutations ++ [⟨target.id, source, control, effectSpan⟩] }

def recordElementWrite (left : Expression) : BindM Unit :=
  match elementAssignmentReceiver left with
  | none => pure ()
  | some target => modifyFlowFacts fun f => { f with
      evolvingArrayWrites := f.evolvingArrayWrites ++ [target.id] }

def bindAssignedProperty (expression : NodeId) (left right : Expression)
    (operator : AssignmentOperator) (scope : ScopeId) : BindM Unit :=
  if operator = .assign then bindJavascriptPropertyAssignment expression left right scope
  else pure ()

/-- What an assignment records once its two sides are bound. -/
def recordAssignment (expression : NodeId) (effectSpan : Span) (left right : Expression)
    (operator : AssignmentOperator) (scope : ScopeId) (control : Option NodeId) :
    BindM Unit := do
  bindAssignedProperty expression left right operator scope
  recordMutation left right operator control effectSpan
  recordElementWrite left

/-! ## Member symbols -/

section Members

variable [NumberFormat]

def typeMemberNameSymbol : TypeMemberNameKind → Option TypeMemberSymbol
  | .identifier name => some (.named (encodeUtf16 name))
  | .stringLiteral _ value => value.map fun value => .named value.units
  | .numericLiteral name => (NumberFormat.display name).map fun text => .named (encodeUtf16 text)
  | .bigIntLiteral _ | .computed _ => none

def typeMemberSymbol : TypeMemberKind → Option TypeMemberSymbol
  | .property name _ _ _ => typeMemberNameSymbol name.kind
  | .method name _ _ _ _ => typeMemberNameSymbol name.kind
  | .accessor name _ _ _ => typeMemberNameSymbol name.kind
  | .call _ _ _ => some .call
  | .construct _ _ _ => some .construct
  | .index _ _ => some .index

def typeMemberNameSpan (member : TypeMember) : Span :=
  match member.kind with
  | .property name _ _ _ => name.span
  | .method name _ _ _ _ => name.span
  | .accessor name _ _ _ => name.span
  | .call _ _ _ | .construct _ _ _ | .index _ _ => member.span

def typeMemberDisplayName (member : TypeMember) : String × Span :=
  match typeMemberSymbol member.kind with
  | some (.named name) => (fromUtf16Lossy name, typeMemberNameSpan member)
  | some .call => ("__call", member.span)
  | some .construct => ("__new", member.span)
  | some .index => ("__index", member.span)
  | none => ("", member.span)

def addToTypeMemberGroup (container : ScopeId) (declaration : DeclId) :
    Option TypeMemberSymbol → BindM Unit
  | none => pure ()
  | some symbol => modify fun b => { b with
      typeMemberGroups := b.typeMemberGroups.insert (container, symbol)
        ((b.typeMemberGroups.lookup (container, symbol)).getD [] ++ [declaration]) }

def bindTypeMemberSymbol (member : TypeMember) (container : ScopeId) : BindM Unit := do
  let symbol := typeMemberSymbol member.kind
  let (name, nameSpan) := typeMemberDisplayName member
  let declaration ← declareUnscoped container member.id name nameSpan .typeMember .type
  addToTypeMemberGroup container declaration symbol
  modify fun b => { b with
    typeMembers := Function.update b.typeMembers member.id
      (some ⟨declaration, container, symbol⟩) }

def classMemberName (member : ClassMember) : Option (List UInt16) :=
  match member.nameKind with
  | .identifier | .privateIdentifier => some (encodeUtf16 member.name)
  | .stringLiteral => member.stringNameValue.map (·.units)
  | .numericLiteral => (NumberFormat.display member.name).map encodeUtf16
  | .computed | .unsupported => none

def classMemberNameSymbol (member : ClassMember) (name : List UInt16) : ClassMemberSymbol :=
  let privateIdentifier := decide (member.nameKind = .privateIdentifier)
  if privateIdentifier && name = encodeUtf16 "#constructor" then .reservedPrivateConstructor
  else if member.modifiers.staticMember && !privateIdentifier &&
      name = encodeUtf16 "prototype" then .reservedStaticPrototype
  else .named name member.modifiers.staticMember privateIdentifier

def classMemberSymbol (member : ClassMember) : Option ClassMemberSymbol :=
  match member.kind with
  | .constructor _ _ _ _ _ _ => some .constructor
  | .method _ _ _ _ _ _ _ | .property _ _ _ _ =>
    (classMemberName member).map (classMemberNameSymbol member)

/-- Count one declaration of a member into the facts of its group. -/
def ClassMemberGroupFacts.add (group : ClassMemberGroupFacts) (member : ClassMember)
    (declaration : DeclId) : ClassMemberGroupFacts :=
  let group := { group with declarations := group.declarations ++ [declaration] }
  let callable (hasBody : Bool) := { group with
    callables := group.callables + 1
    implementations := group.implementations + (if hasBody then 1 else 0)
    privateCallable := group.privateCallable || member.modifiers.isPrivate }
  match member.kind with
  | .constructor _ _ _ _ hasBody _ => callable hasBody
  | .method _ _ _ _ hasBody _ none => callable hasBody
  | .property _ _ _ _ => { group with properties := group.properties + 1 }
  | .method _ _ _ _ _ _ (some .get) => { group with getters := group.getters + 1 }
  | .method _ _ _ _ _ _ (some .set) => { group with setters := group.setters + 1 }

def bindClassMemberSymbol (member : ClassMember) (container : ScopeId) : BindM Unit :=
  match classMemberSymbol member with
  | none => pure ()
  | some symbol => do
    let declaration ←
      declareUnscoped container member.id member.name member.nameSpan .typeMember .type
    modify fun b => { b with
      classMemberGroups := b.classMemberGroups.insert (container, symbol)
        (((b.classMemberGroups.lookup (container, symbol)).getD {}).add member declaration)
      classMembers := Function.update b.classMembers member.id (some ⟨container, symbol⟩) }

end Members

end Tsz.Bind
