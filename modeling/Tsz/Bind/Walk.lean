import Tsz.Bind.Binder

/-!
# Binding a tree

The mutually recursive walk over expressions, types, members and statements.
-/

namespace Tsz.Bind

open Syntax

variable [NumberFormat]

/-- The owner of a scope that declares parameters. -/
def ownerOf (scope : ScopeId) : BindM NodeId := do
  match (← scopeAt scope).owner with
  | some owner => pure owner
  | none => failure

def declareTypeParametersOf (scope : ScopeId) (owner : NodeId) :
    List TypeParameterDeclaration → BindM Unit
  | [] => pure ()
  | parameter :: parameters => do
    let _ ← declareParameter scope owner parameter.name parameter.nameSpan .typeParameter .type
    declareTypeParametersOf scope owner parameters

/-- The first half of binding type parameters: all names, before any constraint is bound. -/
def declareTypeParameters (scope : ScopeId) (parameters : List TypeParameterDeclaration) :
    BindM Unit := do
  declareTypeParametersOf scope (← ownerOf scope) parameters

def declareBindings (scope : ScopeId) (owner : NodeId) : List AuthoredBindingName → BindM Unit
  | [] => pure ()
  | binding :: bindings => do
    let _ ← declareParameter scope owner binding.name binding.span .parameter .value
    declareBindings scope owner bindings

/-- Declare the names of a parameter of a signature; `this` is not a parameter name. -/
def declareParameterNames (scope : ScopeId) (parameter : Parameter) : BindM Unit := do
  match parameter.nameKind, (← scopeAt scope).owner with
  | .this, _ | _, none => pure ()
  | .binding, some owner =>
    let _ ← declareParameter scope owner parameter.name parameter.nameSpan .parameter .value
  | .bindingPattern, some owner => declareBindings scope owner parameter.recoveredBindingNames

def declareParameters (scope : ScopeId) : List Parameter → BindM Unit
  | [] => pure ()
  | parameter :: parameters => do
    declareParameterNames scope parameter
    declareParameters scope parameters

def declareVariables (scope : ScopeId) (owner : NodeId) :
    List AuthoredBindingName → BindM Unit
  | [] => pure ()
  | binding :: bindings => do
    let _ ← declare scope owner binding.name binding.span .variable .value
    declareVariables scope owner bindings

/-- Declare a declarator's name, or the names its recovered pattern binds. -/
def declareDeclarator (scope : ScopeId) (owner : NodeId) (declarator : VariableDeclarator) :
    BindM (Option DeclId) :=
  if declarator.recoveredBindingNames.isEmpty then
    some <$> declare scope owner declarator.name declarator.nameSpan .variable .value
  else do
    declareVariables scope owner declarator.recoveredBindingNames
    return none

def recordEvolvingArray (declared : DeclId) (initializer : Expression) : BindM Unit :=
  if isEmptyArrayExpression initializer then
    modifyFlowFacts fun f => { f with
      evolvingArrayDeclarations := f.evolvingArrayDeclarations ++ [declared] }
  else pure ()

/-- In a JavaScript file a function, or a variable with a fitting initializer, is an expando. -/
def recordJavascriptExpando (declared : DeclId) (fits : Bool) : BindM Unit := do
  if fits && !(← get).sourceKind.supportsExpressionTypeArguments then
    recordExpandoInitializer declared
  else pure ()

/-- What a declared variable without annotation remembers about its initializer. -/
def recordDeclaratorForm (declared : Option DeclId) (declarator : VariableDeclarator) :
    BindM Unit :=
  match declared, declarator.annotation, declarator.initializer with
  | some declared, none, some initializer => do
    recordEvolvingArray declared initializer
    recordJavascriptExpando declared (isJavascriptExpandoInitializer initializer)
  | _, _, _ => pure ()

def recordInitializer (declared : Option DeclId) (initializer : Expression) (span : Span) :
    BindM Unit :=
  match declared, PendingFlowAssignmentSource.fromExpression initializer with
  | some declared, some (.literal source) =>
    modifyFlowFacts fun f => { f with
      initializers := f.initializers ++ [(declared, source, span)] }
  | _, _ => pure ()

/-- The declaration of a function expression: its own name, or an empty span before it. -/
def declareFunctionExpression (scope : ScopeId) (expression : NodeId) (span : Span) :
    FunctionLikeSyntax → BindM Unit
  | .arrowExpression _ | .arrowBlock _ => pure ()
  | .function _ (some name) _ => do
    let _ ← declare scope expression name.name name.span .functionExpression .value
  | .function _ none _ => do
    let _ ← declareUnscoped scope expression "" ⟨span.file, span.start, span.start⟩
      .functionExpression .value

def newFunctionLikeScope (scope : ScopeId) (expression : NodeId) (form : FunctionLikeSyntax) :
    BindM ScopeId := do
  if form.isFunction then newFlowScope scope expression none none .ordinary
  else
    let context ← scopeAt scope
    newFlowScope scope expression context.lexicalThis context.thisTypeOwner .creation

def typeQueryRoot (name : String) : String :=
  (name.splitOn ".").head?.getD name

def memberThis (modifiers : ClassMemberModifiers) (instance_ constructor : DeclId) :
    LexicalThisOwner × Option DeclId :=
  if modifiers.staticMember then (.classConstructor constructor, none)
  else (.classInstance instance_, some instance_)

mutual

def bindExpressionWithDemand : Expression → ScopeId → Option NodeId → FlowDemandPath → Bool →
    BindM Unit
  | ⟨id, span, kind⟩, scope, control, demand, write => do
    recordScope id scope
    bindExpressionKind kind id span scope control demand write

def bindExpressionKind : ExpressionKind → NodeId → Span → ScopeId → Option NodeId →
    FlowDemandPath → Bool → BindM Unit
  | .identifier name nameSpan entityName, id, span, scope, _, demand, write =>
    if entityName then do
      recordReference (.ofName name nameSpan scope .value write)
      modifyFlowFacts fun f => { f with
        references := f.references ++ [⟨id, span, scope, name, demand⟩] }
    else pure ()
  | .this, _, _, _, _, _, _ | .literal _, _, _, _, _, _, _
  | .regularExpression _, _, _, _, _, _, _ | .missing, _, _, _, _, _, _ => pure ()
  | .template _ spans, _, _, scope, control, _, _ => bindTemplateSpans spans scope control
  | .object properties, _, _, scope, control, _, write =>
    bindProperties properties scope control write
  | .array elements, _, _, scope, control, _, _ => bindExpressions elements scope control
  | .call callee typeArguments arguments, id, _, scope, control, _, _ => do
    bindExpressionWithDemand callee scope control .root false
    bindOptionalTypeNodes typeArguments scope (some id)
    bindExpressions arguments scope control
  | .new callee typeArguments _ arguments _, id, _, scope, control, _, _ => do
    bindExpressionWithDemand callee scope control .root false
    bindTypeNodes typeArguments scope (some id)
    bindExpressions arguments scope control
  | .member object name _, id, _, scope, control, demand, _ => do
    bindJavascriptPropertyUse id
    bindExpressionWithDemand object scope control (demand.member name) false
  | .parenthesized inner, _, _, scope, control, demand, write
  | .nonNull inner, _, _, scope, control, demand, write =>
    bindExpressionWithDemand inner scope control demand write
  | .unary _ operand, _, _, scope, control, _, _ =>
    bindExpressionWithDemand operand scope control .root false
  | .as expression ty, id, _, scope, control, _, _ => do
    bindExpressionWithDemand expression scope control .root false
    bindTypeNodeWithOwner ty scope (some id)
  | .elementAccess object index, _, _, scope, control, demand, _ => do
    bindExpressionWithDemand object scope control (demand.element index) false
    bindExpressionWithDemand index scope control .root false
  | .functionLike function, id, span, scope, _, _, _ => bindFunctionLike function id span scope
  | .binary left _ _ right, _, _, scope, control, _, _ => do
    bindExpressionWithDemand left scope control .root false
    bindExpressionWithDemand right scope control .root false
  | .conditional condition _ whenTrue _ whenFalse, _, _, scope, control, _, _ => do
    bindExpressionWithDemand condition scope control .root false
    bindExpressionWithDemand whenTrue scope control .root false
    bindExpressionWithDemand whenFalse scope control .root false
  | .assignment left operator _ right _, id, span, scope, control, _, _ => do
    bindExpressionWithDemand left scope control .root true
    bindExpressionWithDemand right scope control .root false
    recordAssignment id span left right operator scope control

def bindExpressions : List Expression → ScopeId → Option NodeId → BindM Unit
  | [], _, _ => pure ()
  | expression :: expressions, scope, control => do
    bindExpressionWithDemand expression scope control .root false
    bindExpressions expressions scope control

def bindTemplateSpans : List TemplateSpan → ScopeId → Option NodeId → BindM Unit
  | [], _, _ => pure ()
  | ⟨expression, _⟩ :: spans, scope, control => do
    bindExpressionWithDemand expression scope control .root false
    bindTemplateSpans spans scope control

def bindProperties : List ObjectProperty → ScopeId → Option NodeId → Bool → BindM Unit
  | [], _, _, _ => pure ()
  | { value, .. } :: properties, scope, control, write => do
    bindExpressionWithDemand value scope control .root write
    bindProperties properties scope control write

def bindFunctionLike : FunctionLikeExpression → NodeId → Span → ScopeId → BindM Unit
  | { typeParameters, parameters, returnType, form, .. }, id, span, scope => do
    let functionScope ← newFunctionLikeScope scope id form
    declareFunctionExpression functionScope id span form
    declareTypeParameters functionScope typeParameters
    bindTypeParameterBounds typeParameters functionScope
    match form with
    | .arrowExpression body => do
      declareParameters functionScope parameters
      bindParameterTypes parameters functionScope
      bindOptionalTypeNode returnType functionScope
      bindExpressionWithDemand body functionScope none .root false
    | .arrowBlock body | .function _ _ body => do
      let bodyScope ← newAnonymousScope functionScope
      declareParameters functionScope parameters
      bindParameterTypes parameters functionScope
      bindOptionalTypeNode returnType functionScope
      bindStatements body bodyScope none

/-- The second half of binding type parameters. -/
def bindTypeParameterBounds : List TypeParameterDeclaration → ScopeId → BindM Unit
  | [], _ => pure ()
  | { constraint, default, .. } :: parameters, scope => do
    bindOptionalTypeNode constraint scope
    bindOptionalTypeNode default scope
    bindTypeParameterBounds parameters scope

/-- The annotations and initializers of a signature whose parameters are declared. -/
def bindParameterTypes : List Parameter → ScopeId → BindM Unit
  | [], _ => pure ()
  | { annotation, initializer, .. } :: parameters, scope => do
    bindOptionalTypeNode annotation scope
    bindOptionalExpression initializer scope none
    bindParameterTypes parameters scope

def bindOptionalExpression : Option Expression → ScopeId → Option NodeId → BindM Unit
  | none, _, _ => pure ()
  | some expression, scope, control =>
    bindExpressionWithDemand expression scope control .root false

def bindOptionalTypeNode : Option TypeNode → ScopeId → BindM Unit
  | none, _ => pure ()
  | some node, scope => do bindTypeNodeWithOwner node scope (← nearestScopeOwner scope)

def bindTypeNodes : List TypeNode → ScopeId → Option NodeId → BindM Unit
  | [], _, _ => pure ()
  | node :: nodes, scope, owner => do
    bindTypeNodeWithOwner node scope owner
    bindTypeNodes nodes scope owner

def bindOptionalTypeNodes : Option (List TypeNode) → ScopeId → Option NodeId → BindM Unit
  | none, _, _ => pure ()
  | some nodes, scope, owner => bindTypeNodes nodes scope owner

/-- Type nodes of a heritage clause, each under the nearest owner of the scope. -/
def bindTypeNodesIn : List TypeNode → ScopeId → BindM Unit
  | [], _ => pure ()
  | node :: nodes, scope => do
    bindTypeNodeWithOwner node scope (← nearestScopeOwner scope)
    bindTypeNodesIn nodes scope

def bindTypeNodeWithOwner : TypeNode → ScopeId → Option NodeId → BindM Unit
  | ⟨span, kind⟩, scope, owner => bindTypeNodeKind kind span scope owner

def bindTypeNodeKind : TypeNodeKind → Span → ScopeId → Option NodeId → BindM Unit
  | .array element, _, scope, owner | .keyOf element, _, scope, owner
  | .readonly element, _, scope, owner | .parenthesized element, _, scope, owner =>
    bindTypeNodeWithOwner element scope owner
  | .tuple elements, _, scope, owner | .union elements, _, scope, owner
  | .intersection elements, _, scope, owner => bindTypeNodes elements scope owner
  | .this, span, scope, _ => do
    match (← scopeAt scope).thisTypeOwner with
    | some declaration => modify fun b => { b with
        thisTypeReferences := Function.update b.thisTypeReferences span (some declaration) }
    | none => pure ()
  | .reference name nameSpan arguments, _, scope, owner => do
    recordReference (.ofName name nameSpan scope .type false)
    bindTypeNodes arguments scope owner
  | .typeQuery name nameSpan segmentSpans, _, scope, _ =>
    recordReference (.ofTypeQueryRoot (typeQueryRoot name) (segmentSpans.head?.getD nameSpan)
      scope)
  | .object members, span, scope, owner => do
    let some owner := owner | failure
    let _ ← declareUnscoped scope owner "__type" span .anonymousType .type
    let memberScope ← newTypeLiteralScope scope
    bindTypeMembers members memberScope
  | .function id typeParameters parameters _ returnType, span, scope, _
  | .constructor id typeParameters parameters _ returnType _, span, scope, _ => do
    let declaration ← declareUnscoped scope id "" span .anonymousSignature .type
    modify fun b => { b with
      anonymousSignatures := Function.update b.anonymousSignatures id (some declaration) }
    let signatureScope ← newScope scope id
    declareTypeParameters signatureScope typeParameters
    bindTypeParameterBounds typeParameters signatureScope
    declareParameters signatureScope parameters
    bindParameterTypes parameters signatureScope
    bindTypeNodeWithOwner returnType signatureScope (← nearestScopeOwner signatureScope)
  | .infer _ _ constraint, _, scope, owner => bindTypeNodeOption constraint scope owner
  | .predicate _ _ _ ty, _, scope, owner => bindTypeNodeOption ty scope owner
  | .conditional checkType extendsType trueType falseType, _, scope, owner => do
    bindTypeNodeWithOwner checkType scope owner
    bindTypeNodeWithOwner extendsType scope owner
    bindTypeNodeWithOwner trueType scope owner
    bindTypeNodeWithOwner falseType scope owner
  | .mapped parameter parameterSpan constraint nameType valueType _ _ members, _, scope,
      owner => do
    bindTypeNodeWithOwner constraint scope owner
    let mappedScope ← newAnonymousScope scope
    let some owner := owner | failure
    let _ ← declareParameter mappedScope owner parameter parameterSpan .typeParameter .type
    bindTypeNodeOption nameType mappedScope (some owner)
    bindTypeNodeWithOwner valueType mappedScope (some owner)
    bindTypeMembers members mappedScope
  | .indexedAccess object index, _, scope, owner => do
    bindTypeNodeWithOwner object scope owner
    bindTypeNodeWithOwner index scope owner
  | .keyword _, _, _, _ | .literal _, _, _, _ | .missing, _, _, _ => pure ()

def bindTypeNodeOption : Option TypeNode → ScopeId → Option NodeId → BindM Unit
  | none, _, _ => pure ()
  | some node, scope, owner => bindTypeNodeWithOwner node scope owner

def bindTypeMembers : List TypeMember → ScopeId → BindM Unit
  | [], _ => pure ()
  | member :: members, container => do
    bindTypeMember member container
    bindTypeMembers members container

/-- A recovered member is not bound. -/
def bindTypeMember : TypeMember → ScopeId → BindM Unit
  | member@⟨id, _, recovered, _, _, kind⟩, container =>
    if recovered then pure ()
    else do
      bindTypeMemberSymbol member container
      let memberScope ← newScope container id
      bindTypeMemberKind kind container memberScope

def bindTypeMemberKind : TypeMemberKind → ScopeId → ScopeId → BindM Unit
  | .property name ty _ initializer, container, memberScope => do
    bindTypeMemberName name container
    bindOptionalTypeNode ty memberScope
    bindOptionalExpression initializer memberScope none
  | .method name _ typeParameters parameters returnType, container, memberScope => do
    bindTypeMemberName name container
    declareTypeParameters memberScope typeParameters
    bindTypeParameterBounds typeParameters memberScope
    declareParameters memberScope parameters
    bindParameterTypes parameters memberScope
    bindOptionalTypeNode returnType memberScope
  | .accessor name _ parameters returnType, container, memberScope => do
    bindTypeMemberName name container
    declareTypeParameters memberScope []
    declareParameters memberScope parameters
    bindParameterTypes parameters memberScope
    bindOptionalTypeNode returnType memberScope
  | .call typeParameters parameters returnType, _, memberScope
  | .construct typeParameters parameters returnType, _, memberScope => do
    declareTypeParameters memberScope typeParameters
    bindTypeParameterBounds typeParameters memberScope
    declareParameters memberScope parameters
    bindParameterTypes parameters memberScope
    bindOptionalTypeNode returnType memberScope
  | .index parameters valueType, _, memberScope => do
    declareTypeParameters memberScope []
    declareParameters memberScope parameters
    bindParameterTypes parameters memberScope
    bindOptionalTypeNode valueType memberScope

def bindTypeMemberName : TypeMemberName → ScopeId → BindM Unit
  | ⟨_, .computed expression⟩, scope => bindExpressionWithDemand expression scope none .root false
  | ⟨_, .identifier _⟩, _ | ⟨_, .stringLiteral _ _⟩, _ | ⟨_, .numericLiteral _⟩, _
  | ⟨_, .bigIntLiteral _⟩, _ => pure ()

def bindStatements : List Statement → ScopeId → Option NodeId → BindM Unit
  | [], _, _ => pure ()
  | statement :: statements, scope, control => do
    bindStatement statement scope control
    bindStatements statements scope control

def bindOptionalStatement : Option Statement → ScopeId → Option NodeId → BindM Unit
  | none, _, _ => pure ()
  | some statement, scope, control => bindStatement statement scope control

def bindStatement : Statement → ScopeId → Option NodeId → BindM Unit
  | ⟨id, span, kind⟩, scope, control => do
    recordScope id scope
    let hosts := (← get).unmodeledDeclarationHosts
    let unmodeledHosts := hosts.filter fun host => host.ownerStart = span.start
    declareHosts scope id unmodeledHosts
    match unmodeledHosts.find? fun host => host.body = .parsedStatements with
    | some host => bindHostBody kind id host.kind scope control
    | none =>
      if hosts.any fun host => UnmodeledDeclarationHostFact.hides host span then pure ()
      else bindStatementKind kind id span scope control

/-- The body of a declaration host; the two refused shapes are debug assertions of the source. -/
def bindHostBody : StatementKind → NodeId → UnmodeledDeclarationHostKind → ScopeId →
    Option NodeId → BindM Unit
  | .block statements, id, host, scope, control =>
    match host with
    | .namespace | .module | .externalModule => do
      let bodyScope ← newScope scope id
      bindStatements statements bodyScope control
    | .global => bindStatements statements scope control
    | .enum | .using => pure ()
  | _, _, _, _, _ => pure ()

def bindStatementKind : StatementKind → NodeId → Span → ScopeId → Option NodeId → BindM Unit
  | .import declaration, id, _, scope, _ => declareImports scope id declaration.bindings
  | .variable ⟨_, declarators, _, _, _⟩, id, span, scope, control =>
    bindDeclarators declarators id span scope control
  | .function declaration, id, _, scope, _ => do
    let declared ←
      declare scope id declaration.name declaration.nameSpan .function .value
    recordJavascriptExpando declared true
    bindFunction declaration id scope
  | .class declaration, id, _, scope, _ => do
    let constructor ← declare scope id declaration.name declaration.nameSpan .class .value
    let instance_ ← declare scope id declaration.name declaration.nameSpan .class .type
    bindClass declaration id scope instance_ constructor
  | .typeAlias ⟨name, nameSpan, typeParameters, ty, _⟩, id, _, scope, _ => do
    let _ ← declare scope id name nameSpan .typeAlias .type
    let typeScope ← newScope scope id
    declareTypeParameters typeScope typeParameters
    bindTypeParameterBounds typeParameters typeScope
    bindTypeNodeWithOwner ty typeScope (← nearestScopeOwner typeScope)
  | .interface ⟨name, nameSpan, typeParameters, extendsTypes, members, _⟩, id, _, scope, _ => do
    let interface ← declare scope id name nameSpan .interface .type
    let memberScope ← newScope scope id
    declareTypeParameters memberScope typeParameters
    bindTypeParameterBounds typeParameters memberScope
    bindTypeNodesIn extendsTypes memberScope
    let _ ← scopeAt memberScope
    updateScope memberScope fun s => { s with thisTypeOwner := some interface }
    bindTypeMembers members memberScope
  | .block statements, id, _, scope, control => do
    let child ← newScope scope id
    bindStatements statements child control
  | .if condition thenStatement elseStatement, id, _, scope, control => do
    bindExpressionWithDemand condition scope control .root false
    bindStatement thenStatement scope (some id)
    bindOptionalStatement elseStatement scope (some id)
  | .switch expression clauses _, id, _, scope, control => do
    let child ← newScope scope id
    bindExpressionWithDemand expression scope control .root false
    bindSwitchClauses clauses id child
  | .export ⟨specifiers, _, _, typeOnly, _, _, assignment⟩, _, _, scope, control => do
    recordSpecifiers scope typeOnly specifiers
    bindOptionalExpression assignment scope control
  | .return expression, _, _, scope, control => bindOptionalExpression expression scope control
  | .expression expression, _, _, scope, control =>
    bindExpressionWithDemand expression scope control .root false
  | .break _, _, _, _, _ | .continue _, _, _, _, _ | .empty, _, _, _, _
  | .unknown, _, _, _, _ => pure ()

def bindDeclarators : List VariableDeclarator → NodeId → Span → ScopeId → Option NodeId →
    BindM Unit
  | [], _, _, _, _ => pure ()
  | declarator@⟨_, _, _, annotation, initializer⟩ :: declarators, id, span, scope, control => do
    let declared ← declareDeclarator scope id declarator
    recordDeclaratorForm declared declarator
    bindInitializer initializer declared span scope control
    bindTypeNodeOption annotation scope (some id)
    bindDeclarators declarators id span scope control

def bindInitializer : Option Expression → Option DeclId → Span → ScopeId → Option NodeId →
    BindM Unit
  | none, _, _, _, _ => pure ()
  | some initializer, declared, span, scope, control => do
    bindExpressionWithDemand initializer scope control .root false
    recordInitializer declared initializer span

def bindFunction : FunctionDeclaration → NodeId → ScopeId → BindM Unit
  | { typeParameters, parameters, returnType, body, hasBody, .. }, id, parent => do
    let scope ← newFlowScope parent id none none .ordinary
    declareTypeParameters scope typeParameters
    bindTypeParameterBounds typeParameters scope
    let bodyScope ← if hasBody then newAnonymousScope scope else pure scope
    declareParameters scope parameters
    bindParameterTypes parameters scope
    bindOptionalTypeNode returnType scope
    bindStatements body bodyScope none

def bindSwitchClauses : List SwitchClause → NodeId → ScopeId → BindM Unit
  | [], _, _ => pure ()
  | ⟨_, kind, statements⟩ :: clauses, id, scope => do
    bindSwitchClauseKind kind scope
    bindStatements statements scope (some id)
    bindSwitchClauses clauses id scope

def bindSwitchClauseKind : SwitchClauseKind → ScopeId → BindM Unit
  | .case expression, scope =>
    bindExpressionWithDemand expression scope (some expression.id) .root false
  | .default, _ => pure ()

def bindClass : ClassDeclaration → NodeId → ScopeId → DeclId → DeclId → BindM Unit
  | { typeParameters, extendsType, implementsTypes, members, .. }, id, parent, instance_,
      constructor => do
    let classScope ← newScopeWithContext parent (some id) none none
    declareTypeParameters classScope typeParameters
    bindTypeParameterBounds typeParameters classScope
    bindOptionalTypeNode extendsType classScope
    bindTypeNodesIn implementsTypes classScope
    bindClassMembers members classScope instance_ constructor

def bindClassMembers : List ClassMember → ScopeId → DeclId → DeclId → BindM Unit
  | [], _, _, _ => pure ()
  | member@{ id, modifiers, kind, .. } :: members, classScope, instance_, constructor => do
    bindClassMemberSymbol member classScope
    bindClassMemberKind kind id classScope (memberThis modifiers instance_ constructor) instance_
    bindClassMembers members classScope instance_ constructor

def bindClassMemberKind : ClassMemberKind → NodeId → ScopeId →
    LexicalThisOwner × Option DeclId → DeclId → BindM Unit
  | .property annotation initializer _ _, id, classScope, (lexicalThis, thisType), _ => do
    let memberScope ← newFlowScope classScope id (some lexicalThis) thisType .creation
    bindOptionalTypeNode annotation memberScope
    bindOptionalExpression initializer memberScope none
  | .constructor typeParameters parameters returnType body _ _, id, classScope, _,
      instance_ => do
    let memberScope ←
      newFlowScope classScope id (some (.classInstance instance_)) none .ordinary
    declareTypeParameters memberScope typeParameters
    bindTypeParameterBounds typeParameters memberScope
    let bodyScope ← newAnonymousScopeWithThisType memberScope (some instance_)
    declareParameters memberScope parameters
    bindParameterTypes parameters memberScope
    bindOptionalTypeNode returnType memberScope
    bindStatements body bodyScope none
  | .method typeParameters parameters returnType body _ _ _, id, classScope,
      (lexicalThis, thisType), _ => do
    let memberScope ← newFlowScope classScope id (some lexicalThis) thisType .ordinary
    declareTypeParameters memberScope typeParameters
    bindTypeParameterBounds typeParameters memberScope
    let bodyScope ← newAnonymousScopeWithThisType memberScope thisType
    declareParameters memberScope parameters
    bindParameterTypes parameters memberScope
    bindOptionalTypeNode returnType memberScope
    bindStatements body bodyScope none

end

end Tsz.Bind
