import Tsz.Bind.BoundFile
import Tsz.Lexical.Scoping

/-!
# The lexical scopes of a source unit

What the binder is for: every syntactic form as a scoping term that says which names it declares
in the scope around it, which scopes it opens and which names it refers to. Nothing here mentions
scope numbers, tables or the order of a walk.
-/

namespace Tsz.Bind

open Syntax Lexical

/-- What a declaration says, apart from the numbers the binder gives it. -/
structure Declared where
  owner : NodeId
  name : String
  nameSpan : Span
  kind : DeclarationKind
  meaning : Meaning
deriving DecidableEq, Repr

structure Reference where
  span : Span
  name : String
  meaning : Meaning
  isWriteAccess : Bool
  typeQueryRoot : Bool
deriving DecidableEq, Repr

/-- The two scoping disciplines differ in where `var` and `infer` declare their names. -/
structure LexicalRules where
  /-- `var` declares in the nearest function or module body. -/
  hoistVars : Bool
  /-- The names of `infer` types are visible in the true branch of their conditional type. -/
  scopeInfer : Bool

/-- Lexical scoping as the language defines it. -/
def ecmaScript : LexicalRules := ⟨true, true⟩

/-- Every declaration belongs to the block, switch or body around it; `infer` declares nothing. -/
def blockScoped : LexicalRules := ⟨false, false⟩

abbrev Term := Scoping Declared Reference

abbrev LexicalEnv := Scoping.Env (String × Meaning) Declared

def Declared.clashes (d e : Declared) : Bool := d.name = e.name && d.kind = e.kind

def Declared.fits (key : String × Meaning) (d : Declared) : Bool :=
  d.name = key.1 && d.meaning = key.2

/-! ## Infer binders -/

mutual

/-- The names the `infer` types of a conditional type's pattern introduce. Nested conditional
types own theirs. -/
def inferBinders : TypeNode → List (String × Span)
  | ⟨_, kind⟩ => inferBindersOfKind kind

def inferBindersOfKind : TypeNodeKind → List (String × Span)
  | .infer name nameSpan _ => [(name, nameSpan)]
  | .conditional _ _ _ _ => []
  | .array element | .keyOf element | .readonly element | .parenthesized element =>
    inferBinders element
  | .tuple elements | .union elements | .intersection elements => inferBindersOfAll elements
  | .object members => inferBindersOfMembers members
  | .function _ _ parameters _ returnType | .constructor _ _ parameters _ returnType _ =>
    inferBindersOfParameters parameters ++ inferBinders returnType
  | .reference _ _ arguments => inferBindersOfAll arguments
  | .predicate _ _ _ ty => inferBindersOfOption ty
  | .mapped _ _ constraint nameType valueType _ _ members =>
    inferBinders constraint ++ inferBindersOfOption nameType ++ inferBinders valueType ++
      inferBindersOfMembers members
  | .indexedAccess object index => inferBinders object ++ inferBinders index
  | .keyword _ | .literal _ | .this | .typeQuery _ _ _ | .missing => []

def inferBindersOfAll : List TypeNode → List (String × Span)
  | [] => []
  | node :: nodes => inferBinders node ++ inferBindersOfAll nodes

def inferBindersOfOption : Option TypeNode → List (String × Span)
  | none => []
  | some node => inferBinders node

def inferBindersOfParameters : List Parameter → List (String × Span)
  | [] => []
  | { annotation, .. } :: parameters =>
    inferBindersOfOption annotation ++ inferBindersOfParameters parameters

def inferBindersOfMembers : List TypeMember → List (String × Span)
  | [] => []
  | ⟨_, _, _, _, _, kind⟩ :: members => inferBindersOfMember kind ++ inferBindersOfMembers members

def inferBindersOfMember : TypeMemberKind → List (String × Span)
  | .property _ ty _ _ => inferBindersOfOption ty
  | .method _ _ _ parameters returnType | .accessor _ _ parameters returnType
  | .call _ parameters returnType | .construct _ parameters returnType
  | .index parameters returnType =>
    inferBindersOfParameters parameters ++ inferBindersOfOption returnType

end

/-! ## Names -/

def declaredMeanings (owner : NodeId) (name : String) (nameSpan : Span) (kind : DeclarationKind) :
    List Meaning → Term
  | [] => .empty
  | meaning :: meanings =>
    .seq (.declare ⟨owner, name, nameSpan, kind, meaning⟩)
      (declaredMeanings owner name nameSpan kind meanings)

def declaredHost (owner : NodeId) (host : UnmodeledDeclarationHostFact) : Term :=
  match host.name, host.nameSpan with
  | some name, some nameSpan =>
    declaredMeanings owner name nameSpan .unmodeledHost (hostMeanings host.kind)
  | _, _ => .empty

def declaredHosts (owner : NodeId) : List UnmodeledDeclarationHostFact → Term
  | [] => .empty
  | host :: hosts => .seq (declaredHost owner host) (declaredHosts owner hosts)

def declaredImports (owner : NodeId) : List ImportBinding → Term
  | [] => .empty
  | binding :: bindings =>
    .seq
      (declaredMeanings owner binding.localName binding.localSpan .import
        (if binding.typeOnly then [.type] else [.value, .type]))
      (declaredImports owner bindings)

def referredSpecifiers (typeOnly : Bool) : List ExportSpecifier → Term
  | [] => .empty
  | specifier :: specifiers =>
    .seq
      (.refer ⟨specifier.localSpan, specifier.localName,
        if typeOnly || specifier.typeOnly then .type else .value, false, false⟩)
      (referredSpecifiers typeOnly specifiers)

def declaredTypeParameters (owner : NodeId) : List TypeParameterDeclaration → Term
  | [] => .empty
  | parameter :: parameters =>
    .seq (.declareOnce ⟨owner, parameter.name, parameter.nameSpan, .typeParameter, .type⟩)
      (declaredTypeParameters owner parameters)

def declaredBindings (owner : NodeId) : List AuthoredBindingName → Term
  | [] => .empty
  | binding :: bindings =>
    .seq (.declareOnce ⟨owner, binding.name, binding.span, .parameter, .value⟩)
      (declaredBindings owner bindings)

def declaredParameters (owner : NodeId) : List Parameter → Term
  | [] => .empty
  | parameter :: parameters =>
    .seq
      (match parameter.nameKind with
        | .this => .empty
        | .binding =>
          .declareOnce ⟨owner, parameter.name, parameter.nameSpan, .parameter, .value⟩
        | .bindingPattern => declaredBindings owner parameter.recoveredBindingNames)
      (declaredParameters owner parameters)

/-- Only a `var` is hoisted. -/
def declaredVariable (kind : VariableKind) (d : Declared) : Term :=
  match kind with
  | .var => .hoist d
  | .let | .const => .declare d

def declaredVariables (kind : VariableKind) (owner : NodeId) : List AuthoredBindingName → Term
  | [] => .empty
  | binding :: bindings =>
    .seq (declaredVariable kind ⟨owner, binding.name, binding.span, .variable, .value⟩)
      (declaredVariables kind owner bindings)

def declaredDeclarator (kind : VariableKind) (owner : NodeId) (declarator : VariableDeclarator) :
    Term :=
  if declarator.recoveredBindingNames.isEmpty then
    declaredVariable kind ⟨owner, declarator.name, declarator.nameSpan, .variable, .value⟩
  else declaredVariables kind owner declarator.recoveredBindingNames

def declaredFunctionExpression (owner : NodeId) : FunctionLikeSyntax → Term
  | .function _ (some name) _ =>
    .declare ⟨owner, name.name, name.span, .functionExpression, .value⟩
  | .function _ none _ | .arrowExpression _ | .arrowBlock _ => .empty

/-- The infer binders around the true branch, under rules that scope them. -/
def inferScope (rules : LexicalRules) (owner : NodeId) (extendsType : TypeNode) (inner : Term) :
    Term :=
  if rules.scopeInfer then
    .block .empty ((inferBinders extendsType).foldr (fun binder rest =>
      .seq (.declare ⟨owner, binder.1, binder.2, .typeParameter, .type⟩) rest) inner)
  else inner

/-! ## Syntax -/

section Syntax

variable (rules : LexicalRules) (hosts : List UnmodeledDeclarationHostFact)

mutual

def termOfExpression : Expression → Bool → Term
  | ⟨id, _, kind⟩, write => termOfExpressionKind kind id write

def termOfExpressionKind : ExpressionKind → NodeId → Bool → Term
  | .identifier name nameSpan entityName, _, write =>
    if entityName then .refer ⟨nameSpan, name, .value, write, false⟩ else .empty
  | .this, _, _ | .literal _, _, _ | .regularExpression _, _, _ | .missing, _, _ => .empty
  | .template _ spans, _, _ => termOfTemplateSpans spans
  | .object properties, _, write => termOfProperties properties write
  | .array elements, _, _ => termOfExpressions elements
  | .call callee typeArguments arguments, id, _ =>
    .seq (termOfExpression callee false)
      (.seq (termOfOptionalTypeNodes typeArguments id) (termOfExpressions arguments))
  | .new callee typeArguments _ arguments _, id, _ =>
    .seq (termOfExpression callee false)
      (.seq (termOfTypeNodes typeArguments id) (termOfExpressions arguments))
  | .member object _ _, _, _ => termOfExpression object false
  | .parenthesized inner, _, write | .nonNull inner, _, write => termOfExpression inner write
  | .unary _ operand, _, _ => termOfExpression operand false
  | .as expression ty, id, _ => .seq (termOfExpression expression false) (termOfTypeNode ty id)
  | .elementAccess object index, _, _ =>
    .seq (termOfExpression object false) (termOfExpression index false)
  | .functionLike function, id, _ => termOfFunctionLike function id
  | .binary left _ _ right, _, _ =>
    .seq (termOfExpression left false) (termOfExpression right false)
  | .conditional condition _ whenTrue _ whenFalse, _, _ =>
    .seq (termOfExpression condition false)
      (.seq (termOfExpression whenTrue false) (termOfExpression whenFalse false))
  | .assignment left _ _ right _, _, _ =>
    .seq (termOfExpression left true) (termOfExpression right false)

def termOfExpressions : List Expression → Term
  | [] => .empty
  | expression :: expressions =>
    .seq (termOfExpression expression false) (termOfExpressions expressions)

def termOfOptionalExpression : Option Expression → Term
  | none => .empty
  | some expression => termOfExpression expression false

def termOfTemplateSpans : List TemplateSpan → Term
  | [] => .empty
  | ⟨expression, _⟩ :: spans =>
    .seq (termOfExpression expression false) (termOfTemplateSpans spans)

def termOfProperties : List ObjectProperty → Bool → Term
  | [], _ => .empty
  | { value, .. } :: properties, write =>
    .seq (termOfExpression value write) (termOfProperties properties write)

/-- A function's parameters form one scope, a statement body another one inside it. -/
def termOfFunctionLike : FunctionLikeExpression → NodeId → Term
  | { typeParameters, parameters, returnType, form, .. }, id =>
    .body .empty
      (.seq (declaredFunctionExpression id form)
        (.seq (declaredTypeParameters id typeParameters)
          (.seq (termOfBounds typeParameters id)
            (termOfForm form (declaredParameters id parameters)
              (termOfParameters parameters id) (termOfOptionalTypeNode returnType id)))))

/-- The body of a function after its signature, given as declarations, annotations and result. -/
def termOfForm : FunctionLikeSyntax → Term → Term → Term → Term
  | .arrowExpression body, names, types, result =>
    .seq (.seq names (.seq types result)) (termOfExpression body false)
  | .arrowBlock body, names, types, result | .function _ _ body, names, types, result =>
    .body (.seq names (.seq types result)) (termOfStatements body)

def termOfBounds : List TypeParameterDeclaration → NodeId → Term
  | [], _ => .empty
  | { constraint, default, .. } :: parameters, owner =>
    .seq (termOfOptionalTypeNode constraint owner)
      (.seq (termOfOptionalTypeNode default owner) (termOfBounds parameters owner))

def termOfParameters : List Parameter → NodeId → Term
  | [], _ => .empty
  | { annotation, initializer, .. } :: parameters, owner =>
    .seq (termOfOptionalTypeNode annotation owner)
      (.seq (termOfOptionalExpression initializer) (termOfParameters parameters owner))

def termOfOptionalTypeNode : Option TypeNode → NodeId → Term
  | none, _ => .empty
  | some node, owner => termOfTypeNode node owner

def termOfOptionalTypeNodes : Option (List TypeNode) → NodeId → Term
  | none, _ => .empty
  | some nodes, owner => termOfTypeNodes nodes owner

def termOfTypeNodes : List TypeNode → NodeId → Term
  | [], _ => .empty
  | node :: nodes, owner => .seq (termOfTypeNode node owner) (termOfTypeNodes nodes owner)

def termOfTypeNode : TypeNode → NodeId → Term
  | ⟨_, kind⟩, owner => termOfTypeNodeKind kind owner

def termOfTypeNodeKind : TypeNodeKind → NodeId → Term
  | .array element, owner | .keyOf element, owner | .readonly element, owner
  | .parenthesized element, owner => termOfTypeNode element owner
  | .tuple elements, owner | .union elements, owner | .intersection elements, owner =>
    termOfTypeNodes elements owner
  | .reference name nameSpan arguments, owner =>
    .seq (.refer ⟨nameSpan, name, .type, false, false⟩) (termOfTypeNodes arguments owner)
  | .typeQuery name nameSpan segmentSpans, _ =>
    .refer ⟨segmentSpans.head?.getD nameSpan, typeQueryRoot name, .value, false, true⟩
  | .object members, _ => .block .empty (termOfTypeMembers members)
  | .function id typeParameters parameters _ returnType, _
  | .constructor id typeParameters parameters _ returnType _, _ =>
    .block .empty
      (.seq (declaredTypeParameters id typeParameters)
        (.seq (termOfBounds typeParameters id)
          (.seq (declaredParameters id parameters)
            (.seq (termOfParameters parameters id) (termOfTypeNode returnType id)))))
  | .infer _ _ constraint, owner => termOfOptionalTypeNode constraint owner
  | .predicate _ _ _ ty, owner => termOfOptionalTypeNode ty owner
  | .conditional checkType extendsType trueType falseType, owner =>
    .seq (termOfTypeNode checkType owner)
      (.seq (termOfTypeNode extendsType owner)
        (.seq (inferScope rules owner extendsType (termOfTypeNode trueType owner))
          (termOfTypeNode falseType owner)))
  | .mapped parameter parameterSpan constraint nameType valueType _ _ members, owner =>
    .seq (termOfTypeNode constraint owner)
      (.block .empty
        (.seq (.declareOnce ⟨owner, parameter, parameterSpan, .typeParameter, .type⟩)
          (.seq (termOfOptionalTypeNode nameType owner)
            (.seq (termOfTypeNode valueType owner) (termOfTypeMembers members)))))
  | .indexedAccess object index, owner =>
    .seq (termOfTypeNode object owner) (termOfTypeNode index owner)
  | .this, _ | .keyword _, _ | .literal _, _ | .missing, _ => .empty

def termOfTypeMembers : List TypeMember → Term
  | [] => .empty
  | member :: members => .seq (termOfTypeMember member) (termOfTypeMembers members)

def termOfTypeMember : TypeMember → Term
  | ⟨id, _, recovered, _, _, kind⟩ => if recovered then .empty else termOfTypeMemberKind kind id

/-- A computed name is outside of the member's own scope. -/
def termOfTypeMemberKind : TypeMemberKind → NodeId → Term
  | .property name ty _ initializer, id =>
    .block (termOfTypeMemberName name)
      (.seq (termOfOptionalTypeNode ty id) (termOfOptionalExpression initializer))
  | .method name _ typeParameters parameters returnType, id =>
    .block (termOfTypeMemberName name)
      (.seq (declaredTypeParameters id typeParameters)
        (.seq (termOfBounds typeParameters id)
          (.seq (declaredParameters id parameters)
            (.seq (termOfParameters parameters id) (termOfOptionalTypeNode returnType id)))))
  | .accessor name _ parameters returnType, id =>
    .block (termOfTypeMemberName name)
      (.seq (declaredParameters id parameters)
        (.seq (termOfParameters parameters id) (termOfOptionalTypeNode returnType id)))
  | .call typeParameters parameters returnType, id
  | .construct typeParameters parameters returnType, id =>
    .block .empty
      (.seq (declaredTypeParameters id typeParameters)
        (.seq (termOfBounds typeParameters id)
          (.seq (declaredParameters id parameters)
            (.seq (termOfParameters parameters id) (termOfOptionalTypeNode returnType id)))))
  | .index parameters valueType, id =>
    .block .empty
      (.seq (declaredParameters id parameters)
        (.seq (termOfParameters parameters id) (termOfOptionalTypeNode valueType id)))

def termOfTypeMemberName : TypeMemberName → Term
  | ⟨_, .computed expression⟩ => termOfExpression expression false
  | ⟨_, .identifier _⟩ | ⟨_, .stringLiteral _ _⟩ | ⟨_, .numericLiteral _⟩
  | ⟨_, .bigIntLiteral _⟩ => .empty

def termOfStatements : List Statement → Term
  | [] => .empty
  | statement :: statements => .seq (termOfStatement statement) (termOfStatements statements)

def termOfOptionalStatement : Option Statement → Term
  | none => .empty
  | some statement => termOfStatement statement

/-- A statement declares the hosts that start with it; a host with a parsed body replaces it, and
a host with an omitted body hides what recovery left inside. -/
def termOfStatement : Statement → Term
  | ⟨id, span, kind⟩ =>
    let own := hosts.filter fun host => host.ownerStart = span.start
    .seq (declaredHosts id own)
      (match own.find? fun host => host.body = .parsedStatements with
        | some host => termOfHostBody kind host.kind
        | none =>
          if hosts.any fun host => UnmodeledDeclarationHostFact.hides host span then .empty
          else termOfStatementKind kind id)

def termOfHostBody : StatementKind → UnmodeledDeclarationHostKind → Term
  | .block statements, host =>
    match host with
    | .namespace | .module | .externalModule => .body .empty (termOfStatements statements)
    | .global => termOfStatements statements
    | .enum | .using => .empty
  | _, _ => .empty

def termOfStatementKind : StatementKind → NodeId → Term
  | .import declaration, id => declaredImports id declaration.bindings
  | .variable ⟨kind, declarators, _, _, _⟩, id => termOfDeclarators declarators kind id
  | .function declaration, id =>
    .seq (.declare ⟨id, declaration.name, declaration.nameSpan, .function, .value⟩)
      (termOfFunction declaration id)
  | .class declaration, id =>
    .seq
      (declaredMeanings id declaration.name declaration.nameSpan .class [.value, .type])
      (termOfClass declaration id)
  | .typeAlias ⟨name, nameSpan, typeParameters, ty, _⟩, id =>
    .seq (.declare ⟨id, name, nameSpan, .typeAlias, .type⟩)
      (.block .empty
        (.seq (declaredTypeParameters id typeParameters)
          (.seq (termOfBounds typeParameters id) (termOfTypeNode ty id))))
  | .interface ⟨name, nameSpan, typeParameters, extendsTypes, members, _⟩, id =>
    .seq (.declare ⟨id, name, nameSpan, .interface, .type⟩)
      (.block .empty
        (.seq (declaredTypeParameters id typeParameters)
          (.seq (termOfBounds typeParameters id)
            (.seq (termOfTypeNodes extendsTypes id) (termOfTypeMembers members)))))
  | .block statements, _ => .block .empty (termOfStatements statements)
  | .if condition thenStatement elseStatement, _ =>
    .seq (termOfExpression condition false)
      (.seq (termOfStatement thenStatement) (termOfOptionalStatement elseStatement))
  | .switch expression clauses _, _ =>
    .block (termOfExpression expression false) (termOfSwitchClauses clauses)
  | .export ⟨specifiers, _, _, typeOnly, _, _, assignment⟩, _ =>
    .seq (referredSpecifiers typeOnly specifiers) (termOfOptionalExpression assignment)
  | .return expression, _ => termOfOptionalExpression expression
  | .expression expression, _ => termOfExpression expression false
  | .break _, _ | .continue _, _ | .empty, _ | .unknown, _ => .empty

def termOfDeclarators : List VariableDeclarator → VariableKind → NodeId → Term
  | [], _, _ => .empty
  | declarator@⟨_, _, _, annotation, initializer⟩ :: declarators, kind, id =>
    .seq (declaredDeclarator kind id declarator)
      (.seq (termOfOptionalExpression initializer)
        (.seq (termOfOptionalTypeNode annotation id) (termOfDeclarators declarators kind id)))

def termOfFunction : FunctionDeclaration → NodeId → Term
  | { typeParameters, parameters, returnType, body, hasBody, .. }, id =>
    let signature : Term :=
      .seq (declaredParameters id parameters)
        (.seq (termOfParameters parameters id) (termOfOptionalTypeNode returnType id))
    .body .empty
      (.seq (declaredTypeParameters id typeParameters)
        (.seq (termOfBounds typeParameters id)
          (if hasBody then .body signature (termOfStatements body)
          else .seq signature (termOfStatements body))))

def termOfSwitchClauses : List SwitchClause → Term
  | [] => .empty
  | ⟨_, kind, statements⟩ :: clauses =>
    .seq (termOfSwitchClauseKind kind)
      (.seq (termOfStatements statements) (termOfSwitchClauses clauses))

def termOfSwitchClauseKind : SwitchClauseKind → Term
  | .case expression => termOfExpression expression false
  | .default => .empty

def termOfClass : ClassDeclaration → NodeId → Term
  | { typeParameters, extendsType, implementsTypes, members, .. }, id =>
    .block .empty
      (.seq (declaredTypeParameters id typeParameters)
        (.seq (termOfBounds typeParameters id)
          (.seq (termOfOptionalTypeNode extendsType id)
            (.seq (termOfTypeNodes implementsTypes id) (termOfClassMembers members)))))

def termOfClassMembers : List ClassMember → Term
  | [] => .empty
  | { id, kind, .. } :: members =>
    .seq (termOfClassMemberKind kind id) (termOfClassMembers members)

def termOfClassMemberKind : ClassMemberKind → NodeId → Term
  | .property annotation initializer _ _, id =>
    .body .empty
      (.seq (termOfOptionalTypeNode annotation id) (termOfOptionalExpression initializer))
  | .constructor typeParameters parameters returnType body _ _, id
  | .method typeParameters parameters returnType body _ _ _, id =>
    .body .empty
      (.seq (declaredTypeParameters id typeParameters)
        (.seq (termOfBounds typeParameters id)
          (.body
            (.seq (declaredParameters id parameters)
              (.seq (termOfParameters parameters id) (termOfOptionalTypeNode returnType id)))
            (termOfStatements body))))

end

end Syntax

/-! ## References -/

/-- What a reference means in an environment: a type query may also start at an import. -/
def Reference.resolveIn (reference : Reference) (env : LexicalEnv) : Option Declared :=
  if reference.typeQueryRoot then
    env (reference.name, .value) <|>
      (env (reference.name, .type)).filter fun d => d.kind = .import
  else env (reference.name, reference.meaning)

/-- What a reference of a unit comes to: a declaration of the unit, or a name the program's
global scope has to know. -/
inductive Resolution
  | declaration (declared : Declared)
  | programGlobal (name : String) (meaning : Meaning)
deriving DecidableEq, Repr

def Reference.resolution (reference : Reference) (env : LexicalEnv) : Resolution :=
  match reference.resolveIn env with
  | some declared => .declaration declared
  | none => .programGlobal reference.name reference.meaning

/-- Every reference of a unit, in source order, with what lexical scoping assigns to it. -/
def lexicalReferences (rules : LexicalRules) (unit : SourceUnit) :
    List (Span × Bool × Resolution) :=
  let term := termOfStatements rules unit.unmodeledDeclarationHosts unit.statements
  let env : LexicalEnv := Scoping.Env.extend Declared.fits (fun _ => none)
    (term.bodyFrame Declared.clashes rules.hoistVars)
  (term.references Declared.clashes Declared.fits rules.hoistVars env).map fun (reference, env) =>
    (reference.span, reference.isWriteAccess, reference.resolution env)

/-! ## References of bound files -/

def BoundDeclaration.declared (d : BoundDeclaration) : Declared :=
  ⟨d.owner, d.name, d.nameSpan, d.kind, d.meaning⟩

/-- The target of a reference fact; `none` for an identity that is not of the file. -/
def BoundFile.resolution (bound : BoundFile) : BoundReferenceTarget → Option Resolution
  | .declaration id => (bound.declaration id).map fun d => .declaration d.declared
  | .programGlobal name meaning => some (.programGlobal name meaning)

def BoundFile.resolvedReferences (bound : BoundFile) : List (Span × Bool × Option Resolution) :=
  bound.referenceFacts.map fun fact =>
    (fact.span, fact.isWriteAccess, bound.resolution fact.target)

/-- Binding succeeds, and the references of the bound file are those of lexical scoping. -/
def FollowsScoping [NumberFormat] (rules : LexicalRules) (file : FileId)
    (sourceKind : SourceKind) (unit : SourceUnit) : Prop :=
  (bindSourceWithKind file sourceKind unit).map (·.resolvedReferences) =
    some ((lexicalReferences rules unit).map fun (span, write, resolution) =>
      (span, write, some resolution))

instance [NumberFormat] (rules : LexicalRules) (file : FileId) (sourceKind : SourceKind)
    (unit : SourceUnit) : Decidable (FollowsScoping rules file sourceKind unit) :=
  inferInstanceAs (Decidable (_ = _))

end Tsz.Bind
