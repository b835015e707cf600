import Tsz.Bind.Refinement

/-!
# The walk realizes the lexical scopes

Each function of the walk succeeds and does to the tables what its term says, by induction on
syntax. The references of a bound file are then those of lexical scoping.
-/

namespace Tsz.Bind

open Syntax Lexical

variable {hosts : List UnmodeledDeclarationHostFact} {owner : Option NodeId} {s : ScopeId}

/-! ## Lists of names -/

theorem realizes_declareMeanings (node : NodeId) (name : String) (span : Span)
    (kind : DeclarationKind) (meanings : List Meaning) :
    Realizes hosts owner (declareMeanings s node name span kind meanings) s
      (declaredMeanings node name span kind meanings) := by
  induction meanings with
  | nil => exact .pure ()
  | cons meaning meanings ih => exact (realizes_declare _ _ _ _ _).bind fun _ => ih

theorem realizes_declareHosts (node : NodeId) (own : List UnmodeledDeclarationHostFact) :
    Realizes hosts owner (declareHosts s node own) s (declaredHosts node own) := by
  induction own with
  | nil => exact .pure ()
  | cons host own ih =>
    refine Realizes.bind ?_ fun _ => ih
    unfold declareHost declaredHost
    cases host.name with
    | none => exact .pure ()
    | some name =>
      cases host.nameSpan with
      | none => exact .pure ()
      | some span => exact realizes_declareMeanings _ _ _ _ _

theorem realizes_declareImports (node : NodeId) (bindings : List ImportBinding) :
    Realizes hosts owner (declareImports s node bindings) s (declaredImports node bindings) := by
  induction bindings with
  | nil => exact .pure ()
  | cons binding bindings ih => exact (realizes_declareMeanings _ _ _ _ _).bind fun _ => ih

theorem realizes_recordSpecifiers (typeOnly : Bool) (specifiers : List ExportSpecifier) :
    Realizes hosts owner (recordSpecifiers s typeOnly specifiers) s
      (referredSpecifiers typeOnly specifiers) := by
  induction specifiers with
  | nil => exact .pure ()
  | cons specifier specifiers ih =>
    exact (realizes_recordReference (.ofName _ _ s _ false) rfl).bind fun _ => ih

theorem realizes_declareTypeParameters {node : NodeId}
    (parameters : List TypeParameterDeclaration) :
    Realizes hosts (some node) (declareTypeParameters s parameters) s
      (declaredTypeParameters node parameters) := by
  refine realizes_ownerOf ?_
  induction parameters with
  | nil => exact .pure ()
  | cons parameter parameters ih => exact (realizes_declareParameter _ _ _ _ _).bind fun _ => ih

theorem realizes_declareBindings (node : NodeId) (bindings : List AuthoredBindingName) :
    Realizes hosts owner (declareBindings s node bindings) s (declaredBindings node bindings) := by
  induction bindings with
  | nil => exact .pure ()
  | cons binding bindings ih => exact (realizes_declareParameter _ _ _ _ _).bind fun _ => ih

theorem realizes_declareParameters {node : NodeId} (parameters : List Parameter) :
    Realizes hosts (some node) (declareParameters s parameters) s
      (declaredParameters node parameters) := by
  induction parameters with
  | nil => exact .pure ()
  | cons parameter parameters ih =>
    refine Realizes.bind ?_ fun _ => ih
    refine realizes_scopeAt_owned fun scope howner => ?_
    rw [howner]
    cases parameter.nameKind with
    | this => exact .pure ()
    | binding => exact (realizes_declareParameter _ _ _ _ _).before fun _ => .pure ()
    | bindingPattern => exact realizes_declareBindings _ _

/-- The walk declares a `var` like any other variable. -/
theorem realizes_declareVariable (kind : VariableKind) (node : NodeId) (name : String)
    (span : Span) :
    Realizes hosts owner (declare s node name span .variable .value) s
      (declaredVariable kind ⟨node, name, span, .variable, .value⟩) := by
  cases kind <;> exact realizes_declare _ _ _ _ _

theorem realizes_declareVariables (kind : VariableKind) (node : NodeId)
    (bindings : List AuthoredBindingName) :
    Realizes hosts owner (declareVariables s node bindings) s
      (declaredVariables kind node bindings) := by
  induction bindings with
  | nil => exact .pure ()
  | cons binding bindings ih => exact (realizes_declareVariable kind _ _ _).bind fun _ => ih

theorem realizes_declareDeclarator (kind : VariableKind) (node : NodeId)
    (declarator : VariableDeclarator) :
    Realizes hosts owner (declareDeclarator s node declarator) s
      (declaredDeclarator kind node declarator) := by
  unfold declareDeclarator declaredDeclarator
  split
  · exact (realizes_declareVariable kind _ _ _).map some
  · exact (realizes_declareVariables kind _ _).before fun _ => .pure none

theorem realizes_declareFunctionExpression (node : NodeId) (span : Span)
    (form : FunctionLikeSyntax) :
    Realizes hosts owner (declareFunctionExpression s node span form) s
      (declaredFunctionExpression node form) := by
  cases form with
  | arrowExpression body => exact .pure ()
  | arrowBlock body => exact .pure ()
  | function kind name body =>
    cases name with
    | none => exact (realizes_declareUnscoped _ _ _ _ _ _).before fun _ => .pure ()
    | some name => exact (realizes_declare _ _ _ _ _).before fun _ => .pure ()

/-! ## Facts besides names -/

theorem realizes_recordExpandoForm (declaration : DeclId) (initializer : Expression) :
    Realizes hosts owner (recordExpandoForm declaration initializer) s .empty := by
  unfold recordExpandoForm
  split
  · exact realizes_recordExpandoInitializer _
  · exact .pure ()

theorem realizes_recordEvolvingArray (declared : DeclId) (initializer : Expression) :
    Realizes hosts owner (recordEvolvingArray declared initializer) s .empty := by
  unfold recordEvolvingArray
  split
  · exact realizes_modifyFlowFacts _
  · exact .pure ()

theorem realizes_recordJavascriptExpando (declared : DeclId) (fits : Bool) :
    Realizes hosts owner (recordJavascriptExpando declared fits) s .empty := by
  refine realizes_get fun b _ => ?_
  split
  · exact realizes_recordExpandoInitializer _
  · exact .pure ()

theorem realizes_recordDeclaratorForm (declared : Option DeclId)
    (declarator : VariableDeclarator) :
    Realizes hosts owner (recordDeclaratorForm declared declarator) s .empty := by
  unfold recordDeclaratorForm
  split
  · exact (realizes_recordEvolvingArray _ _).after fun _ => realizes_recordJavascriptExpando _ _
  · exact .pure ()

theorem realizes_recordInitializer (declared : Option DeclId) (initializer : Expression)
    (span : Span) :
    Realizes hosts owner (recordInitializer declared initializer span) s .empty := by
  unfold recordInitializer
  split
  · exact realizes_modifyFlowFacts _
  · exact .pure ()

theorem realizes_bindJavascriptPropertyUse (expression : NodeId) :
    Realizes hosts owner (bindJavascriptPropertyUse expression) s .empty := by
  refine realizes_get fun b _ => ?_
  split
  · exact .pure ()
  · exact realizes_modify (fun _ => rfl) (fun _ => rfl) (fun _ => rfl) (fun _ => rfl) fun _ => rfl

theorem propertyPath_peelParentheses (expression : Expression) :
    propertyPath expression.peelParentheses = propertyPath expression := by
  fun_induction Expression.peelParentheses expression with
  | case1 id span inner ih => rw [ih, propertyPath]
  | case2 expression h => rfl

/-- A member access names at least one property. -/
theorem ne_nil_of_javascriptNamedPropertyPath {expression : Expression} {root : String}
    {properties : List String} {span : Span}
    (h : javascriptNamedPropertyPath expression = some (root, properties, span)) :
    properties ≠ [] := by
  unfold javascriptNamedPropertyPath at h
  split at h
  · rename_i object name nameSpan hkind
    rw [← propertyPath_peelParentheses] at h
    cases hpeel : expression.peelParentheses with
    | mk id span' kind =>
    rw [hpeel] at h hkind
    subst hkind
    simp only [propertyPath, Option.bind_eq_bind, Option.bind_eq_some_iff] at h
    obtain ⟨⟨root', properties'⟩, ⟨⟨r, ps⟩, -, hps⟩, heq⟩ := h
    simp only [Option.pure_def, Option.some.injEq, Prod.mk.injEq] at hps heq
    rw [← heq.2.1, ← hps.2]
    simp
  · cases h

theorem realizes_declareJavascriptProperty (expression : NodeId) (left right : Expression)
    (scope : ScopeId) :
    Realizes hosts owner (declareJavascriptProperty expression left right scope) s .empty := by
  unfold declareJavascriptProperty
  split
  · exact .pure _
  · rename_i root properties span hpath
    obtain ⟨last, hlast⟩ := Option.ne_none_iff_exists'.1
      (mt List.getLast?_eq_none_iff.1 (ne_nil_of_javascriptNamedPropertyPath hpath))
    simp only [hlast]
    refine (realizes_declareUnscoped _ _ _ _ _ _).after fun declaration => ?_
    exact (realizes_recordExpandoForm _ _).after fun _ => .pure _

theorem realizes_bindJavascriptPropertyAssignment (expression : NodeId) (left right : Expression)
    (scope : ScopeId) :
    Realizes hosts owner (bindJavascriptPropertyAssignment expression left right scope) s
      .empty := by
  refine realizes_get fun b _ => ?_
  split
  · exact .pure ()
  · split
    · exact .pure ()
    · exact (realizes_declareJavascriptProperty _ _ _ _).after fun _ =>
        realizes_modify (fun _ => rfl) (fun _ => rfl) (fun _ => rfl) (fun _ => rfl) fun _ => rfl

theorem realizes_recordAssignment (expression : NodeId) (effectSpan : Span)
    (left right : Expression) (operator : AssignmentOperator) (scope : ScopeId)
    (control : Option NodeId) :
    Realizes hosts owner (recordAssignment expression effectSpan left right operator scope control)
      s .empty := by
  have property : Realizes hosts owner (bindAssignedProperty expression left right operator scope)
      s .empty := by
    unfold bindAssignedProperty
    split
    · exact realizes_bindJavascriptPropertyAssignment _ _ _ _
    · exact .pure ()
  have mutation : Realizes hosts owner (recordMutation left right operator control effectSpan)
      s .empty := by
    unfold recordMutation
    split
    · exact .pure ()
    · exact realizes_modifyFlowFacts _
  have element : Realizes hosts owner (recordElementWrite left) s .empty := by
    unfold recordElementWrite
    split
    · exact .pure ()
    · exact realizes_modifyFlowFacts _
  exact property.after fun _ => mutation.after fun _ => element

section Walk

variable [NumberFormat]

theorem realizes_bindTypeMemberSymbol (member : TypeMember) (container : ScopeId) :
    Realizes hosts owner (bindTypeMemberSymbol member container) s .empty := by
  unfold bindTypeMemberSymbol
  refine (realizes_declareUnscoped _ _ _ _ _ _).after fun declaration => ?_
  refine Realizes.after ?_ fun _ =>
    realizes_modify (fun _ => rfl) (fun _ => rfl) (fun _ => rfl) (fun _ => rfl) fun _ => rfl
  unfold addToTypeMemberGroup
  split
  · exact .pure ()
  · exact realizes_modify (fun _ => rfl) (fun _ => rfl) (fun _ => rfl) (fun _ => rfl) fun _ => rfl

theorem realizes_bindClassMemberSymbol (member : ClassMember) (container : ScopeId) :
    Realizes hosts owner (bindClassMemberSymbol member container) s .empty := by
  unfold bindClassMemberSymbol
  split
  · exact .pure ()
  · exact (realizes_declareUnscoped _ _ _ _ _ _).after fun _ =>
      realizes_modify (fun _ => rfl) (fun _ => rfl) (fun _ => rfl) (fun _ => rfl) fun _ => rfl

/-! ## The walk -/

mutual

theorem realizes_expression {owner : Option NodeId} {s : ScopeId} :
    ∀ (expression : Expression) (control : Option NodeId) (demand : FlowDemandPath)
      (write : Bool),
      Realizes hosts owner (bindExpressionWithDemand expression s control demand write) s
        (termOfExpression blockScoped hosts expression write)
  | ⟨id, span, kind⟩, control, demand, write => by
    exact (realizes_recordScope _ _).after fun _ => realizes_expressionKind kind _ _ _ _ _

theorem realizes_expressionKind {owner : Option NodeId} {s : ScopeId} :
    ∀ (kind : ExpressionKind) (id : NodeId) (span : Span) (control : Option NodeId)
      (demand : FlowDemandPath) (write : Bool),
      Realizes hosts owner (bindExpressionKind kind id span s control demand write) s
        (termOfExpressionKind blockScoped hosts kind id write)
  | .identifier name nameSpan true, _, _, _, _, write => by
    exact (realizes_recordReference (.ofName _ _ s _ write) rfl).before fun _ =>
      realizes_modifyFlowFacts _
  | .identifier _ _ false, _, _, _, _, _ => by
    exact .pure ()
  | .this, _, _, _, _, _ | .literal _, _, _, _, _, _ | .regularExpression _, _, _, _, _, _
  | .missing, _, _, _, _, _ => by
    exact .pure ()
  | .template _ spans, _, _, _, _, _ => by
    exact realizes_templateSpans spans _
  | .object properties, _, _, _, _, _ => by
    exact realizes_properties properties _ _
  | .array elements, _, _, _, _, _ => by
    exact realizes_expressions elements _
  | .call callee typeArguments arguments, _, _, _, _, _ => by
    exact (realizes_expression callee _ _ _).bind fun _ =>
      (realizes_optionalTypeNodes typeArguments _).bind fun _ => realizes_expressions arguments _
  | .new callee typeArguments _ arguments _, _, _, _, _, _ => by
    exact (realizes_expression callee _ _ _).bind fun _ =>
      (realizes_typeNodes typeArguments _).bind fun _ => realizes_expressions arguments _
  | .member object _ _, _, _, _, _, _ => by
    exact (realizes_bindJavascriptPropertyUse _).after fun _ => realizes_expression object _ _ _
  | .parenthesized inner, _, _, _, _, _ | .nonNull inner, _, _, _, _, _ => by
    exact realizes_expression inner _ _ _
  | .unary _ operand, _, _, _, _, _ => by
    exact realizes_expression operand _ _ _
  | .as expression ty, _, _, _, _, _ => by
    exact (realizes_expression expression _ _ _).bind fun _ => realizes_typeNode ty _
  | .elementAccess object index, _, _, _, _, _ => by
    exact (realizes_expression object _ _ _).bind fun _ => realizes_expression index _ _ _
  | .functionLike function, _, _, _, _, _ => by
    exact realizes_functionLike function _ _
  | .binary left _ _ right, _, _, _, _, _ => by
    exact (realizes_expression left _ _ _).bind fun _ => realizes_expression right _ _ _
  | .conditional condition _ whenTrue _ whenFalse, _, _, _, _, _ => by
    exact (realizes_expression condition _ _ _).bind fun _ =>
      (realizes_expression whenTrue _ _ _).bind fun _ => realizes_expression whenFalse _ _ _
  | .assignment left _ _ right _, _, _, _, _, _ => by
    exact (realizes_expression left _ _ _).bind fun _ =>
      (realizes_expression right _ _ _).before fun _ => realizes_recordAssignment _ _ _ _ _ _ _

theorem realizes_expressions {owner : Option NodeId} {s : ScopeId} :
    ∀ (expressions : List Expression) (control : Option NodeId),
      Realizes hosts owner (bindExpressions expressions s control) s
        (termOfExpressions blockScoped hosts expressions)
  | [], _ => by
    exact .pure ()
  | expression :: expressions, _ => by
    exact (realizes_expression expression _ _ _).bind fun _ => realizes_expressions expressions _

theorem realizes_templateSpans {owner : Option NodeId} {s : ScopeId} :
    ∀ (spans : List TemplateSpan) (control : Option NodeId),
      Realizes hosts owner (bindTemplateSpans spans s control) s
        (termOfTemplateSpans blockScoped hosts spans)
  | [], _ => by
    exact .pure ()
  | ⟨expression, _⟩ :: spans, _ => by
    exact (realizes_expression expression _ _ _).bind fun _ => realizes_templateSpans spans _

theorem realizes_properties {owner : Option NodeId} {s : ScopeId} :
    ∀ (properties : List ObjectProperty) (control : Option NodeId) (write : Bool),
      Realizes hosts owner (bindProperties properties s control write) s
        (termOfProperties blockScoped hosts properties write)
  | [], _, _ => by
    exact .pure ()
  | ⟨_, _, _, _, _, value, _, _, _, _⟩ :: properties, _, _ => by
    exact (realizes_expression value _ _ _).bind fun _ => realizes_properties properties _ _

theorem realizes_functionLike {owner : Option NodeId} {s : ScopeId} :
    ∀ (function : FunctionLikeExpression) (id : NodeId) (span : Span),
      Realizes hosts owner (bindFunctionLike function id span s) s
        (termOfFunctionLike blockScoped hosts function id)
  | ⟨typeParameters, parameters, returnType, _, _, .arrowExpression body⟩, _, _ => by
    refine (Realizes.nest_inside (opens_newFunctionLikeScope _ _) fun c => ?_).asBody
    refine (realizes_declareFunctionExpression _ _ _).bind fun _ => ?_
    refine (realizes_declareTypeParameters _).bind fun _ => ?_
    refine (realizes_bounds typeParameters _).bind fun _ => ?_
    exact (realizes_declareParameters _).bind fun _ =>
      (realizes_parameterTypes parameters _).bind fun _ =>
        (realizes_optionalTypeNode returnType _).bind fun _ => realizes_expression body _ _ _
  | ⟨typeParameters, parameters, returnType, _, _, .arrowBlock body⟩, _, _
  | ⟨typeParameters, parameters, returnType, _, _, .function _ _ body⟩, _, _ => by
    refine (Realizes.nest_inside (opens_newFunctionLikeScope _ _) fun c => ?_).asBody
    refine (realizes_declareFunctionExpression _ _ _).bind fun _ => ?_
    refine (realizes_declareTypeParameters _).bind fun _ => ?_
    refine (realizes_bounds typeParameters _).bind fun _ => ?_
    exact Realizes.nest_signature opens_newAnonymousScope (realizes_declareParameters _)
      (realizes_parameterTypes parameters _) (realizes_optionalTypeNode returnType _)
      fun c => realizes_statements body _

theorem realizes_bounds {s : ScopeId} :
    ∀ (parameters : List TypeParameterDeclaration) (node : NodeId),
      Realizes hosts (some node) (bindTypeParameterBounds parameters s) s
        (termOfBounds blockScoped hosts parameters node)
  | [], _ => by
    exact .pure ()
  | ⟨_, _, _, constraint, default, _, _, _⟩ :: parameters, _ => by
    exact (realizes_optionalTypeNode constraint _).bind fun _ =>
      (realizes_optionalTypeNode default _).bind fun _ => realizes_bounds parameters _

theorem realizes_parameterTypes {s : ScopeId} :
    ∀ (parameters : List Parameter) (node : NodeId),
      Realizes hosts (some node) (bindParameterTypes parameters s) s
        (termOfParameters blockScoped hosts parameters node)
  | [], _ => by
    exact .pure ()
  | ⟨_, _, _, _, annotation, initializer, _, _, _, _, _, _, _, _⟩ :: parameters, _ => by
    exact (realizes_optionalTypeNode annotation _).bind fun _ =>
      (realizes_optionalExpression initializer _).bind fun _ => realizes_parameterTypes parameters _

theorem realizes_optionalExpression {owner : Option NodeId} {s : ScopeId} :
    ∀ (expression : Option Expression) (control : Option NodeId),
      Realizes hosts owner (bindOptionalExpression expression s control) s
        (termOfOptionalExpression blockScoped hosts expression)
  | none, _ => by
    exact .pure ()
  | some expression, _ => by
    exact realizes_expression expression _ _ _

theorem realizes_optionalTypeNode {s : ScopeId} :
    ∀ (node : Option TypeNode) (o : NodeId),
      Realizes hosts (some o) (bindOptionalTypeNode node s) s
        (termOfOptionalTypeNode blockScoped hosts node o)
  | none, _ => by
    exact .pure ()
  | some node, _ => by
    exact realizes_nearestScopeOwner (realizes_typeNode node _)

theorem realizes_optionalTypeNodes {owner : Option NodeId} {s : ScopeId} :
    ∀ (nodes : Option (List TypeNode)) (o : NodeId),
      Realizes hosts owner (bindOptionalTypeNodes nodes s (some o)) s
        (termOfOptionalTypeNodes blockScoped hosts nodes o)
  | none, _ => by
    exact .pure ()
  | some nodes, _ => by
    exact realizes_typeNodes nodes _

theorem realizes_typeNodes {owner : Option NodeId} {s : ScopeId} :
    ∀ (nodes : List TypeNode) (o : NodeId),
      Realizes hosts owner (bindTypeNodes nodes s (some o)) s
        (termOfTypeNodes blockScoped hosts nodes o)
  | [], _ => by
    exact .pure ()
  | node :: nodes, _ => by
    exact (realizes_typeNode node _).bind fun _ => realizes_typeNodes nodes _

theorem realizes_typeNodesIn {s : ScopeId} :
    ∀ (nodes : List TypeNode) (o : NodeId),
      Realizes hosts (some o) (bindTypeNodesIn nodes s) s
        (termOfTypeNodes blockScoped hosts nodes o)
  | [], _ => by
    exact .pure ()
  | node :: nodes, _ => by
    exact realizes_nearestScopeOwner
      ((realizes_typeNode node _).bind fun _ => realizes_typeNodesIn nodes _)

theorem realizes_typeNodeOption {owner : Option NodeId} {s : ScopeId} :
    ∀ (node : Option TypeNode) (o : NodeId),
      Realizes hosts owner (bindTypeNodeOption node s (some o)) s
        (termOfOptionalTypeNode blockScoped hosts node o)
  | none, _ => by
    exact .pure ()
  | some node, _ => by
    exact realizes_typeNode node _

theorem realizes_typeNode {owner : Option NodeId} {s : ScopeId} :
    ∀ (node : TypeNode) (o : NodeId),
      Realizes hosts owner (bindTypeNodeWithOwner node s (some o)) s
        (termOfTypeNode blockScoped hosts node o)
  | ⟨span, kind⟩, _ => by
    exact realizes_typeNodeKind kind _ _

theorem realizes_typeNodeKind {owner : Option NodeId} {s : ScopeId} :
    ∀ (kind : TypeNodeKind) (span : Span) (o : NodeId),
      Realizes hosts owner (bindTypeNodeKind kind span s (some o)) s
        (termOfTypeNodeKind blockScoped hosts kind o)
  | .array element, _, _ | .keyOf element, _, _ | .readonly element, _, _
  | .parenthesized element, _, _ => by
    exact realizes_typeNode element _
  | .tuple elements, _, _ | .union elements, _, _ | .intersection elements, _, _ => by
    exact realizes_typeNodes elements _
  | .this, _, _ => by
    refine realizes_scopeAt.after fun scope => ?_
    split
    · exact realizes_modify (fun _ => rfl) (fun _ => rfl) (fun _ => rfl) (fun _ => rfl) fun _ => rfl
    · exact .pure ()
  | .reference name nameSpan arguments, _, _ => by
    exact (realizes_recordReference (.ofName _ _ s _ false) rfl).bind fun _ =>
      realizes_typeNodes arguments _
  | .typeQuery name nameSpan segmentSpans, _, _ => by
    exact realizes_recordReference (.ofTypeQueryRoot _ _ s) rfl
  | .object members, _, _ => by
    exact (realizes_declareUnscoped _ _ _ _ _ _).after fun _ =>
      Realizes.nest_inside opens_newTypeLiteralScope fun c => realizes_typeMembers members
  | .function id typeParameters parameters _ returnType, _, _
  | .constructor id typeParameters parameters _ returnType _, _, _ => by
    refine (realizes_declareUnscoped _ _ _ _ _ _).after fun _ => ?_
    refine Realizes.after (realizes_modify (fun _ => rfl) (fun _ => rfl) (fun _ => rfl)
      (fun _ => rfl) fun _ => rfl) fun _ => ?_
    refine Realizes.nest_inside (opens_newScope id) fun c => ?_
    exact (realizes_declareTypeParameters _).bind fun _ =>
      (realizes_bounds typeParameters _).bind fun _ =>
        (realizes_declareParameters _).bind fun _ =>
          (realizes_parameterTypes parameters _).bind fun _ =>
            realizes_nearestScopeOwner (realizes_typeNode returnType _)
  | .infer _ _ constraint, _, _ => by
    exact realizes_typeNodeOption constraint _
  | .predicate _ _ _ ty, _, _ => by
    exact realizes_typeNodeOption ty _
  | .conditional checkType extendsType trueType falseType, _, _ => by
    exact (realizes_typeNode checkType _).bind fun _ =>
      (realizes_typeNode extendsType _).bind fun _ =>
        (realizes_typeNode trueType _).bind fun _ => realizes_typeNode falseType _
  | .mapped _ _ constraint nameType valueType _ _ members, _, _ => by
    refine (realizes_typeNode constraint _).bind fun _ => ?_
    refine Realizes.nest_inside opens_newAnonymousScope fun c => ?_
    exact (realizes_declareParameter _ _ _ _ _).bind fun _ =>
      (realizes_typeNodeOption nameType _).bind fun _ =>
        (realizes_typeNode valueType _).bind fun _ => realizes_typeMembers members
  | .indexedAccess object index, _, _ => by
    exact (realizes_typeNode object _).bind fun _ => realizes_typeNode index _
  | .keyword _, _, _ | .literal _, _, _ | .missing, _, _ => by
    exact .pure ()

theorem realizes_typeMembers {owner : Option NodeId} {s : ScopeId} :
    ∀ members : List TypeMember,
      Realizes hosts owner (bindTypeMembers members s) s
        (termOfTypeMembers blockScoped hosts members)
  | [] => by
    exact .pure ()
  | member :: members => by
    exact (realizes_typeMember member).bind fun _ => realizes_typeMembers members

theorem realizes_typeMember {owner : Option NodeId} {s : ScopeId} :
    ∀ member : TypeMember,
      Realizes hosts owner (bindTypeMember member s) s (termOfTypeMember blockScoped hosts member)
  | ⟨_, _, true, _, _, _⟩ => by
    exact .pure ()
  | ⟨id, _, false, _, _, kind⟩ => by
    refine (realizes_bindTypeMemberSymbol _ _).after fun _ => ?_
    exact realizes_typeMemberKind kind id

/-- The member's own scope is open before its name is bound outside of it. -/
theorem realizes_typeMemberKind {owner : Option NodeId} {s : ScopeId} :
    ∀ (kind : TypeMemberKind) (id : NodeId),
      Realizes hosts owner (newScope s id >>= fun c => bindTypeMemberKind kind s c) s
        (termOfTypeMemberKind blockScoped hosts kind id)
  | .property name ty _ initializer, id => by
    exact Realizes.nest (opens_newScope id) (fun _ => realizes_typeMemberName name) fun c _ =>
      (realizes_optionalTypeNode ty _).bind fun _ => realizes_optionalExpression initializer _
  | .method name _ typeParameters parameters returnType, id => by
    exact Realizes.nest (opens_newScope id) (fun _ => realizes_typeMemberName name) fun c _ =>
      (realizes_declareTypeParameters _).bind fun _ =>
        (realizes_bounds typeParameters _).bind fun _ =>
          (realizes_declareParameters _).bind fun _ =>
            (realizes_parameterTypes parameters _).bind fun _ =>
              realizes_optionalTypeNode returnType _
  | .accessor name _ parameters returnType, id => by
    exact Realizes.nest (opens_newScope id) (fun _ => realizes_typeMemberName name) fun c _ =>
      (realizes_declareTypeParameters []).after fun _ =>
        (realizes_declareParameters _).bind fun _ =>
          (realizes_parameterTypes parameters _).bind fun _ =>
            realizes_optionalTypeNode returnType _
  | .call typeParameters parameters returnType, id
  | .construct typeParameters parameters returnType, id => by
    exact Realizes.nest_inside (opens_newScope id) fun c =>
      (realizes_declareTypeParameters _).bind fun _ =>
        (realizes_bounds typeParameters _).bind fun _ =>
          (realizes_declareParameters _).bind fun _ =>
            (realizes_parameterTypes parameters _).bind fun _ =>
              realizes_optionalTypeNode returnType _
  | .index parameters valueType, id => by
    exact Realizes.nest_inside (opens_newScope id) fun c =>
      (realizes_declareTypeParameters []).after fun _ =>
        (realizes_declareParameters _).bind fun _ =>
          (realizes_parameterTypes parameters _).bind fun _ =>
            realizes_optionalTypeNode valueType _

theorem realizes_typeMemberName {owner : Option NodeId} {s : ScopeId} :
    ∀ name : TypeMemberName,
      Realizes hosts owner (bindTypeMemberName name s) s
        (termOfTypeMemberName blockScoped hosts name)
  | ⟨_, .computed expression⟩ => by
    exact realizes_expression expression _ _ _
  | ⟨_, .identifier _⟩ | ⟨_, .stringLiteral _ _⟩ | ⟨_, .numericLiteral _⟩
  | ⟨_, .bigIntLiteral _⟩ => by
    exact .pure ()

theorem realizes_statements {owner : Option NodeId} {s : ScopeId} :
    ∀ (statements : List Statement) (control : Option NodeId),
      Realizes hosts owner (bindStatements statements s control) s
        (termOfStatements blockScoped hosts statements)
  | [], _ => by
    exact .pure ()
  | statement :: statements, _ => by
    exact (realizes_statement statement _).bind fun _ => realizes_statements statements _

theorem realizes_optionalStatement {owner : Option NodeId} {s : ScopeId} :
    ∀ (statement : Option Statement) (control : Option NodeId),
      Realizes hosts owner (bindOptionalStatement statement s control) s
        (termOfOptionalStatement blockScoped hosts statement)
  | none, _ => by
    exact .pure ()
  | some statement, _ => by
    exact realizes_statement statement _

theorem realizes_statement {owner : Option NodeId} {s : ScopeId} :
    ∀ (statement : Statement) (control : Option NodeId),
      Realizes hosts owner (bindStatement statement s control) s
        (termOfStatement blockScoped hosts statement)
  | ⟨id, span, kind⟩, control => by
    refine (realizes_recordScope _ _).after fun _ => ?_
    refine realizes_get fun b hb => ?_
    rw [hb]
    refine (realizes_declareHosts _ _).bind fun _ => ?_
    generalize List.find? _ (List.filter _ hosts) = found
    cases found with
    | some host => exact realizes_hostBody kind _ _ _
    | none =>
      simp only
      split
      · exact .pure ()
      · exact realizes_statementKind kind _ _ _

theorem realizes_hostBody {owner : Option NodeId} {s : ScopeId} :
    ∀ (kind : StatementKind) (id : NodeId) (host : UnmodeledDeclarationHostKind)
      (control : Option NodeId),
      Realizes hosts owner (bindHostBody kind id host s control) s
        (termOfHostBody blockScoped hosts kind host)
  | .block statements, id, .namespace, _ | .block statements, id, .module, _
  | .block statements, id, .externalModule, _ => by
    exact (Realizes.nest_inside (opens_newScope id) fun c =>
      realizes_statements statements _).asBody
  | .block statements, _, .global, _ => by
    exact realizes_statements statements _
  | .block _, _, .enum, _ | .block _, _, .using, _ => by
    exact .pure ()
  | .import _, _, _, _ | .export _, _, _, _ | .variable _, _, _, _ | .function _, _, _, _
  | .class _, _, _, _ | .typeAlias _, _, _, _ | .interface _, _, _, _ | .if _ _ _, _, _, _
  | .switch _ _ _, _, _, _ | .break _, _, _, _ | .continue _, _, _, _ | .return _, _, _, _
  | .expression _, _, _, _ | .empty, _, _, _ | .unknown, _, _, _ => by
    exact .pure ()

theorem realizes_statementKind {owner : Option NodeId} {s : ScopeId} :
    ∀ (kind : StatementKind) (id : NodeId) (span : Span) (control : Option NodeId),
      Realizes hosts owner (bindStatementKind kind id span s control) s
        (termOfStatementKind blockScoped hosts kind id)
  | .import _, _, _, _ => by
    exact realizes_declareImports _ _
  | .variable ⟨kind, declarators, _, _, _⟩, _, _, _ => by
    exact realizes_declarators declarators kind _ _ _
  | .function declaration, id, _, _ => by
    exact (realizes_declare _ _ _ _ _).bind fun _ =>
      (realizes_recordJavascriptExpando _ _).after fun _ => realizes_function declaration id
  | .class declaration, id, _, _ => by
    exact (realizes_declare _ _ _ _ _).bind fun _ =>
      (realizes_declare _ _ _ _ _).bind fun _ => realizes_class declaration id _ _
  | .typeAlias ⟨name, nameSpan, typeParameters, ty, _⟩, id, _, _ => by
    refine (realizes_declare _ _ _ _ _).bind fun _ => ?_
    refine Realizes.nest_inside (opens_newScope id) fun c => ?_
    exact (realizes_declareTypeParameters _).bind fun _ =>
      (realizes_bounds typeParameters _).bind fun _ =>
        realizes_nearestScopeOwner (realizes_typeNode ty _)
  | .interface ⟨name, nameSpan, typeParameters, extendsTypes, members, _⟩, id, _, _ => by
    refine (realizes_declare _ _ _ _ _).bind fun _ => ?_
    refine Realizes.nest_inside (opens_newScope id) fun c => ?_
    refine (realizes_declareTypeParameters _).bind fun _ => ?_
    refine (realizes_bounds typeParameters _).bind fun _ => ?_
    refine (realizes_typeNodesIn extendsTypes _).bind fun _ => ?_
    refine realizes_scopeAt.after fun _ => ?_
    refine Realizes.after ?_ fun _ => realizes_typeMembers members
    exact realizes_updateScope (fun _ => rfl) (fun _ => rfl) fun _ => rfl
  | .block statements, id, _, _ => by
    exact Realizes.nest_inside (opens_newScope id) fun c => realizes_statements statements _
  | .if condition thenStatement elseStatement, _, _, _ => by
    exact (realizes_expression condition _ _ _).bind fun _ =>
      (realizes_statement thenStatement _).bind fun _ => realizes_optionalStatement elseStatement _
  | .switch expression clauses _, id, _, _ => by
    exact Realizes.nest (opens_newScope id) (fun _ => realizes_expression expression _ _ _)
      fun c _ => realizes_switchClauses clauses _
  | .export ⟨specifiers, _, _, typeOnly, _, _, assignment⟩, _, _, _ => by
    exact (realizes_recordSpecifiers _ _).bind fun _ => realizes_optionalExpression assignment _
  | .return expression, _, _, _ => by
    exact realizes_optionalExpression expression _
  | .expression expression, _, _, _ => by
    exact realizes_expression expression _ _ _
  | .break _, _, _, _ | .continue _, _, _, _ | .empty, _, _, _ | .unknown, _, _, _ => by
    exact .pure ()

theorem realizes_declarators {owner : Option NodeId} {s : ScopeId} :
    ∀ (declarators : List VariableDeclarator) (kind : VariableKind) (id : NodeId) (span : Span)
      (control : Option NodeId),
      Realizes hosts owner (bindDeclarators declarators id span s control) s
        (termOfDeclarators blockScoped hosts declarators kind id)
  | [], _, _, _, _ => by
    exact .pure ()
  | ⟨_, _, _, annotation, initializer⟩ :: declarators, kind, _, _, _ => by
    refine (realizes_declareDeclarator kind _ _).bind fun declared => ?_
    refine (realizes_recordDeclaratorForm _ _).after fun _ => ?_
    exact (realizes_initializer initializer _ _ _).bind fun _ =>
      (realizes_typeNodeOption annotation _).bind fun _ =>
        realizes_declarators declarators kind _ _ _

theorem realizes_initializer {owner : Option NodeId} {s : ScopeId} :
    ∀ (initializer : Option Expression) (declared : Option DeclId) (span : Span)
      (control : Option NodeId),
      Realizes hosts owner (bindInitializer initializer declared span s control) s
        (termOfOptionalExpression blockScoped hosts initializer)
  | none, _, _, _ => by
    exact .pure ()
  | some initializer, _, _, _ => by
    exact (realizes_expression initializer _ _ _).before fun _ => realizes_recordInitializer _ _ _

theorem realizes_function {owner : Option NodeId} {s : ScopeId} :
    ∀ (declaration : FunctionDeclaration) (id : NodeId),
      Realizes hosts owner (bindFunction declaration id s) s
        (termOfFunction blockScoped hosts declaration id)
  | ⟨_, _, typeParameters, parameters, returnType, body, hasBody, _, _, _, _, _, _, _, _⟩,
      id => by
    refine (Realizes.nest_inside (opens_newFlowScope id _ _ _) fun c => ?_).asBody
    refine (realizes_declareTypeParameters _).bind fun _ => ?_
    refine (realizes_bounds typeParameters _).bind fun _ => ?_
    cases hasBody with
    | true =>
      exact Realizes.nest_signature opens_newAnonymousScope (realizes_declareParameters _)
        (realizes_parameterTypes parameters _) (realizes_optionalTypeNode returnType _)
        fun c => realizes_statements body _
    | false =>
      exact (realizes_declareParameters _).bind fun _ =>
        (realizes_parameterTypes parameters _).bind fun _ =>
          (realizes_optionalTypeNode returnType _).bind fun _ => realizes_statements body _

theorem realizes_switchClauses {owner : Option NodeId} {s : ScopeId} :
    ∀ (clauses : List SwitchClause) (id : NodeId),
      Realizes hosts owner (bindSwitchClauses clauses id s) s
        (termOfSwitchClauses blockScoped hosts clauses)
  | [], _ => by
    exact .pure ()
  | ⟨_, kind, statements⟩ :: clauses, _ => by
    exact (realizes_switchClauseKind kind).bind fun _ =>
      (realizes_statements statements _).bind fun _ => realizes_switchClauses clauses _

theorem realizes_switchClauseKind {owner : Option NodeId} {s : ScopeId} :
    ∀ kind : SwitchClauseKind,
      Realizes hosts owner (bindSwitchClauseKind kind s) s
        (termOfSwitchClauseKind blockScoped hosts kind)
  | .case expression => by
    exact realizes_expression expression _ _ _
  | .default => by
    exact .pure ()

theorem realizes_class {owner : Option NodeId} {s : ScopeId} :
    ∀ (declaration : ClassDeclaration) (id : NodeId) (instance_ constructor : DeclId),
      Realizes hosts owner (bindClass declaration id s instance_ constructor) s
        (termOfClass blockScoped hosts declaration id)
  | ⟨_, _, typeParameters, extendsType, implementsTypes, members, _, _, _, _, _, _, _⟩, id, _,
      _ => by
    refine Realizes.nest_inside (opens_newScopeWithContext (some id) _ _) fun c => ?_
    exact (realizes_declareTypeParameters _).bind fun _ =>
      (realizes_bounds typeParameters _).bind fun _ =>
        (realizes_optionalTypeNode extendsType _).bind fun _ =>
          (realizes_typeNodesIn implementsTypes _).bind fun _ => realizes_classMembers members _ _

theorem realizes_classMembers {owner : Option NodeId} {s : ScopeId} :
    ∀ (members : List ClassMember) (instance_ constructor : DeclId),
      Realizes hosts owner (bindClassMembers members s instance_ constructor) s
        (termOfClassMembers blockScoped hosts members)
  | [], _, _ => by
    exact .pure ()
  | ⟨id, _, _, _, _, _, _, _, _, _, kind⟩ :: members, _, _ => by
    exact (realizes_bindClassMemberSymbol _ _).after fun _ =>
      (realizes_classMemberKind kind id _ _).bind fun _ => realizes_classMembers members _ _

theorem realizes_classMemberKind {owner : Option NodeId} {s : ScopeId} :
    ∀ (kind : ClassMemberKind) (id : NodeId) (this : LexicalThisOwner × Option DeclId)
      (instance_ : DeclId),
      Realizes hosts owner (bindClassMemberKind kind id s this instance_) s
        (termOfClassMemberKind blockScoped hosts kind id)
  | .property annotation' initializer _ _, id, (lexicalThis, thisType), _ => by
    refine (Realizes.nest_inside (opens_newFlowScope id _ _ _) fun c => ?_).asBody
    exact (realizes_optionalTypeNode annotation' _).bind fun _ =>
      realizes_optionalExpression initializer _
  | .constructor typeParameters parameters returnType body _ _, id, _, _
  | .method typeParameters parameters returnType body _ _ _, id, (_, _), _ => by
    refine (Realizes.nest_inside (opens_newFlowScope id _ _ _) fun c => ?_).asBody
    refine (realizes_declareTypeParameters _).bind fun _ => ?_
    refine (realizes_bounds typeParameters _).bind fun _ => ?_
    exact Realizes.nest_signature (opens_newAnonymousScopeWithThisType _)
      (realizes_declareParameters _) (realizes_parameterTypes parameters _)
      (realizes_optionalTypeNode returnType _) fun c => realizes_statements body _

end

end Walk

/-! ## Resolution -/

section Resolution

variable {b : Binder} {σ : ScopeStore}

/-- The last fitting identity of a scope stands for the newest fitting declaration. -/
theorem RepresentsCell.declaredIn {scope : Scope} {cell : Scoping.Cell Declared}
    (h : RepresentsCell b.file b.declarations scope cell) (name : String) (meaning : Meaning) :
    (b.toBoundFile.declaredIn scope name meaning).map (declaredAt b.file b.declarations) =
      (Scoping.newest Declared.fits cell.entries (name, meaning)).map some := by
  have key : ∀ (ids : List DeclId) (frame : List Declared),
      ids.map (declaredAt b.file b.declarations) = frame.map some →
      (ids.find? fun id => (b.toBoundFile.declaration id).any fun d => d.meaning = meaning).map
          (declaredAt b.file b.declarations) =
        (frame.find? fun d => d.meaning = meaning).map some := by
    intro ids
    induction ids with
    | nil =>
      intro frame hmap
      cases frame with
      | nil => rfl
      | cons d frame => simp at hmap
    | cons id ids ih =>
      intro frame hmap
      cases frame with
      | nil => simp at hmap
      | cons d frame =>
        simp only [List.map_cons, List.cons.injEq] at hmap
        have hany : (b.toBoundFile.declaration id).any (fun e => e.meaning = meaning) =
            decide (d.meaning = meaning) := by
          have hid := hmap.1
          unfold declaredAt at hid
          split at hid
          · rename_i hfile
            obtain ⟨bd, hbd, rfl⟩ := Option.map_eq_some_iff.1 hid
            simp only [BoundFile.declaration, Binder.toBoundFile, hfile, if_true, hbd,
              Option.any_some]
            rfl
          · cases hid
        simp only [List.find?_cons, hany]
        by_cases hm : d.meaning = meaning
        · simp [hm, hmap.1]
        · simp [hm, ih frame hmap.2]
  have hfits : (fun d : Declared => decide (d.name = name ∧ d.meaning = meaning)) =
      Declared.fits (name, meaning) := by
    funext d
    simp [Declared.fits]
  have hreverse := key (scope.idsOf name).reverse
    (cell.entries.reverse.filter fun d => d.name = name) (by
      rw [List.map_reverse, h.names, List.filter_reverse, List.map_reverse])
  rw [List.find?_filter] at hreverse
  simp only [decide_eq_true_eq] at hreverse
  rw [hfits] at hreverse
  exact hreverse

theorem Represents.resolveWithin (h : Represents hosts b σ) (fuel : Nat) (s : ScopeId)
    (name : String) (meaning : Meaning) :
    (b.toBoundFile.resolveWithin fuel s name meaning).map (declaredAt b.file b.declarations) =
      (Scoping.walk Declared.fits σ.cells fuel s.index (name, meaning)).map some := by
  induction fuel generalizing s with
  | zero => rfl
  | succ fuel ih =>
    simp only [BoundFile.resolveWithin, Scoping.walk]
    cases hs : σ.cells[s.index]? with
    | none =>
      have hlen : b.scopes.length ≤ s.index := h.length_eq ▸ List.getElem?_eq_none_iff.1 hs
      have hnone : b.toBoundFile.scopes[s.index]? = none := List.getElem?_eq_none hlen
      simp [hnone]
    | some cell =>
      have hlt : s.index < b.scopes.length := h.length_eq ▸ (List.getElem?_eq_some_iff.1 hs).1
      have hscope : b.scopes[s.index]? = some b.scopes[s.index] := List.getElem?_eq_getElem hlt
      have hcell := h.cells _ _ _ hscope hs
      have hdeclared := hcell.declaredIn name meaning
      have hscope' : b.toBoundFile.scopes[s.index]? = some b.scopes[s.index] := hscope
      simp only [hscope', Option.bind_eq_bind, Option.bind_some]
      cases hd : b.toBoundFile.declaredIn b.scopes[s.index] name meaning with
      | some id =>
        rw [hd] at hdeclared
        obtain ⟨d, hnewest, hid⟩ := Option.map_eq_some_iff.1 hdeclared.symm
        simp [hnewest, ← hid]
      | none =>
        rw [hd] at hdeclared
        have hnewest := Option.map_eq_none_iff.1 hdeclared.symm
        rw [hcell.parent, hnewest]
        cases b.scopes[s.index].parent with
        | none => rfl
        | some parent => exact ih parent

theorem Represents.resolve (h : Represents hosts b σ) (nested : Scoping.Nested σ.cells)
    (s : ScopeId) (name : String) (meaning : Meaning) :
    (b.toBoundFile.resolve s name meaning).map (declaredAt b.file b.declarations) =
      (Scoping.look Declared.fits σ.cells s.index (name, meaning)).map some := by
  rw [BoundFile.resolve, h.resolveWithin]
  rcases Nat.lt_or_ge s.index σ.cells.length with hs | hs
  · have hlen : s.index < b.scopes.length := h.length_eq ▸ hs
    exact congrArg (Option.map some) (congrFun (Scoping.walk_eq_look _ nested hlen) _)
  · have hnone : σ.cells[s.index]? = none := List.getElem?_eq_none hs
    cases b.toBoundFile.scopes.length <;> simp [Scoping.look, Scoping.walk, hnone]

theorem declared_declaration (b : Binder) (id : DeclId) :
    (b.toBoundFile.declaration id).map (·.declared) = declaredAt b.file b.declarations id := by
  by_cases hfile : id.file = b.file
  · simp [BoundFile.declaration, declaredAt, Binder.toBoundFile, hfile]
  · simp [BoundFile.declaration, declaredAt, Binder.toBoundFile, hfile]

/-- A name resolves to an identity of the declaration its environment gives, or to neither. -/
theorem Represents.resolve_cases (h : Represents hosts b σ) (nested : Scoping.Nested σ.cells)
    (s : ScopeId) (name : String) (meaning : Meaning) :
    (b.toBoundFile.resolve s name meaning = none ∧
        Scoping.look Declared.fits σ.cells s.index (name, meaning) = none) ∨
      ∃ id d, b.toBoundFile.resolve s name meaning = some id ∧
        Scoping.look Declared.fits σ.cells s.index (name, meaning) = some d.declared ∧
        b.toBoundFile.declaration id = some d := by
  have hresolve := h.resolve nested s name meaning
  cases hr : b.toBoundFile.resolve s name meaning with
  | none =>
    rw [hr] at hresolve
    exact .inl ⟨rfl, Option.map_eq_none_iff.1 hresolve.symm⟩
  | some id =>
    rw [hr] at hresolve
    obtain ⟨d, hlook, hid⟩ := Option.map_eq_some_iff.1 hresolve.symm
    rw [← declared_declaration] at hid
    obtain ⟨bd, hbd, rfl⟩ := Option.map_eq_some_iff.1 hid.symm
    exact .inr ⟨id, bd, rfl, hlook, hbd⟩

/-- A finished reference resolves as it does in the environment of its scope. -/
theorem Represents.resolution_finishReference (h : Represents hosts b σ)
    (nested : Scoping.Nested σ.cells) (r : PendingReferenceFact) :
    b.toBoundFile.resolution (b.toBoundFile.finishReference r).target =
      some (r.reference.resolution (Scoping.look Declared.fits σ.cells r.scope.index)) := by
  simp only [BoundFile.finishReference, BoundFile.resolveReference, Reference.resolution,
    Reference.resolveIn, PendingReferenceFact.reference]
  by_cases hroot : r.typeQueryRoot = true
  · simp only [hroot, if_true]
    obtain ⟨hr, hlook⟩ | ⟨id, d, hr, hlook, hd⟩ := h.resolve_cases nested r.scope r.name .value
    · obtain ⟨ht, hlook'⟩ | ⟨id, d, ht, hlook', hd⟩ := h.resolve_cases nested r.scope r.name .type
      · simp [hr, hlook, ht, hlook', BoundFile.resolution]
      · have hkind : d.declared.kind = d.kind := rfl
        by_cases himport : d.kind = .import
        · simp [hr, hlook, ht, hlook', BoundFile.resolution, Option.filter, hd, himport, hkind]
        · simp [hr, hlook, ht, hlook', BoundFile.resolution, Option.filter, hd, himport, hkind]
    · simp [hr, hlook, BoundFile.resolution, hd]
  · simp only [hroot]
    obtain ⟨hr, hlook⟩ | ⟨id, d, hr, hlook, hd⟩ :=
      h.resolve_cases nested r.scope r.name r.meaning
    · simp [hr, hlook, BoundFile.resolution]
    · simp [hr, hlook, BoundFile.resolution, hd]

end Resolution

theorem represents_initialBinder (file : FileId) (sourceKind : SourceKind) (unit : SourceUnit) :
    Represents unit.unmodeledDeclarationHosts (initialBinder file sourceKind unit)
      Scoping.rootStore where
  hosts_eq := rfl
  length_eq := rfl
  cells i scope cell hi hc := by
    rcases i with _ | i
    · cases hi
      cases hc
      exact ⟨rfl, fun name => rfl⟩
    · cases hi
  pending := rfl

section Examples

def sampleSpan (start stop : Nat) : Span := ⟨⟨0⟩, start, stop⟩

def sampleUnit (statements : List Statement) (stop : Nat) : SourceUnit where
  statements := statements
  span := sampleSpan 0 stop
  identifierTokenSpans := []
  authoredLiteralFacts := []
  parserRecoveryFacts := []
  unmodeledDeclarationHosts := []
  contextualGrammarFacts := []

/-- `{ var x; }` and, on the next line, `x;`. -/
def varInBlock : SourceUnit :=
  let x : VariableDeclarator := ⟨"x", sampleSpan 6 7, [], none, none⟩
  let use : Expression := ⟨⟨2⟩, sampleSpan 11 12, .identifier "x" (sampleSpan 11 12) true⟩
  sampleUnit [
    ⟨⟨1⟩, sampleSpan 0 10,
      .block [⟨⟨0⟩, sampleSpan 2 8, .variable ⟨.var, [x], false, false, false⟩⟩]⟩,
    ⟨⟨3⟩, sampleSpan 11 13, .expression use⟩] 13

/-- `type U = string;` and, on the next line, `type A<T> = T extends (infer U)[] ? U : never;`. -/
def inferInConditional : SourceUnit :=
  let t : TypeParameterDeclaration :=
    ⟨"T", sampleSpan 24 25, sampleSpan 24 25, none, none, false, false, false⟩
  let check : TypeNode := ⟨sampleSpan 29 30, .reference "T" (sampleSpan 29 30) []⟩
  let pattern : TypeNode := ⟨sampleSpan 39 50, .array ⟨sampleSpan 39 48,
    .parenthesized ⟨sampleSpan 40 47, .infer "U" (sampleSpan 46 47) none⟩⟩⟩
  let use : TypeNode := ⟨sampleSpan 53 54, .reference "U" (sampleSpan 53 54) []⟩
  let never : TypeNode := ⟨sampleSpan 57 62, .keyword .never⟩
  sampleUnit [
    ⟨⟨0⟩, sampleSpan 0 16, .typeAlias
      ⟨"U", sampleSpan 5 6, [], ⟨sampleSpan 9 15, .keyword .string⟩, false⟩⟩,
    ⟨⟨1⟩, sampleSpan 17 63, .typeAlias
      ⟨"A", sampleSpan 22 23, [t], ⟨sampleSpan 29 62, .conditional check pattern use never⟩,
        false⟩⟩] 63

end Examples

end Tsz.Bind
