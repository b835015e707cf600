import Tsz.Syntax.SourceUnit

/-!
# Descendants

The statements and expressions below a node in the order the syntax walker visits them, and the
questions the parser asks of a tree it has just built.
-/

namespace Tsz.Syntax

/-- What the walker stops at. Of an expression only its kind of literal is asked for. -/
inductive Visit
  | statement (id : NodeId) (span : Span)
  | expression (isTemplateLiteral : Bool)
deriving DecidableEq, Repr

def ExpressionKind.isTemplateLiteral : ExpressionKind → Bool
  | .literal (.noSubstitutionTemplate _) | .template _ _ => true
  | _ => false

mutual

def Expression.visits : Expression → List Visit
  | ⟨_, _, kind⟩ => .expression kind.isTemplateLiteral :: kind.visits

def ExpressionKind.visits : ExpressionKind → List Visit
  | .identifier _ _ _ | .this | .literal _ | .regularExpression _ | .missing => []
  | .template _ spans => visitsOfSpans spans
  | .object properties => visitsOfProperties properties
  | .array elements => visitsOfExpressions elements
  | .call callee _ arguments => callee.visits ++ visitsOfExpressions arguments
  | .new callee _ _ arguments _ => callee.visits ++ visitsOfExpressions arguments
  | .member object _ _ => object.visits
  | .nonNull expression => expression.visits
  | .unary _ operand => operand.visits
  | .parenthesized expression => expression.visits
  | .as expression _ => expression.visits
  | .elementAccess object index => object.visits ++ index.visits
  | .functionLike function => function.visits
  | .binary left _ _ right => left.visits ++ right.visits
  | .conditional condition _ whenTrue _ whenFalse =>
    condition.visits ++ whenTrue.visits ++ whenFalse.visits
  | .assignment left _ _ right _ => left.visits ++ right.visits

def visitsOfSpans : List TemplateSpan → List Visit
  | [] => []
  | ⟨expression, _⟩ :: spans => expression.visits ++ visitsOfSpans spans

def visitsOfProperties : List ObjectProperty → List Visit
  | [] => []
  | ⟨_, _, _, _, _, value, _, _, _, _⟩ :: properties => value.visits ++ visitsOfProperties properties

def visitsOfExpressions : List Expression → List Visit
  | [] => []
  | expression :: expressions => expression.visits ++ visitsOfExpressions expressions

def visitsOfOption : Option Expression → List Visit
  | none => []
  | some expression => expression.visits

def FunctionLikeExpression.visits : FunctionLikeExpression → List Visit
  | ⟨_, parameters, _, _, _, form⟩ => visitsOfParameters parameters ++ form.visits

def FunctionLikeSyntax.visits : FunctionLikeSyntax → List Visit
  | .arrowExpression body => body.visits
  | .arrowBlock body | .function _ _ body => visitsOfStatements body

def visitsOfParameters : List Parameter → List Visit
  | [] => []
  | ⟨_, _, _, _, _, initializer, _, _, _, _, _, _, _, _⟩ :: parameters =>
    visitsOfOption initializer ++ visitsOfParameters parameters

def visitsOfStatements : List Statement → List Visit
  | [] => []
  | ⟨id, span, kind⟩ :: statements =>
    .statement id span :: (kind.visits ++ visitsOfStatements statements)

def visitsOfNested : Statement → List Visit
  | ⟨id, span, kind⟩ => .statement id span :: kind.visits

def visitsOfNestedOption : Option Statement → List Visit
  | none => []
  | some statement => visitsOfNested statement

def StatementKind.visits : StatementKind → List Visit
  | .import _ | .typeAlias _ | .interface _ | .break _ | .continue _ | .empty | .unknown => []
  | .export ⟨_, _, _, _, _, _, assignment⟩ => visitsOfOption assignment
  | .variable ⟨_, declarators, _, _, _⟩ => visitsOfDeclarators declarators
  | .function ⟨_, _, _, parameters, _, body, _, _, _, _, _, _, _, _, _⟩ =>
    visitsOfParameters parameters ++ visitsOfStatements body
  | .class ⟨_, _, _, _, _, members, _, _, _, _, _, _, _⟩ => visitsOfMembers members
  | .if condition thenStatement elseStatement =>
    condition.visits ++ visitsOfNested thenStatement ++ visitsOfNestedOption elseStatement
  | .switch expression clauses _ => expression.visits ++ visitsOfClauses clauses
  | .return expression => visitsOfOption expression
  | .block statements => visitsOfStatements statements
  | .expression expression => expression.visits

def visitsOfDeclarators : List VariableDeclarator → List Visit
  | [] => []
  | ⟨_, _, _, _, initializer⟩ :: declarators =>
    visitsOfOption initializer ++ visitsOfDeclarators declarators

def visitsOfClauses : List SwitchClause → List Visit
  | [] => []
  | ⟨_, kind, statements⟩ :: clauses =>
    kind.visits ++ visitsOfStatements statements ++ visitsOfClauses clauses

def SwitchClauseKind.visits : SwitchClauseKind → List Visit
  | .case expression => expression.visits
  | .default => []

def visitsOfMembers : List ClassMember → List Visit
  | [] => []
  | ⟨_, _, _, _, _, _, _, _, _, _, kind⟩ :: members => kind.visits ++ visitsOfMembers members

def ClassMemberKind.visits : ClassMemberKind → List Visit
  | .constructor _ parameters _ body _ _ | .method _ parameters _ body _ _ _ =>
    visitsOfParameters parameters ++ visitsOfStatements body
  | .property _ initializer _ _ => visitsOfOption initializer

end

/-- The statement and the statements below it. -/
def Statement.nested (statement : Statement) : List (NodeId × Span) :=
  (visitsOfNested statement).filterMap fun
    | .statement id span => some (id, span)
    | .expression _ => none

def Expression.containsNoSubstitutionTemplate (expression : Expression) : Bool :=
  expression.visits.contains (.expression true)

/-! ## Shapes of expressions and types -/

/-- The expression below an assertion and the parentheses that only hold it. -/
def erasedAssertionExpression : Expression → Option Expression
  | ⟨_, _, .as expression _⟩ =>
    some ((erasedAssertionExpression expression).getD expression)
  | ⟨_, _, .parenthesized inner⟩ => erasedAssertionExpression inner
  | _ => none

def erasedExpressionSeparatedNumber (expression : Expression) :
    Option SeparatedNumberLiteral :=
  match ((erasedAssertionExpression expression).getD expression).kind with
  | .literal (.number (.separated literal)) => some literal
  | _ => none

def expressionHasRecoveredLeftEdge : Expression → Bool
  | ⟨_, _, .missing⟩ => true
  | ⟨_, _, .call callee _ _⟩ => expressionHasRecoveredLeftEdge callee
  | ⟨_, _, .new callee _ _ _ _⟩ => expressionHasRecoveredLeftEdge callee
  | ⟨_, _, .member object _ _⟩ => expressionHasRecoveredLeftEdge object
  | ⟨_, _, .elementAccess object _⟩ => expressionHasRecoveredLeftEdge object
  | ⟨_, _, .nonNull object⟩ => expressionHasRecoveredLeftEdge object
  | ⟨_, _, .unary _ object⟩ => expressionHasRecoveredLeftEdge object
  | ⟨_, _, .parenthesized object⟩ => expressionHasRecoveredLeftEdge object
  | ⟨_, _, .binary left _ _ _⟩ => expressionHasRecoveredLeftEdge left
  | ⟨_, _, .conditional left _ _ _ _⟩ => expressionHasRecoveredLeftEdge left
  | ⟨_, _, .assignment left _ _ _ _⟩ => expressionHasRecoveredLeftEdge left
  | ⟨_, _, .as left _⟩ => expressionHasRecoveredLeftEdge left
  | _ => false

def TypeNode.blocksArrowParse : TypeNode → Bool
  | ⟨_, .missing⟩ => true
  | ⟨_, .function _ _ _ parameterListRecovered returnType⟩ =>
    parameterListRecovered || returnType.blocksArrowParse
  | ⟨_, .constructor _ _ _ parameterListRecovered returnType _⟩ =>
    parameterListRecovered || returnType.blocksArrowParse
  | ⟨_, .parenthesized returnType⟩ => returnType.blocksArrowParse
  | _ => false

def NumberLiteral.recoveryKind : NumberLiteral → Option NumericRecoveryKind
  | .plain _ | .separated _ => none
  | .recovery literal => some literal.kind

end Tsz.Syntax
