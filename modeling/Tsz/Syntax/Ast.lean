import Tsz.Syntax.Token

/-!
# Syntax trees

The tree the parser builds: expressions, type nodes, members and statements refer to each other,
so they form one mutual family. Recovery and authoring facts of a source unit are kept next to it.
-/

namespace Tsz.Syntax

/-- A string of UTF-16 code units, lone surrogates included. -/
structure Utf16String where
  units : List UInt16
deriving DecidableEq, Repr

structure ExtendedUnicodeStringLiteral where
  raw : String
  cooked : Utf16String
  terminated : Bool
  containsInvalidEscape : Bool
  containsExtendedUnicodeEscape : Bool
deriving DecidableEq, Repr

inductive StringLiteral
  | plain (value : String)
  | extended (literal : ExtendedUnicodeStringLiteral)
deriving DecidableEq, Repr

structure NoSubstitutionTemplateLiteral where
  raw : String
  cooked : String
deriving DecidableEq, Repr

structure SeparatedNumberLiteral where
  raw : String
  canonical : String
  withRadixSpecifier : Bool
deriving DecidableEq, Repr

inductive NumericRecoveryKind
  | legacyOctal | leadingZeroDecimal | missingExponentDigits | invalidSeparator | incompleteRadix
deriving DecidableEq, Repr

structure NumericRecoveryLiteral where
  raw : String
  semanticText : String
  emitText : String
  kind : NumericRecoveryKind
  validationSupported : Bool
deriving DecidableEq, Repr

inductive NumberLiteral
  | plain (raw : String)
  | separated (literal : SeparatedNumberLiteral)
  | recovery (literal : NumericRecoveryLiteral)
deriving DecidableEq, Repr

structure RegularExpressionLiteral where
  raw : String
  pattern : String
  flags : String
  patternSpan : Span
  flagsSpan : Span
  terminated : Bool
  recoveryAtLineBreak : Bool
deriving DecidableEq, Repr

inductive Literal
  | string (value : StringLiteral)
  | noSubstitutionTemplate (value : NoSubstitutionTemplateLiteral)
  | number (value : NumberLiteral)
  | bigInt (value : String)
  | boolean (value : Bool)
  | null
deriving DecidableEq, Repr

inductive BinaryOperator
  | comma | add | subtract | multiply | divide | remainder
  | lessThan | lessThanEquals | greaterThan | greaterThanEquals
  | leftShift | signedRightShift | unsignedRightShift
  | equals | notEquals | strictEquals | strictNotEquals
  | logicalAnd | logicalOr | bitwiseAnd | bitwiseXor | bitwiseOr | nullishCoalesce
  | in | instanceOf
deriving DecidableEq, Repr

inductive AssignmentOperator
  | assign | addAssign
deriving DecidableEq, Repr

inductive UnaryOperator
  | plus | minus | not | bitwiseNot | typeOf | void | delete | await
deriving DecidableEq, Repr

inductive KeywordType
  | any | unknown | never | void | undefined | null | boolean | number | string | bigInt
  | object | symbol | uniqueSymbol
deriving DecidableEq, Repr

inductive VariableKind
  | let | const | var
deriving DecidableEq, Repr

/-- A binding name as it was written, kept apart from its declaration. -/
structure AuthoredBindingName where
  name : String
  span : Span
  tokenKind : TokenKind
deriving DecidableEq, Repr

inductive PropertyNameKind
  | identifier | privateIdentifier | stringLiteral | numericLiteral | computed | unsupported
deriving DecidableEq, Repr

inductive AccessorKind
  | get | set
deriving DecidableEq, Repr

inductive ParameterNameKind
  | binding | bindingPattern | this
deriving DecidableEq, Repr

/-- The modifier words of parameters and members. -/
inductive ParameterModifier
  | abstract | accessor | async | const | declare | default | export | in | out | override
  | «public» | «protected» | «private» | readonly | static
deriving DecidableEq, Repr

/-- The modifiers that make a constructor parameter a property. -/
def ParameterModifier.isProperty : ParameterModifier → Bool
  | .override | .public | .protected | .private | .readonly => true
  | _ => false

structure ParameterModifierNode where
  kind : ParameterModifier
  span : Span
deriving DecidableEq, Repr

inductive TypeMemberModifier
  | «public» | «protected» | «private» | readonly | static | abstract | declare | accessor
  | async | const | default | export | in | out | override
deriving DecidableEq, Repr

structure TypeMemberModifierNode where
  kind : TypeMemberModifier
  span : Span
deriving DecidableEq, Repr

structure TypeMemberModifiers where
  nodes : List TypeMemberModifierNode := []
  isPublic : Bool := false
  isProtected : Bool := false
  isPrivate : Bool := false
  readonly : Bool := false
  staticMember : Bool := false
  abstractMember : Bool := false
  declared : Bool := false
  accessor : Bool := false
  asyncMember : Bool := false
  constMember : Bool := false
  defaultMember : Bool := false
  exported : Bool := false
  inVariance : Bool := false
  outVariance : Bool := false
  overrideMember : Bool := false
deriving DecidableEq, Repr

structure ClassMemberModifiers where
  isPublic : Bool := false
  isProtected : Bool := false
  isPrivate : Bool := false
  readonly : Bool := false
  staticMember : Bool := false
  abstractMember : Bool := false
  declared : Bool := false
  asyncMember : Bool := false
  unsupportedForOverloadCompletion : Bool := false
  unsupportedForEmitProducts : Bool := false
deriving DecidableEq, Repr

inductive FunctionLikeFunctionKind
  | expression | objectMethod
deriving DecidableEq, Repr

structure JumpStatement where
  label : Option String
  labelSpan : Option Span
deriving DecidableEq, Repr

structure ImportBinding where
  imported : Option String
  importedSpan : Option Span
  localName : String
  localSpan : Span
  typeOnly : Bool
  isNamespace : Bool
deriving DecidableEq, Repr

structure ImportDeclaration where
  bindings : List ImportBinding
  moduleSpecifier : String
  moduleSpan : Span
  typeOnly : Bool
  sideEffectOnly : Bool
deriving DecidableEq, Repr

structure ExportSpecifier where
  localName : String
  localSpan : Span
  exported : String
  exportedSpan : Span
  typeOnly : Bool
deriving DecidableEq, Repr

mutual

structure Expression where
  id : NodeId
  span : Span
  kind : ExpressionKind

inductive ExpressionKind
  | identifier (name : String) (nameSpan : Span) (entityName : Bool)
  | this
  | literal (value : Literal)
  | template (head : String) (spans : List TemplateSpan)
  | regularExpression (value : RegularExpressionLiteral)
  | object (properties : List ObjectProperty)
  | array (elements : List Expression)
  | call (callee : Expression) (typeArguments : Option (List TypeNode))
      (arguments : List Expression)
  | new (callee : Expression) (typeArguments : List TypeNode)
      (typeArgumentListClose : Option Span) (arguments : List Expression)
      (hasArgumentList : Bool)
  | member (object : Expression) (name : String) (nameSpan : Span)
  | elementAccess (object index : Expression)
  | functionLike (function : FunctionLikeExpression)
  | binary (left : Expression) (operator : BinaryOperator) (operatorSpan : Span)
      (right : Expression)
  | conditional (condition : Expression) (questionSpan : Span) (whenTrue : Expression)
      (colonSpan : Option Span) (whenFalse : Expression)
  | unary (operator : UnaryOperator) (operand : Expression)
  | assignment (left : Expression) (operator : AssignmentOperator) (operatorSpan : Span)
      (right : Expression) (hasLeadingJsdoc : Bool)
  | as (expression : Expression) (ty : TypeNode)
  | nonNull (expression : Expression)
  | parenthesized (expression : Expression)
  | missing

structure TemplateSpan where
  expression : Expression
  literal : String

structure ObjectProperty where
  name : String
  nameSpan : Span
  nameKind : PropertyNameKind
  shorthand : Bool
  shorthandEqualsSpan : Option Span
  value : Expression
  span : Span
  startsOnNewLine : Bool
  trailingComma : Bool
  closingBraceOnNewLine : Bool

structure FunctionLikeExpression where
  typeParameters : List TypeParameterDeclaration
  parameters : List Parameter
  returnType : Option TypeNode
  bodySpan : Option Span
  hasLeadingJsdoc : Bool
  form : FunctionLikeSyntax

/-- The two arrow bodies stand beside the function form instead of in a type of their own. -/
inductive FunctionLikeSyntax
  | arrowExpression (body : Expression)
  | arrowBlock (body : List Statement)
  | function (kind : FunctionLikeFunctionKind) (name : Option AuthoredBindingName)
      (body : List Statement)

structure Parameter where
  name : String
  nameSpan : Span
  recoveredBindingNames : List AuthoredBindingName
  nameKind : ParameterNameKind
  annotation : Option TypeNode
  initializer : Option Expression
  optional : Bool
  optionalSpan : Option Span
  rest : Bool
  restSpan : Option Span
  modifiers : List ParameterModifierNode
  overloadCompletionSupported : Bool
  functionImplementationCompletionSupported : Bool
  span : Span

structure TypeParameterDeclaration where
  name : String
  nameSpan : Span
  span : Span
  constraint : Option TypeNode
  default : Option TypeNode
  constParameter : Bool
  inVariance : Bool
  outVariance : Bool

structure TypeNode where
  span : Span
  kind : TypeNodeKind

inductive TypeNodeKind
  | keyword (keyword : KeywordType)
  | literal (value : Literal)
  | array (element : TypeNode)
  | tuple (elements : List TypeNode)
  | union (elements : List TypeNode)
  | intersection (elements : List TypeNode)
  | object (members : List TypeMember)
  | function (id : NodeId) (typeParameters : List TypeParameterDeclaration)
      (parameters : List Parameter) (parameterListRecovered : Bool) (returnType : TypeNode)
  | constructor (id : NodeId) (typeParameters : List TypeParameterDeclaration)
      (parameters : List Parameter) (parameterListRecovered : Bool) (returnType : TypeNode)
      (abstractConstructor : Bool)
  | reference (name : String) (nameSpan : Span) (arguments : List TypeNode)
  | this
  | typeQuery (name : String) (nameSpan : Span) (segmentSpans : List Span)
  | infer (name : String) (nameSpan : Span) (constraint : Option TypeNode)
  | predicate (parameter : String) (parameterSpan : Span) (asserts : Bool)
      (ty : Option TypeNode)
  | keyOf (element : TypeNode)
  | readonly (element : TypeNode)
  | conditional (checkType extendsType trueType falseType : TypeNode)
  | mapped (parameter : String) (parameterSpan : Span) (constraint : TypeNode)
      (nameType : Option TypeNode) (valueType : TypeNode) (readonly optional : Option Bool)
      (members : List TypeMember)
  | indexedAccess (object index : TypeNode)
  | parenthesized (element : TypeNode)
  | missing

structure TypeMember where
  id : NodeId
  span : Span
  recovered : Bool
  recoveryIncomplete : Bool
  modifiers : TypeMemberModifiers
  kind : TypeMemberKind

structure TypeMemberName where
  span : Span
  kind : TypeMemberNameKind

inductive TypeMemberNameKind
  | identifier (name : String)
  | stringLiteral (name : String) (value : Option Utf16String)
  | numericLiteral (name : String)
  | bigIntLiteral (name : String)
  | computed (expression : Expression)

inductive TypeMemberKind
  | property (name : TypeMemberName) (ty : Option TypeNode) (optional : Bool)
      (initializer : Option Expression)
  | method (name : TypeMemberName) (optional : Bool)
      (typeParameters : List TypeParameterDeclaration) (parameters : List Parameter)
      (returnType : Option TypeNode)
  | accessor (name : TypeMemberName) (accessor : AccessorKind) (parameters : List Parameter)
      (returnType : Option TypeNode)
  | call (typeParameters : List TypeParameterDeclaration) (parameters : List Parameter)
      (returnType : Option TypeNode)
  | construct (typeParameters : List TypeParameterDeclaration) (parameters : List Parameter)
      (returnType : Option TypeNode)
  | index (parameters : List Parameter) (valueType : Option TypeNode)

structure Statement where
  id : NodeId
  span : Span
  kind : StatementKind

inductive StatementKind
  | import (declaration : ImportDeclaration)
  | export (declaration : ExportDeclaration)
  | variable (declaration : VariableStatement)
  | function (declaration : FunctionDeclaration)
  | «class» (declaration : ClassDeclaration)
  | typeAlias (declaration : TypeAliasDeclaration)
  | interface (declaration : InterfaceDeclaration)
  | if (condition : Expression) (thenStatement : Statement) (elseStatement : Option Statement)
  | switch (expression : Expression) (clauses : List SwitchClause)
      (recoveredDiscriminant : Bool)
  | break (jump : JumpStatement)
  | continue (jump : JumpStatement)
  | return (expression : Option Expression)
  | block (statements : List Statement)
  | expression (expression : Expression)
  | empty
  | unknown

structure SwitchClause where
  span : Span
  kind : SwitchClauseKind
  statements : List Statement

inductive SwitchClauseKind
  | case (expression : Expression)
  | default

structure ExportDeclaration where
  specifiers : List ExportSpecifier
  moduleSpecifier : Option String
  moduleSpan : Option Span
  typeOnly : Bool
  exportAll : Bool
  defaultExport : Bool
  assignment : Option Expression

structure VariableStatement where
  declarationKind : VariableKind
  declarators : List VariableDeclarator
  hasLeadingJsdoc : Bool
  exported : Bool
  declared : Bool

structure VariableDeclarator where
  name : String
  nameSpan : Span
  recoveredBindingNames : List AuthoredBindingName
  annotation : Option TypeNode
  initializer : Option Expression

structure FunctionDeclaration where
  name : String
  nameSpan : Span
  typeParameters : List TypeParameterDeclaration
  parameters : List Parameter
  returnType : Option TypeNode
  body : List Statement
  hasBody : Bool
  bodySpan : Option Span
  hasLeadingJsdoc : Bool
  exported : Bool
  defaultExport : Bool
  isAsync : Bool
  declared : Bool
  abstractDeclaration : Bool
  overloadCompletionSupported : Bool

structure ClassDeclaration where
  name : String
  nameSpan : Span
  typeParameters : List TypeParameterDeclaration
  extendsType : Option TypeNode
  implementsTypes : List TypeNode
  members : List ClassMember
  emptyElements : List Span
  bodySpan : Option Span
  exported : Bool
  defaultExport : Bool
  declared : Bool
  abstractClass : Bool
  memberSyntaxRecoveryFree : Bool

structure ClassMember where
  id : NodeId
  name : String
  nameSpan : Span
  nameKind : PropertyNameKind
  stringNameValue : Option Utf16String
  span : Span
  hasLeadingJsdoc : Bool
  modifiers : ClassMemberModifiers
  overloadCompletionSupported : Bool
  emitProductsSupported : Bool
  kind : ClassMemberKind

inductive ClassMemberKind
  | constructor (typeParameters : List TypeParameterDeclaration) (parameters : List Parameter)
      (returnType : Option TypeNode) (body : List Statement) (hasBody : Bool)
      (bodySpan : Option Span)
  | property ( annotation : Option TypeNode) (initializer : Option Expression)
      (optional definite : Bool)
  | method (typeParameters : List TypeParameterDeclaration) (parameters : List Parameter)
      (returnType : Option TypeNode) (body : List Statement) (hasBody : Bool)
      (bodySpan : Option Span) (accessor : Option AccessorKind)

structure TypeAliasDeclaration where
  name : String
  nameSpan : Span
  typeParameters : List TypeParameterDeclaration
  ty : TypeNode
  exported : Bool

structure InterfaceDeclaration where
  name : String
  nameSpan : Span
  typeParameters : List TypeParameterDeclaration
  extendsTypes : List TypeNode
  members : List TypeMember
  exported : Bool

end

end Tsz.Syntax
