import Tsz.Syntax.Parser.Functions

/-!
# Expressions

From primary expressions with their postfixes up to assignments. The loop over call arguments
has a mode, entered behind a rejected generic argument, in which a missing comma does not end it.
-/

namespace Tsz.Syntax

open Noting (note)

variable {source : SourceText} {scanned : ScanOutput source}

def ExpressionKind.isMissing : ExpressionKind → Bool
  | .missing => true
  | _ => false

def ExpressionKind.isAs : ExpressionKind → Bool
  | .as _ _ => true
  | _ => false

/-! ## Type arguments in expressions -/

def typeArgumentsAreFollowedBy (predicate : TokenKind → Bool) : Parse scanned Bool := do
  if !source.kind.supportsExpressionTypeArguments || !(← look (·.atKind .lessThan)) then
    return false
  else
    withSpeculativeParse do
      let (_, close) ← parseTypeArgumentsWithClose
      return close.isSome && predicate (← look (·.kind))

def callTypeArgumentsAreFollowedByLeftParen : Parse scanned Bool :=
  typeArgumentsAreFollowedBy (· == .leftParen)

def tagTypeArgumentsAreFollowedByTemplate : Parse scanned Bool :=
  typeArgumentsAreFollowedBy [TokenKind.noSubstitutionTemplateLiteral, .templateHead].contains

/-! ## Members and elements -/

def parsePropertyAccess (object : Expression) : Parse scanned Expression := do
  let dot := (← bump).span
  if (erasedExpressionSeparatedNumber object).isSome && object.span.stop != dot.start then
    observeLiteralUnsupportedHost .numericSeparator
  let (name, nameSpan) ← parseIdentifierName
  return ⟨← allocNode, object.span.merge nameSpan, .member object name nameSpan⟩

def parseElementIndex : Parse scanned Expression := do
  if ← look (·.atKind .rightBracket) then
    errorCurrent "An element access expression should take an argument." 1011
    missingExpression (← look (·.current.span))
  else
    parseExpression

def parseElementAccess (object : Expression) : Parse scanned Expression := do
  let left := (← bump).span
  let index ← parseElementIndex
  let right ← look (·.current.span)
  let _ ← expect .rightBracket "']' expected." 1005
  return ⟨← allocNode, (object.span.merge left).merge right, .elementAccess object index⟩

def parseMemberAccess (expression : Expression) : Parse scanned Expression := do
  match ← look (·.kind) with
  | .dot => parsePropertyAccess expression
  | .leftBracket => parseElementAccess expression
  | _ => Parse.fault

/-- The elements up to the closing token, in the lists that take no recovery. -/
def expressionList (close : TokenKind) (elements : List Expression) :
    Parse scanned (List Expression) := do
  if ← look (·.atAny [close, .endOfFile]) then
    return elements
  else
    let element : Expression ← Parse.call .assignmentExpression
    let elements := elements ++ [element]
    if ← eat .comma then
      Parse.call (.expressionList close elements)
    else
      return elements

def parseArrayLiteral : Parse scanned Expression := do
  let left := (← bump).span
  let elements : List Expression ← Parse.call (.expressionList .rightBracket [])
  let right ← look (·.current.span)
  let _ ← expect .rightBracket "']' expected." 1005
  return ⟨← allocNode, left.merge right, .array elements⟩

/-! ## Objects -/

/-- An accessor of an object literal; only its extent is kept. -/
def parseObjectAccessor : Parse scanned (ParserRecoveryKind × Span × Span) := do
  let authoredSpan := (← bump).span
  let _ ← parsePropertyName
  let _ ← parseParameters
  let _ ← parseTypeAnnotation
  let memberExtent ←
    if ← look (·.atKind .leftBrace) then
      consumeBalancedTokens .leftBrace .rightBrace "'\x7d' expected."
    else do
      errorCurrent "'\x7b' expected." 1005
      look (·.recoveryExtentFromCurrent authoredSpan)
  let _ ← eat .comma
  return (.objectMember, authoredSpan, { memberExtent with start := authoredSpan.start })

/-- What the name of a property that neither a value nor the next member follows is recorded as. -/
def objectContinuation (objectExtent : Option Span) (nameSpan : Span) :
    Note scanned (ParserRecoveryKind × Span × Span) := do
  let continuation ← look (·.recoveryExtentFromCurrent nameSpan)
  let extent := (objectExtent.map (·.merge continuation)).getD continuation
  let kind : ParserRecoveryKind :=
    if ← look (·.atAny [.leftParen, .lessThan]) then .objectMember else .expression
  return (kind, nameSpan, { extent with start := nameSpan.start })

/-- The value of a property, with the `=` of a shorthand one. -/
def parseObjectPropertyValue (start : Span) (hasLeadingJsdoc : Bool) (name : String)
    (nameSpan : Span) (hasColon methodStart shorthand : Bool) :
    Parse scanned (Expression × Option Span) := do
  if hasColon then
    let value : Expression ← Parse.call .assignmentExpression
    return (value, none)
  else if methodStart then
    let value ←
      parseBlockFunctionLike start hasLeadingJsdoc .objectMethod none false false false
    return (value, none)
  else
    let value : Expression := ⟨← allocNode, nameSpan, .identifier name nameSpan true⟩
    if shorthand && (← look (·.atKind .equals)) then
      let equalsSpan := (← bump).span
      let right : Expression ← Parse.call .assignmentExpression
      return (⟨← allocNode, value.span.merge right.span,
        .assignment value .assign equalsSpan right false⟩, some equalsSpan)
    else
      return (value, none)

def parseObjectProperty (objectExtent : Option Span) :
    Parse scanned (ObjectProperty × List (ParserRecoveryKind × Span × Span)) := do
  let startsOnNewLine ← look fun p => !p.tokensAreOnSameLine (p.index - 1) p.index
  let hasLeadingJsdoc ← look (·.currentHasLeadingJsdoc)
  let start ← look (·.current.span)
  let (name, nameSpan, nameKind) ← parsePropertyName
  let hasColon ← eat .colon
  let methodStart := !hasColon && ! [.privateIdentifier, .unsupported].contains nameKind &&
    ((← look (·.atKind .leftParen)) ||
      source.kind.supportsExpressionTypeArguments && (← look (·.atKind .lessThan)))
  let continued := !hasColon && !methodStart &&
    !(← look (·.atAny [.comma, .equals, .rightBrace, .endOfFile]))
  let continuation ← note (objectContinuation objectExtent nameSpan)
  let shorthand := !hasColon && !methodStart && nameKind == .identifier
  let (value, shorthandEqualsSpan) ←
    parseObjectPropertyValue start hasLeadingJsdoc name nameSpan hasColon methodStart shorthand
  let span := start.merge value.span
  let trailingComma ← eat .comma
  let property : ObjectProperty :=
    ⟨name, nameSpan, nameKind, shorthand, shorthandEqualsSpan, value, span, startsOnNewLine,
      trailingComma, false⟩
  let computed : ParserRecoveryKind × Span × Span :=
    (.objectMember, nameSpan, { span with start := nameSpan.start })
  return (property, (if continued then [continuation] else []) ++
    (if nameKind = .computed then [computed] else []))

def objectProperties (objectExtent : Option Span) (properties : List ObjectProperty)
    (memberRecoveries : List (ParserRecoveryKind × Span × Span)) :
    Parse scanned (List ObjectProperty × List (ParserRecoveryKind × Span × Span)) := do
  if ← look (·.atAny [.rightBrace, .endOfFile]) then
    return (properties, memberRecoveries)
  else if (← look (·.atAny [.get, .set])) && (← look (·.classMemberStartsAccessor)) then
    let recovery ← parseObjectAccessor
    Parse.call (.objectProperties objectExtent properties (memberRecoveries ++ [recovery]))
  else
    let (property, recoveries) ← parseObjectProperty objectExtent
    let properties := properties ++ [property]
    let memberRecoveries := memberRecoveries ++ recoveries
    if property.trailingComma then
      Parse.call (.objectProperties objectExtent properties memberRecoveries)
    else
      return (properties, memberRecoveries)

def markClosingBrace (closingBraceOnNewLine : Bool) (properties : List ObjectProperty) :
    List ObjectProperty :=
  match properties.getLast? with
  | some last => properties.dropLast ++ [{ last with closingBraceOnNewLine }]
  | none => properties

def noteRecoveries : List (ParserRecoveryKind × Span × Span) → Note scanned Unit
  | [] => return ()
  | (kind, authoredSpan, recoveryExtent) :: recoveries => do
    noteRecovery kind authoredSpan recoveryExtent
    noteRecoveries recoveries

def parseObjectLiteral : Parse scanned Expression := do
  let objectExtent ← look fun p => p.balancedRecoveryBraceExtent p.index
  let left := (← bump).span
  let result : List ObjectProperty × List (ParserRecoveryKind × Span × Span) ←
    Parse.call (.objectProperties (objectExtent.map (·.span)) [] [])
  let right ← look (·.current.span)
  let onNewLine ← look fun p => !p.tokensAreOnSameLine (p.index - 1) p.index
  let _ ← expect .rightBrace "'\x7d' expected." 1005
  note (noteRecoveries result.2)
  return ⟨← allocNode, left.merge right, .object (markClosingBrace onNewLine result.1)⟩

/-! ## Class expressions -/

def parseClassHeritageElement : Parse scanned Unit := do
  let _ ← parsePostfixExpression
  let _ ← parseTypeArguments

def heritageElements : Parse scanned Unit := do
  if ← eat .comma then
    parseClassHeritageElement
    Parse.call .heritageElements
  else
    return ()

def parseClassExpressionName : Parse scanned Unit := do
  let implementsClause :=
    (← look (·.atKind .implements)) && (← look (·.peekKind 1)).isIdentifierName
  if (← look (·.kind.isIdentifier)) && !implementsClause then
    let _ ← parseName

def parseClassExpressionHeritage : Parse scanned Unit := do
  let _ ← parseTypeParameters
  let _ ← eatThen .extends parseClassHeritageElement
  if ← eat .implements then
    parseClassHeritageElement
    Parse.call .heritageElements
  else
    return ()

/-- A class expression; only its extent is kept. -/
def parseUnsupportedClassExpression : Parse scanned Expression := do
  let start := (← bump).span
  let previous ← look (·.toLedger)
  amend fun l => { l with yieldBindingReserved := true, classYieldBindingReserved := true }
  parseClassExpressionName
  amend fun l =>
    { l with
      yieldBindingReserved := !previous.inYieldContext
      classYieldBindingReserved := !previous.inYieldContext }
  parseClassExpressionHeritage
  let body ←
    if ← look (·.atKind .leftBrace) then
      consumeBalancedTokens .leftBrace .rightBrace "'\x7d' expected."
    else do
      errorCurrent "'\x7b' expected." 1005
      look (·.recoveryExtentFromCurrent start)
  amend fun l =>
    { l with
      yieldBindingReserved := previous.yieldBindingReserved
      classYieldBindingReserved := previous.classYieldBindingReserved }
  let span := start.merge body
  noteRecovery .classExpression start span
  missingExpression span

/-! ## Primary expressions -/

def parseTypeAssertion : Parse scanned Expression := do
  let left := (← bump).span
  let type : TypeNode ← Parse.call .type
  let closed ← expectTypeClose
  let expression : Expression ← Parse.call .unaryExpression
  let span := left.merge expression.span
  let assertion : Expression := ⟨← allocNode, span, .as expression type⟩
  let recovery : ParserRecoveryKind :=
    if closed then .angleAssertion else .rejectedGenericArrowPrefix
  retainParserRecovery recovery left span
  return assertion

def parseRejectedGenericArrowTypeAssertion : Parse scanned Expression := do
  let left := (← bump).span
  let type : TypeNode ← Parse.call .type
  let _ ← expectTypeClose
  let missing ← missingExpression (← look (·.current.span))
  return ⟨← allocNode, left.merge type.span, .as missing type⟩

def newCallee (callee : Expression) : Parse scanned Expression := do
  if ← look (·.atAny [.dot, .leftBracket]) then
    let callee ← parseMemberAccess callee
    Parse.call (.newCallee callee)
  else
    return callee

def parseNewExpression : Parse scanned Expression := do
  let left := (← bump).span
  let primary : Expression ← Parse.call .primaryExpression
  let callee : Expression ← Parse.call (.newCallee primary)
  let hasTypeArguments ← look (·.atKind .lessThan)
  let (typeArguments, typeArgumentListClose) ←
    if hasTypeArguments then parseTypeArgumentsWithClose else pure ([], none)
  let hasArgumentList ← eat .leftParen
  if hasArgumentList then
    let arguments : List Expression ← Parse.call (.expressionList .rightParen [])
    let stop ← look (·.current.span)
    let _ ← expect .rightParen "')' expected." 1005
    if hasTypeArguments then
      insertSourceSyntaxFact .explicitNewTypeArguments
    return ⟨← allocNode, left.merge stop,
      .new callee typeArguments typeArgumentListClose arguments true⟩
  else
    if hasTypeArguments then
      insertSourceSyntaxFact .explicitNewTypeArguments
    return ⟨← allocNode, left.merge (typeArgumentListClose.getD callee.span),
      .new callee typeArguments typeArgumentListClose [] false⟩

def observeUnsignedShiftPrefixRecovery (kind : TokenKind) : Note scanned Unit := do
  if !(← look (·.speculating)) then
    match kind with
    | .greaterThanGreaterThanGreaterThan =>
      insertSourceSyntaxFact .unsignedRightShiftOperandRecovery
    | .greaterThanGreaterThanGreaterThanEquals =>
      insertSourceSyntaxFact .unsignedRightShiftAssignmentRecovery
    | _ => return ()

/-- The tokens a missing expression leaves to what surrounds it. -/
def expressionStops : List TokenKind :=
  [.colon, .semicolon, .rightParen, .rightBracket, .rightBrace, .comma, .endOfFile]

def noteMissingExpression (token : Token) : Note scanned Unit := do
  observeUnsignedShiftPrefixRecovery token.kind
  observeUnmodeledRegularExpressionIfCurrent
  observeUnmodeledTemplateIfCurrent
  let _ ← retainRecoveryExtent .missingExpression token.span
  errorExpressionExpected

def parseMissingPrimary (token : Token) : Parse scanned Expression := do
  note (noteMissingExpression token)
  if !(← look (·.atAny expressionStops)) then
    let _ ← bump
  missingExpression token.span

def parseParenthesizedInner : Parse scanned Expression := do
  if ← look (·.atKind .rightParen) then
    errorExpressionExpected
    missingExpression (← look (·.current.span))
  else
    parseExpression

def parseParenthesizedExpression : Parse scanned Expression := do
  let left := (← bump).span
  let recoveryCount ← look (·.parserRecoveryFacts.length)
  let inner ← parseParenthesizedInner
  let right ← look (·.current.span)
  if !(← eat .rightParen) then
    if (← look (·.parserRecoveryFacts.length)) = recoveryCount ∧
        !(← look (·.atAny [.question, .comma])) then
      errorCurrent "')' expected." 1005
  return ⟨← allocNode, left.merge right, .parenthesized inner⟩

def withLeadingJsdoc (hasLeadingJsdoc : Bool) : ExpressionKind → ExpressionKind
  | .functionLike function =>
    .functionLike
      { function with hasLeadingJsdoc := function.hasLeadingJsdoc || hasLeadingJsdoc }
  | kind => kind

def parseAsyncExpression (asyncFunction hasLeadingJsdoc : Bool) : Parse scanned Expression := do
  let modifier := (← bump).span
  let expression ←
    if asyncFunction then parseFunctionExpression true else parseParenthesizedArrow false true
  let span := modifier.merge expression.span
  retainParserRecovery .expression modifier span
  return ⟨expression.id, span, withLeadingJsdoc hasLeadingJsdoc expression.kind⟩

/-- An identifier, `this`, `super` or `import`, or an arrow with one bare parameter. -/
def parseIdentifierPrimary (token : Token) (hasLeadingJsdoc contextualKeyword : Bool) :
    Parse scanned Expression := do
  if contextualKeyword || !token.kind.isIdentifier then
    let _ ← bump
  else
    let _ ← Parse.bumpIdentifier
  let name ← look (·.text token.span)
  if ← eat .fatArrow then
    let parameter : Parameter :=
      { name
        nameSpan := token.span
        recoveredBindingNames := []
        nameKind := .binding
        annotation := none
        initializer := none
        optional := false
        optionalSpan := none
        rest := false
        restSpan := none
        modifiers := []
        overloadCompletionSupported := token.kind == .identifier
        functionImplementationCompletionSupported := token.kind.isIdentifier
        span := token.span }
    let (form, bodySpan) ← parseArrowBody false
    let stop ← look (·.previous.span)
    return ⟨← allocNode, token.span.merge stop,
      .functionLike ⟨[], [parameter], none, bodySpan, hasLeadingJsdoc, form⟩⟩
  else if token.kind = .this then
    return ⟨← allocNode, token.span, .this⟩
  else
    let entityName := token.kind.isIdentifier && !contextualKeyword
    return ⟨← allocNode, token.span, .identifier name token.span entityName⟩

/-- An expression that starts with `<`. -/
def parseAngleExpression (token : Token) : Parse scanned Expression := do
  if ← genericArrowIsParenthesizedArrow then
    parseParenthesizedArrow true false
  else if ← look (·.currentStartsRejectedGenericArrowPrefix) then
    parseRejectedGenericArrowTypeAssertion
  else if source.kind = .typeScript then
    parseTypeAssertion
  else
    parseMissingPrimary token

def notePrimaryModifiers (token : Token) (asyncFunction : Bool) : Note scanned Unit := do
  if asyncFunction || token.kind == .function && (← look (·.peekKind 1)) == .star then
    insertSourceSyntaxFact .authoredFunctionExpressionModifier
  if asyncFunction then
    let _ ← retainRecoveryExtent .expression token.span
  let generatorYield := token.kind == .yield && (← look (·.inYieldContext))
  if token.kind == .yield && !generatorYield && (← look (·.classYieldBindingReserved)) then
    let _ ← diagnoseClassStrictYield token
  if generatorYield then
    let _ ← retainRecoveryExtent .expression token.span

def asyncStartsArrow (token : Token) : Parse scanned Bool := do
  if token.kind = .async ∧ (← look (·.peekKind 1)) = .leftParen ∧
      (← look fun p => p.tokensAreOnSameLine p.index (p.index + 1)) then
    asyncParenthesizedArrowIsArrow
  else
    return false

def parsePrimaryExpression : Parse scanned Expression := do
  let token ← look (·.current)
  let hasLeadingJsdoc ← look (·.currentHasLeadingJsdoc)
  let asyncArrow ← asyncStartsArrow token
  let asyncFunction := token.kind == .async && (← look (·.peekKind 1)) == .function &&
    (← look fun p => p.tokensAreOnSameLine p.index (p.index + 1))
  note (notePrimaryModifiers token asyncFunction)
  let contextualKeyword := token.kind == .yield && (← look (·.inYieldContext)) ||
    token.kind == .await && (← look (·.inAwaitContext))
  match token.kind with
  | .lessThan => parseAngleExpression token
  | .async =>
    if asyncFunction || asyncArrow then
      parseAsyncExpression asyncFunction hasLeadingJsdoc
    else
      parseIdentifierPrimary token hasLeadingJsdoc contextualKeyword
  | .function => parseFunctionExpression false
  | .class => parseUnsupportedClassExpression
  | .import | .this | .super =>
    parseIdentifierPrimary token hasLeadingJsdoc contextualKeyword
  | .new => parseNewExpression
  | .true | .false | .null | .numericLiteral | .bigIntLiteral | .stringLiteral =>
    let _ ← bump
    let literal ← look (·.literalFrom token)
    return ⟨← allocNode, token.span, .literal literal⟩
  | .noSubstitutionTemplateLiteral => parseNoSubstitutionTemplateLiteral
  | .templateHead => parseTemplateExpression
  | .regularExpressionLiteral => parseRegularExpressionLiteral
  | .leftBrace => parseObjectLiteral
  | .leftBracket => parseArrayLiteral
  | .leftParen =>
    if (← primaryParenthesizedArrowIndex).isSome then
      parseParenthesizedArrow false false
    else
      parseParenthesizedExpression
  | kind =>
    if kind.isIdentifier then
      parseIdentifierPrimary token hasLeadingJsdoc contextualKeyword
    else
      parseMissingPrimary token

/-! ## Postfixes -/

/-- Call arguments up to `)`. Behind a rejected generic argument the list goes on without a
comma. -/
def callArguments (arguments : List Expression) (recoverRejectedGenericArgument : Bool) :
    Parse scanned (List Expression) := do
  if ← look (·.atAny [.rightParen, .endOfFile]) then
    return arguments
  else if recoverRejectedGenericArgument && (← look (·.atKind .fatArrow)) then
    errorCurrent "Argument expression expected." 1135
    let _ ← bump
    Parse.call (.callArguments arguments recoverRejectedGenericArgument)
  else
    let starts ← look (·.currentStartsRejectedGenericArrowPrefix)
    let argument : Expression ← Parse.call .assignmentExpression
    let recoverRejectedGenericArgument := recoverRejectedGenericArgument || starts ||
      (← look (·.expressionStartsRejectedGenericArrowPrefix argument.span))
    let arguments := arguments ++ [argument]
    if ← eat .comma then
      Parse.call (.callArguments arguments recoverRejectedGenericArgument)
    else if !recoverRejectedGenericArgument ||
        (← look (·.atAny [.rightParen, .endOfFile])) then
      return arguments
    else if argument.kind.isMissing then
      Parse.call (.callArguments arguments recoverRejectedGenericArgument)
    else
      errorCurrent "',' expected." 1005
      let _ ← eat .colon
      Parse.call (.callArguments arguments recoverRejectedGenericArgument)

def parseCallTypeArguments (hasTypeArguments : Bool) :
    Parse scanned (Option (List TypeNode)) := do
  if hasTypeArguments then
    insertSourceSyntaxFact .explicitCallTypeArguments
    return some (← parseTypeArguments)
  else
    return none

def parseCallExpression (callee : Expression) (hasTypeArguments : Bool) :
    Parse scanned Expression := do
  let typeArguments ← parseCallTypeArguments hasTypeArguments
  let _ ← expect .leftParen "'(' expected." 1005
  let arguments : List Expression ← Parse.call (.callArguments [] false)
  let right ← look (·.current.span)
  let _ ← expect .rightParen "')' expected." 1005
  return ⟨← allocNode, callee.span.merge right, .call callee typeArguments arguments⟩

def consumeNonNullPostfix : Parse scanned (Option Span) := do
  if source.kind.supportsExpressionTypeArguments && (← look (·.atKind .bang)) &&
      (← look fun p => p.tokensAreOnSameLine (p.index - 1) p.index) then
    return some (← bump).span
  else
    return none

def observeUnmodeledPostfixExpression (receiver : Span) : Parse scanned (Option Span) := do
  note observeUnmodeledNonNullTemplateAdjacency
  let tagged ← rejectTaggedTemplate receiver
  if ← look (·.atAny [.questionDot, .satisfies]) then
    let _ ← retainRecoveryExtent .expression (← look (·.current.span))
  return tagged

def postfixTail (expression : Expression) : Parse scanned Expression := do
  if ← tagTypeArgumentsAreFollowedByTemplate then
    let _ ← parseTypeArguments
    match ← rejectTaggedTemplate expression.span with
    | none => Parse.fault
    | some span =>
      let missing ← missingExpression span
      Parse.call (.postfixTail missing)
  else
    let hasTypeArguments ← callTypeArgumentsAreFollowedByLeftParen
    if expression.kind.isMissing &&
        (← look (·.expressionIsInsideRejectedGenericArrowPrefix expression.span)) then
      return expression
    else if hasTypeArguments || (← look (·.atKind .leftParen)) then
      let call ← parseCallExpression expression hasTypeArguments
      Parse.call (.postfixTail call)
    else if ← look (·.atRecoveredElementAccess expression) then
      return expression
    else if ← look (·.atAny [.dot, .leftBracket]) then
      let access ← parseMemberAccess expression
      Parse.call (.postfixTail access)
    else if ← eat .as then
      let type : TypeNode ← Parse.call .type
      let assertion : Expression :=
        ⟨← allocNode, expression.span.merge type.span, .as expression type⟩
      Parse.call (.postfixTail assertion)
    else
      match ← consumeNonNullPostfix with
      | some bang =>
        let nonNull : Expression :=
          ⟨← allocNode, expression.span.merge bang, .nonNull expression⟩
        Parse.call (.postfixTail nonNull)
      | none =>
        match ← observeUnmodeledPostfixExpression expression.span with
        | none => return expression
        | some span =>
          let missing ← missingExpression span
          Parse.call (.postfixTail missing)

/-! ## Operators -/

def unaryOperator (p : Parser scanned) : Option UnaryOperator :=
  match p.kind with
  | .plus => some .plus
  | .minus => some .minus
  | .bang => some .not
  | .tilde => some .bitwiseNot
  | .typeOf => some .typeOf
  | .void => some .void
  | .delete => some .delete
  | .await =>
    if p.inAwaitContext || (p.identifierValue p.current.span).isNone then some .await else none
  | _ => none

def parseUnaryExpression : Parse scanned Expression := do
  match ← parseUnsupportedAwaitTemplate with
  | some expression => return expression
  | none =>
    let token ← look (·.current)
    match ← look unaryOperator with
    | none => parsePostfixExpression
    | some operator =>
      let _ ← bump
      let operand : Expression ← Parse.call .unaryExpression
      return ⟨← allocNode, token.span.merge operand.span, .unary operator operand⟩

def parseBinaryExpression (minimumPrecedence : Nat) : Parse scanned Expression := do
  let expression : Expression ← Parse.call .unaryExpression
  if expressionHasRecoveredLeftEdge expression then
    observeUnmodeledRegularExpressionIfCurrent
  Parse.call (.binaryTail minimumPrecedence expression)

def binaryTail (minimumPrecedence : Nat) (expression : Expression) :
    Parse scanned Expression := do
  match binaryOperator (← look (·.kind)) with
  | none => return expression
  | some (operator, precedence) =>
    if precedence < minimumPrecedence then
      return expression
    else
      let operatorSpan := (← bump).span
      let right : Expression ← Parse.call (.binaryExpression (precedence + 1))
      let binary : Expression :=
        ⟨← allocNode, expression.span.merge right.span,
          .binary expression operator operatorSpan right⟩
      Parse.call (.binaryTail minimumPrecedence binary)

/-- The alternative behind `:`, missing when there is none. -/
def parseWhenFalse : Parse scanned (Option Span × Expression) := do
  match ← bumpAt .colon with
  | some colonSpan =>
    let whenFalse : Expression ← Parse.call .assignmentExpression
    return (some colonSpan, whenFalse)
  | none =>
    errorCurrent "':' expected." 1005
    let stop ← look (·.previous.span.stop)
    return (none, ← missingExpression ⟨source.id, stop, stop⟩)

def parseConditionalExpression : Parse scanned Expression := do
  let condition : Expression ← Parse.call (.binaryExpression 0)
  if !(← look (·.speculating)) &&
      (← look (·.atKind .greaterThanGreaterThanGreaterThanEquals)) then
    insertSourceSyntaxFact .unsignedRightShiftAssignmentRecovery
  match ← bumpAt .question with
  | none => return condition
  | some questionSpan =>
    let whenTrue : Expression ← Parse.call .assignmentExpression
    let (colonSpan, whenFalse) ← parseWhenFalse
    let span := condition.span.merge whenFalse.span
    if colonSpan.isNone then
      noteRecovery .conditionalExpression questionSpan span
    return ⟨← allocNode, span,
      .conditional condition questionSpan whenTrue colonSpan whenFalse⟩

def observeUnmodeledTemplateTail (expression : Expression) : Note scanned Unit := do
  if (← look (·.atKind .questionDot)) && (erasedExpressionSeparatedNumber expression).isSome then
    observeLiteralUnsupportedHost .numericSeparator
  let closed ← look (·.atAny
    [.semicolon, .rightBrace, .rightParen, .rightBracket, .templateMiddle, .templateTail,
      .endOfFile])
  if expression.containsNoSubstitutionTemplate && !closed then
    let isPostfixContinuation ← look (·.atAny
      [.leftBracket, .leftParen, .dot, .questionDot, .satisfies])
    let sameLine ← look fun p => p.tokensAreOnSameLine (p.index - 1) p.index
    if isPostfixContinuation || sameLine then
      let _ ← retainRecoveryExtent .template expression.span

def assignmentOperator : TokenKind → Option AssignmentOperator
  | .equals => some .assign
  | .plusEquals => some .addAssign
  | _ => none

def parseAssignmentTail (left : Expression) (hasLeadingJsdoc : Bool) :
    Parse scanned Expression := do
  match assignmentOperator (← look (·.kind)) with
  | none => return left
  | some operator =>
    let operatorSpan := (← bump).span
    let right : Expression ← Parse.call .assignmentExpression
    return ⟨← allocNode, left.span.merge right.span,
      .assignment left operator operatorSpan right hasLeadingJsdoc⟩

def parseAssignmentExpression : Parse scanned Expression := do
  let hasLeadingJsdoc ← look (·.currentHasLeadingJsdoc)
  let left ← parseConditionalExpression
  let expression ← parseAssignmentTail left hasLeadingJsdoc
  note (observeUnmodeledTemplateTail expression)
  return expression

def expressionTail (expression : Expression) : Parse scanned Expression := do
  if ← look (·.atKind .comma) then
    let operatorSpan := (← bump).span
    let right : Expression ← Parse.call .assignmentExpression
    let binary : Expression :=
      ⟨← allocNode, expression.span.merge right.span,
        .binary expression .comma operatorSpan right⟩
    Parse.call (.expressionTail binary)
  else
    return expression

end Tsz.Syntax
