import Tsz.Syntax.Parser.Types

/-!
# Functions

Arrow functions with the speculation that tells them from parenthesized expressions, and the
function forms with a block.
-/

namespace Tsz.Syntax

variable {source : SourceText} {scanned : ScanOutput source}

/-! ## Where an arrow is -/

/-- The arrow behind a parameter list: so many tokens further, or left out. -/
inductive ParenthesizedArrowToken
  | present (distance : Nat)
  | missing

def speculativeParameters : Parse scanned Bool := do
  if ← look (·.atAny [.rightParen, .endOfFile]) then
    return true
  else if !(← look (·.parameterStartsArrowSpeculation)) then
    return false
  else
    let _ ← parseParameter
    if ← eat .comma then
      Parse.call .speculativeParameters
    else if ← look (·.atKind .rightParen) then
      Parse.call .speculativeParameters
    else if ← look (·.parameterStartsArrowSpeculation) then
      Parse.call .speculativeParameters
    else
      return false

def speculativeArrow (origin : Nat) : Parse scanned (Option ParenthesizedArrowToken) := do
  let _ ← bump
  let compatible : Bool ← Parse.call .speculativeParameters
  let closed ← eat .rightParen
  if !(compatible && closed) then
    return none
  else if ← look (·.atKind .fatArrow) then
    return some (.present ((← look (·.index)) - origin))
  else if ← eat .colon then
    let returnType : TypeNode ← Parse.call .type
    if returnType.blocksArrowParse then
      return none
    else if ← look (·.atKind .fatArrow) then
      return some (.present ((← look (·.index)) - origin))
    else if ← look (·.atKind .leftBrace) then
      return some .missing
    else
      return none
  else if ← look (·.atKind .leftBrace) then
    return some .missing
  else
    return none

def speculativeParenthesizedArrowToken : Parse scanned (Option ParenthesizedArrowToken) := do
  let origin ← look (·.index)
  if (← look (·.notParenthesizedArrows)).contains origin then
    return none
  else
    let arrow ← withSpeculativeParse (speculativeArrow origin)
    if arrow.isNone then
      amend fun l => { l with notParenthesizedArrows := origin :: l.notParenthesizedArrows }
    return arrow

/-- The arrow behind the type annotation that starts so many tokens further. -/
def typeAnnotationArrowToken (distance : Nat) (definite : Bool) :
    Parse scanned (Option ParenthesizedArrowToken) := do
  let origin ← look (·.index)
  withSpeculativeParse do
    Parse.advance distance
    let returnType : TypeNode ← Parse.call .type
    if ← look (·.atKind .fatArrow) then
      if definite || !returnType.blocksArrowParse then
        return some (.present ((← look (·.index)) - origin))
      else
        return none
    else if definite || (← look (·.atKind .leftBrace)) && !returnType.blocksArrowParse then
      return some .missing
    else
      return none

def parenExpressionArrowToken (definite : Bool) :
    Parse scanned (Option ParenthesizedArrowToken) := do
  if !(← look (·.atKind .leftParen)) then
    return none
  else if !definite then
    speculativeParenthesizedArrowToken
  else
    match closingParenDistance 0 (← look fun p => p.tokensFrom p.index) with
    | none => return none
    | some close =>
      match ← look (·.peekKind (close + 1)) with
      | .fatArrow => return some (.present (close + 1))
      | .colon =>
        if (← look (·.peekKind (close + 2))) = .fatArrow then
          return some (.present (close + 2))
        else
          typeAnnotationArrowToken (close + 2) definite
      | _ => return some .missing

def primaryParenthesizedArrowIndex : Parse scanned (Option ParenthesizedArrowToken) := do
  if (← look (·.parenthesisFollowsRecoveredGenericPrefix)) ||
      (← look (·.parenthesisContinuesRecoveredFunctionDeclaration)) then
    return none
  else
    match ← look (·.parenthesizedArrowHeadCertainty) with
    | none => return none
    | some definite => parenExpressionArrowToken definite

def asyncParenthesizedArrowIsArrow : Parse scanned Bool := do
  return (← Parse.lookahead 1 primaryParenthesizedArrowIndex).isSome

/-- Whether type parameters start an arrow, and whether they only start one that lacks its
return type. -/
def speculativeGenericArrow : Parse scanned (Bool × Bool) := do
  let typeParameters ← parseTypeParameters
  let parenthesized ← look (·.atKind .leftParen)
  let allowMissingReturn := source.kind == .typeScriptJsx
  let arrow ←
    if parenthesized then
      parenExpressionArrowToken allowMissingReturn
    else
      pure none
  let rejected ←
    if !allowMissingReturn && !typeParameters.isEmpty && parenthesized && arrow.isNone then
      parenExpressionArrowToken true
    else
      pure none
  match rejected with
  | some (.present _) => return (!typeParameters.isEmpty && arrow.isSome, true)
  | _ => return (!typeParameters.isEmpty && arrow.isSome, false)

def genericArrowIsParenthesizedArrow : Parse scanned Bool := do
  if !source.kind.supportsExpressionTypeArguments || !(← look (·.atKind .lessThan)) ||
      !(← look (·.genericArrowIsUnambiguousInJsx)) ||
      (← look (·.currentContinuesRecoveredFunctionDeclaration)) then
    return false
  else
    let (isArrow, rejected) ← withSpeculativeParse speculativeGenericArrow
    if rejected && !(← look (·.speculating)) then
      let _ ← retainRecoveryExtent .rejectedGenericArrowPrefix (← look (·.current.span))
    return isArrow

/-! ## Bodies -/

def parseArrowBody (awaitContext : Bool) :
    Parse scanned (FunctionLikeSyntax × Option Span) := do
  let previous ← look (·.toLedger)
  amend fun l =>
    { l with
      inYieldContext := false
      inAwaitContext := awaitContext
      awaitBindingReserved := awaitContext }
  let body ←
    if ← look (·.atKind .leftBrace) then do
      let (statements, span) ← parseBlock
      pure (FunctionLikeSyntax.arrowBlock statements, span)
    else do
      let expression : Expression ← Parse.call .assignmentExpression
      pure (FunctionLikeSyntax.arrowExpression expression, none)
  amend fun l =>
    { l with
      inYieldContext := previous.inYieldContext
      inAwaitContext := previous.inAwaitContext
      awaitBindingReserved := previous.awaitBindingReserved }
  return body

def parseRecoveredArrowBody (hasArrow awaitContext : Bool) :
    Parse scanned (FunctionLikeSyntax × Option Span) := do
  if (← look (·.atKind .leftBrace)) || hasArrow then
    parseArrowBody awaitContext
  else if ← look (·.kind.isIdentifier) then
    let expression : Expression ← Parse.call .primaryExpression
    return (.arrowExpression expression, none)
  else
    return (.arrowExpression (← missingExpression (← look (·.current.span))), none)

/-- The tokens of a body whose syntax was recovered. -/
def bumpToRecovered (recovered : Bool) (extent : Option (BraceExtent source)) :
    Parse scanned Unit := do
  match extent with
  | none => return ()
  | some extent =>
    if recovered then
      Parse.call (.bumpTo extent)
    else
      return ()

structure ArrowHeader where
  arrow : Option Nat
  parameters : List Parameter
  returnType : Option TypeNode
  recovered : Bool

/-- The return type of an arrow, missing when the arrow itself stands in its place. -/
def parseArrowReturnType (origin : Nat) (arrow : Option Nat) : Parse scanned TypeNode := do
  let token ← look (·.current)
  let here ← look (·.index)
  if token.kind = .fatArrow ∧ arrow.map (origin + ·) = some here then
    recoverMissingType token false
  else
    Parse.call .type

def parseArrowHeader (isAsync : Bool) (diagnosticCount : Nat) : Parse scanned ArrowHeader := do
  let origin ← look (·.index)
  let arrow :=
    match ← parenExpressionArrowToken true with
    | some (.present distance) => some distance
    | _ => none
  let previous ← look (·.arrowParameterKeywordContext)
  amend fun l =>
    { l with
      arrowParameterKeywordContext := !isAsync && (l.inAwaitContext || l.inYieldContext) }
  let parameters ← parseArrowParameters
  amend fun l => { l with arrowParameterKeywordContext := previous }
  let returnType ← eatThen .colon (parseArrowReturnType origin arrow)
  let _ ← expect .fatArrow "'=>' expected." 1005
  let recovered := (← look (·.diagnostics.length)) != diagnosticCount
  return ⟨arrow, parameters, returnType, recovered⟩

def parseParenthesizedArrow (generic isAsync : Bool) : Parse scanned Expression := do
  let diagnosticCount ← look (·.diagnostics.length)
  let hasLeadingJsdoc ← look (·.currentHasLeadingJsdoc)
  let left ← look (·.current.span)
  let typeParameters ← if generic then parseTypeParameters else pure []
  let previous ← look (·.toLedger)
  if isAsync then
    amend fun l => { l with inAwaitContext := true, awaitBindingReserved := true }
  -- after an error in the header the body is taken from behind the arrow that was looked up
  let header ← Parse.returningTo (parseArrowHeader isAsync diagnosticCount) fun header =>
    if header.recovered then header.arrow.map (· + 1) else none
  let count ← look fun p => (p.diagnostics.length, p.parserRecoveryFacts.length)
  let authoredBodyExtent ← look fun p => p.balancedRecoveryBraceExtent p.index
  let (form, bodySpan) ← parseRecoveredArrowBody header.arrow.isSome isAsync
  let bodyRecovered :=
    (← look fun p => (p.diagnostics.length, p.parserRecoveryFacts.length)) != count
  bumpToRecovered bodyRecovered authoredBodyExtent
  let span := left.merge (← look (·.previous.span))
  let expression : Expression :=
    ⟨← allocNode, span, .functionLike ⟨typeParameters, header.parameters, header.returnType,
      bodySpan, hasLeadingJsdoc, form⟩⟩
  if header.recovered || bodyRecovered then
    retainParserRecovery .expression left span
  amend fun l =>
    { l with
      inAwaitContext := previous.inAwaitContext
      awaitBindingReserved := previous.awaitBindingReserved }
  return expression

/-! ## Functions with a block -/

def parseBlockFunctionLike (start : Span) (hasLeadingJsdoc : Bool)
    (kind : FunctionLikeFunctionKind) (name : Option AuthoredBindingName)
    (intrinsicallyRecovered yieldContext awaitContext : Bool) : Parse scanned Expression := do
  let count ← look fun p => (p.diagnostics.length, p.parserRecoveryFacts.length)
  let previous ← look (·.toLedger)
  amend fun l =>
    { l with
      inYieldContext := yieldContext
      inAwaitContext := false
      awaitBindingReserved := false }
  let typeParameters ← parseTypeParameters
  amend fun l =>
    { l with inAwaitContext := awaitContext, awaitBindingReserved := awaitContext }
  let parameters ← parseSignatureParameters
  let returnType ← parseTypeAnnotation
  let headerRecovered := intrinsicallyRecovered ||
    (← look fun p => (p.diagnostics.length, p.parserRecoveryFacts.length)) != count
  let hasOpeningBrace ← look (·.atKind .leftBrace)
  let authoredBodyExtent ← look fun p =>
    if kind = .expression then p.balancedRecoveryBraceExtent p.index else none
  let (body, bodySpan) ←
    if hasOpeningBrace then
      parseBlock
    else do
      let _ ← expect .leftBrace "'\x7b' expected." 1005
      if kind = .objectMethod then
        let _ ← eat .semicolon
      pure ([], none)
  bumpToRecovered headerRecovered authoredBodyExtent
  amend fun l =>
    { l with
      inYieldContext := previous.inYieldContext
      inAwaitContext := previous.inAwaitContext
      awaitBindingReserved := previous.awaitBindingReserved }
  let last ← look (·.previous)
  let hasClosingBrace := hasOpeningBrace && last.kind == .rightBrace
  let span := start.merge last.span
  let expression : Expression :=
    ⟨← allocNode, span, .functionLike ⟨typeParameters, parameters, returnType, bodySpan,
      hasLeadingJsdoc, .function kind name body⟩⟩
  if headerRecovered || !hasOpeningBrace || !hasClosingBrace then
    let recovery : ParserRecoveryKind :=
      if intrinsicallyRecovered then .generatorFunctionLike else .expression
    retainParserRecovery recovery start span
  return expression

def parseFunctionName : Parse scanned (Option AuthoredBindingName) := do
  let tokenKind ← look (·.kind)
  if tokenKind.isIdentifier then
    let (name, span) ← parseName
    return some ⟨name, span, tokenKind⟩
  else
    return none

def parseFunctionExpression (isAsync : Bool) : Parse scanned Expression := do
  let hasLeadingJsdoc ← look (·.currentHasLeadingJsdoc)
  let functionKeyword := (← bump).span
  let unmodeledGenerator ← eat .star
  let previous ← look (·.yieldBindingReserved)
  amend fun l => { l with yieldBindingReserved := l.yieldBindingReserved || unmodeledGenerator }
  let name ← parseFunctionName
  let expression ← parseBlockFunctionLike functionKeyword hasLeadingJsdoc .expression name
    unmodeledGenerator unmodeledGenerator isAsync
  amend fun l => { l with yieldBindingReserved := previous }
  return expression

end Tsz.Syntax
