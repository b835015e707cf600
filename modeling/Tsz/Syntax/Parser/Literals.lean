import Tsz.Syntax.Parser.Lookahead
import Tsz.Syntax.Escapes

/-!
# Names and literals

The values of literal tokens, the productions of names and templates, and the notes about
literals that later phases do not handle.
-/

namespace Tsz.Syntax

open Noting (note)

variable {source : SourceText} {scanned : ScanOutput source}

/-! ## Values -/

/-- The text of the code units, if every surrogate is paired. -/
def Utf16String.asString (value : Utf16String) : Option String :=
  let text := fromUtf16Lossy value.units
  if encodeUtf16 text = value.units then some text else none

def unquoteChars (text : List Char) : List Char :=
  match text, text.getLast? with
  | first :: _ :: _, some last =>
    if (first = '\'' ∨ first = '"') ∧ first = last then (text.drop 1).dropLast else text
  | _, _ => text

def unquote (text : String) : String := String.ofList (unquoteChars text.toList)

namespace Parser

variable (p : Parser scanned)

def cookedStringLiteral (_ : Parser scanned) (token : Token) : Option Utf16String :=
  (scanAt scanned.cookedStringLiterals token.span (·.span)).map (·.cooked)

def extendedUnicodeStringLiteral (_ : Parser scanned) (token : Token) :
    Option ExtendedUnicodeStringLiteral :=
  (scanAt scanned.stringLiterals token.span (·.span)).map (·.literal)

def ordinaryStringLiteralValue (token : Token) : String :=
  let cooked := (p.cookedStringLiteral token).bind Utf16String.asString
  cooked.getD (unquote (p.text token.span))

def numberLiteral (token : Token) : NumberLiteral :=
  match scanAt scanned.numericLiterals token.span (·.span) with
  | some literal => .recovery literal.literal
  | none =>
    match scanAt scanned.separatedNumericLiterals token.span (·.span) with
    | some literal => .separated literal.literal
    | none => .plain (p.text token.span)

def literalFrom (token : Token) : Literal :=
  match token.kind with
  | .true => .boolean true
  | .false => .boolean false
  | .null => .null
  | .stringLiteral =>
    match p.extendedUnicodeStringLiteral token with
    | some literal => .string (.extended literal)
    | none => .string (.plain (p.ordinaryStringLiteralValue token))
  | .bigIntLiteral => .bigInt (p.text token.span)
  | _ => .number (p.numberLiteral token)

end Parser

/-! ## Notes about literals -/

section

variable {m : Type → Type} [Noting scanned m]

def observeUnmodeledNumericSeparatorIfCurrent : m Unit := note do
  let span ← look (·.current.span)
  if (scanAt scanned.separatedNumericLiterals span (·.span)).isSome then
    observeLiteralUnsupportedHost .numericSeparator

def observeUnmodeledNumericSeparatorInSpan (span : Span) : m Unit := note do
  let inside (literal : ScannedSeparatedNumberLiteral) : Bool :=
    literal.span.file == span.file && span.start ≤ literal.span.start &&
      literal.span.stop ≤ span.stop
  if scanned.separatedNumericLiterals.any inside then
    observeLiteralUnsupportedHost .numericSeparator

def observeRegularExpressionInUnsupportedStatement : m Unit := note do
  if ← look (·.atAny [.for, .while, .with]) then
    let header ← look fun p => p.tokensFrom (p.index + 1)
    match closingParenDistance 0 header with
    | none => return
    | some headerEnd =>
      let bodyStartsWithSlash := (header[headerEnd + 1]?).any fun token =>
        [.slash, .slashEquals].contains token.kind
      let operandStartsWithSlash := (← look (·.atKind .for)) && ofBeforeSlash (header.take headerEnd)
      if bodyStartsWithSlash || operandStartsWithSlash then
        observeLiteralUnsupportedHost .regularExpression

def finishRegularExpressionSource : m Unit := note do
  let observed ← look (·.sourceSyntaxFacts.any fun
    | .literalBoundary .regularExpression _ => true
    | _ => false)
  if !scanned.regularExpressionLiterals.isEmpty || observed then
    insertSourceSyntaxFact .authoredRegularExpression

def finishNumericRecoverySource : m Unit := note do
  if scanned.numericLiterals.any fun literal => !literal.literal.validationSupported then
    observeLiteralValidationGap .numericRecovery

def finishNumericSeparatorSource : m Unit := note do
  if !scanned.numericSeparatorSpans.isEmpty && scanned.hasUnmodeledNumericSeparator then
    observeLiteralValidationGap .numericSeparator

/-- Whether an expression statement ends without a separator because its numeric literal does. -/
def finishNumericRecoveryExpressionStatement (expression : Expression) : m Bool := note do
  let current ← look (·.current)
  let sameLine ← look fun p => p.tokensAreOnSameLine (p.index - 1) p.index
  let startsWithDot ← look fun p => (p.text current.span).toList.head? == some '.'
  let dottedNumber := current.kind == .numericLiteral && startsWithDot
  let isIdentifier :=
    match expression.kind with
    | .identifier _ _ _ => true
    | _ => false
  let number :=
    match expression.kind with
    | .literal (.number number) => some number
    | _ => none
  if sameLine && isIdentifier && dottedNumber then
    pushDiagnostic ⟨expression.span, "Unexpected keyword or identifier.", 1434⟩
    return true
  else if sameLine && number.isSome && current.kind == .identifier &&
      (← look (·.identifierValue current.span)).isSome then
    pushDiagnostic ⟨current.span, "';' expected.", 1005⟩
    return true
  else
    let recoveryKind := number.bind NumberLiteral.recoveryKind
    let canTerminate := [some .legacyOctal, some .leadingZeroDecimal].contains recoveryKind
    let requiresSeparator := current.kind == .identifier || dottedNumber
    if recoveryKind = some .missingExponentDigits ∧ requiresSeparator ∧ sameLine then
      observeLiteralUnsupportedHost .numericRecovery
      let _ ← retainRecoveryExtent .expression expression.span
      return false
    else
      let depth ← look (·.statementNestingDepth)
      if depth ≠ 0 ∨ !canTerminate ∨ !requiresSeparator ∨ !sameLine then
        return false
      else
        pushDiagnostic ⟨current.span, "';' expected.", 1005⟩
        insertSourceSyntaxFact (.numericRecoveryEmit expression.id)
        return true

/-- The value of a template token, `none` when the token is unterminated or cannot be cooked. -/
def cookedTemplate {α : Type} (token : Token) (cooked : Except CookError α) :
    m (Option α) := note do
  if (scanAt scanned.unterminatedTemplateSpans token.span id).isSome then
    return none
  else
    match cooked with
    | .ok cooked => return some cooked
    | .error .unrepresentable => return none
    | .error (.diagnostic diagnostic) =>
      let start := token.span.start + diagnostic.relativeStart
      let span : Span := ⟨token.span.file, start, start + diagnostic.length⟩
      pushDiagnostic ⟨span, diagnostic.message, diagnostic.code⟩
      return none

def cookTemplateChunk (token : Token) : m (Option String) :=
  cookedTemplate token (scanTemplateChunk (source.sliceChars token.span) token.kind)

end

/-! ## Names -/

section

variable {m : Type → Type} [Noting scanned m]

/-- A `yield` that a class body reserves. -/
def diagnoseClassStrictYield (token : Token) : m Bool := note do
  if token.kind = .yield ∧ (← look (·.classYieldBindingReserved)) then
    recordContextualGrammar token.span .classStrictYieldBinding
    return true
  else
    return false

def diagnoseStrictYieldIdentifier (token : Token) : m Unit := note do
  if !(← diagnoseClassStrictYield token) then
    recordContextualGrammar token.span .strictYieldBinding

end

def reservedWordMessage (word : String) : String :=
  "Identifier expected. '" ++ word ++ "' is a reserved word that cannot be used here."

/-- How a binding name is taken: with or without the check for escapes, or not at all. -/
inductive NameToken
  | keyword | identifier | missing

def classifyName (token : Token) : Note scanned NameToken := do
  let p ← look id
  if token.kind.isIdentifier then
    if p.arrowParameterKeywordContext && (token.kind == .await && p.inAwaitContext ||
        token.kind == .yield && p.inYieldContext) then
      return .keyword
    else
      if token.kind = .await ∧ p.awaitBindingReserved then
        recordContextualGrammar token.span .awaitBinding
      else if token.kind = .yield ∧ p.yieldBindingReserved then
        diagnoseStrictYieldIdentifier token
      return .identifier
  else if token.kind.isIdentifierName && (p.identifierValue token.span).isSome then
    pushDiagnostic ⟨token.span, reservedWordMessage (source.slice token.span), 1359⟩
    return .identifier
  else
    errorCurrent "Identifier expected." 1003
    return .missing

def parseName : Parse scanned (String × Span) := do
  let token ← look (·.current)
  match ← note (classifyName token) with
  | .keyword =>
    let _ ← bump
    return (← look (·.text token.span), token.span)
  | .identifier =>
    let _ ← Parse.bumpIdentifier
    return (← look (·.text token.span), token.span)
  | .missing =>
    let _ ← bump
    return ("<missing>", token.span)

def parseIdentifierName : Parse scanned (String × Span) := do
  let token ← look (·.current)
  if token.kind.isIdentifierName then
    let _ ← Parse.bumpIdentifier
    return (← look (·.text token.span), token.span)
  else
    errorCurrent "Identifier expected." 1003
    let _ ← bump
    return ("<missing>", token.span)

def parseEntityName : Parse scanned (String × Span × List Span) := do
  let _ ← diagnoseClassStrictYield (← look (·.current))
  let (name, span) ← parseIdentifierName
  Parse.call (.entityNameTail name span [span])

def entityNameTail (name : String) (span : Span) (segmentSpans : List Span) :
    Parse scanned (String × Span × List Span) := do
  if ← eat .dot then
    let (right, rightSpan) ← parseIdentifierName
    Parse.call (.entityNameTail (name ++ "." ++ right) (span.merge rightSpan)
      (segmentSpans ++ [rightSpan]))
  else
    return (name, span, segmentSpans)

/-! ## Statements and expressions -/

def parseStatement : Parse scanned Statement := do
  amend fun l => { l with statementNestingDepth := l.statementNestingDepth + 1 }
  let statement : Statement ← Parse.call .statement
  amend fun l => { l with statementNestingDepth := l.statementNestingDepth - 1 }
  return statement

def parseExpression : Parse scanned Expression := do
  let expression : Expression ← Parse.call .assignmentExpression
  Parse.call (.expressionTail expression)

def parsePostfixExpression : Parse scanned Expression := do
  let expression : Expression ← Parse.call .primaryExpression
  Parse.call (.postfixTail expression)

/-- The statements between braces, and the span of the braces when both are there. -/
def parseBlock : Parse scanned (List Statement × Option Span) := do
  let promotesStrayClose := (← look (·.pendingStrayStatementClosesAfterBlock)) != 0
  if promotesStrayClose then
    amend fun l =>
      { l with
        pendingStrayStatementClosesAfterBlock := l.pendingStrayStatementClosesAfterBlock - 1 }
  let openingBrace ← look (·.current)
  let _ ← expect .leftBrace "'\x7b' expected." 1005
  let statements : List Statement ← Parse.call (.blockStatements [])
  let closingBrace ← look (·.current)
  let _ ← expect .rightBrace "'\x7d' expected." 1005
  if promotesStrayClose then
    amend fun l => { l with pendingStrayStatementCloses := l.pendingStrayStatementCloses + 1 }
  let closed := openingBrace.kind == .leftBrace && closingBrace.kind == .rightBrace
  return (statements, if closed then some (openingBrace.span.merge closingBrace.span) else none)

/-! ## Balanced tokens -/

/-- Tokens up to the one that closes the depth; the depth that stays open at the end. -/
def balancedTokens (opening closing : TokenKind) (depth : Nat) : Parse scanned Nat := do
  if depth = 0 ∨ (← look (·.atKind .endOfFile)) then
    return depth
  else
    let kind ← look (·.kind)
    let _ ← bump
    let depth :=
      if kind = opening then depth + 1 else if kind = closing then depth - 1 else depth
    Parse.call (.balancedTokens opening closing depth)

def consumeBalancedTokens (opening closing : TokenKind) (missingMessage : String) :
    Parse scanned Span := do
  let start := (← bump).span
  let depth : Nat ← Parse.call (.balancedTokens opening closing 1)
  if depth ≠ 0 then
    errorCurrent missingMessage 1005
  return start.merge (← look (·.previous.span))

/-- Tokens that start inside of a pair of braces. -/
def bumpTo (extent : BraceExtent source) : Parse scanned Unit := do
  if (← look (·.current.span.start)) < extent.span.stop then
    let _ ← bump
    Parse.call (.bumpTo extent)
  else
    return ()

def parsePropertyName : Parse scanned (String × Span × PropertyNameKind) := do
  let token ← look (·.current)
  observeUnmodeledNumericSeparatorIfCurrent
  match token.kind with
  | .stringLiteral =>
    let _ ← bump
    return (← look (·.ordinaryStringLiteralValue token), token.span, .stringLiteral)
  | .numericLiteral =>
    let _ ← bump
    return (← look (·.text token.span), token.span, .numericLiteral)
  | .privateIdentifier =>
    let _ ← bump
    return (← look (·.text token.span), token.span, .privateIdentifier)
  | .leftBracket =>
    let span ← consumeBalancedTokens .leftBracket .rightBracket "']' expected."
    return ("<computed>", span, .computed)
  | kind =>
    if kind.isIdentifierName then
      let (name, span) ← parseIdentifierName
      return (name, span, .identifier)
    else
      let (name, span) ← parseName
      return (name, span, .unsupported)

def parseModuleSpecifier : Parse scanned (String × Span) := do
  let token ← look (·.current)
  if token.kind = .stringLiteral then
    let _ ← bump
    return (← look (·.ordinaryStringLiteralValue token), token.span)
  else
    observeUnmodeledTemplateIfCurrent
    errorCurrent "String literal expected." 1141
    let _ ← bump
    return ("", token.span)

/-- The head of a declaration. A pattern that is closed is taken as a whole. -/
def parseRecoveredBindingHead : Parse scanned (String × Span) := do
  let opening ← look (·.current)
  match ← look (·.bindingPatternClose) with
  | none => parseName
  | some closing =>
    let length ← look fun p => (p.scanBindingTarget p.index).2
    let last ← look fun p => p.tokenAt (p.index + length - 1)
    if length ≤ 1 ∨ last.kind ≠ closing then
      parseName
    else
      Parse.advance length
      return ("<missing>", opening.span.merge last.span)

/-! ## Templates -/

def templateTokens (stop : Nat) : Parse scanned Unit := do
  if (← look (·.index)) ≤ stop ∧ !(← look (·.atKind .endOfFile)) then
    if ← look (·.kind.isIdentifier) then
      let _ ← Parse.bumpIdentifier
    else
      let _ ← bump
    Parse.call (.templateTokens stop)
  else
    return ()

def consumeTemplateThrough (first : Token) (stop : Nat) : Parse scanned Span := do
  let tokens ← look (·.tokens.take (stop + 1))
  let inside := tokens.dropWhile fun token => token.span.start < first.span.start
  if inside.any fun token => token.kind.isIdentifier then
    insertSourceSyntaxFact .templateExpressionIdentifier
  let last ← look (·.tokenAt stop)
  let _ : Unit ← Parse.call (.templateTokens stop)
  return first.span.merge last.span

def consumeTemplateExtent : Parse scanned Span := do
  let first ← look (·.current)
  let stop ← look fun p => if first.kind = .templateHead then p.templateEnd 0 else p.index
  consumeTemplateThrough first stop

def recoverTemplateExpression (head : Token) : Parse scanned Expression := do
  let span ← consumeTemplateThrough head (← look (·.templateEnd 1))
  retainParserRecovery .template head.span span
  missingExpression span

def rejectTaggedTemplate (tagSpan : Span) : Parse scanned (Option Span) := do
  if ← look (·.atAny [.noSubstitutionTemplateLiteral, .templateHead]) then
    let _ ← retainRecoveryExtent .template tagSpan
    return some (tagSpan.merge (← consumeTemplateExtent))
  else
    return none

def parseNoSubstitutionTemplateLiteral : Parse scanned Expression := do
  let token ← look (·.current)
  let literal := scanNoSubstitutionTemplate (source.sliceChars token.span)
  match ← cookedTemplate token literal with
  | none =>
    let _ ← retainRecoveryExtent .template token.span
    let _ ← bump
    missingExpression token.span
  | some literal =>
    let _ ← bump
    return ⟨← allocNode, token.span, .literal (.noSubstitutionTemplate literal)⟩

def parseTemplateExpression : Parse scanned Expression := do
  let head ← look (·.current)
  let cooked ← cookTemplateChunk head
  let _ ← bump
  match cooked with
  | none => recoverTemplateExpression head
  | some headCooked => Parse.call (.templateSpans head headCooked [])

/-- The spans of a template. One that reports an error is given up for the whole template. -/
def templateSpans (head : Token) (headCooked : String) (spans : List TemplateSpan) :
    Parse scanned Expression := do
  if ← look (·.atAny [.templateMiddle, .templateTail]) then
    errorExpressionExpected
    recoverTemplateExpression head
  else if ← look (·.atKind .endOfFile) then
    recoverTemplateExpression head
  else
    let count ← look fun p => (p.diagnostics.length, p.parserRecoveryFacts.length)
    let expression : Expression ← Parse.call .assignmentExpression
    let now ← look fun p => (p.diagnostics.length, p.parserRecoveryFacts.length)
    if now ≠ count ∨ !(← look (·.atAny [.templateMiddle, .templateTail])) then
      amend fun l => { l with parserRecoveryFacts := l.parserRecoveryFacts.take count.2 }
      recoverTemplateExpression head
    else
      let literal ← look (·.current)
      match ← cookTemplateChunk literal with
      | none => recoverTemplateExpression head
      | some cooked =>
        let _ ← bump
        let spans := spans ++ [⟨expression, cooked⟩]
        if literal.kind = .templateTail then
          insertSourceSyntaxFact .templateExpression
          return ⟨← allocNode, head.span.merge literal.span, .template headCooked spans⟩
        else
          Parse.call (.templateSpans head headCooked spans)

def parseUnsupportedAwaitTemplate : Parse scanned (Option Expression) := do
  if (← look (·.atKind .await)) &&
      [.noSubstitutionTemplateLiteral, .templateHead].contains (← look (·.peekKind 1)) then
    let await ← bump
    let template ← look (·.current)
    let _ ← retainRecoveryExtent .template (await.span.merge template.span)
    let span ← consumeTemplateExtent
    return some (← missingExpression (await.span.merge span))
  else
    return none

/-- JavaScript has no non-null assertion in front of a template. -/
def observeUnmodeledNonNullTemplateAdjacency : Note scanned Unit := do
  if (← look (·.atKind .bang)) &&
      [.noSubstitutionTemplateLiteral, .templateHead].contains (← look (·.peekKind 1)) then
    let _ ← retainRecoveryExtent .template (← look (·.current.span))

def parseRegularExpressionLiteral : Parse scanned Expression := do
  let token ← look (·.current)
  let literal := scanned.regularExpressionLiterals.find? fun literal =>
    literal.span.start == token.span.start
  let _ ← bump
  match literal with
  | none =>
    observeLiteralLexicalRecovery .regularExpression
    missingExpression token.span
  | some literal => return ⟨← allocNode, token.span, .regularExpression literal.literal⟩

end Tsz.Syntax
