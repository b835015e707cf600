import Mathlib.Data.List.Lex
import Tsz.Syntax.Parser.Statements

/-!
# Source units

The parser as a whole: its initial state, the facts it settles once all statements are parsed,
and the bodies of its calls.
-/

namespace Tsz.Syntax

open Recursion
open Noting (note)

variable {source : SourceText} {scanned : ScanOutput source}

/-! ## Initial state -/

/-- An import or export outside of braces, given the braces that are open. -/
def hasModuleDeclaration : Nat → List Token → Bool
  | _, [] => false
  | braceDepth, token :: tokens =>
    match token.kind with
    | .leftBrace => hasModuleDeclaration (braceDepth + 1) tokens
    | .rightBrace => hasModuleDeclaration (braceDepth - 1) tokens
    | .export => braceDepth == 0 || hasModuleDeclaration braceDepth tokens
    | .import =>
      braceDepth == 0 && (tokens.head?.map (·.kind)) != some .leftParen ||
        hasModuleDeclaration braceDepth tokens
    | _ => hasModuleDeclaration braceDepth tokens

def sourceIsExternalModule (source : SourceText) (tokens : List Token) : Bool :=
  let implicitModule := source.extension.any fun extension =>
    ["mts", "cts", "mjs", "cjs"].contains (toAsciiLowercase extension)
  implicitModule || hasModuleDeclaration 0 tokens

def Parser.new (scanned : ScanOutput source) : Parser scanned where
  body := scanned.body
  index := 0
  speculativeTokenRewrites := []
  splits := .refl scanned.body
  restores := by simp
  nextNode := 0
  diagnostics := scanned.diagnostics
  speculating := false
  notParenthesizedArrows := []
  typeMemberRecoveryCode := 1128
  statementNestingDepth := 0
  inYieldContext := false
  inAwaitContext := sourceIsExternalModule source scanned.tokens
  arrowParameterKeywordContext := false
  awaitBindingReserved := false
  yieldBindingReserved := false
  classYieldBindingReserved := false
  pendingStrayStatementCloses := 0
  pendingStrayStatementClosesAfterBlock := 0
  parserRecoveryFacts := []
  unmodeledDeclarationHosts := []
  sourceSyntaxFacts := []
  contextualGrammarFacts := []

/-! ## Facts of a parsed source -/

/-- The recovery facts with their owners, `none` when one of them has none. -/
def finishParserRecoveryFacts (statements : List Statement) :
    List PendingParserRecoveryFact → Option (List ParserRecoveryFact)
  | [] => some []
  | fact :: facts => do
    let owner ← recoveryOwner statements fact.authoredSpan
    let facts ← finishParserRecoveryFacts statements facts
    return ⟨fact.authoredSpan, fact.recoveryExtent, fact.kind, owner⟩ :: facts

def authoredLiteralOwner (statements : List Statement) (facts : List ParserRecoveryFact)
    (span : Span) : Option ParserRecoveryOwner :=
  let owner := (facts.find? fun fact => fact.authoredSpan.start == span.start).map (·.owner)
  owner.or (recoveryOwner statements span)

namespace Parser

variable (p : Parser scanned)

/-- Where the recovery of a numeric token ends: at a separator, a line break or a closed block. -/
def attachedNumericEnd (stop : Nat) : List Token → (index : Nat) → Nat
  | [], _ => stop
  | token :: tokens, index =>
    if [.semicolon, .endOfFile].contains token.kind ||
        !p.tokensAreOnSameLine (index - 1) index then stop
    else if token.kind = .rightBrace then token.span.stop
    else attachedNumericEnd token.span.stop tokens (index + 1)

def attachedNumericRecoveryExtent (index : Nat) (token : Token) : Span :=
  { token.span with
    stop := p.attachedNumericEnd token.span.stop (p.tokensFrom (index + 1)) (index + 1) }

/-- The kinds of literal fact a token gives rise to. -/
def authoredLiteralKinds (_ : Parser scanned) (span : Span) : List AuthoredLiteralKind :=
  let starts (other : Span) : Bool := other.start == span.start && other.stop == span.stop
  (if scanned.numericLiterals.any fun literal => starts literal.span then [.numericRecovery]
    else []) ++
    (if scanned.numericSeparatorSpans.any starts then [.numericSeparator] else [])

def authoredLiteralFactsFrom (statements : List Statement) (facts : List ParserRecoveryFact) :
    List Token → (index : Nat) → Option (List AuthoredLiteralFact)
  | [], _ => some []
  | token :: tokens, index => do
    let extent := p.attachedNumericRecoveryExtent index token
    let here ← (p.authoredLiteralKinds token.span).mapM fun kind => do
      let owner ← authoredLiteralOwner statements facts token.span
      return ⟨token.span, extent, kind, owner⟩
    let rest ← authoredLiteralFactsFrom statements facts tokens (index + 1)
    return here ++ rest

end Parser

def AuthoredLiteralKind.order : AuthoredLiteralKind → Nat
  | .regularExpression => 0
  | .numericRecovery => 1
  | .numericSeparator => 2

def AuthoredLiteralFact.key (fact : AuthoredLiteralFact) : List Nat :=
  [fact.kind.order, fact.span.start, fact.span.stop, fact.recoveryExtent.start,
    fact.recoveryExtent.stop]

/-- Neighbours with one key are one fact. -/
def dedupFacts : List AuthoredLiteralFact → List AuthoredLiteralFact
  | [] => []
  | fact :: facts =>
    match dedupFacts facts with
    | [] => [fact]
    | next :: rest => if fact.key = next.key then fact :: rest else fact :: next :: rest

def authoredLiteralFacts (p : Parser scanned) (statements : List Statement)
    (facts : List ParserRecoveryFact) : Option (List AuthoredLiteralFact) := do
  let facts ← p.authoredLiteralFactsFrom statements facts p.tokens 0
  return dedupFacts (facts.mergeSort fun fact other => fact.key ≤ other.key)

def finishUnit (statements : List Statement) : Parse scanned ParseOutput := do
  finishRegularExpressionSource
  finishNumericRecoverySource
  finishNumericSeparatorSource
  let p ← look id
  match finishParserRecoveryFacts statements p.parserRecoveryFacts with
  | none => Parse.fault
  | some parserRecoveryFacts =>
    match authoredLiteralFacts p statements parserRecoveryFacts with
    | none => Parse.fault
    | some authoredLiteralFacts =>
      let identifiers := p.tokens.filter fun token => token.kind.isIdentifier
      let unit : SourceUnit :=
        { statements
          span := ⟨source.id, 0, source.length⟩
          identifierTokenSpans := identifiers.map (·.span)
          authoredLiteralFacts
          parserRecoveryFacts
          unmodeledDeclarationHosts := p.unmodeledDeclarationHosts
          contextualGrammarFacts := p.contextualGrammarFacts }
      return ⟨unit, p.sourceSyntaxFacts, p.diagnostics⟩

def parseSourceUnit : Parse scanned ParseOutput := do
  let statements : List Statement ← Parse.call (.sourceStatements [])
  finishUnit statements

/-! ## Bodies -/

/-- What every call of the parser does. -/
def parseCall : (c : Call source) → Parse scanned (Answer c)
  | .sourceUnit => parseSourceUnit
  | .statement => parseStatementAtCurrentDepth
  | .assignmentExpression => parseAssignmentExpression
  | .binaryExpression minimumPrecedence => parseBinaryExpression minimumPrecedence
  | .unaryExpression => parseUnaryExpression
  | .primaryExpression => parsePrimaryExpression
  | .type => parseType
  | .postfixType => parsePostfixType
  | .sourceStatements statements => sourceStatements statements
  | .blockStatements statements => blockStatements statements
  | .clauseStatements statements => clauseStatements statements
  | .switchClauses clauses => switchClauses clauses
  | .importSpecifiers typeOnly bindings => importSpecifiers typeOnly bindings
  | .exportSpecifiers typeOnly specifiers => exportSpecifiers typeOnly specifiers
  | .modifiers seen order => modifiers seen order
  | .moduleNameTail => moduleNameTail
  | .variableDeclarators declarators => variableDeclarators declarators
  | .recoverStatement extent => recoverStatement extent
  | .classMembers members emptyElements => classMembers members emptyElements
  | .classMemberModifiers seen => classMemberModifiers seen
  | .heritageElements => heritageElements
  | .expressionTail expression => expressionTail expression
  | .binaryTail minimumPrecedence expression => binaryTail minimumPrecedence expression
  | .postfixTail expression => postfixTail expression
  | .callArguments arguments recover => callArguments arguments recover
  | .expressionList close elements => expressionList close elements
  | .newCallee callee => newCallee callee
  | .objectProperties objectExtent properties memberRecoveries =>
    objectProperties objectExtent properties memberRecoveries
  | .templateSpans head headCooked spans => templateSpans head headCooked spans
  | .templateTokens stop => templateTokens stop
  | .speculativeParameters => speculativeParameters
  | .parameters allowThis recover seen => parameters allowThis recover seen
  | .parameterList close allowThis seen => parameterList close allowThis seen
  | .parameterModifiers seen => parameterModifiers seen
  | .balancedTokens opening closing depth => balancedTokens opening closing depth
  | .bumpTo extent => bumpTo extent
  | .typeList types => typeList types
  | .unionMembers members => unionMembers members
  | .intersectionMembers members => intersectionMembers members
  | .postfixTypeTail type => postfixTypeTail type
  | .typeArguments arguments => typeArguments arguments
  | .typeParameters seen => typeParameters seen
  | .typeParameterModifiers constParameter inVariance outVariance =>
    typeParameterModifiers constParameter inVariance outVariance
  | .tupleMembers members => tupleMembers members
  | .tupleLabel => tupleLabel
  | .typeMembers members => typeMembers members
  | .mappedTypeMembers members => mappedTypeMembers members
  | .typeMemberModifiers seen => typeMemberModifiers seen
  | .skipTypeMembers => skipTypeMembers
  | .entityNameTail name span segmentSpans => entityNameTail name span segmentSpans

/-- The runs of the calls over the tokens of one scan. -/
def bodies (scanned : ScanOutput source) (c : Call source) (p : Parser scanned) :
    Run (Parser scanned) (@Answer source) (Answer c) :=
  (parseCall c).run p

end Tsz.Syntax
