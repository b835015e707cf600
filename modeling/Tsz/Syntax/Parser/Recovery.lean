import Tsz.Syntax.Parser.State
import Tsz.Syntax.Descendants

/-!
# Parser recovery

How far a recovery extends in the token vector, what the facts recorded so far say about the
current token, and the notes that record new ones.
-/

namespace Tsz.Syntax

open Noting (note)

variable {source : SourceText} {scanned : ScanOutput source}

inductive ClassMemberListRecovery
  | continue | abortBeforeStatement
deriving DecidableEq, Repr

def ClassMemberListRecovery.abortsList : ClassMemberListRecovery → Bool
  | .continue => false
  | .abortBeforeStatement => true

def containsAuthoredSpan (owner authored : Span) : Bool :=
  owner.file == authored.file && owner.start ≤ authored.start && authored.stop ≤ owner.stop

/-! ## Kinds of tokens -/

def TokenKind.isOpening : TokenKind → Bool
  | .leftParen | .leftBracket | .leftBrace => Bool.true
  | _ => Bool.false

def TokenKind.isClosing : TokenKind → Bool
  | .rightParen | .rightBracket | .rightBrace => Bool.true
  | _ => Bool.false

def authoredTokenClosesRecovery : TokenKind → Bool
  | .rightParen | .rightBracket | .rightBrace | .semicolon | .endOfFile => true
  | _ => false

def startsDeclarationBoundary (kind next : TokenKind) : Bool :=
  match kind with
  | .let | .const | .var | .function | .class | .interface | .import | .export | .declare
  | .abstract | .async | .using => true
  | .type => next.isIdentifier
  | .await => next == .using
  | _ => false

def continuesRecoveredOwner : TokenKind → Bool
  | .leftBrace | .comma | .colon | .equals | .bar | .ampersand | .leftBracket | .question
  | .extends | .fatArrow | .as | .satisfies => true
  | _ => false

def closedTokenContinuesRecoveredOwner (current next : TokenKind) : Bool :=
  (current == .rightBrace || current == .rightBracket) &&
    (next == .equals || next == .comma || next == .as || next == .satisfies)

/-! ## Extents -/

/-- The brace that closes the first one of the tokens. -/
def balancedBrace : Nat → List Token → Option Token
  | _, [] => none
  | depth, token :: tokens =>
    match token.kind with
    | .leftBrace => balancedBrace (depth + 1) tokens
    | .rightBrace => if depth = 1 then some token else balancedBrace (depth - 1) tokens
    | .endOfFile => none
    | _ => balancedBrace depth tokens

theorem mem_of_balancedBrace {depth : Nat} {tokens : List Token} {t : Token}
    (h : balancedBrace depth tokens = some t) : t ∈ tokens := by
  fun_induction balancedBrace depth tokens <;> grind

theorem Span.stop_merge_le {s t : Span} {n : Nat} (hs : s.stop ≤ n) (ht : t.stop ≤ n) :
    (s.merge t).stop ≤ n := by
  simp only [Span.merge]
  split <;> assumption

namespace Parser

variable (p : Parser scanned)

def balancedRecoveryBraceExtent (index : Nat) : Option (BraceExtent source) :=
  match hs : p.tokens[index]? with
  | none => none
  | some start =>
    if start.kind = .leftBrace then
      match hc : balancedBrace 0 (p.tokens.drop index) with
      | none => none
      | some close =>
        some
          { span := start.span.merge close.span
            stop_le :=
              Span.stop_merge_le (p.stop_of_mem (List.mem_of_getElem? hs))
                (p.stop_of_mem (List.mem_of_mem_drop (mem_of_balancedBrace hc))) }
    else none

/-- The tokens before the first one that starts at or behind an offset. -/
def tokensBefore (start : Nat) : Nat :=
  (p.tokens.takeWhile fun token => token.span.start < start).length

def laterLineStartsDeclaration (previous index : Nat) : Bool :=
  !p.tokensAreOnSameLine previous index &&
    startsDeclarationBoundary (p.tokenKindAt index) (p.tokenKindAt (index + 1))

/-- Where a recovery that reached the token before `index` ends, given the tokens from there on
and the brackets that are open. -/
def recoveryEnd (jsx : Bool) : List Token → (index stop depth : Nat) → Nat
  | [], _, stop, _ => stop
  | token :: tokens, index, stop, depth =>
    if token.kind = .endOfFile then stop
    else if depth = 0 ∧ p.laterLineStartsDeclaration (index - 1) index then stop
    else if token.kind.isOpening then
      recoveryEnd jsx tokens (index + 1) token.span.stop (depth + 1)
    else if token.kind.isClosing then
      if depth = 0 then
        if continuesRecoveredOwner (p.tokenKindAt (index + 1)) then
          recoveryEnd jsx tokens (index + 1) token.span.stop depth
        else token.span.stop
      else recoveryEnd jsx tokens (index + 1) token.span.stop (depth - 1)
    else if token.kind = .semicolon ∧ depth = 0 ∧
        (!jsx ∨ p.tokenKindAt (index - 1) = .greaterThan) then token.span.stop
    else recoveryEnd jsx tokens (index + 1) token.span.stop depth

def recoveryExtentFromCurrent (authoredSpan : Span) : Span :=
  let current := p.current.span
  let jsx := (source.kind == .typeScriptJsx || source.kind == .javaScriptJsx) &&
    p.kind == .lessThan
  if authoredTokenClosesRecovery p.kind &&
      !closedTokenContinuesRecoveredOwner p.kind (p.peekKind 1) then
    authoredSpan.merge current
  else
    { authoredSpan with
      stop := p.recoveryEnd jsx (p.tokens.drop (p.index + 1)) (p.index + 1) current.stop 0 }

/-! ## What the recorded facts say -/

/-- Whether a bracket opened among the tokens is still open behind them; once the first one is
closed it is not. -/
def delimiterRemainsOpen : Nat → List Token → Bool
  | depth, [] => depth > 0
  | depth, token :: tokens =>
    if token.kind.isOpening then delimiterRemainsOpen (depth + 1) tokens
    else if token.kind.isClosing ∧ depth > 0 then
      if depth = 1 then false else delimiterRemainsOpen (depth - 1) tokens
    else delimiterRemainsOpen depth tokens

def recoveryDelimiterRemainsOpen (recoveryStart : Nat) : Bool :=
  let first := p.tokensBefore recoveryStart
  delimiterRemainsOpen 0 ((p.tokens.drop first).take (p.index - first))

def postfixContinuesRetainedRecovery (receiver : Span) : Bool :=
  let bracket := p.current.span
  p.parserRecoveryFacts.any fun fact =>
    fact.participation == .controlAndAnalysis &&
      fact.recoveryExtent.file == receiver.file &&
      fact.recoveryExtent.start < receiver.stop &&
      receiver.stop ≤ fact.recoveryExtent.stop &&
      containsAuthoredSpan fact.recoveryExtent bracket &&
      (p.tokensAreOnSameLine (p.tokensBefore fact.authoredSpan.start) p.index ||
        p.recoveryDelimiterRemainsOpen fact.authoredSpan.start)

def parenthesisFollowsRecoveredGenericPrefix : Bool :=
  p.index != 0 && (p.tokenKindAt (p.index - 1)).isTypeClose &&
    p.parserRecoveryFacts.any fun fact =>
      fact.participation == .controlAndAnalysis &&
        (fact.kind == .expression || fact.kind == .rejectedGenericArrowPrefix) &&
        fact.recoveryExtent.start ≤ p.current.span.start &&
        p.current.span.stop ≤ fact.recoveryExtent.stop &&
        p.tokens.any fun token =>
          token.kind == .lessThan && token.span == fact.authoredSpan

def currentContinuesRecoveredFunctionDeclaration : Bool :=
  p.parserRecoveryFacts.any fun fact =>
    fact.kind == .generatorFunctionLike &&
      containsAuthoredSpan fact.recoveryExtent p.current.span &&
      p.tokens.any fun token =>
        token.kind == .function && token.span == fact.authoredSpan

def parenthesisContinuesRecoveredFunctionDeclaration : Bool :=
  p.index > 0 && (p.tokenKindAt (p.index - 1)).isIdentifierName &&
    p.currentContinuesRecoveredFunctionDeclaration

def currentStartsRejectedGenericArrowPrefix : Bool :=
  p.parserRecoveryFacts.any fun fact =>
    fact.kind == .rejectedGenericArrowPrefix && fact.authoredSpan == p.current.span

def expressionStartsRejectedGenericArrowPrefix (span : Span) : Bool :=
  p.parserRecoveryFacts.any fun fact =>
    fact.kind == .rejectedGenericArrowPrefix && fact.authoredSpan.start == span.start

def currentIsInsideRejectedGenericArrowPrefix : Bool :=
  p.parserRecoveryFacts.any fun fact =>
    fact.kind == .rejectedGenericArrowPrefix &&
      fact.authoredSpan.start < p.current.span.start &&
      containsAuthoredSpan fact.recoveryExtent p.current.span

def expressionIsInsideRejectedGenericArrowPrefix (span : Span) : Bool :=
  p.parserRecoveryFacts.any fun fact =>
    fact.kind == .rejectedGenericArrowPrefix && containsAuthoredSpan fact.recoveryExtent span

def atRecoveredElementAccess (expression : Expression) : Bool :=
  p.atKind .leftBracket &&
    (expressionHasRecoveredLeftEdge expression ||
      p.postfixContinuesRetainedRecovery expression.span)

/-! ## Comments -/

def currentLeadingJsdoc : Option CommentTrivia := do
  let start := if p.index = 0 then 0 else (p.tokenAt (p.index - 1)).span.stop
  let stop := p.current.span.start
  let following := scanned.comments.dropWhile fun comment => comment.span.stop ≤ start
  let comment ← (following.takeWhile fun comment => comment.span.start < stop).getLast?
  let endLine ← source.line stop
  let commentEndLine ← source.line comment.span.stop
  if comment.jsdoc && endLine ≤ commentEndLine + 1 then some comment else none

def currentHasLeadingJsdoc : Bool := p.currentLeadingJsdoc.isSome

end Parser

/-! ## Recording -/

section

variable {m : Type → Type} [Noting scanned m]

def missingExpression (span : Span) : m Expression := note do
  return ⟨← allocNode, span, .missing⟩

def recordParserRecovery (kind : ParserRecoveryKind) (authoredSpan recoveryExtent : Span)
    (participation : PendingParserRecoveryParticipation) : m Unit :=
  amend fun l =>
    if l.speculating then l
    else
      let fact := ⟨authoredSpan, recoveryExtent, kind, participation⟩
      { l with parserRecoveryFacts := l.parserRecoveryFacts ++ [fact] }

def retainParserRecovery (kind : ParserRecoveryKind) (authoredSpan recoveryExtent : Span) :
    m Unit :=
  recordParserRecovery kind authoredSpan recoveryExtent .controlAndAnalysis

def retainRecoveryExtent (kind : ParserRecoveryKind) (span : Span) : m Span := note do
  let extent ← look (·.recoveryExtentFromCurrent span)
  retainParserRecovery kind span extent
  return extent

def noteRecovery (kind : ParserRecoveryKind) (authoredSpan recoveryExtent : Span) : m Unit :=
  recordParserRecovery kind authoredSpan recoveryExtent .analysisOnly

def promoteParserRecoveryExtent (start : Nat) (extent : Span) : m Unit :=
  amend fun l =>
    let promoted := (l.parserRecoveryFacts.drop start).map fun fact =>
      { fact with recoveryExtent := fact.recoveryExtent.merge extent }
    { l with parserRecoveryFacts := l.parserRecoveryFacts.take start ++ promoted }

def errorClassMemberListToken : m Unit :=
  errorCurrent
    "Unexpected token. A constructor, method, accessor, or property was expected." 1068

def observeLiteralSyntaxBoundary (family : AuthoredLiteralKind)
    (boundary : LiteralSyntaxBoundary) : m Unit :=
  insertSourceSyntaxFact (.literalBoundary family boundary)

def observeLiteralLexicalRecovery (family : AuthoredLiteralKind) : m Unit :=
  observeLiteralSyntaxBoundary family .lexicalRecovery

def observeLiteralValidationGap (family : AuthoredLiteralKind) : m Unit :=
  observeLiteralSyntaxBoundary family .semanticValidation

def observeLiteralUnsupportedHost (family : AuthoredLiteralKind) : m Unit :=
  observeLiteralSyntaxBoundary family .unsupportedHost

def observeUnmodeledRegularExpressionIfCurrent : m Unit := note do
  if ← look (·.atAny [.slash, .slashEquals]) then
    observeLiteralUnsupportedHost .regularExpression

def observeUnmodeledTemplateIfCurrent : m Unit := note do
  if ← look (·.atAny
      [.noSubstitutionTemplateLiteral, .templateHead, .templateMiddle, .templateTail]) then
    let _ ← retainRecoveryExtent .template (← look (·.current.span))

def errorExpressionExpected : m Unit := note do
  let span ← look (·.current.span)
  let span :=
    if ← look (·.atAny [.templateMiddle, .templateTail]) then
      { span with stop := span.start + 1 }
    else span
  pushDiagnostic ⟨span, "Expression expected.", 1109⟩

/-- A missing type; the caller consumes the token, if it is to be consumed. -/
def noteMissingType (token : Token) : m Unit := note do
  observeUnmodeledRegularExpressionIfCurrent
  observeUnmodeledTemplateIfCurrent
  let kind :=
    match token.kind with
    | .noSubstitutionTemplateLiteral | .templateHead | .templateMiddle | .templateTail =>
      ParserRecoveryKind.type
    | _ => .missingType
  let _ ← retainRecoveryExtent kind token.span
  errorCurrent "Type expected." 1110

end

/-! ## Owners -/

/-- The smallest statement below the root that holds the span, the outermost and first such. -/
def smallestStatement (authoredSpan : Span) (root : NodeId × Span)
    (nested : List (NodeId × Span)) : NodeId :=
  let choose (best candidate : NodeId × Span) : NodeId × Span :=
    let smaller := candidate.2.len < best.2.len ||
      candidate.2.len == best.2.len && candidate.2.start > best.2.start
    if containsAuthoredSpan candidate.2 authoredSpan && smaller then candidate else best
  (nested.foldl choose root).1

/-- The first of the shortest statements. -/
def shortestStatement : List Statement → Option Statement
  | [] => none
  | statement :: statements =>
    match shortestStatement statements with
    | some best => if best.span.len < statement.span.len then some best else some statement
    | none => some statement

def recoveryOwner (statements : List Statement) (authoredSpan : Span) :
    Option ParserRecoveryOwner := do
  let holding := statements.filter fun statement =>
    containsAuthoredSpan statement.span authoredSpan
  let starting := statements.reverse.find? fun statement =>
    statement.span.start ≤ authoredSpan.start
  let root ← (shortestStatement holding).or starting
  return ⟨root.id, smallestStatement authoredSpan (root.id, root.span) root.nested⟩

end Tsz.Syntax
