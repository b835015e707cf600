import Tsz.Syntax.SourceText
import Tsz.Recursion.Run

/-!
# The state of the parser

The parser walks a token vector that it rewrites in place in one case only: it splits a `>` off a
longer token. The state therefore carries the proof that its tokens are the scanned ones up to
such splits. Everything else the parser keeps is its ledger: node counter, diagnostics, recovery
facts and context flags.

A `Note` reads the whole state and writes the ledger. A `Parse` may also move forward and call
the recursive procedures of the parser; its type holds that it never moves back.
-/

namespace Tsz.Syntax

open Recursion

/-! ## Splitting `>` -/

/-- The tokens that start with `>`. -/
def TokenKind.isTypeClose : TokenKind → Bool
  | .greaterThan | .greaterThanGreaterThan | .greaterThanGreaterThanGreaterThan
  | .greaterThanEquals | .greaterThanGreaterThanEquals
  | .greaterThanGreaterThanGreaterThanEquals => Bool.true
  | _ => Bool.false

/-- What is left of a longer token once its first `>` is taken. -/
def TokenKind.afterTypeClose : TokenKind → Option TokenKind
  | .greaterThanGreaterThan => some .greaterThan
  | .greaterThanGreaterThanGreaterThan => some .greaterThanGreaterThan
  | .greaterThanEquals => some .equals
  | .greaterThanGreaterThanEquals => some .greaterThanEquals
  | .greaterThanGreaterThanGreaterThanEquals => some .greaterThanGreaterThanEquals
  | _ => none

theorem TokenKind.isTypeClose_of_afterTypeClose {k k' : TokenKind}
    (h : k.afterTypeClose = some k') :
    k.isTypeClose = Bool.true ∧ (k'.isTypeClose = Bool.true ∨ k' = .equals) := by
  unfold afterTypeClose at h
  split at h <;> cases h <;> simp [isTypeClose]

/-- `t'` is what splits leave of `t`. -/
def Token.SplitsTo (t t' : Token) : Prop :=
  t' = t ∨ t.kind.isTypeClose = true ∧ (t'.kind.isTypeClose = true ∨ t'.kind = .equals) ∧
    t'.span.stop = t.span.stop

theorem Token.SplitsTo.stop_eq {t t' : Token} (h : t.SplitsTo t') :
    t'.span.stop = t.span.stop := by
  rcases h with rfl | ⟨-, -, h⟩
  · rfl
  · exact h

theorem Token.SplitsTo.eq_of_right {t t' : Token} (h : t.SplitsTo t')
    (hclose : t'.kind.isTypeClose = false) (hequals : t'.kind ≠ .equals) : t' = t := by
  rcases h with h | ⟨-, h | h, -⟩
  · exact h
  · simp [h] at hclose
  · exact absurd h hequals

theorem Token.SplitsTo.eq_of_left {t t' : Token} (h : t.SplitsTo t')
    (hclose : t.kind.isTypeClose = false) : t' = t := by
  rcases h with h | ⟨h, -⟩
  · exact h
  · simp [h] at hclose

/-- A token at an index is what splits leave of the scanned one. -/
def SplitAt (scanned : List Token) (i : Nat) (t : Token) : Prop :=
  ∃ t₀ : Token, scanned[i]? = some t₀ ∧ t₀.SplitsTo t

structure SplitsOf (scanned body : List Token) : Prop where
  length_eq : body.length = scanned.length
  at_index : ∀ i t, body[i]? = some t → SplitAt scanned i t

theorem SplitsOf.refl (scanned : List Token) : SplitsOf scanned scanned where
  length_eq := rfl
  at_index _ t h := ⟨t, h, .inl rfl⟩

theorem SplitsOf.set {scanned body : List Token} (h : SplitsOf scanned body) {i : Nat}
    {t : Token} (ht : SplitAt scanned i t) : SplitsOf scanned (body.set i t) where
  length_eq := by rw [List.length_set, h.length_eq]
  at_index j u hu := by
    by_cases hij : i = j
    · subst hij
      obtain ⟨hlt, rfl⟩ : i < body.length ∧ t = u := by
        simpa [List.getElem?_set] using hu
      exact ht
    · rw [List.getElem?_set_ne hij] at hu
      exact h.at_index j u hu

/-- Tokens put back newest first. -/
def restoreRewrites (rewrites : List (Nat × Token)) (body : List Token) : List Token :=
  rewrites.foldr (fun e body => body.set e.1 e.2) body

theorem SplitsOf.restore {scanned body : List Token} (h : SplitsOf scanned body)
    {rewrites : List (Nat × Token)} (hr : ∀ e ∈ rewrites, SplitAt scanned e.1 e.2) :
    SplitsOf scanned (restoreRewrites rewrites body) := by
  induction rewrites with
  | nil => exact h
  | cons e rewrites ih =>
    exact (ih fun e' he' => hr e' (List.mem_cons_of_mem _ he')).set (hr e List.mem_cons_self)

variable {source : SourceText}

/-- The part of the parser's state that parsing moves along. -/
structure Cursor (scanned : ScanOutput source) where
  body : List Token
  index : Nat
  speculativeTokenRewrites : List (Nat × Token)
  splits : SplitsOf scanned.body body
  restores : ∀ e ∈ speculativeTokenRewrites, SplitAt scanned.body e.1 e.2

/-! ## Ledger -/

/-- Whether a recovery was observed while parsing, so that it still bounds what is consumed, or
was made up for later phases once its syntax was parsed. -/
inductive PendingParserRecoveryParticipation
  | controlAndAnalysis | analysisOnly
deriving DecidableEq, Repr

structure PendingParserRecoveryFact where
  authoredSpan : Span
  recoveryExtent : Span
  kind : ParserRecoveryKind
  participation : PendingParserRecoveryParticipation
deriving DecidableEq, Repr

inductive LiteralSyntaxBoundary
  | lexicalRecovery | semanticValidation | unsupportedHost
deriving DecidableEq, Repr

/-- What the parser saw and the tree does not show. -/
inductive SourceSyntaxFact
  | asyncClassModifier | authoredFunctionExpressionModifier | authoredRegularExpression
  | decoratorRecovery | defaultExportOnUnsupportedHost | explicitCallTypeArguments
  | explicitNewTypeArguments | invalidClassModifierOrder
  | literalBoundary (family : AuthoredLiteralKind) (boundary : LiteralSyntaxBoundary)
  | moduleExport | numericRecoveryEmit (node : NodeId) | templateExpression
  | templateExpressionIdentifier | unsignedRightShiftAssignmentRecovery
  | unsignedRightShiftOperandRecovery
deriving DecidableEq, Repr

structure Ledger where
  nextNode : Nat
  diagnostics : List Diagnostic
  speculating : Bool
  notParenthesizedArrows : List Nat
  typeMemberRecoveryCode : Nat
  statementNestingDepth : Nat
  inYieldContext : Bool
  inAwaitContext : Bool
  arrowParameterKeywordContext : Bool
  awaitBindingReserved : Bool
  yieldBindingReserved : Bool
  classYieldBindingReserved : Bool
  pendingStrayStatementCloses : Nat
  pendingStrayStatementClosesAfterBlock : Nat
  parserRecoveryFacts : List PendingParserRecoveryFact
  unmodeledDeclarationHosts : List UnmodeledDeclarationHostFact
  sourceSyntaxFacts : List SourceSyntaxFact
  contextualGrammarFacts : List ContextualGrammarFact

structure Parser (scanned : ScanOutput source) extends Cursor scanned, Ledger

namespace Cursor

variable {scanned : ScanOutput source} (c : Cursor scanned)

def tokens : List Token := c.body ++ [source.endToken]

/-- The token at an index, the end token from the last one on. -/
def tokenAt (i : Nat) : Token := c.body[i]?.getD source.endToken

def tokenKindAt (i : Nat) : TokenKind := (c.tokenAt i).kind

def current : Token := c.tokenAt c.index

def kind : TokenKind := c.current.kind

theorem splits_tokenAt {i : Nat} (h : (c.tokenAt i).kind ≠ .endOfFile) :
    SplitAt scanned.body i (c.tokenAt i) := by
  cases ht : c.body[i]? with
  | none => simp [tokenAt, ht, SourceText.endToken] at h
  | some t => simpa [tokenAt, ht] using c.splits.at_index i t ht

theorem lt_of_kind_ne {i : Nat} (h : (c.tokenAt i).kind ≠ .endOfFile) :
    i < scanned.body.length := by
  obtain ⟨t₀, h₀, -⟩ := c.splits_tokenAt h
  exact (List.getElem?_eq_some_iff.mp h₀).1

theorem kind_ne_of_lt {i : Nat} (h : i < scanned.body.length) :
    (c.tokenAt i).kind ≠ .endOfFile := by
  have hi : i < c.body.length := c.splits.length_eq ▸ h
  obtain ⟨t₀, h₀, hs⟩ := c.splits.at_index i _ (List.getElem?_eq_getElem hi)
  have hk : t₀.kind ≠ .endOfFile := scanned.body_kind t₀ (List.mem_of_getElem? h₀)
  rw [tokenAt, List.getElem?_eq_getElem hi, Option.getD_some]
  rcases hs with h | ⟨-, h | h, -⟩
  · rwa [h]
  · intro he
    rw [he] at h
    simp [TokenKind.isTypeClose] at h
  · simp [h]

theorem stop_of_mem {t : Token} (h : t ∈ c.tokens) : t.span.stop ≤ source.length := by
  rcases List.mem_append.mp h with h | h
  · obtain ⟨i, hi⟩ := List.mem_iff_getElem?.mp h
    obtain ⟨t₀, h₀, hs⟩ := c.splits.at_index i t hi
    rw [hs.stop_eq]
    exact scanned.body_stop t₀ (List.mem_of_getElem? h₀)
  · obtain rfl := List.mem_singleton.mp h
    exact le_rfl

/-- At one index, two states of one parse see the same token unless it starts with `>` or is the
`=` a split may leave. -/
theorem tokenAt_congr (d : Cursor scanned) {i : Nat}
    (hclose : (c.tokenAt i).kind.isTypeClose = false) (hequals : (c.tokenAt i).kind ≠ .equals) :
    d.tokenAt i = c.tokenAt i := by
  by_cases hi : i < scanned.body.length
  · obtain ⟨t, ht, hs⟩ := c.splits_tokenAt (c.kind_ne_of_lt hi)
    obtain ⟨t', ht', hs'⟩ := d.splits_tokenAt (d.kind_ne_of_lt hi)
    obtain rfl : t = t' := Option.some.inj (ht.symm.trans ht')
    have h := hs.eq_of_right hclose hequals
    rw [h] at hclose ⊢
    exact hs'.eq_of_left hclose
  · have hc : c.body[i]? = none :=
      List.getElem?_eq_none (by rw [c.splits.length_eq]; exact Nat.le_of_not_lt hi)
    have hd : d.body[i]? = none :=
      List.getElem?_eq_none (by rw [d.splits.length_eq]; exact Nat.le_of_not_lt hi)
    simp [tokenAt, hc, hd]

theorem kind_congr {d : Cursor scanned} (hi : d.index = c.index)
    (hclose : c.kind.isTypeClose = false) (hequals : c.kind ≠ .equals) : d.kind = c.kind := by
  rw [kind, current, hi, c.tokenAt_congr d hclose hequals]
  rfl

theorem kind_ne_endOfFile_iff : c.kind ≠ .endOfFile ↔ c.index < scanned.body.length :=
  ⟨c.lt_of_kind_ne, c.kind_ne_of_lt⟩

/-- One token further, except at the end. -/
def forward : Cursor scanned :=
  if c.kind = .endOfFile then c else { c with index := c.index + 1 }

theorem index_le_forward : c.index ≤ c.forward.index := by
  unfold forward
  split
  · exact le_rfl
  · exact Nat.le_succ _

theorem index_lt_forward (h : c.kind ≠ .endOfFile) : c.index < c.forward.index := by
  rw [forward, if_neg h]
  exact Nat.lt_succ_self _

end Cursor

/-! ## Calls -/

/-- The modifiers in front of a declaration. -/
structure Modifiers where
  exported : Bool := false
  defaultExport : Bool := false
  declared : Bool := false
  isAsync : Bool := false
  abstractDeclaration : Bool := false
  unsupportedForOverloadCompletion : Bool := false
  invalidSequence : Bool := false

/-- The span of a balanced pair of braces. It ends inside of the text. -/
structure BraceExtent (source : SourceText) where
  span : Span
  stop_le : span.stop ≤ source.length

structure ParseOutput where
  unit : SourceUnit
  sourceSyntaxFacts : List SourceSyntaxFact
  diagnostics : List Diagnostic

/-- The recursive procedures of the parser, and its loops with the values they carry along. The
first group are procedures, `sourceUnit` is the whole parser; every other call is the head of a
`while` or `loop`. -/
inductive Call (source : SourceText)
  | sourceUnit
  | statement
  | assignmentExpression
  | binaryExpression (minimumPrecedence : Nat)
  | unaryExpression
  | primaryExpression
  | type
  | postfixType
  | sourceStatements (statements : List Statement)
  | blockStatements (statements : List Statement)
  | clauseStatements (statements : List Statement)
  | switchClauses (clauses : List SwitchClause)
  | importSpecifiers (typeOnly : Bool) (bindings : List ImportBinding)
  | exportSpecifiers (typeOnly : Bool) (specifiers : List ExportSpecifier)
  | modifiers (modifiers : Modifiers) (order : Nat)
  | moduleNameTail
  | variableDeclarators (declarators : List VariableDeclarator)
  | recoverStatement (extent : Option Span)
  | classMembers (members : List ClassMember) (emptyElements : List Span)
  | classMemberModifiers (modifiers : ClassMemberModifiers)
  | heritageElements
  | expressionTail (expression : Expression)
  | binaryTail (minimumPrecedence : Nat) (expression : Expression)
  | postfixTail (expression : Expression)
  | callArguments (arguments : List Expression) (recoverRejectedGenericArgument : Bool)
  | expressionList (close : TokenKind) (elements : List Expression)
  | newCallee (callee : Expression)
  | objectProperties (objectExtent : Option Span) (properties : List ObjectProperty)
      (memberRecoveries : List (ParserRecoveryKind × Span × Span))
  | templateSpans (head : Token) (headCooked : String) (spans : List TemplateSpan)
  | templateTokens (stop : Nat)
  | speculativeParameters
  | parameters (allowThis recoverMissingSeparator : Bool) (parameters : List Parameter)
  | parameterList (close : TokenKind) (allowThis : Bool) (parameters : List Parameter)
  | parameterModifiers (modifiers : List ParameterModifierNode)
  | balancedTokens (opening closing : TokenKind) (depth : Nat)
  | bumpTo (extent : BraceExtent source)
  | typeList (types : List TypeNode)
  | unionMembers (members : List TypeNode)
  | intersectionMembers (members : List TypeNode)
  | postfixTypeTail (ty : TypeNode)
  | typeArguments (arguments : List TypeNode)
  | typeParameters (parameters : List TypeParameterDeclaration)
  | typeParameterModifiers (constParameter inVariance outVariance : Bool)
  | tupleMembers (members : List TypeNode)
  | tupleLabel
  | typeMembers (members : List TypeMember)
  | mappedTypeMembers (members : List TypeMember)
  | typeMemberModifiers (modifiers : TypeMemberModifiers)
  | skipTypeMembers
  | entityNameTail (name : String) (span : Span) (segmentSpans : List Span)

/-- What a call returns. -/
def Answer : Call source → Type
  | .sourceUnit => ParseOutput
  | .statement => Statement
  | .assignmentExpression | .binaryExpression _ | .unaryExpression | .primaryExpression =>
    Expression
  | .type | .postfixType => TypeNode
  | .sourceStatements _ | .blockStatements _ | .clauseStatements _ => List Statement
  | .switchClauses _ => List SwitchClause
  | .importSpecifiers _ _ => List ImportBinding
  | .exportSpecifiers _ _ => List ExportSpecifier
  | .modifiers _ _ => Modifiers
  | .moduleNameTail => Bool
  | .variableDeclarators _ => List VariableDeclarator
  | .recoverStatement _ => Unit
  | .classMembers _ _ => List ClassMember × List Span × Bool
  | .classMemberModifiers _ => ClassMemberModifiers
  | .heritageElements => Unit
  | .expressionTail _ | .binaryTail _ _ | .postfixTail _ | .newCallee _
  | .templateSpans _ _ _ => Expression
  | .callArguments _ _ | .expressionList _ _ => List Expression
  | .objectProperties _ _ _ => List ObjectProperty × List (ParserRecoveryKind × Span × Span)
  | .templateTokens _ => Unit
  | .speculativeParameters => Bool
  | .parameters _ _ _ | .parameterList _ _ _ => List Parameter
  | .parameterModifiers _ => List ParameterModifierNode
  | .balancedTokens _ _ _ => Nat
  | .bumpTo _ => Unit
  | .typeList _ | .unionMembers _ | .intersectionMembers _ | .typeArguments _
  | .tupleMembers _ => List TypeNode
  | .postfixTypeTail _ => TypeNode
  | .typeParameters _ => List TypeParameterDeclaration
  | .typeParameterModifiers _ _ _ => Bool × Bool × Bool
  | .tupleLabel | .skipTypeMembers => Unit
  | .typeMembers _ | .mappedTypeMembers _ => List TypeMember
  | .typeMemberModifiers _ => TypeMemberModifiers
  | .entityNameTail _ _ _ => String × Span × List Span

/-! ## Notes -/

variable (scanned : ScanOutput source)

/-- A step of the parser that leaves the cursor where it is. -/
def Note (α : Type) := Parser scanned → α × Ledger

instance : Monad (Note scanned) where
  pure a := fun p => (a, p.toLedger)
  bind n f := fun p =>
    let (a, l) := n p
    f a { p with toLedger := l }

/-- The monads that notes are taken in: notes themselves and parses. -/
class Noting {source : outParam SourceText} (scanned : outParam (ScanOutput source))
    (m : Type → Type) where
  note {α : Type} : Note scanned α → m α

instance : Noting scanned (Note scanned) where
  note n := n

/-! ## Parses -/

/-- A run of the parser that stays at or after the token it starts at, and so do its calls. -/
structure Parse (α : Type) where
  run : Parser scanned → Run (Parser scanned) (@Answer source) α
  forward : ∀ p, (run p).Ensures (fun _ q => p.index ≤ q.index)
    (fun _ q _ q' => q.index ≤ q'.index) fun _ q => p.index ≤ q.index

namespace Parse

variable {scanned} {α β : Type}

theorem forward_from (m : Parse scanned α) {i : Nat} {p : Parser scanned} (h : i ≤ p.index) :
    (m.run p).Ensures (fun _ q => i ≤ q.index) (fun _ q _ q' => q.index ≤ q'.index)
      fun _ q => i ≤ q.index :=
  (m.forward p).mono (fun _ _ => h.trans) (fun _ _ _ _ => id) fun _ _ => h.trans

instance : Monad (Parse scanned) where
  pure a := ⟨fun p => .done a p, fun _ => le_rfl⟩
  bind m f :=
    { run := fun p => (m.run p).bind fun a q => (f a).run q
      forward := fun p => (m.forward p).trans fun a _ h => (f a).forward_from h }

/-- A note as a parse. -/
def ofNote (n : Note scanned α) : Parse scanned α where
  run p := .done (n p).1 { p with toLedger := (n p).2 }
  forward _ := le_rfl

instance : Noting scanned (Parse scanned) where
  note := ofNote

def fault : Parse scanned α where
  run _ := .fault
  forward _ := trivial

def call (c : Call source) : Parse scanned (Answer c) where
  run p := .call c p .done
  forward _ := ⟨le_rfl, fun _ _ h => h⟩

/-- Advances without looking at escapes in keywords. -/
def bumpIdentifier : Parse scanned Token where
  run p := .done p.current { p with toCursor := p.toCursor.forward }
  forward p := p.toCursor.index_le_forward

/-- Runs a parse from the token so many places ahead, then comes back. -/
def lookahead (distance : Nat) (m : Parse scanned α) : Parse scanned α where
  run p := (m.run { p with index := p.index + distance }).bind fun a q =>
    .done a { q with index := p.index }
  forward p := by
    have h := m.forward_from (i := p.index) (p := { p with index := p.index + distance })
      (Nat.le_add_right _ _)
    exact h.trans fun _ _ _ => le_rfl

/-- Moves the cursor over so many tokens at once. -/
def advance (distance : Nat) : Parse scanned Unit where
  run p := .done () { p with index := p.index + distance }
  forward _ := Nat.le_add_right _ _

/-- Runs a parse and then moves the cursor to the token so many places behind the start, if
`target` gives one. -/
def returningTo (m : Parse scanned α) (target : α → Option Nat) : Parse scanned α where
  run p := (m.run p).bind fun a q =>
    match target a with
    | some distance => .done a { q with index := p.index + distance }
    | none => .done a q
  forward p := by
    refine (m.forward p).trans fun a q h => ?_
    cases target a with
    | none => exact h
    | some distance => exact Nat.le_add_right _ _

end Parse

/-! ## Lookups -/

namespace Parser

variable {scanned} (p : Parser scanned)

def previous : Token := p.tokenAt (p.index - 1)

def previousEnd : Nat := p.previous.span.stop

def peekKind (distance : Nat) : TokenKind := p.tokenKindAt (p.index + distance)

def atKind (kind : TokenKind) : Bool := p.kind == kind

def atAny (kinds : List TokenKind) : Bool := kinds.contains p.kind

def atTypeClose : Bool := p.kind.isTypeClose

def identifierValue (_ : Parser scanned) (span : Span) : Option ScannedIdentifierValue :=
  scanAt scanned.identifierValues span (·.span)

def text (span : Span) : String :=
  match p.identifierValue span with
  | some identifier => identifier.cooked
  | none => source.slice span

def tokensAreOnSameLine (left right : Nat) : Bool :=
  match p.tokens[left]?, p.tokens[right]? with
  | some left, some right =>
    !(source.sliceChars ⟨source.id, left.span.stop, right.span.start⟩).any isLineBreak
  | _, _ => false

/-- The state a speculation that started in `p` leaves when it ends in `q`. -/
def afterSpeculation (q : Parser scanned) : Parser scanned :=
  let saved := p.speculativeTokenRewrites.length
  { q with
    body := restoreRewrites (q.speculativeTokenRewrites.drop saved) q.body
    speculativeTokenRewrites := q.speculativeTokenRewrites.take saved
    splits := q.splits.restore fun e he => q.restores e (List.mem_of_mem_drop he)
    restores := fun e he => q.restores e (List.mem_of_mem_take he)
    index := p.index
    speculating := p.speculating
    nextNode := p.nextNode
    diagnostics := q.diagnostics.take p.diagnostics.length }

theorem splitAt_afterTypeClose {kind : TokenKind} (h : p.kind.afterTypeClose = some kind)
    (start : Nat) :
    SplitAt scanned.body p.index ⟨kind, { p.current.span with start := start }⟩ := by
  obtain ⟨hclose, hkind⟩ := TokenKind.isTypeClose_of_afterTypeClose h
  have hne : p.current.kind ≠ .endOfFile := by
    intro he
    rw [show p.kind = .endOfFile from he] at hclose
    simp [TokenKind.isTypeClose] at hclose
  obtain ⟨t₀, h₀, hs⟩ := p.splits_tokenAt hne
  refine ⟨t₀, h₀, .inr ⟨?_, hkind, hs.stop_eq⟩⟩
  rcases hs with h | ⟨h, -⟩
  · exact h ▸ hclose
  · exact h

/-- The current token without its first `>`. A speculation remembers the whole token. -/
def splitTypeClose (kind : TokenKind) (h : p.kind.afterTypeClose = some kind) :
    Parser scanned :=
  { p with
    body := p.body.set p.index ⟨kind, { p.current.span with start := p.current.span.start + 1 }⟩
    speculativeTokenRewrites :=
      if p.speculating then p.speculativeTokenRewrites ++ [(p.index, p.current)]
      else p.speculativeTokenRewrites
    splits := p.splits.set (p.splitAt_afterTypeClose h _)
    restores := by
      intro e he
      split at he
      · rcases List.mem_append.mp he with he | he
        · exact p.restores e he
        · obtain rfl := List.mem_singleton.mp he
          refine p.splits_tokenAt fun hend => ?_
          rw [show p.kind = .endOfFile from hend] at h
          simp [TokenKind.afterTypeClose] at h
      · exact p.restores e he }

end Parser

/-! ## Elementary steps -/

section

variable {scanned} {α : Type}

section

variable {m : Type → Type} [Noting scanned m]

open Noting (note)

def look (f : Parser scanned → α) : m α := note fun p => (f p, p.toLedger)

def amend (f : Ledger → Ledger) : m Unit := note fun p => ((), f p.toLedger)

def pushDiagnostic (diagnostic : Diagnostic) : m Unit :=
  amend fun l => { l with diagnostics := l.diagnostics ++ [diagnostic] }

def errorCurrent (message : String) (code : Nat) : m Unit := note do
  pushDiagnostic ⟨← look (·.current.span), message, code⟩

def allocNode : m NodeId := note do
  let id ← look (·.nextNode)
  amend fun l => { l with nextNode := id + 1 }
  return ⟨id⟩

def recordContextualGrammar (span : Span) (kind : ContextualGrammarKind) : m Unit :=
  amend fun l =>
    if l.speculating then l
    else { l with contextualGrammarFacts := l.contextualGrammarFacts ++ [⟨span, kind⟩] }

/-- Facts are a set: a fact that is there already is not added again. -/
def insertSourceSyntaxFact (fact : SourceSyntaxFact) : m Unit :=
  amend fun l =>
    if l.sourceSyntaxFacts.contains fact then l
    else { l with sourceSyntaxFacts := l.sourceSyntaxFacts ++ [fact] }

/-- An escaped keyword is illegal where the grammar consumes it as a keyword. -/
def reportEscapedKeyword : m Unit := note do
  let token ← look (·.current)
  if token.kind != .identifier && token.kind.isIdentifierName &&
      (← look (·.identifierValue token.span)).isSome then
    errorCurrent "Keywords cannot contain escape characters." 1260

end

def bump : Parse scanned Token := do
  reportEscapedKeyword
  Parse.bumpIdentifier

def eat (kind : TokenKind) : Parse scanned Bool := do
  if !(← look (·.atKind kind)) then
    return false
  let _ ← bump
  return true

def expect (kind : TokenKind) (message : String) (code : Nat) : Parse scanned Bool := do
  if ← eat kind then
    return true
  else
    errorCurrent message code
    return false

/-- The span of the current token when it has the kind, which is then consumed. -/
def bumpAt (kind : TokenKind) : Parse scanned (Option Span) := do
  if ← look (·.atKind kind) then
    return some (← bump).span
  else
    return none

/-- The parse when the token has the kind, which is consumed before. -/
def eatThen (kind : TokenKind) (m : Parse scanned α) : Parse scanned (Option α) := do
  if ← eat kind then
    return some (← m)
  else
    return none

def eatTypeClose : Parse scanned Bool where
  run p :=
    if p.kind = .greaterThan then (bump.run p).bind fun _ q => .done true q
    else
      match h : p.kind.afterTypeClose with
      | some kind => .done true (p.splitTypeClose kind h)
      | none => .done false p
  forward p := by
    split
    · exact (bump.forward p).trans fun _ _ h => h
    · split <;> exact le_rfl

def expectTypeClose : Parse scanned Bool := do
  if ← eatTypeClose then
    return true
  errorCurrent "'>' expected." 1005
  return false

/-- Every change of cursor, nodes, diagnostics and tokens is undone. -/
def withSpeculativeParse (m : Parse scanned α) : Parse scanned α where
  run p := (m.run { p with speculating := true }).bind fun a q =>
    .done a (p.afterSpeculation q)
  forward p := by
    have h := m.forward { p with speculating := true }
    exact h.trans fun _ _ _ => le_rfl

end

end Tsz.Syntax
