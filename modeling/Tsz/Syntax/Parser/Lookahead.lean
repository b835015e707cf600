import Tsz.Syntax.Parser.Recovery

/-!
# Lookahead

The questions the parser asks of the tokens ahead before it commits to a production. None of
them changes the state.
-/

namespace Tsz.Syntax

variable {source : SourceText} {scanned : ScanOutput source}

/-! ## Tables -/

def parameterModifier : TokenKind → Option ParameterModifier
  | .abstract => some .abstract
  | .accessor => some .accessor
  | .async => some .async
  | .const => some .const
  | .declare => some .declare
  | .default => some .default
  | .export => some .export
  | .in => some .in
  | .out => some .out
  | .override => some .override
  | .public => some .public
  | .protected => some .protected
  | .private => some .private
  | .readonly => some .readonly
  | .static => some .static
  | _ => none

def typeMemberModifier : TokenKind → Option TypeMemberModifier
  | .public => some .public
  | .protected => some .protected
  | .private => some .private
  | .readonly => some .readonly
  | .static => some .static
  | .abstract => some .abstract
  | .declare => some .declare
  | .accessor => some .accessor
  | .async => some .async
  | .const => some .const
  | .default => some .default
  | .export => some .export
  | .in => some .in
  | .out => some .out
  | .override => some .override
  | _ => none

def TypeMemberModifiers.apply (modifiers : TypeMemberModifiers) :
    TypeMemberModifier → TypeMemberModifiers
  | .public => { modifiers with isPublic := true }
  | .protected => { modifiers with isProtected := true }
  | .private => { modifiers with isPrivate := true }
  | .readonly => { modifiers with readonly := true }
  | .static => { modifiers with staticMember := true }
  | .abstract => { modifiers with abstractMember := true }
  | .declare => { modifiers with declared := true }
  | .accessor => { modifiers with accessor := true }
  | .async => { modifiers with asyncMember := true }
  | .const => { modifiers with constMember := true }
  | .default => { modifiers with defaultMember := true }
  | .export => { modifiers with exported := true }
  | .in => { modifiers with inVariance := true }
  | .out => { modifiers with outVariance := true }
  | .override => { modifiers with overrideMember := true }

def ClassMemberModifiers.unmodeled (modifiers : ClassMemberModifiers) : ClassMemberModifiers :=
  { modifiers with
    unsupportedForOverloadCompletion := true
    unsupportedForEmitProducts := true }

/-- A modifier seen in front of a class member. A second one of a kind is not modeled. -/
def ClassMemberModifiers.observe (modifiers : ClassMemberModifiers) :
    ParameterModifier → ClassMemberModifiers
  | .public => { repeated modifiers.isPublic with isPublic := true }
  | .protected => { repeated modifiers.isProtected with isProtected := true }
  | .private => { repeated modifiers.isPrivate with isPrivate := true }
  | .readonly => { repeated modifiers.readonly with readonly := true }
  | .static => { repeated modifiers.staticMember with staticMember := true }
  | .abstract => { repeated modifiers.abstractMember with abstractMember := true }
  | .declare => { repeated modifiers.declared with declared := true }
  | .async => { repeated modifiers.asyncMember with asyncMember := true }
  | .override | .accessor => modifiers.unmodeled
  | .const | .default | .export | .in | .out => modifiers
where
  repeated (seen : Bool) : ClassMemberModifiers :=
    if seen then modifiers.unmodeled else modifiers

def ClassMemberModifiers.constructorModifiersAreModeled (m : ClassMemberModifiers) : Bool :=
  !m.unsupportedForEmitProducts && !m.readonly && !m.staticMember && !m.abstractMember &&
    !m.declared && !m.asyncMember

def ClassMemberModifiers.methodModifiersAreModeled (m : ClassMemberModifiers) : Bool :=
  !m.unsupportedForEmitProducts && !m.readonly && !m.abstractMember && !m.declared

def ClassMemberModifiers.propertyModifiersAreModeled (m : ClassMemberModifiers) : Bool :=
  !m.unsupportedForEmitProducts && !m.abstractMember && !m.declared && !m.asyncMember

def binaryOperator : TokenKind → Option (BinaryOperator × Nat)
  | .barBar => some (.logicalOr, 1)
  | .questionQuestion => some (.nullishCoalesce, 1)
  | .ampersandAmpersand => some (.logicalAnd, 2)
  | .bar => some (.bitwiseOr, 3)
  | .caret => some (.bitwiseXor, 4)
  | .ampersand => some (.bitwiseAnd, 5)
  | .equalsEquals => some (.equals, 6)
  | .bangEquals => some (.notEquals, 6)
  | .equalsEqualsEquals => some (.strictEquals, 6)
  | .bangEqualsEquals => some (.strictNotEquals, 6)
  | .lessThan => some (.lessThan, 7)
  | .lessThanEquals => some (.lessThanEquals, 7)
  | .greaterThan => some (.greaterThan, 7)
  | .greaterThanEquals => some (.greaterThanEquals, 7)
  | .in => some (.in, 7)
  | .instanceOf => some (.instanceOf, 7)
  | .lessThanLessThan => some (.leftShift, 8)
  | .greaterThanGreaterThan => some (.signedRightShift, 8)
  | .greaterThanGreaterThanGreaterThan => some (.unsignedRightShift, 8)
  | .plus => some (.add, 9)
  | .minus => some (.subtract, 9)
  | .star => some (.multiply, 10)
  | .slash => some (.divide, 10)
  | .percent => some (.remainder, 10)
  | _ => none

def tokenStartsPropertyName (kind : TokenKind) : Bool :=
  kind.isIdentifierName ||
    [.privateIdentifier, .numericLiteral, .stringLiteral].contains kind

def isTypeMemberNameToken (kind : TokenKind) : Bool :=
  kind.isIdentifier || [.stringLiteral, .numericLiteral, .bigIntLiteral].contains kind

def isTypeMemberModifier (kind : TokenKind) : Bool := (typeMemberModifier kind).isSome

/-! ## Token lists -/

def delimiterDepthAfter (kind : TokenKind) (depth : Nat) : Nat :=
  if kind.isOpening then depth + 1 else if kind.isClosing then depth - 1 else depth

/-- The tokens behind a balanced part that starts with `opening`. -/
def skipBalancedBindingPart (opening closing : TokenKind) : Nat → List Token → List Token
  | _, [] => []
  | depth, token :: tokens =>
    if token.kind = .endOfFile then token :: tokens
    else if token.kind = opening then skipBalancedBindingPart opening closing (depth + 1) tokens
    else if token.kind = closing then
      if depth = 1 then tokens else skipBalancedBindingPart opening closing (depth - 1) tokens
    else skipBalancedBindingPart opening closing depth tokens

def skipBindingInitializer (ownerClose : TokenKind) : Nat → List Token → List Token
  | _, [] => []
  | depth, token :: tokens =>
    if token.kind = .endOfFile ∨ (depth = 0 ∧ token.kind = .comma) ∨
        (depth = 0 ∧ token.kind = ownerClose) then token :: tokens
    else skipBindingInitializer ownerClose (delimiterDepthAfter token.kind depth) tokens

/-- An initializer, if the tokens start with one. -/
def skipOptionalInitializer (ownerClose : TokenKind) : List Token → List Token
  | [] => []
  | token :: tokens =>
    if token.kind = .equals then skipBindingInitializer ownerClose 0 tokens else token :: tokens

/-- The parameter list closes with `)` in front of `=>`. -/
def parameterListIsFunctionType : Nat → List Token → Bool
  | _, [] => false
  | depth, token :: tokens =>
    match token.kind with
    | .leftParen => parameterListIsFunctionType (depth + 1) tokens
    | .rightParen =>
      if depth = 1 then (tokens.head?.map (·.kind)) == some .fatArrow
      else parameterListIsFunctionType (depth - 1) tokens
    | .endOfFile => false
    | _ => parameterListIsFunctionType depth tokens

/-- The distance of the token that closes so many template literals. -/
def templateTailDistance : Nat → List Token → Option Nat
  | _, [] => none
  | nesting, token :: tokens =>
    let after :=
      match token.kind with
      | .templateHead => nesting + 1
      | .templateTail => nesting - 1
      | _ => nesting
    if token.kind = .endOfFile then none
    else if after = 0 then some 0
    else (templateTailDistance after tokens).map (· + 1)

/-- The distance of the `)` that closes the first `(`. -/
def closingParenDistance : Nat → List Token → Option Nat
  | _, [] => none
  | depth, token :: tokens =>
    if token.kind = .rightParen ∧ depth = 1 then some 0
    else
      let after :=
        if token.kind = .leftParen then depth + 1
        else if token.kind = .rightParen then depth - 1
        else depth
      (closingParenDistance after tokens).map (· + 1)

/-- An `of` directly in front of a slash. -/
def ofBeforeSlash : List Token → Bool
  | [] | [_] => false
  | first :: second :: tokens =>
    first.kind == .of && [.slash, .slashEquals].contains second.kind ||
      ofBeforeSlash (second :: tokens)

namespace Parser

variable (p : Parser scanned)

def tokensFrom (index : Nat) : List Token := p.tokens.drop index

/-! ## Declarations -/

def startsImportDeclaration : Bool :=
  p.atKind .import && ! [.leftParen, .lessThan, .dot].contains (p.peekKind 1)

def startsTypeAliasDeclaration : Bool :=
  p.atKind .type && (p.peekKind 1).isIdentifier &&
    p.tokensAreOnSameLine p.index (p.index + 1)

def importStartsWithTypeOnlyClause : Bool :=
  p.atKind .type &&
    let following := p.peekKind 1
    let phaseCanPrecedeFrom := following != .from ||
      following.isIdentifier && [.from, .equals].contains (p.peekKind 2)
    let phaseHasClause := following.isIdentifier || [.star, .leftBrace].contains following
    phaseCanPrecedeFrom && phaseHasClause

def specifierStartsWithTypeModifier : Bool :=
  let ends (kind : TokenKind) : Bool := [.rightBrace, .comma, .endOfFile].contains kind
  p.atKind .type &&
    if ends (p.peekKind 1) then false
    else if p.peekKind 1 = .as then
      if ends (p.peekKind 2) then true
      else if p.peekKind 2 = .as then !ends (p.peekKind 3)
      else false
    else true

def unmodeledDeclarationHostAt (offset : Nat) : Option (Nat × UnmodeledDeclarationHostKind) :=
  let next := p.peekKind (offset + 1)
  let sameLine := p.tokensAreOnSameLine (p.index + offset) (p.index + offset + 1)
  match p.peekKind offset with
  | .enum => if next.isIdentifier then some (offset + 1, .enum) else none
  | .const =>
    if next == .enum && (p.peekKind (offset + 2)).isIdentifier then some (offset + 2, .enum)
    else none
  | .module =>
    if sameLine && next == .stringLiteral then some (offset + 1, .externalModule)
    else if sameLine && next.isIdentifier then some (offset + 1, .module)
    else none
  | .namespace =>
    if sameLine && (next.isIdentifier || next == .stringLiteral) then
      some (offset + 1, .namespace)
    else none
  | .global =>
    if [.leftBrace, .identifier, .export].contains next || sameLine && next.isIdentifier then
      some (0, .global)
    else none
  | .using => if sameLine && next.isIdentifier then some (offset + 1, .using) else none
  | .await =>
    if next == .using && sameLine &&
        p.tokensAreOnSameLine (p.index + offset + 1) (p.index + offset + 2) &&
        (p.peekKind (offset + 2)).isIdentifier then
      some (offset + 2, .using)
    else none
  | _ => none

def startsStatementHostAt (offset : Nat) : Bool :=
  let next := p.peekKind (offset + 1)
  match p.peekKind offset with
  | .let | .const | .var | .function | .class | .interface | .enum => true
  | .type =>
    next.isIdentifier && p.tokensAreOnSameLine (p.index + offset) (p.index + offset + 1)
  | .module | .namespace | .global | .using | .await =>
    (p.unmodeledDeclarationHostAt offset).isSome
  | .import => ! [.leftParen, .lessThan, .dot].contains next
  | _ => false

/-- The leading tokens that are modifiers of a default export. -/
def defaultExportModifiers : Nat :=
  let isModifier (token : Token) : Bool :=
    [.export, .default, .declare, .async, .abstract].contains token.kind
  ((p.tokensFrom (p.index + 2)).takeWhile isModifier).length

def startsExportDeclaration : Bool :=
  p.atKind .export &&
    match p.peekKind 1 with
    | .leftBrace | .star | .equals | .as => true
    | .type => [.leftBrace, .star].contains (p.peekKind 2)
    | .default => !p.startsStatementHostAt (2 + p.defaultExportModifiers)
    | _ => false

def startsUnmodeledForBindingPattern : Bool :=
  let cursor := p.index + 1
  let cursor := if p.tokenKindAt cursor = .await then cursor + 1 else cursor
  p.tokenKindAt cursor == .leftParen && p.tokenKindAt (cursor + 1) == .const &&
    [.leftBrace, .leftBracket].contains (p.tokenKindAt (cursor + 2))

def unmodeledDeclarationRecoveryExtent (kind : UnmodeledDeclarationHostKind) : Span :=
  let start := p.current.span
  let header := (p.tokensFrom p.index).takeWhile fun token =>
    !([.semicolon, .endOfFile].contains token.kind)
  let brace := header.findIdx? fun token => token.kind == .leftBrace
  let body :=
    if kind = .using then none
    else brace.bind fun distance => p.balancedRecoveryBraceExtent (p.index + distance)
  match body with
  | some extent => start.merge extent.span
  | none => p.recoveryExtentFromCurrent start

/-! ## Bindings -/

inductive BindingForm
  | target | object | array

/-- What is left of the tokens behind a binding target, and the names it binds. Every step takes
a token or hands the same tokens to a target once, so twice the number of tokens is fuel enough.
-/
def scanBinding : Nat → BindingForm → List Token → List AuthoredBindingName × List Token
  | 0, _, tokens => ([], tokens)
  | _ + 1, _, [] => ([], [])
  | fuel + 1, .target, token :: tokens =>
    if token.kind = .leftBrace then scanBinding fuel .object tokens
    else if token.kind = .leftBracket then scanBinding fuel .array tokens
    else if token.kind.isIdentifier then
      ([⟨p.text token.span, token.span, token.kind⟩], tokens)
    else if token.kind = .endOfFile then ([], token :: tokens)
    else ([], tokens)
  | fuel + 1, .object, token :: tokens =>
    if token.kind = .rightBrace then ([], tokens)
    else if token.kind = .endOfFile then ([], token :: tokens)
    else if token.kind = .comma then scanBinding fuel .object tokens
    else
      let (names, rest) :=
        if token.kind = .dotDotDot then scanBinding fuel .target tokens
        else if token.kind = .leftBracket then
          match skipBalancedBindingPart .leftBracket .rightBracket 0 (token :: tokens) with
          | [] => ([], [])
          | next :: rest =>
            if next.kind = .colon then scanBinding fuel .target rest else ([], next :: rest)
        else
          match tokens with
          | [] => ([], [])
          | next :: rest =>
            if next.kind = .colon then scanBinding fuel .target rest
            else if token.kind.isIdentifier then
              ([⟨p.text token.span, token.span, token.kind⟩], next :: rest)
            else ([], next :: rest)
      let (more, rest) := scanBinding fuel .object (skipOptionalInitializer .rightBrace rest)
      (names ++ more, rest)
  | fuel + 1, .array, token :: tokens =>
    if token.kind = .rightBracket then ([], tokens)
    else if token.kind = .endOfFile then ([], token :: tokens)
    else if token.kind = .comma then scanBinding fuel .array tokens
    else
      let (names, rest) :=
        scanBinding fuel .target (if token.kind = .dotDotDot then tokens else token :: tokens)
      let (more, rest) := scanBinding fuel .array (skipOptionalInitializer .rightBracket rest)
      (names ++ more, rest)

/-- The names of a binding target and the number of its tokens. -/
def scanBindingTarget (start : Nat) : List AuthoredBindingName × Nat :=
  let tokens := p.tokensFrom start
  let (names, rest) := scanBinding p (2 * tokens.length + 2) .target tokens
  (names, tokens.length - rest.length)

def recoveredBindingNamesInTarget (start : Nat) : List AuthoredBindingName :=
  if [.leftBrace, .leftBracket].contains (p.tokenKindAt start) then (p.scanBindingTarget start).1
  else []

/-- The token kind that closes a binding pattern whose first tokens can start one. -/
def bindingPatternClose : Option TokenKind :=
  let first := p.peekKind 1
  match p.kind with
  | .leftBrace =>
    if [.rightBrace, .dotDotDot, .leftBracket, .stringLiteral, .numericLiteral,
        .bigIntLiteral].contains first || first.isIdentifierName then some .rightBrace
    else none
  | .leftBracket =>
    if [.rightBracket, .comma, .dotDotDot, .leftBrace, .leftBracket].contains first ||
        first.isIdentifier then some .rightBracket
    else none
  | _ => none

/-! ## Members and parameters -/

def classMemberStartsAccessor : Bool :=
  tokenStartsPropertyName (p.peekKind 1) && [.leftParen, .lessThan].contains (p.peekKind 2) ||
    p.peekKind 1 == .leftBracket

def parameterModifierHasFollower : Bool :=
  ! [.const, .default].contains p.kind &&
    ([.export, .static].contains p.kind || p.tokensAreOnSameLine p.index (p.index + 1)) &&
    ! [.colon, .question, .equals, .comma, .rightParen, .rightBracket, .endOfFile].contains
      (p.peekKind 1)

def typeMemberModifierHasFollower : Bool :=
  ! [.colon, .question, .equals, .leftParen, .lessThan, .semicolon, .comma, .rightBrace,
    .endOfFile].contains (p.peekKind 1)

def typeMemberStartAt (offset : Nat) : Bool :=
  let kind := p.peekKind offset
  let next := p.peekKind (offset + 1)
  let opensSignature (kind : TokenKind) : Bool := [.leftParen, .lessThan].contains kind
  [.leftParen, .lessThan, .leftBracket].contains kind ||
    kind == .new && opensSignature next ||
    [.get, .set].contains kind && isTypeMemberNameToken next &&
      opensSignature (p.peekKind (offset + 2)) ||
    isTypeMemberNameToken kind &&
      [.leftParen, .lessThan, .question, .colon, .comma, .semicolon, .rightBrace].contains next

/-- A member starts here, or behind some of the modifiers that stand here. -/
def isTypeMemberStart : Bool :=
  let modifiers := (p.tokensFrom p.index).takeWhile fun token => isTypeMemberModifier token.kind
  (List.range (modifiers.length + 1)).any p.typeMemberStartAt

def isIndexSignature : Bool :=
  p.atKind .leftBracket &&
    let first := p.peekKind 1
    if [.dotDotDot, .rightBracket].contains first then true
    -- a modifier commits to an index signature before the name is looked at
    else if isTypeMemberModifier first then (p.peekKind 2).isIdentifier
    else if !first.isIdentifier then false
    else if [.colon, .comma].contains (p.peekKind 2) then true
    else p.peekKind 2 == .question && [.colon, .comma, .rightBracket].contains (p.peekKind 3)

def braceStartsMappedType : Bool :=
  p.atKind .leftBrace &&
    let cursor := p.index + 1
    let cursor :=
      match p.tokenKindAt cursor with
      | .readonly => cursor + 1
      | .plus | .minus => if p.tokenKindAt (cursor + 1) = .readonly then cursor + 2 else cursor
      | _ => cursor
    p.tokenKindAt cursor == .leftBracket && (p.tokenKindAt (cursor + 1)).isIdentifier &&
      p.tokenKindAt (cursor + 2) == .in

/-- A tuple element starts with a label. -/
def tupleMemberIsNamed : Bool :=
  p.kind.isIdentifier &&
      (p.peekKind 1 == .colon || p.peekKind 1 == .question && p.peekKind 2 == .colon) ||
    p.atKind .dotDotDot && (p.peekKind 1).isIdentifier &&
      (p.peekKind 2 == .colon || p.peekKind 2 == .question && p.peekKind 3 == .colon)

/-! ## Arrows -/

def parameterStartsArrowSpeculation : Bool :=
  [.dotDotDot, .this, .leftBrace, .leftBracket].contains p.kind || p.kind.isIdentifier ||
    p.kind == .export && (p.peekKind 1).isIdentifier ||
    p.kind == .in && (p.peekKind 1).isIdentifier &&
      p.tokensAreOnSameLine p.index (p.index + 1)

def parenIsParameterList : Bool :=
  (p.atKind .rightParen || p.parameterStartsArrowSpeculation) &&
    parameterListIsFunctionType 1 (p.tokensFrom p.index)

/-- Whether a parenthesis starts an arrow: certainly, perhaps or not at all. -/
def parenthesizedArrowHeadCertainty : Option Bool :=
  let kind := p.peekKind 1
  let next := p.peekKind 2
  if kind = .rightParen then
    if [.fatArrow, .colon, .leftBrace].contains next then some true else none
  else if kind = .dotDotDot then some true
  else if kind != .async && (parameterModifier kind).isSome && next.isIdentifier &&
      (kind != .const ||
        [.colon, .question, .equals, .comma, .rightParen].contains (p.peekKind 3)) then
    if next != .as then some true else none
  else if kind.isIdentifier || kind == .this then
    match next with
    | .colon => some true
    | .question =>
      if [.colon, .comma, .equals, .rightParen].contains (p.peekKind 3) then some true else none
    | .comma | .equals | .rightParen => some false
    | _ => none
  else if [.leftBrace, .leftBracket].contains kind then some false
  else none

def genericArrowIsUnambiguousInJsx : Bool :=
  let cursor := p.index + 1
  let first := p.tokenKindAt cursor
  if source.kind != .typeScriptJsx then first.isIdentifier || first == .const
  else
    let cursor := if first = .const then cursor + 1 else cursor
    (p.tokenKindAt cursor).isIdentifier &&
      match p.tokenKindAt (cursor + 1) with
      | .extends => ! [.equals, .greaterThan, .slash].contains (p.tokenKindAt (cursor + 2))
      | .comma | .equals => true
      | _ => false

/-! ## Templates -/

/-- The index of the token that closes so many templates, the last token when none does. -/
def templateEnd (nesting : Nat) : Nat :=
  match templateTailDistance nesting (p.tokensFrom p.index) with
  | some distance => p.index + distance
  | none => p.tokens.length - 1

end Parser

end Tsz.Syntax
