import Tsz.Syntax.Parser.Literals

/-!
# Types

Parameters, type parameters, type arguments, types and the members of object types. Each
`while` of these productions is the definition named like its call; the `next` iteration is a
call of it.
-/

namespace Tsz.Syntax

variable {source : SourceText} {scanned : ScanOutput source}

def recoverMissingType (token : Token) (consume : Bool) : Parse scanned TypeNode := do
  noteMissingType token
  if consume then
    let _ ← bump
  return ⟨token.span, .missing⟩

def parseTypeAnnotation : Parse scanned (Option TypeNode) :=
  eatThen .colon (Parse.call .type)

/-! ## Parameters -/

def parameterModifiers (modifiers : List ParameterModifierNode) :
    Parse scanned (List ParameterModifierNode) := do
  match parameterModifier (← look (·.kind)) with
  | none => return modifiers
  | some modifier =>
    if ← look (·.parameterModifierHasFollower) then
      let span := (← bump).span
      Parse.call (.parameterModifiers (modifiers ++ [⟨modifier, span⟩]))
    else
      return modifiers

def parseParameterName (thisParameter : Bool) (modifiers : List ParameterModifierNode) :
    Parse scanned (String × Span × ParameterNameKind) := do
  if thisParameter then
    -- the special `this` is an identifier, so an authored escape is no keyword use
    let token ← Parse.bumpIdentifier
    return (← look (·.text token.span), token.span, .this)
  else if !modifiers.isEmpty then
    let (name, span) ← parseName
    return (name, span, .binding)
  else if ← look (·.atAny [.const, .default]) then
    let token ← bump
    let name ← look (·.text token.span)
    pushDiagnostic ⟨token.span, reservedWordMessage name, 1359⟩
    return (name, token.span, .binding)
  else
    let (name, span) ← parseRecoveredBindingHead
    return (name, span, .binding)

/-- The type behind the `:` of a parameter. -/
def parseParameterAnnotation : Parse scanned TypeNode := do
  let previous ← look (·.typeMemberRecoveryCode)
  amend fun l => { l with typeMemberRecoveryCode := 1005 }
  let token ← look (·.current)
  let annotation : TypeNode ←
    if [.comma, .equals, .rightParen, .rightBracket].contains token.kind then
      recoverMissingType token false
    else
      Parse.call .type
  amend fun l => { l with typeMemberRecoveryCode := previous }
  return annotation

def parseParameterWithThis (allowThis : Bool) : Parse scanned Parameter := do
  let diagnosticCount ← look (·.diagnostics.length)
  let start ← look (·.current.span.start)
  let modifiers : List ParameterModifierNode ← Parse.call (.parameterModifiers [])
  let restSpan ← bumpAt .dotDotDot
  let binding ← look (·.current)
  if binding.kind = .at then
    insertSourceSyntaxFact .decoratorRecovery
  let thisParameter := allowThis && binding.kind == .this
  let bindingStart ← look (·.index)
  let (name, nameSpan, nameKind) ← parseParameterName thisParameter modifiers
  let recoveredBindingPattern := [.leftBrace, .leftBracket].contains binding.kind &&
    nameSpan.stop > binding.span.stop
  let recoveredBindingNames ← look fun p =>
    if recoveredBindingPattern then p.recoveredBindingNamesInTarget bindingStart else []
  let optionalSpan ← bumpAt .question
  let annotation ← eatThen .colon parseParameterAnnotation
  let initializer : Option Expression ← eatThen .equals (Parse.call .assignmentExpression)
  let stop := max (← look (·.previousEnd)) start
  let completionSupported := modifiers.all (·.kind.isProperty) &&
    (← look (·.diagnostics.length)) == diagnosticCount
  return {
    name
    nameSpan
    recoveredBindingNames
    nameKind := if recoveredBindingPattern then .bindingPattern else nameKind
    annotation
    initializer
    optional := optionalSpan.isSome
    optionalSpan
    rest := restSpan.isSome
    restSpan
    modifiers
    overloadCompletionSupported :=
      (binding.kind == .identifier || thisParameter) && completionSupported
    functionImplementationCompletionSupported :=
      (binding.kind.isIdentifier || thisParameter) && completionSupported
    span := ⟨source.id, start, stop⟩ }

def parseParameter : Parse scanned Parameter := parseParameterWithThis false

def parameters (allowThis recoverMissingSeparator : Bool) (parameters : List Parameter) :
    Parse scanned (List Parameter) := do
  if ← look (·.atAny [.rightParen, .endOfFile]) then
    return parameters
  else
    let recoverMissingSeparator :=
      recoverMissingSeparator || (← look (·.atAny [.const, .default]))
    let parameter ← parseParameterWithThis allowThis
    let parameters := parameters ++ [parameter]
    if ← eat .comma then
      Parse.call (.parameters allowThis recoverMissingSeparator parameters)
    else if !recoverMissingSeparator || (← look (·.atAny [.rightParen, .endOfFile])) ||
        !(← look (·.parameterStartsArrowSpeculation)) then
      return parameters
    else
      errorCurrent "',' expected." 1005
      Parse.call (.parameters allowThis recoverMissingSeparator parameters)

def parseParametersWithThis (allowThis recoverMissingSeparator : Bool) :
    Parse scanned (List Parameter) := do
  let _ ← expect .leftParen "'(' expected." 1005
  let parameters : List Parameter ←
    Parse.call (.parameters allowThis recoverMissingSeparator [])
  let _ ← expect .rightParen "')' expected." 1005
  return parameters

def parseParameters : Parse scanned (List Parameter) := parseParametersWithThis false false

def parseArrowParameters : Parse scanned (List Parameter) := parseParametersWithThis false true

def parseSignatureParameters : Parse scanned (List Parameter) :=
  parseParametersWithThis true false

def recordAccessorThisParameters : List Parameter → Note scanned Unit
  | [] => return ()
  | parameter :: parameters => do
    if parameter.nameKind = .this then
      recordContextualGrammar parameter.nameSpan .accessorThisParameter
    recordAccessorThisParameters parameters

def parseAccessorParameters : Parse scanned (List Parameter) := do
  let parameters ← parseParametersWithThis true false
  Noting.note (recordAccessorThisParameters parameters)
  return parameters

/-- The parameters up to the closing token, in the lists that take no recovery. -/
def parameterList (close : TokenKind) (allowThis : Bool) (parameters : List Parameter) :
    Parse scanned (List Parameter) := do
  if ← look (·.atAny [close, .endOfFile]) then
    return parameters
  else
    let parameter ← parseParameterWithThis allowThis
    let parameters := parameters ++ [parameter]
    if ← eat .comma then
      Parse.call (.parameterList close allowThis parameters)
    else
      return parameters

/-! ## Type parameters and arguments -/

def typeParameterModifiers (constParameter inVariance outVariance : Bool) :
    Parse scanned (Bool × Bool × Bool) := do
  match ← look (·.kind) with
  | .const =>
    Parse.call (.typeParameterModifiers (← eat .const) inVariance outVariance)
  | .in => Parse.call (.typeParameterModifiers constParameter (← eat .in) outVariance)
  | .out => Parse.call (.typeParameterModifiers constParameter inVariance (← eat .out))
  | _ => return (constParameter, inVariance, outVariance)

def typeParameters (parameters : List TypeParameterDeclaration) :
    Parse scanned (List TypeParameterDeclaration) := do
  if (← look (·.atTypeClose)) || (← look (·.atKind .endOfFile)) then
    return parameters
  else
    let start ← look (·.current.span)
    let modifiers : Bool × Bool × Bool ← Parse.call (.typeParameterModifiers false false false)
    let (name, nameSpan) ← parseName
    let constraint : Option TypeNode ← eatThen .extends (Parse.call .type)
    let default : Option TypeNode ← eatThen .equals (Parse.call .type)
    let stop := ((default.or constraint).map (·.span)).getD nameSpan
    let parameter : TypeParameterDeclaration :=
      ⟨name, nameSpan, start.merge stop, constraint, default, modifiers.1, modifiers.2.1,
        modifiers.2.2⟩
    let parameters := parameters ++ [parameter]
    if ← eat .comma then
      Parse.call (.typeParameters parameters)
    else
      return parameters

def parseTypeParameters : Parse scanned (List TypeParameterDeclaration) := do
  if ← eat .lessThan then
    let parameters : List TypeParameterDeclaration ← Parse.call (.typeParameters [])
    let _ ← expectTypeClose
    return parameters
  else
    return []

def typeArguments (arguments : List TypeNode) : Parse scanned (List TypeNode) := do
  if (← look (·.atTypeClose)) || (← look (·.atKind .endOfFile)) then
    return arguments
  else
    -- a missing argument takes the comma as its own token
    let recoveringMissingArgument ← look (·.atKind .comma)
    let argument : TypeNode ← Parse.call .type
    let arguments := arguments ++ [argument]
    if recoveringMissingArgument then
      Parse.call (.typeArguments arguments)
    else if ← eat .comma then
      Parse.call (.typeArguments arguments)
    else
      return arguments

def parseTypeArgumentsWithClose : Parse scanned (List TypeNode × Option Span) := do
  let left ← look (·.current.span)
  if ← eat .lessThan then
    let arguments : List TypeNode ← Parse.call (.typeArguments [])
    let close ← look fun p =>
      if p.atTypeClose then some { p.current.span with stop := p.current.span.start + 1 }
      else none
    let closed ← expectTypeClose
    if closed && arguments.isEmpty then
      pushDiagnostic ⟨left, "Type argument list cannot be empty.", 1099⟩
    return (arguments, if closed then close else none)
  else
    return ([], none)

def parseTypeArguments : Parse scanned (List TypeNode) := do
  return (← parseTypeArgumentsWithClose).1

/-! ## Types -/

def keywordType : TokenKind → Option KeywordType
  | .any => some .any
  | .unknown => some .unknown
  | .never => some .never
  | .void => some .void
  | .undefined => some .undefined
  | .null => some .null
  | .boolean => some .boolean
  | .number => some .number
  | .string => some .string
  | .bigInt => some .bigInt
  | .object => some .object
  | .symbol => some .symbol
  | _ => none

def parseIntersectionType : Parse scanned TypeNode := do
  let _ ← eat .ampersand
  let first : TypeNode ← Parse.call .postfixType
  if ← eat .ampersand then
    let members : List TypeNode ← Parse.call (.intersectionMembers [first])
    let stop := (members.getLast?.map (·.span)).getD first.span
    return ⟨first.span.merge stop, .intersection members⟩
  else
    return first

def intersectionMembers (members : List TypeNode) : Parse scanned (List TypeNode) := do
  let member : TypeNode ← Parse.call .postfixType
  let members := members ++ [member]
  if ← eat .ampersand then
    Parse.call (.intersectionMembers members)
  else
    return members

def parseUnionType : Parse scanned TypeNode := do
  let _ ← eat .bar
  let first ← parseIntersectionType
  if ← eat .bar then
    let members : List TypeNode ← Parse.call (.unionMembers [first])
    let stop := (members.getLast?.map (·.span)).getD first.span
    return ⟨first.span.merge stop, .union members⟩
  else
    return first

def unionMembers (members : List TypeNode) : Parse scanned (List TypeNode) := do
  let member ← parseIntersectionType
  let members := members ++ [member]
  if ← eat .bar then
    Parse.call (.unionMembers members)
  else
    return members

def typeList (types : List TypeNode) : Parse scanned (List TypeNode) := do
  let type : TypeNode ← Parse.call .type
  let types := types ++ [type]
  if ← eat .comma then
    Parse.call (.typeList types)
  else
    return types

def parseAssertionPredicate : Parse scanned TypeNode := do
  let start ← look (·.previous.span)
  let (parameter, parameterSpan) ← parseIdentifierName
  let type : Option TypeNode ← eatThen .is (Parse.call .type)
  let stop := (type.map (·.span)).getD parameterSpan
  return ⟨start.merge stop, .predicate parameter parameterSpan true type⟩

def parsePredicate (checkType : TypeNode) : Parse scanned TypeNode := do
  let text ← look (·.text checkType.span)
  let parameter : String × Span :=
    match checkType.kind with
    | .reference name nameSpan [] => (name, nameSpan)
    | _ => (text, checkType.span)
  let type : TypeNode ← Parse.call .type
  return ⟨checkType.span.merge type.span,
    .predicate parameter.1 parameter.2 false (some type)⟩

def parseType : Parse scanned TypeNode := do
  if ← eat .asserts then
    parseAssertionPredicate
  else
    let checkType ← parseUnionType
    if ← eat .is then
      parsePredicate checkType
    else if ← eat .extends then
      let extendsType ← parseUnionType
      if ← eat .question then
        let trueType : TypeNode ← Parse.call .type
        let _ ← expect .colon "':' expected." 1005
        let falseType : TypeNode ← Parse.call .type
        return ⟨checkType.span.merge falseType.span,
          .conditional checkType extendsType trueType falseType⟩
      else
        return checkType
    else
      return checkType

/-! ## Members of object types -/

def parseTypeMemberSeparator : Parse scanned Unit := do
  if ← eat .comma then
    return ()
  else
    let _ ← eat .semicolon

def parseTypeMemberName : Parse scanned TypeMemberName := do
  let token ← look (·.current)
  observeUnmodeledNumericSeparatorIfCurrent
  match token.kind with
  | .stringLiteral =>
    let _ ← bump
    let name ← look (·.ordinaryStringLiteralValue token)
    return ⟨token.span, .stringLiteral name (← look (·.cookedStringLiteral token))⟩
  | .numericLiteral =>
    let _ ← bump
    return ⟨token.span, .numericLiteral (← look (·.text token.span))⟩
  | .bigIntLiteral =>
    let _ ← bump
    return ⟨token.span, .bigIntLiteral (← look (·.text token.span))⟩
  | .leftBracket =>
    let start := (← bump).span
    let expression ← parseExpression
    let stop ← look (·.current.span)
    observeUnmodeledNumericSeparatorInSpan (start.merge stop)
    let _ ← expect .rightBracket "']' expected." 1005
    return ⟨start.merge stop, .computed expression⟩
  | _ =>
    let (name, span) ← parseIdentifierName
    return ⟨span, .identifier name⟩

def typeMemberModifiers (modifiers : TypeMemberModifiers) :
    Parse scanned TypeMemberModifiers := do
  match typeMemberModifier (← look (·.kind)) with
  | none => return modifiers
  | some kind =>
    if ← look (·.typeMemberModifierHasFollower) then
      let span := (← bump).span
      let modifiers := modifiers.apply kind
      Parse.call (.typeMemberModifiers { modifiers with nodes := modifiers.nodes ++ [⟨kind, span⟩] })
    else
      return modifiers

def finishTypeMember (start : Span) (modifiers : TypeMemberModifiers) (kind : TypeMemberKind) :
    Note scanned TypeMember := do
  return ⟨← allocNode, start.merge (← look (·.previous.span)), false, false, modifiers, kind⟩

def parseCallSignature : Parse scanned TypeMember := do
  let start ← look (·.current.span)
  let typeParameters ← parseTypeParameters
  let parameters ← parseSignatureParameters
  let returnType ← parseTypeAnnotation
  parseTypeMemberSeparator
  Noting.note (finishTypeMember start {} (.call typeParameters parameters returnType))

def parseConstructSignature : Parse scanned TypeMember := do
  let start ← look (·.current.span)
  let _ ← expect .new "'new' expected." 1005
  let typeParameters ← parseTypeParameters
  let parameters ← parseParameters
  let returnType ← parseTypeAnnotation
  parseTypeMemberSeparator
  Noting.note (finishTypeMember start {} (.construct typeParameters parameters returnType))

def parseAccessorSignature (start : Span) (modifiers : TypeMemberModifiers)
    (accessor : AccessorKind) : Parse scanned TypeMember := do
  let _ ← bump
  let name ← parseTypeMemberName
  let typeParameters ← parseTypeParameters
  if !typeParameters.isEmpty then
    recordContextualGrammar name.span .accessorTypeParameters
  let parameters ← parseAccessorParameters
  let returnType ← parseTypeAnnotation
  parseTypeMemberSeparator
  Noting.note (finishTypeMember start modifiers (.accessor name accessor parameters returnType))

def parseIndexSignature (start : Span) (modifiers : TypeMemberModifiers) :
    Parse scanned TypeMember := do
  let _ ← expect .leftBracket "'[' expected." 1005
  let parameters : List Parameter ← Parse.call (.parameterList .rightBracket false [])
  let _ ← expect .rightBracket "']' expected." 1005
  let valueType ← parseTypeAnnotation
  parseTypeMemberSeparator
  Noting.note (finishTypeMember start modifiers (.index parameters valueType))

def TypeMemberNameKind.isComputed : TypeMemberNameKind → Bool
  | .computed _ => true
  | _ => false

def parsePropertyOrMethodSignature (start : Span) (modifiers : TypeMemberModifiers) :
    Parse scanned TypeMember := do
  let name ← parseTypeMemberName
  let optional ← eat .question
  if ← look (·.atAny [.leftParen, .lessThan]) then
    let typeParameters ← parseTypeParameters
    let parameters ← parseParameters
    let returnType ← parseTypeAnnotation
    parseTypeMemberSeparator
    Noting.note
      (finishTypeMember start modifiers
        (.method name optional typeParameters parameters returnType))
  else
    let type ← parseTypeAnnotation
    let initializer : Option Expression ←
      if type.isSome || optional || name.kind.isComputed then
        eatThen .equals (Parse.call .assignmentExpression)
      else
        pure none
    parseTypeMemberSeparator
    Noting.note (finishTypeMember start modifiers (.property name type optional initializer))

def parseTypeMember : Parse scanned TypeMember := do
  if ← look (·.atAny [.leftParen, .lessThan]) then
    parseCallSignature
  else if (← look (·.atKind .new)) && [.leftParen, .lessThan].contains (← look (·.peekKind 1)) then
    parseConstructSignature
  else
    let start ← look (·.current.span)
    let modifiers : TypeMemberModifiers ← Parse.call (.typeMemberModifiers {})
    if (← look (·.atKind .get)) && (← look (·.typeMemberModifierHasFollower)) then
      parseAccessorSignature start modifiers .get
    else if (← look (·.atKind .set)) && (← look (·.typeMemberModifierHasFollower)) then
      parseAccessorSignature start modifiers .set
    else if ← look (·.isIndexSignature) then
      parseIndexSignature start modifiers
    else
      parsePropertyOrMethodSignature start modifiers

def skipTypeMembers : Parse scanned Unit := do
  if ← look (·.atAny [.rightBrace, .endOfFile]) then
    return ()
  else
    let _ ← bump
    Parse.call .skipTypeMembers

def parseRecoveredTypeMember : Parse scanned TypeMember := do
  let start ← look (·.current.span)
  let name ← parseTypeMemberName
  let initializer : Option Expression ← eatThen .equals (Parse.call .assignmentExpression)
  let recoveryIncomplete := !(← look (·.atKind .rightBrace))
  let _ : Unit ← Parse.call .skipTypeMembers
  if ← look (·.atKind .rightBrace) then
    if (← look (·.typeMemberRecoveryCode)) = 1005 then
      errorCurrent "',' expected." 1005
    else
      errorCurrent "Declaration or statement expected." 1128
  let span := start.merge (← look (·.previous.span))
  noteRecovery .type start span
  return ⟨← allocNode, span, true, recoveryIncomplete, {}, .property name none false initializer⟩

/-- A token that no member took is skipped. -/
def bumpUnlessMoved (before : Nat) : Parse scanned Unit := do
  if (← look (·.index)) = before then
    let _ ← bump

def typeMembers (members : List TypeMember) : Parse scanned (List TypeMember) := do
  if ← look (·.atAny [.rightBrace, .endOfFile]) then
    return members
  else if ← eat .semicolon then
    Parse.call (.typeMembers members)
  else if ← eat .comma then
    Parse.call (.typeMembers members)
  else if ← look (·.isTypeMemberStart) then
    let before ← look (·.index)
    let member ← parseTypeMember
    bumpUnlessMoved before
    Parse.call (.typeMembers (members ++ [member]))
  else
    errorCurrent "Property or signature expected." 1131
    if isTypeMemberModifier (← look (·.kind)) && (← look (·.peekKind 1)) != .equals then
      let _ ← bump
      Parse.call (.typeMembers members)
    else
      return members ++ [← parseRecoveredTypeMember]

def parseTypeMembers : Parse scanned (List TypeMember) := do
  let _ ← expect .leftBrace "'\x7b' expected." 1005
  let members : List TypeMember ← Parse.call (.typeMembers [])
  let _ ← expect .rightBrace "'\x7d' expected." 1005
  return members

/-! ## Primary types -/

def parseMappedTypeModifier (modifier : TokenKind) : Parse scanned (Option Bool) := do
  if ← eat modifier then
    return some true
  else if (← look (·.atAny [.plus, .minus])) && (← look (·.peekKind 1)) == modifier then
    let add ← look (·.atKind .plus)
    let _ ← bump
    let _ ← bump
    return some add
  else
    return none

def mappedTypeMembers (members : List TypeMember) : Parse scanned (List TypeMember) := do
  if ← look (·.atAny [.rightBrace, .endOfFile]) then
    return members
  else
    let before ← look (·.index)
    let member ← parseTypeMember
    bumpUnlessMoved before
    Parse.call (.mappedTypeMembers (members ++ [member]))

def parseMappedType : Parse scanned TypeNode := do
  let left := (← bump).span
  let readonly ← parseMappedTypeModifier .readonly
  let _ ← expect .leftBracket "'[' expected." 1005
  let (parameter, parameterSpan) ← parseName
  let _ ← expect .in "'in' expected." 1005
  let constraint : TypeNode ← Parse.call .type
  let nameType : Option TypeNode ← eatThen .as (Parse.call .type)
  let _ ← expect .rightBracket "']' expected." 1005
  let optional ← parseMappedTypeModifier .question
  let _ ← expect .colon "':' expected." 1005
  let valueType : TypeNode ← Parse.call .type
  let _ ← eat .semicolon
  let members : List TypeMember ← Parse.call (.mappedTypeMembers [])
  let right ← look (·.current.span)
  let _ ← expect .rightBrace "'\x7d' expected." 1005
  return ⟨left.merge right,
    .mapped parameter parameterSpan constraint nameType valueType readonly optional members⟩

def tupleLabel : Parse scanned Unit := do
  if ← look (·.atAny [.colon, .endOfFile]) then
    return ()
  else
    if ← look (·.kind.isIdentifier) then
      let _ ← Parse.bumpIdentifier
    else
      let _ ← bump
    Parse.call .tupleLabel

def parseTupleMember : Parse scanned TypeNode := do
  let label ← look (·.current.span)
  if ← look (·.tupleMemberIsNamed) then
    let _ : Unit ← Parse.call .tupleLabel
    let colon := (← bump).span
    retainParserRecovery .type label (label.merge colon)
    Parse.call .type
  else
    match ← bumpAt .dotDotDot with
    | none => Parse.call .type
    | some rest =>
      let member : TypeNode ← Parse.call .type
      retainParserRecovery .type rest (rest.merge member.span)
      return member

def tupleMembers (members : List TypeNode) : Parse scanned (List TypeNode) := do
  if ← look (·.atAny [.rightBracket, .endOfFile]) then
    return members
  else
    let member ← parseTupleMember
    let members := members ++ [member]
    if ← eat .comma then
      Parse.call (.tupleMembers members)
    else
      return members

def parseTupleType : Parse scanned TypeNode := do
  let left := (← bump).span
  let members : List TypeNode ← Parse.call (.tupleMembers [])
  let stop ← look (·.current.span)
  let _ ← expect .rightBracket "']' expected." 1005
  return ⟨left.merge stop, .tuple members⟩

def parseParenthesizedOrFunctionType : Parse scanned TypeNode := do
  let left := (← bump).span
  if ← look (·.parenIsParameterList) then
    let parameters : List Parameter ← Parse.call (.parameterList .rightParen true [])
    let _ ← expect .rightParen "')' expected." 1005
    let _ ← expect .fatArrow "'=>' expected." 1005
    let returnType : TypeNode ← Parse.call .type
    return ⟨left.merge returnType.span, .function (← allocNode) [] parameters false returnType⟩
  else
    let inner : TypeNode ← Parse.call .type
    let right ← look (·.current.span)
    let _ ← expect .rightParen "')' expected." 1005
    return ⟨left.merge right, .parenthesized inner⟩

def parseGenericFunctionType : Parse scanned TypeNode := do
  let start ← look (·.current.span)
  let typeParameters ← parseTypeParameters
  let parameterListRecovered := !(← look (·.atKind .leftParen))
  let parameters ← parseSignatureParameters
  let _ ← expect .fatArrow "'=>' expected." 1005
  let returnType : TypeNode ← Parse.call .type
  return ⟨start.merge returnType.span,
    .function (← allocNode) typeParameters parameters parameterListRecovered returnType⟩

def parseConstructorType (start : Span) : Parse scanned TypeNode := do
  let abstractConstructor ← eat .abstract
  let _ ← expect .new "'new' expected." 1005
  let typeParameters ← parseTypeParameters
  let parameterListRecovered := !(← look (·.atKind .leftParen))
  let parameters ← parseParameters
  let _ ← expect .fatArrow "'=>' expected." 1005
  let returnType : TypeNode ← Parse.call .type
  return ⟨start.merge returnType.span,
    .constructor (← allocNode) typeParameters parameters parameterListRecovered returnType
      abstractConstructor⟩

def parseInferType : Parse scanned TypeNode := do
  let start := (← bump).span
  let (name, nameSpan) ← parseName
  let constraint ← eatThen .extends parseUnionType
  let stop := (constraint.map (·.span)).getD nameSpan
  return ⟨start.merge stop, .infer name nameSpan constraint⟩

def parseTypeReference : Parse scanned TypeNode := do
  let (name, nameSpan, _) ← parseEntityName
  let hasArguments ← look (·.atKind .lessThan)
  let arguments ← parseTypeArguments
  let previous ← look (·.previous.span)
  return ⟨nameSpan.merge (if hasArguments then previous else nameSpan),
    .reference name nameSpan arguments⟩

/-- A keyword type; `unique symbol` is the one of two words. -/
def parseKeywordType (first : Token) : Parse scanned (Option TypeNode) := do
  match keywordType first.kind with
  | some keyword =>
    let _ ← bump
    return some ⟨first.span, .keyword keyword⟩
  | none =>
    if first.kind = .unique ∧ (← look (·.peekKind 1)) = .symbol then
      let _ ← bump
      let last ← bump
      return some ⟨first.span.merge last.span, .keyword .uniqueSymbol⟩
    else
      return none

def parsePrimaryType : Parse scanned TypeNode := do
  let token ← look (·.current)
  match ← parseKeywordType token with
  | some keyword => return keyword
  | none =>
    let nextIsNew := (← look (·.peekKind 1)) == .new
    match token.kind with
    | .true | .false | .numericLiteral | .bigIntLiteral | .stringLiteral =>
      observeUnmodeledNumericSeparatorIfCurrent
      let _ ← bump
      return ⟨token.span, .literal (← look (·.literalFrom token))⟩
    | .keyOf =>
      let _ ← bump
      let operand : TypeNode ← Parse.call .postfixType
      return ⟨token.span.merge operand.span, .keyOf operand⟩
    | .readonly =>
      let _ ← bump
      let operand : TypeNode ← Parse.call .postfixType
      return ⟨token.span.merge operand.span, .readonly operand⟩
    | .typeOf =>
      let start := (← bump).span
      let (name, nameSpan, segmentSpans) ← parseEntityName
      return ⟨start.merge nameSpan, .typeQuery name nameSpan segmentSpans⟩
    | .infer => parseInferType
    | .new => parseConstructorType token.span
    | .this =>
      let _ ← bump
      return ⟨token.span, .this⟩
    | .leftBrace =>
      if ← look (·.braceStartsMappedType) then
        parseMappedType
      else
        let members ← parseTypeMembers
        return ⟨token.span.merge (← look (·.previous.span)), .object members⟩
    | .leftBracket => parseTupleType
    | .leftParen => parseParenthesizedOrFunctionType
    | .lessThan => parseGenericFunctionType
    | kind =>
      if kind = .abstract ∧ nextIsNew then
        parseConstructorType token.span
      else if kind.isIdentifier then
        parseTypeReference
      else
        recoverMissingType token true

def postfixTypeTail (type : TypeNode) : Parse scanned TypeNode := do
  if (← look (·.atKind .leftBracket)) && (← look (·.peekKind 1)) == .rightBracket then
    let _ ← bump
    let right := (← bump).span
    Parse.call (.postfixTypeTail ⟨type.span.merge right, .array type⟩)
  else if ← eat .leftBracket then
    let index : TypeNode ← Parse.call .type
    let right ← look (·.current.span)
    let _ ← expect .rightBracket "']' expected." 1005
    Parse.call (.postfixTypeTail ⟨type.span.merge right, .indexedAccess type index⟩)
  else
    return type

def parsePostfixType : Parse scanned TypeNode := do
  let type ← parsePrimaryType
  Parse.call (.postfixTypeTail type)

end Tsz.Syntax
