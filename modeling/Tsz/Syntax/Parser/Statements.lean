import Tsz.Syntax.Parser.Expressions

/-!
# Statements

Statements, declarations, classes, imports and exports. Most of them end with a separator that
is taken when it is there and not asked for when it is not.
-/

namespace Tsz.Syntax

open Noting (note)

variable {source : SourceText} {scanned : ScanOutput source}

/-! ## Lists of statements -/

def sourceStatements (statements : List Statement) : Parse scanned (List Statement) := do
  if ← look (·.atKind .endOfFile) then
    return statements
  else
    let before ← look (·.index)
    let statement : Statement ← Parse.call .statement
    bumpUnlessMoved before
    Parse.call (.sourceStatements (statements ++ [statement]))

def blockStatements (statements : List Statement) : Parse scanned (List Statement) := do
  if (← look (·.atKind .endOfFile)) ||
      (← look (·.atKind .rightBrace)) && (← look (·.pendingStrayStatementCloses)) == 0 then
    return statements
  else
    let before ← look (·.index)
    let statement ← parseStatement
    bumpUnlessMoved before
    Parse.call (.blockStatements (statements ++ [statement]))

def clauseStatements (statements : List Statement) : Parse scanned (List Statement) := do
  if ← look (·.atAny [.case, .default, .rightBrace, .endOfFile]) then
    return statements
  else
    let before ← look (·.index)
    let statement ← parseStatement
    bumpUnlessMoved before
    Parse.call (.clauseStatements (statements ++ [statement]))

/-- Tokens up to the end of the statement or of the extent, and a semicolon inside of it. -/
def recoverStatement (extent : Option Span) : Parse scanned Unit := do
  let inside ← look fun p => extent.all (p.current.span.start < ·.stop)
  if !(← look (·.atAny [.semicolon, .rightBrace, .endOfFile])) && inside then
    observeUnmodeledRegularExpressionIfCurrent
    observeUnmodeledTemplateIfCurrent
    let _ ← bump
    Parse.call (.recoverStatement extent)
  else if ← look fun p => extent.all (p.current.span.stop ≤ ·.stop) then
    let _ ← eat .semicolon

/-! ## Imports and exports -/

def parseSpecifierTypeModifier : Parse scanned Bool := do
  if ← look (·.specifierStartsWithTypeModifier) then
    eat .type
  else
    return false

def importSpecifiers (typeOnly : Bool) (bindings : List ImportBinding) :
    Parse scanned (List ImportBinding) := do
  if ← look (·.atAny [.rightBrace, .endOfFile]) then
    return bindings
  else
    let specifierTypeOnly ← if typeOnly then pure true else parseSpecifierTypeModifier
    let (imported, importedSpan) ← parseIdentifierName
    let (localName, localSpan) ←
      if ← eat .as then parseName else pure (imported, importedSpan)
    let binding : ImportBinding :=
      ⟨some imported, some importedSpan, localName, localSpan, specifierTypeOnly, false⟩
    let bindings := bindings ++ [binding]
    if ← eat .comma then
      Parse.call (.importSpecifiers typeOnly bindings)
    else
      return bindings

/-- The bindings of `* as name` or of a list in braces, if there is one. -/
def parseImportClause (typeOnly : Bool) (bindings : List ImportBinding) :
    Parse scanned (List ImportBinding) := do
  if ← eat .star then
    let _ ← expect .as "'as' expected." 1005
    let (localName, localSpan) ← parseName
    return bindings ++ [⟨none, none, localName, localSpan, typeOnly, true⟩]
  else if ← eat .leftBrace then
    let bindings : List ImportBinding ← Parse.call (.importSpecifiers typeOnly bindings)
    let _ ← expect .rightBrace "'\x7d' expected." 1005
    return bindings
  else
    return bindings

def parseImportFrom (typeOnly : Bool) (bindings : List ImportBinding) :
    Parse scanned ImportDeclaration := do
  let bindings ← parseImportClause typeOnly bindings
  let _ ← expect .from "'from' expected." 1005
  let (moduleSpecifier, moduleSpan) ← parseModuleSpecifier
  let _ ← eat .semicolon
  return ⟨bindings, moduleSpecifier, moduleSpan, typeOnly, false⟩

/-- The part behind the `=` of an import. -/
def parseImportRequire (typeOnly : Bool) (bindings : List ImportBinding) :
    Parse scanned ImportDeclaration := do
  let _ ← eat .require
  let _ ← expect .leftParen "'(' expected." 1005
  let (moduleSpecifier, moduleSpan) ← parseModuleSpecifier
  let _ ← expect .rightParen "')' expected." 1005
  let _ ← eat .semicolon
  return ⟨bindings, moduleSpecifier, moduleSpan, typeOnly, false⟩

def parseImportBindings (typeOnly : Bool) : Parse scanned ImportDeclaration := do
  if ← look (·.kind.isIdentifier) then
    let (localName, localSpan) ← parseName
    let bindings : List ImportBinding :=
      [⟨some "default", none, localName, localSpan, typeOnly, false⟩]
    if ← eat .equals then
      parseImportRequire typeOnly bindings
    else
      let _ ← eat .comma
      parseImportFrom typeOnly bindings
  else
    parseImportFrom typeOnly []

def parseImportDeclaration : Parse scanned ImportDeclaration := do
  let _ ← bump
  if ← look (·.atKind .stringLiteral) then
    let (moduleSpecifier, moduleSpan) ← parseModuleSpecifier
    let _ ← eat .semicolon
    return ⟨[], moduleSpecifier, moduleSpan, false, true⟩
  else if ← look (·.importStartsWithTypeOnlyClause) then
    let _ ← bump
    parseImportBindings true
  else
    parseImportBindings false

def finishExpressionStatement : Parse scanned Unit := do
  if ← eat .semicolon then
    return ()
  else if ← look (·.atAny [.rightBrace, .endOfFile]) then
    return ()
  else if (← look (·.atKind .colon)) &&
      (← look (·.currentIsInsideRejectedGenericArrowPrefix)) then
    errorCurrent "';' expected." 1005
    let _ ← bump

def exportSpecifiers (typeOnly : Bool) (specifiers : List ExportSpecifier) :
    Parse scanned (List ExportSpecifier) := do
  if ← look (·.atAny [.rightBrace, .endOfFile]) then
    return specifiers
  else
    let specifierTypeOnly ← if typeOnly then pure true else parseSpecifierTypeModifier
    let (localName, localSpan) ← parseIdentifierName
    let (exported, exportedSpan) ←
      if ← eat .as then parseIdentifierName else pure (localName, localSpan)
    let specifier : ExportSpecifier :=
      ⟨localName, localSpan, exported, exportedSpan, specifierTypeOnly⟩
    let specifiers := specifiers ++ [specifier]
    if ← eat .comma then
      Parse.call (.exportSpecifiers typeOnly specifiers)
    else
      return specifiers

def parseExportSpecifiers (typeOnly exportAll : Bool) : Parse scanned (List ExportSpecifier) := do
  if exportAll then
    if ← eat .as then
      let (exported, exportedSpan) ← parseIdentifierName
      return [⟨exported, exportedSpan, exported, exportedSpan, typeOnly⟩]
    else
      return []
  else
    let _ ← expect .leftBrace "'\x7b' expected." 1005
    let specifiers : List ExportSpecifier ← Parse.call (.exportSpecifiers typeOnly [])
    let _ ← expect .rightBrace "'\x7d' expected." 1005
    return specifiers

def parseExportFrom : Parse scanned ExportDeclaration := do
  let typeOnly ← eat .type
  let exportAll ← eat .star
  let specifiers ← parseExportSpecifiers typeOnly exportAll
  let module ← eatThen .from parseModuleSpecifier
  let _ ← eat .semicolon
  return ⟨specifiers, module.map (·.1), module.map (·.2), typeOnly, exportAll, false, none⟩

def parseExportAssignment (defaultExport : Bool) : Parse scanned ExportDeclaration := do
  let assignment : Expression ← Parse.call .assignmentExpression
  finishExpressionStatement
  return ⟨[], none, none, false, false, defaultExport, some assignment⟩

/-- `export as namespace` in front of a global name. -/
def parseExportNamespace : Parse scanned ExportDeclaration := do
  let _ ← eat .namespace
  let _ ← parseIdentifierName
  let _ ← eat .semicolon
  return ⟨[], none, none, false, false, false, none⟩

def parseExportDeclaration : Parse scanned ExportDeclaration := do
  insertSourceSyntaxFact .moduleExport
  let _ ← expect .export "'export' expected." 1005
  if ← eat .default then
    parseExportAssignment true
  else if ← eat .equals then
    parseExportAssignment false
  else if ← eat .as then
    parseExportNamespace
  else
    parseExportFrom

/-! ## Modifiers and hosts -/

/-- A modifier whose position in the sequence is `current`. -/
def Modifiers.inOrder (modifiers : Modifiers) (previous current : Nat) : Modifiers :=
  { modifiers with invalidSequence := modifiers.invalidSequence || previous ≥ current }

def Modifiers.repeated (modifiers : Modifiers) (seen : Bool) : Modifiers :=
  { modifiers with
    unsupportedForOverloadCompletion := modifiers.unsupportedForOverloadCompletion || seen }

def retainUnmodeledDeclarationHost (ownerStart : Nat) (modifiers : Modifiers) :
    Note scanned Unit := do
  match ← look (·.unmodeledDeclarationHostAt 0) with
  | none => return ()
  | some (nameOffset, kind) =>
    let nameToken ← look fun p =>
      if nameOffset > 0 then some (p.tokenAt (p.index + nameOffset)) else none
    let recoveryExtent ← look (·.unmodeledDeclarationRecoveryExtent kind)
    let name ← look fun p => nameToken.map (p.text ·.span)
    let host : UnmodeledDeclarationHostFact :=
      ⟨ownerStart, recoveryExtent, name, nameToken.map (·.span), kind, .omitted,
        modifiers.declared, modifiers.exported⟩
    amend fun l => { l with unmodeledDeclarationHosts := l.unmodeledDeclarationHosts ++ [host] }

/-- Contextual modifiers stay identifiers in front of a line break or a template. -/
def modifierIsIdentifier (p : Parser scanned) : Bool :=
  p.atAny [.declare, .async, .abstract] &&
    (!p.tokensAreOnSameLine p.index (p.index + 1) ||
      [.noSubstitutionTemplateLiteral, .templateHead].contains (p.peekKind 1))

def parseExportModifier (modifiers : Modifiers) (order : Nat) :
    Parse scanned (Modifiers × Nat) := do
  insertSourceSyntaxFact .moduleExport
  let modifiers := (modifiers.inOrder order 1).repeated modifiers.exported
  let modifiers := { modifiers with exported := true }
  let _ ← bump
  if ← eat .default then
    let modifiers := (modifiers.inOrder 1 2).repeated modifiers.defaultExport
    return ({ modifiers with defaultExport := true }, 2)
  else
    return (modifiers, 1)

def modifiers (modifiers : Modifiers) (order : Nat) : Parse scanned Modifiers := do
  if ← look modifierIsIdentifier then
    return modifiers
  else
    match ← look (·.kind) with
    | .export =>
      let (modifiers, order) ← parseExportModifier modifiers order
      Parse.call (.modifiers modifiers order)
    | .declare =>
      let _ ← bump
      let modifiers := (modifiers.inOrder order 3).repeated modifiers.declared
      Parse.call (.modifiers { modifiers with declared := true } 3)
    | .async =>
      let _ ← bump
      let modifiers := (modifiers.inOrder order 4).repeated modifiers.isAsync
      Parse.call (.modifiers { modifiers with isAsync := true } 4)
    | .abstract =>
      let _ ← bump
      let modifiers := (modifiers.inOrder order 4).repeated modifiers.abstractDeclaration
      Parse.call (.modifiers { modifiers with abstractDeclaration := true } 4)
    | _ => return modifiers

def parseModifiers (statementStart : Nat) : Parse scanned Modifiers := do
  let modifiers : Modifiers ← Parse.call (.modifiers {} 0)
  note (retainUnmodeledDeclarationHost statementStart modifiers)
  return modifiers

def observeStatementModifiers (modifiers : Modifiers) : Note scanned Unit := do
  let host ← look (·.kind)
  if host = .class ∧ modifiers.isAsync then
    insertSourceSyntaxFact .asyncClassModifier
  if host = .class ∧ modifiers.invalidSequence then
    insertSourceSyntaxFact .invalidClassModifierOrder
  if modifiers.defaultExport &&
      (modifiers.invalidSequence || ! [.function, .class].contains host) then
    insertSourceSyntaxFact .defaultExportOnUnsupportedHost

def errorModifiedDeclaration (statementStart : Nat) : Note scanned Unit := do
  let before ← look fun p => p.tokens.take p.index
  let modifier := before.find? fun token =>
    token.span.start ≥ statementStart && [.export, .declare].contains token.kind
  match modifier, ← look (·.unmodeledDeclarationHostAt 0) with
  | some modifier, some (_, .using) =>
    let name := if modifier.kind = .export then "export" else "declare"
    let (code, declaration) :=
      if ← look (·.atKind .await) then (1495, "an 'await using'") else (1491, "a 'using'")
    pushDiagnostic
      ⟨modifier.span,
        "'" ++ name ++ "' modifier cannot appear on " ++ declaration ++ " declaration.", code⟩
  | _, _ => errorCurrent "Declaration expected." 1146

/-- The names of a module behind dots; whether one of them is malformed. -/
def moduleNameTail : Parse scanned Bool := do
  if ← eat .dot then
    if ← look (·.kind.isIdentifierName) then
      let _ ← parseIdentifierName
      Parse.call .moduleNameTail
    else
      errorCurrent "Identifier expected." 1003
      return true
  else
    return false

def parseOpaqueModuleName (kind : UnmodeledDeclarationHostKind) : Parse scanned Bool := do
  let stringNamespace := kind == .namespace && (← look (·.atKind .stringLiteral))
  if kind = .externalModule then
    let _ ← bump
    return stringNamespace
  else
    let _ ← parseName
    let malformed : Bool ← Parse.call .moduleNameTail
    return stringNamespace || malformed

def parseOpaqueModule (kind : UnmodeledDeclarationHostKind) : Parse scanned StatementKind := do
  let _ ← bump
  let malformedName ← parseOpaqueModuleName kind
  if ← look (·.atKind .leftBrace) then
    return .block (← parseBlock).1
  else
    if kind ≠ .externalModule ∧ !malformedName then
      errorCurrent "'\x7b' expected." 1005
    let _ ← eat .semicolon
    return .unknown

def parseOpaqueEnum : Parse scanned StatementKind := do
  let _ ← eat .const
  let _ ← bump
  let _ ← parseName
  let _ ← consumeBalancedTokens .leftBrace .rightBrace "'\x7d' expected."
  let _ ← eat .semicolon
  return .unknown

def parseGlobalBlock : Parse scanned StatementKind := do
  let _ ← bump
  let (statements, _) ← parseBlock
  let _ ← eat .semicolon
  return .block statements

/-- The last host with the owner and the kind keeps its body as statements. -/
def markParsedStatements (ownerStart : Nat) (kind : UnmodeledDeclarationHostKind)
    (hosts : List UnmodeledDeclarationHostFact) : List UnmodeledDeclarationHostFact :=
  let isOwner (host : UnmodeledDeclarationHostFact) : Bool :=
    host.ownerStart == ownerStart && host.kind == kind
  let after := (hosts.reverse.takeWhile fun host => !isOwner host).reverse
  match (hosts.reverse.dropWhile fun host => !isOwner host) with
  | [] => hosts
  | host :: before => before.reverse ++ { host with body := .parsedStatements } :: after

def StatementKind.isBlock : StatementKind → Bool
  | .block _ => true
  | _ => false

def parseOpaqueHostOf (nameOffset : Nat) (kind : UnmodeledDeclarationHostKind)
    (modifiers : Modifiers) : Parse scanned (Option StatementKind) := do
  match kind with
  | .module | .namespace | .externalModule => return some (← parseOpaqueModule kind)
  | .enum =>
    if (← look fun p => p.balancedRecoveryBraceExtent (p.index + nameOffset + 1)).isSome then
      return some (← parseOpaqueEnum)
    else
      return none
  | .global =>
    if modifiers.declared && (← look (·.peekKind 1)) == .leftBrace then
      return some (← parseGlobalBlock)
    else
      return none
  | .using => return none

def parseOpaqueHost (ownerStart : Nat) (modifiers : Modifiers) :
    Parse scanned (Option StatementKind) := do
  match ← look (·.unmodeledDeclarationHostAt 0) with
  | none => return none
  | some (nameOffset, kind) =>
    let statement ← parseOpaqueHostOf nameOffset kind modifiers
    if (statement.map StatementKind.isBlock) = some true then
      amend fun l =>
        { l with
          unmodeledDeclarationHosts :=
            markParsedStatements ownerStart kind l.unmodeledDeclarationHosts }
    return statement

/-! ## Variables, aliases and interfaces -/

def retainVariableDeclarationRecovery (bindingStart nameSpan : Span)
    (modeledBinding hasRecoveredBindingNames : Bool) : Note scanned Unit := do
  let tailRequiresRecovery :=
    !(← look (·.atAny [.colon, .equals, .comma, .semicolon, .rightBrace, .endOfFile])) &&
      (← look fun p => p.tokensAreOnSameLine (p.index - 1) p.index)
  if !modeledBinding || tailRequiresRecovery || hasRecoveredBindingNames then
    let _ ← retainRecoveryExtent .declaration (if modeledBinding then nameSpan else bindingStart)

def parseVariableName : Parse scanned (String × Span) := do
  let binding ← look (·.current)
  if binding.kind.isIdentifierName && ! binding.kind.isIdentifier &&
      (← look (·.identifierValue binding.span)).isSome then
    let token ← Parse.bumpIdentifier
    let name ← look (·.text token.span)
    pushDiagnostic
      ⟨token.span, "'" ++ name ++ "' is not allowed as a variable declaration name.", 1389⟩
    return (name, token.span)
  else
    parseRecoveredBindingHead

/-- An assertion that something else follows on its line ends the declaration there. -/
def recoverVariableInitializer (initializer : Option Expression) : Parse scanned Unit := do
  let rejected ← look fun p =>
    initializer.any fun expression =>
      p.expressionStartsRejectedGenericArrowPrefix expression.span
  let followed :=
    !(← look (·.atAny [.comma, .semicolon, .rightBrace, .endOfFile])) &&
      (← look fun p => p.tokensAreOnSameLine (p.index - 1) p.index)
  if initializer.any (·.kind.isAs) && !rejected && followed then
    let extent ← retainRecoveryExtent .declaration (← look (·.current.span))
    Parse.call (.recoverStatement (some extent))
  else
    return ()

def variableDeclarators (declarators : List VariableDeclarator) :
    Parse scanned (List VariableDeclarator) := do
  let binding ← look (·.current)
  let recoveredBindingNames ← look fun p => p.recoveredBindingNamesInTarget p.index
  let (name, nameSpan) ← parseVariableName
  note (retainVariableDeclarationRecovery binding.span nameSpan binding.kind.isIdentifier
    !recoveredBindingNames.isEmpty)
  let annotation ← parseTypeAnnotation
  let initializer : Option Expression ← eatThen .equals (Parse.call .assignmentExpression)
  let rejected ← look fun p =>
    initializer.any fun expression =>
      p.expressionStartsRejectedGenericArrowPrefix expression.span
  let rejectedArrowTail ← if rejected then eat .comma else pure false
  recoverVariableInitializer initializer
  let declarators := declarators ++ [⟨name, nameSpan, recoveredBindingNames, annotation, initializer⟩]
  if rejectedArrowTail then
    errorCurrent "Variable declaration expected." 1134
    let _ ← bump
    return declarators
  else if ← eat .comma then
    if ← look (·.atAny [.semicolon, .rightBrace, .endOfFile]) then
      errorCurrent "Variable declaration expected." 1134
      return declarators
    else
      Parse.call (.variableDeclarators declarators)
  else
    return declarators

def variableKind : TokenKind → VariableKind
  | .const => .const
  | .var => .var
  | _ => .let

def parseVariable (modifiers : Modifiers) (hasLeadingJsdoc : Bool) :
    Parse scanned VariableStatement := do
  let keyword ← bump
  let declarators : List VariableDeclarator ← Parse.call (.variableDeclarators [])
  let _ ← eat .semicolon
  return ⟨variableKind keyword.kind, declarators, hasLeadingJsdoc, modifiers.exported,
    modifiers.declared⟩

def parseTypeAlias (exported : Bool) : Parse scanned TypeAliasDeclaration := do
  let _ ← bump
  let (name, nameSpan) ← parseName
  let typeParameters ← parseTypeParameters
  let _ ← expect .equals "'=' expected." 1005
  let type : TypeNode ← Parse.call .type
  let _ ← eat .semicolon
  return ⟨name, nameSpan, typeParameters, type, exported⟩

def parseTypeList : Parse scanned (List TypeNode) := Parse.call (.typeList [])

def parseInterface (exported : Bool) : Parse scanned InterfaceDeclaration := do
  let _ ← bump
  let (name, nameSpan) ← parseName
  let typeParameters ← parseTypeParameters
  let extendsTypes ← eatThen .extends parseTypeList
  let members ← parseTypeMembers
  return ⟨name, nameSpan, typeParameters, extendsTypes.getD [], members, exported⟩

/-! ## Functions and classes -/

/-- The empty name in front of the current token. -/
def omittedName : Note scanned (String × Span) := do
  let at' ← look (·.current.span)
  return ("", { at' with stop := at'.start })

def parseFunction (modifiers : Modifiers) (hasLeadingJsdoc : Bool) :
    Parse scanned FunctionDeclaration := do
  let diagnosticCount ← look (·.diagnostics.length)
  let functionKeyword ← look (·.current.span)
  let unmodeledGenerator := (← look (·.peekKind 1)) == .star
  let _ ← expect .function "'function' expected." 1005
  if unmodeledGenerator then
    let _ ← bump
  let previous ← look (·.toLedger)
  amend fun l => { l with yieldBindingReserved := l.yieldBindingReserved || unmodeledGenerator }
  let (name, nameSpan) ←
    if modifiers.defaultExport && !(← look (·.kind.isIdentifier)) then
      note omittedName
    else
      parseName
  amend fun l =>
    { l with
      inYieldContext := unmodeledGenerator
      inAwaitContext := false
      awaitBindingReserved := false }
  let typeParameters ← parseTypeParameters
  amend fun l =>
    { l with
      inAwaitContext := modifiers.isAsync
      awaitBindingReserved := modifiers.isAsync }
  let parameters ← parseSignatureParameters
  let returnType ← parseTypeAnnotation
  let hasBody ← look (·.atKind .leftBrace)
  let bodyExtent ← look fun p => p.balancedRecoveryBraceExtent p.index
  let (body, bodySpan) ←
    if hasBody then
      parseBlock
    else do
      let _ ← eat .semicolon
      pure ([], none)
  bumpToRecovered unmodeledGenerator bodyExtent
  amend fun l =>
    { l with
      inYieldContext := previous.inYieldContext
      inAwaitContext := previous.inAwaitContext
      awaitBindingReserved := previous.awaitBindingReserved
      yieldBindingReserved := previous.yieldBindingReserved }
  let supported (parameter : Parameter) : Bool :=
    if hasBody then parameter.functionImplementationCompletionSupported
    else parameter.overloadCompletionSupported
  let overloadCompletionSupported :=
    !unmodeledGenerator && !modifiers.unsupportedForOverloadCompletion &&
      parameters.all supported && (← look (·.diagnostics.length)) == diagnosticCount
  if unmodeledGenerator then
    let span := functionKeyword.merge (← look (·.previous.span))
    retainParserRecovery .generatorFunctionLike functionKeyword span
  return {
    name
    nameSpan
    typeParameters
    parameters
    returnType
    body
    hasBody
    bodySpan
    hasLeadingJsdoc
    exported := modifiers.exported
    defaultExport := modifiers.defaultExport
    isAsync := modifiers.isAsync
    declared := modifiers.declared
    abstractDeclaration := modifiers.abstractDeclaration
    overloadCompletionSupported }

def classMemberModifier : TokenKind → Option ParameterModifier
  | .public => some .public
  | .protected => some .protected
  | .private => some .private
  | .readonly => some .readonly
  | .static => some .static
  | .abstract => some .abstract
  | .declare => some .declare
  | .async => some .async
  | .override => some .override
  | .accessor => some .accessor
  | _ => none

def classMemberModifiers (modifiers : ClassMemberModifiers) :
    Parse scanned ClassMemberModifiers := do
  match classMemberModifier (← look (·.kind)) with
  | none => return modifiers
  | some modifier =>
    let _ ← bump
    Parse.call (.classMemberModifiers (modifiers.observe modifier))

/-- The body of a member, or the semicolon in its place. -/
def parseMemberBody (hasBody : Bool) : Parse scanned (List Statement × Option Span) := do
  if hasBody then
    parseBlock
  else
    let _ ← eat .semicolon
    return ([], none)

def enterMember (inYieldContext : Bool) : Note scanned Unit :=
  amend fun l =>
    { l with
      inYieldContext
      inAwaitContext := false
      awaitBindingReserved := false }

def leaveMember (previous : Ledger) : Note scanned Unit :=
  amend fun l =>
    { l with
      inYieldContext := previous.inYieldContext
      inAwaitContext := previous.inAwaitContext
      awaitBindingReserved := previous.awaitBindingReserved }

/-- What a member has in front of its name. -/
structure MemberStart where
  span : Span
  diagnosticCount : Nat
  hasLeadingJsdoc : Bool
  modifiers : ClassMemberModifiers

/-- Whether a member reported no error since its start. -/
def memberSupported (start : MemberStart) : Note scanned Bool := do
  return (← look (·.diagnostics.length)) == start.diagnosticCount

def parseConstructorMember (start : MemberStart) : Parse scanned ClassMember := do
  let nameSpan := (← bump).span
  if ← look (·.atKind .question) then
    let _ ← retainRecoveryExtent .classMember (← look (·.current.span))
  let previous ← look (·.toLedger)
  note (enterMember false)
  let parameters ← parseParameters
  let hasBody ← look (·.atKind .leftBrace)
  let (body, bodySpan) ← parseMemberBody hasBody
  note (leaveMember previous)
  let supported ← note (memberSupported start)
  let span := start.span.merge (← look (·.previous.span))
  return {
    id := ← allocNode
    name := "constructor"
    nameSpan
    nameKind := .identifier
    stringNameValue := none
    span
    hasLeadingJsdoc := start.hasLeadingJsdoc
    modifiers := start.modifiers
    overloadCompletionSupported :=
      !start.modifiers.unsupportedForOverloadCompletion && supported
    emitProductsSupported := start.modifiers.constructorModifiersAreModeled && supported
    kind := .constructor [] parameters none body hasBody bodySpan }

/-- The name of a member with what stands around it. -/
structure MemberHead where
  generatorSpan : Option Span
  accessor : Option AccessorKind
  name : String
  nameSpan : Span
  nameKind : PropertyNameKind
  stringNameValue : Option Utf16String
  optional : Bool
  definite : Bool

/-- The name is a constructor's, spelled as a string. -/
def MemberHead.quotedConstructorName (head : MemberHead) : Bool :=
  head.accessor.isNone && head.generatorSpan.isNone &&
    head.stringNameValue.any fun value => value.units == encodeUtf16 "constructor"

def parseMemberAccessor (generator : Bool) : Parse scanned (Option AccessorKind) := do
  if !generator && (← look (·.classMemberStartsAccessor)) then
    if ← eat .get then
      return some .get
    else if ← eat .set then
      return some .set
    else
      return none
  else
    return none

def parseMemberHead : Parse scanned MemberHead := do
  let generatorSpan ← bumpAt .star
  let accessor ← parseMemberAccessor generatorSpan.isSome
  let (name, nameSpan, nameKind) ← parsePropertyName
  let cooked ← look (·.cookedStringLiteral ⟨.stringLiteral, nameSpan⟩)
  let stringNameValue := if nameKind = .stringLiteral then cooked else none
  let optional ← eat .question
  let definite ← eat .bang
  return ⟨generatorSpan, accessor, name, nameSpan, nameKind, stringNameValue, optional, definite⟩

def noteComputedMember (head : MemberHead) (memberSpan : Span) : Note scanned Unit := do
  if head.nameKind = .computed then
    noteRecovery .computedPropertyName head.nameSpan memberSpan

/-- A method, an accessor or a constructor with a quoted name. -/
def parseMethodMember (start : MemberStart) (head : MemberHead) (previous : Ledger)
    (typeParameters : List TypeParameterDeclaration) : Parse scanned ClassMember := do
  let quotedConstructor := head.quotedConstructorName && typeParameters.isEmpty &&
    !head.optional && !head.definite
  let parameters ←
    if head.accessor.isSome then parseAccessorParameters else parseSignatureParameters
  let returnType ← parseTypeAnnotation
  let hasBody ← look (·.atKind .leftBrace)
  let bodyExtent ← look fun p => p.balancedRecoveryBraceExtent p.index
  let generatorBody := head.generatorSpan.bind fun generator =>
    bodyExtent.map fun extent => (generator, generator.merge extent.span)
  match generatorBody with
  | some (generator, extent) => retainParserRecovery .generatorFunctionLike generator extent
  | none => pure ()
  let (body, bodySpan) ← parseMemberBody hasBody
  note (leaveMember previous)
  let supported ← note (memberSupported start)
  let constructorSupported := quotedConstructor && returnType.isNone && supported
  let methodSupported := head.generatorSpan.isNone && !head.optional && !head.definite && supported
  let kind : ClassMemberKind :=
    if quotedConstructor then
      .constructor typeParameters parameters returnType body hasBody bodySpan
    else .method typeParameters parameters returnType body hasBody bodySpan head.accessor
  let span := start.span.merge (← look (·.previous.span))
  let member : ClassMember :=
    { id := ← allocNode
      name := head.name
      nameSpan := head.nameSpan
      nameKind := head.nameKind
      stringNameValue := head.stringNameValue
      span
      hasLeadingJsdoc := start.hasLeadingJsdoc
      modifiers := start.modifiers
      overloadCompletionSupported :=
        if quotedConstructor then
          constructorSupported && !start.modifiers.unsupportedForOverloadCompletion
        else head.nameKind == .identifier && methodSupported
      emitProductsSupported :=
        if quotedConstructor then
          constructorSupported && start.modifiers.constructorModifiersAreModeled
        else
          start.modifiers.methodModifiersAreModeled && head.nameKind != .unsupported &&
            methodSupported
      kind }
  match head.generatorSpan, generatorBody with
  | some generator, none => retainParserRecovery .generatorFunctionLike generator span
  | _, _ => pure ()
  note (noteComputedMember head span)
  return member

def recoverDefinitePropertyCall : Parse scanned ClassMemberListRecovery := do
  if !(← look (·.atKind .leftParen)) then
    return .continue
  else
    errorCurrent "Cannot start a function call in a type annotation." 1441
    let _ ← bump
    if ← look (·.atKind .rightParen) then
      errorClassMemberListToken
      let _ ← bump
    if ← look (·.atKind .leftBrace) then
      errorClassMemberListToken
      amend fun l =>
        { l with
          pendingStrayStatementClosesAfterBlock := l.pendingStrayStatementClosesAfterBlock + 1 }
      return .abortBeforeStatement
    else
      return .continue

def parsePropertyMember (start : MemberStart) (head : MemberHead) (previous : Ledger) :
    Parse scanned (ClassMember × ClassMemberListRecovery) := do
  let annotation ← parseTypeAnnotation
  let initializer : Option Expression ← eatThen .equals (Parse.call .assignmentExpression)
  let _ ← eat .semicolon
  let supported ← note (memberSupported start)
  let recovery ←
    if head.quotedConstructorName && head.definite then
      recoverDefinitePropertyCall
    else
      pure .continue
  note (leaveMember previous)
  let span := start.span.merge (← look (·.previous.span))
  let member : ClassMember :=
    { id := ← allocNode
      name := head.name
      nameSpan := head.nameSpan
      nameKind := head.nameKind
      stringNameValue := head.stringNameValue
      span
      hasLeadingJsdoc := start.hasLeadingJsdoc
      modifiers := start.modifiers
      overloadCompletionSupported :=
        head.nameKind == .identifier && head.generatorSpan.isNone && supported
      emitProductsSupported :=
        start.modifiers.propertyModifiersAreModeled && head.nameKind != .unsupported &&
          head.generatorSpan.isNone && supported
      kind := .property annotation initializer head.optional head.definite }
  match head.generatorSpan with
  | some generator => retainParserRecovery .generatorFunctionLike generator span
  | none => pure ()
  note (noteComputedMember head span)
  return (member, recovery)

def parseNamedMember (start : MemberStart) :
    Parse scanned (ClassMember × ClassMemberListRecovery) := do
  let head ← parseMemberHead
  let previous ← look (·.toLedger)
  note (enterMember head.generatorSpan.isSome)
  let typeParameters ← parseTypeParameters
  if head.accessor.isSome && !typeParameters.isEmpty then
    recordContextualGrammar head.nameSpan .accessorTypeParameters
  amend fun l =>
    { l with
      inAwaitContext := start.modifiers.asyncMember
      awaitBindingReserved := start.modifiers.asyncMember }
  if (← look (·.atKind .leftParen)) && !(head.quotedConstructorName && head.definite) ||
      head.accessor.isSome then
    return (← parseMethodMember start head previous typeParameters, .continue)
  else
    parsePropertyMember start head previous

def parseClassMember : Parse scanned (ClassMember × ClassMemberListRecovery) := do
  let diagnosticCount ← look (·.diagnostics.length)
  let span ← look (·.current.span)
  let hasLeadingJsdoc ← look (·.currentHasLeadingJsdoc)
  let modifiers : ClassMemberModifiers ← Parse.call (.classMemberModifiers {})
  let start : MemberStart := ⟨span, diagnosticCount, hasLeadingJsdoc, modifiers⟩
  if ← look (·.atKind .constructor) then
    return (← parseConstructorMember start, .continue)
  else
    parseNamedMember start

/-- Whether `yield` is reserved in what follows. -/
def reserveYield (reserved : Bool) : Note scanned Unit :=
  amend fun l =>
    { l with
      yieldBindingReserved := reserved
      classYieldBindingReserved := reserved }

/-- The members of a class with its empty elements, and whether a member ended the list. -/
def classMembers (members : List ClassMember) (emptyElements : List Span) :
    Parse scanned (List ClassMember × List Span × Bool) := do
  if ← look (·.atAny [.rightBrace, .endOfFile]) then
    return (members, emptyElements, false)
  else
    match ← bumpAt .semicolon with
    | some element => Parse.call (.classMembers members (emptyElements ++ [element]))
    | none =>
      let before ← look (·.index)
      let decoratorRecovery ← look (·.atKind .at)
      if decoratorRecovery then
        insertSourceSyntaxFact .decoratorRecovery
      note (reserveYield !decoratorRecovery)
      let (member, recovery) ← parseClassMember
      note (reserveYield true)
      let members := members ++ [member]
      if recovery.abortsList then
        return (members, emptyElements, true)
      else
        bumpUnlessMoved before
        Parse.call (.classMembers members emptyElements)

def parseClassName (defaultExport : Bool) : Parse scanned (String × Span) := do
  let implementsClause :=
    (← look (·.atKind .implements)) && (← look (·.peekKind 1)).isIdentifierName
  if defaultExport && (!(← look (·.kind.isIdentifier)) || implementsClause) then
    note omittedName
  else
    parseName

def promoteClassRecovery (factStart : Nat) (extent : Option (BraceExtent source)) :
    Note scanned Unit := do
  match extent with
  | none => return ()
  | some extent =>
    if (← look (·.previous.span.stop)) < extent.span.stop then
      promoteParserRecoveryExtent factStart extent.span

def parseClass (modifiers : Modifiers) : Parse scanned ClassDeclaration := do
  let diagnosticCount ← look (·.diagnostics.length)
  let recoveryFactStart ← look (·.parserRecoveryFacts.length)
  let previous ← look (·.toLedger)
  note (reserveYield true)
  let _ ← expect .class "'class' expected." 1005
  let (name, nameSpan) ← parseClassName modifiers.defaultExport
  note (reserveYield !previous.inYieldContext)
  let typeParameters ← parseTypeParameters
  let extendsType : Option TypeNode ← eatThen .extends (Parse.call .type)
  let implementsTypes ← eatThen .implements parseTypeList
  note (reserveYield true)
  let openingBrace ← look (·.current)
  let authoredBodyExtent ← look fun p => p.balancedRecoveryBraceExtent p.index
  let _ ← expect .leftBrace "'\x7b' expected." 1005
  let result : List ClassMember × List Span × Bool ← Parse.call (.classMembers [] [])
  let (members, emptyElements, memberListAborted) := result
  let closingBrace ← look (·.current)
  if !memberListAborted then
    let _ ← expect .rightBrace "'\x7d' expected." 1005
  amend fun l =>
    { l with
      yieldBindingReserved := previous.yieldBindingReserved
      classYieldBindingReserved := previous.classYieldBindingReserved }
  note (promoteClassRecovery recoveryFactStart authoredBodyExtent)
  let closed := openingBrace.kind == .leftBrace && !memberListAborted &&
    closingBrace.kind == .rightBrace
  let memberSyntaxRecoveryFree := (← look (·.diagnostics.length)) == diagnosticCount
  return {
    name
    nameSpan
    typeParameters
    extendsType
    implementsTypes := implementsTypes.getD []
    members
    emptyElements
    bodySpan := if closed then some (openingBrace.span.merge closingBrace.span) else none
    exported := modifiers.exported
    defaultExport := modifiers.defaultExport
    declared := modifiers.declared
    abstractClass := modifiers.abstractDeclaration
    memberSyntaxRecoveryFree }

/-! ## Control statements -/

def parseIfStatement : Parse scanned StatementKind := do
  let _ ← bump
  let _ ← expect .leftParen "'(' expected." 1005
  let condition ← parseExpression
  let _ ← expect .rightParen "')' expected." 1005
  let thenStatement ← parseStatement
  let elseStatement ← eatThen .else parseStatement
  return .if condition thenStatement elseStatement

def parseSwitchLabel : Parse scanned (Option SwitchClauseKind) := do
  if ← eat .case then
    let expression ← parseExpression
    let _ ← expect .colon "':' expected." 1005
    return some (.case expression)
  else if ← eat .default then
    let _ ← expect .colon "':' expected." 1005
    return some .default
  else
    errorCurrent "'case' or 'default' expected." 1130
    let _ ← bump
    return none

def switchClauses (clauses : List SwitchClause) : Parse scanned (List SwitchClause) := do
  if ← look (·.atAny [.rightBrace, .endOfFile]) then
    return clauses
  else
    let start ← look (·.current.span)
    match ← parseSwitchLabel with
    | none => Parse.call (.switchClauses clauses)
    | some kind =>
      let statements : List Statement ← Parse.call (.clauseStatements [])
      let previous ← look (·.previous.span)
      let stop := (statements.getLast?.map (·.span)).getD previous
      Parse.call (.switchClauses (clauses ++ [⟨start.merge stop, kind, statements⟩]))

def parseSwitchStatement : Parse scanned StatementKind := do
  let _ ← bump
  let _ ← expect .leftParen "'(' expected." 1005
  let expression ← parseExpression
  let closed ← expect .rightParen "')' expected." 1005
  let _ ← expect .leftBrace "'\x7b' expected." 1005
  let clauses : List SwitchClause ← Parse.call (.switchClauses [])
  let _ ← expect .rightBrace "'\x7d' expected." 1005
  return .switch expression clauses !closed

def parseJumpStatement : Parse scanned JumpStatement := do
  let _ ← bump
  let sameLine ← look fun p => p.tokensAreOnSameLine (p.index - 1) p.index
  let label ←
    if sameLine && (← look (·.kind.isIdentifier)) then do
      let (label, span) ← parseName
      pure (some (label, span))
    else
      pure none
  if sameLine && (← look fun p => p.tokensAreOnSameLine (p.index - 1) p.index) then
    observeUnmodeledTemplateIfCurrent
  let _ ← eat .semicolon
  return ⟨label.map (·.1), label.map (·.2)⟩

def parseReturnStatement : Parse scanned StatementKind := do
  let _ ← bump
  let ends ← look (·.atAny [.semicolon, .rightBrace, .endOfFile])
  let sameLine ← look fun p => p.tokensAreOnSameLine (p.index - 1) p.index
  let expression ←
    if ends || !sameLine then
      pure none
    else do
      let expression ← parseExpression
      pure (some expression)
  let _ ← eat .semicolon
  return .return expression

/-- The declaration of a `for` header; only its names are kept. -/
def parseForDeclaration : Parse scanned (List Statement) := do
  if ← look (·.atAny [.let, .const, .var]) then
    let keyword ← bump
    let bindingStart ← look (·.current.span)
    let recoveredBindingNames ← look fun p => p.recoveredBindingNamesInTarget p.index
    let (name, nameSpan) ← parseRecoveredBindingHead
    let span := keyword.span.merge nameSpan
    let declarator : VariableDeclarator := ⟨name, nameSpan, recoveredBindingNames, none, none⟩
    let declaration : VariableStatement :=
      ⟨variableKind keyword.kind, [declarator], false, false, false⟩
    let statement : Statement := ⟨← allocNode, span, .variable declaration⟩
    noteRecovery .forStatement bindingStart span
    return [statement]
  else
    return []

def parseForHeader : Parse scanned (List Statement) := do
  if ← look (·.atKind .leftParen) then
    let _ ← bump
    let statements ← parseForDeclaration
    let depth : Nat ← Parse.call (.balancedTokens .leftParen .rightParen 1)
    if depth ≠ 0 then
      errorCurrent "')' expected." 1005
    return statements
  else
    errorCurrent "'(' expected." 1005
    return []

def parseForBody : Parse scanned (List Statement) := do
  if ← look (·.atKind .leftBrace) then
    return (← parseBlock).1
  else if ← look (·.atKind .endOfFile) then
    return []
  else
    return [← parseStatement]

def parseUnmodeledForStatement : Parse scanned (List Statement) := do
  let authoredSpan := (← bump).span
  let _ ← eat .await
  let statements ← parseForHeader
  let body ← parseForBody
  let recoveryExtent := authoredSpan.merge (← look (·.previous.span))
  noteRecovery .forStatement authoredSpan recoveryExtent
  return statements ++ body

def parseExpressionStatement : Parse scanned StatementKind := do
  let expression ← parseExpression
  if !(← finishNumericRecoveryExpressionStatement expression) then
    finishExpressionStatement
  return .expression expression

/-! ## Statements -/

def recoverStrayStatement : Parse scanned Bool := do
  if ← eat .invalidCharacter then
    return true
  else if (← look (·.pendingStrayStatementCloses)) = 0 ∨ !(← look (·.atKind .rightBrace)) then
    return false
  else
    amend fun l => { l with pendingStrayStatementCloses := l.pendingStrayStatementCloses - 1 }
    errorCurrent "Declaration or statement expected." 1128
    let _ ← bump
    return true

def parseStrayToken : Parse scanned StatementKind := do
  errorCurrent "Declaration or statement expected." 1128
  let _ ← bump
  return .unknown

/-- What is left when no keyword starts the statement. -/
def parsePlainStatement (start : Nat) (modifiers : Modifiers) : Parse scanned StatementKind := do
  if ← recoverStrayStatement then
    return .unknown
  else if ← eat .semicolon then
    return .empty
  else if modifiers.exported || modifiers.declared || modifiers.isAsync then
    note (errorModifiedDeclaration start)
    let _ : Unit ← Parse.call (.recoverStatement none)
    return .unknown
  else
    parseExpressionStatement

def parseStatementKind (start : Nat) (modifiers : Modifiers) (hasLeadingJsdoc : Bool) :
    Parse scanned StatementKind := do
  match ← look (·.kind) with
  | .let | .const | .var => return .variable (← parseVariable modifiers hasLeadingJsdoc)
  | .function => return .function (← parseFunction modifiers hasLeadingJsdoc)
  | .class => return .class (← parseClass modifiers)
  | .type =>
    if ← look (·.startsTypeAliasDeclaration) then
      return .typeAlias (← parseTypeAlias modifiers.exported)
    else
      parsePlainStatement start modifiers
  | .interface => return .interface (← parseInterface modifiers.exported)
  | .if => parseIfStatement
  | .switch => parseSwitchStatement
  | .for =>
    if ← look (·.startsUnmodeledForBindingPattern) then
      return .block (← parseUnmodeledForStatement)
    else
      parsePlainStatement start modifiers
  | .break => return .break (← parseJumpStatement)
  | .continue => return .continue (← parseJumpStatement)
  | .fatArrow =>
    if ← look (·.currentIsInsideRejectedGenericArrowPrefix) then
      parseStrayToken
    else
      parsePlainStatement start modifiers
  | .return => parseReturnStatement
  | .leftBrace => return .block (← parseBlock).1
  | .dot => parseStrayToken
  | _ => parsePlainStatement start modifiers

def statementFromKind (start : Nat) (kind : StatementKind) : Note scanned Statement := do
  let id ← allocNode
  let stop ← look (·.previousEnd)
  return ⟨id, ⟨source.id, start, max stop start⟩, kind⟩

def parseModifiedStatement (start : Nat) : Parse scanned StatementKind := do
  let hasLeadingJsdoc ← look (·.currentHasLeadingJsdoc)
  let modifiers ← parseModifiers start
  note (observeStatementModifiers modifiers)
  match ← parseOpaqueHost start modifiers with
  | some kind => return kind
  | none => parseStatementKind start modifiers hasLeadingJsdoc

def parseStatementAtCurrentDepth : Parse scanned Statement := do
  let start ← look (·.current.span.start)
  observeRegularExpressionInUnsupportedStatement
  if ← look (·.startsImportDeclaration) then
    let declaration ← parseImportDeclaration
    note (statementFromKind start (.import declaration))
  else if ← look (·.startsExportDeclaration) then
    let declaration ← parseExportDeclaration
    note (statementFromKind start (.export declaration))
  else
    let kind ← parseModifiedStatement start
    note (statementFromKind start kind)

end Tsz.Syntax
