import Tsz.Syntax.Ast

/-!
# Source units

A parsed file with the facts the parser records next to its tree: recovery facts, declaration
hosts the tree does not model, and authored literal facts.
-/

namespace Tsz.Syntax

/-- The smallest statement and the root statement that own a recovered stretch of source. -/
structure ParserRecoveryOwner where
  rootStatement : NodeId
  statement : NodeId
deriving DecidableEq, Repr

inductive ParserRecoveryKind
  | declaration | generatorFunctionLike | expression | missingExpression | objectMember
  | forStatement | computedPropertyName | classMember | classExpression | angleAssertion
  | rejectedGenericArrowPrefix | conditionalExpression | type | missingType | template
deriving DecidableEq, Repr

structure ParserRecoveryFact where
  authoredSpan : Span
  recoveryExtent : Span
  kind : ParserRecoveryKind
  owner : ParserRecoveryOwner
deriving DecidableEq, Repr

inductive AuthoredLiteralKind
  | regularExpression | numericRecovery | numericSeparator
deriving DecidableEq, Repr

structure AuthoredLiteralFact where
  span : Span
  recoveryExtent : Span
  kind : AuthoredLiteralKind
  owner : ParserRecoveryOwner
deriving DecidableEq, Repr

/-- Whether recovery of a declaration host kept its body as ordinary statements. -/
inductive DeclarationHostBodyRepresentation
  | omitted | parsedStatements
deriving DecidableEq, Repr

inductive UnmodeledDeclarationHostKind
  | enum | namespace | module | externalModule | global | using
deriving DecidableEq, Repr

structure UnmodeledDeclarationHostFact where
  ownerStart : Nat
  recoveryExtent : Span
  name : Option String
  nameSpan : Option Span
  kind : UnmodeledDeclarationHostKind
  body : DeclarationHostBodyRepresentation
  declared : Bool
  exported : Bool
deriving DecidableEq, Repr

inductive ContextualGrammarKind
  | accessorTypeParameters | accessorThisParameter | awaitBinding | strictYieldBinding
  | classStrictYieldBinding
deriving DecidableEq, Repr

structure ContextualGrammarFact where
  span : Span
  kind : ContextualGrammarKind
deriving DecidableEq, Repr

structure SourceUnit where
  statements : List Statement
  span : Span
  identifierTokenSpans : List Span
  authoredLiteralFacts : List AuthoredLiteralFact
  parserRecoveryFacts : List ParserRecoveryFact
  unmodeledDeclarationHosts : List UnmodeledDeclarationHostFact
  contextualGrammarFacts : List ContextualGrammarFact

/-! ## Accessors of literals and expressions -/

namespace NumberLiteral

def raw : NumberLiteral → String
  | .plain raw => raw
  | .separated literal => literal.raw
  | .recovery literal => literal.raw

/-- A valid spelling with the same numeric value as the recovered token. -/
def semanticText : NumberLiteral → String
  | .plain raw => raw
  | .separated literal => literal.raw
  | .recovery literal => literal.semanticText

def validationSupported : NumberLiteral → Bool
  | .plain _ | .separated _ => true
  | .recovery literal => literal.validationSupported

end NumberLiteral

def Expression.peelParentheses : Expression → Expression
  | ⟨_, _, .parenthesized inner⟩ => inner.peelParentheses
  | expression => expression

def FunctionLikeSyntax.isFunction : FunctionLikeSyntax → Bool
  | .function _ _ _ => true
  | .arrowExpression _ | .arrowBlock _ => false

/-! ## UTF-16 -/

/-- The UTF-16 code units of a string. -/
def encodeUtf16 (text : String) : List UInt16 :=
  text.toList.flatMap fun c =>
    if c.toNat < 0x10000 then [c.toNat.toUInt16]
    else
      let rest := c.toNat - 0x10000
      [(0xD800 + rest / 0x400).toUInt16, (0xDC00 + rest % 0x400).toUInt16]

/-- Decoding with every unpaired surrogate replaced by U+FFFD. -/
def decodeUtf16Lossy : List UInt16 → List Char
  | [] => []
  | [u] => [if 0xD800 ≤ u.toNat ∧ u.toNat < 0xE000 then Char.ofNat 0xFFFD else Char.ofNat u.toNat]
  | u :: v :: rest =>
    if 0xD800 ≤ u.toNat ∧ u.toNat < 0xDC00 then
      if 0xDC00 ≤ v.toNat ∧ v.toNat < 0xE000 then
        Char.ofNat (0x10000 + (u.toNat - 0xD800) * 0x400 + (v.toNat - 0xDC00)) ::
          decodeUtf16Lossy rest
      else Char.ofNat 0xFFFD :: decodeUtf16Lossy (v :: rest)
    else if 0xDC00 ≤ u.toNat ∧ u.toNat < 0xE000 then
      Char.ofNat 0xFFFD :: decodeUtf16Lossy (v :: rest)
    else Char.ofNat u.toNat :: decodeUtf16Lossy (v :: rest)

def fromUtf16Lossy (units : List UInt16) : String :=
  String.ofList (decodeUtf16Lossy units)

/-- The JavaScript display text of a numeric literal, `none` when the spelling is not a number.
The source computes it in 64-bit floating point; every result here holds for any such function. -/
class NumberFormat where
  display : String → Option String

end Tsz.Syntax
