import Tsz.Source

/-!
# Tokens

The token kinds of the scanner. Contextual keywords keep their own kind and remain usable as
identifiers.
-/

namespace Tsz.Syntax

inductive TokenKind
  | endOfFile | invalidCharacter | identifier | privateIdentifier | numericLiteral
  | bigIntLiteral | stringLiteral | regularExpressionLiteral | noSubstitutionTemplateLiteral
  | templateHead | templateMiddle | templateTail | abstract | accessor | let | const | var
  | await | break | case | catch | «class» | continue | debugger | defer | delete | do | else
  | enum | extends | finally | for | function | if | import | implements | in | instanceOf | new
  | return | super | switch | this | throw | try | typeOf | while | with | yield | type
  | interface | export | default | declare | async | assert | asserts | constructor | from | get
  | global | infer | intrinsic | is | module | namespace | object | of | out | override | package
  | «private» | «protected» | «public» | readonly | require | satisfies | set | static | symbol
  | unique | using | true | false | null | undefined | any | unknown | never | void | boolean
  | number | string | bigInt | keyOf | as | leftBrace | rightBrace | leftParen | rightParen
  | leftBracket | rightBracket | colon | semicolon | comma | dot | dotDotDot | question
  | questionDot | questionQuestion | equals | fatArrow | plus | plusPlus | plusEquals | minus
  | minusMinus | minusEquals | star | starStar | starEquals | starStarEquals | slash
  | slashEquals | percent | percentEquals | bar | barBar | barEquals | barBarEquals | ampersand
  | ampersandAmpersand | ampersandEquals | ampersandAmpersandEquals | caret | caretEquals
  | lessThan | lessThanSlash | lessThanEquals | lessThanLessThan | lessThanLessThanEquals
  | greaterThan | greaterThanEquals | greaterThanGreaterThan | greaterThanGreaterThanEquals
  | greaterThanGreaterThanGreaterThan | greaterThanGreaterThanGreaterThanEquals | bang
  | bangEquals | bangEqualsEquals | equalsEquals | equalsEqualsEquals | questionQuestionEquals
  | tilde | at | hash
deriving DecidableEq, Repr

namespace TokenKind

/-- The reserved and contextual words of the scanner, with their spelling. -/
def fromKeyword : String → TokenKind
  | "abstract" => .abstract
  | "accessor" => .accessor
  | "let" => .let
  | "const" => .const
  | "var" => .var
  | "await" => .await
  | "break" => .break
  | "case" => .case
  | "catch" => .catch
  | "class" => .class
  | "continue" => .continue
  | "debugger" => .debugger
  | "defer" => .defer
  | "delete" => .delete
  | "do" => .do
  | "else" => .else
  | "enum" => .enum
  | "extends" => .extends
  | "finally" => .finally
  | "for" => .for
  | "function" => .function
  | "if" => .if
  | "import" => .import
  | "implements" => .implements
  | "in" => .in
  | "instanceof" => .instanceOf
  | "new" => .new
  | "return" => .return
  | "super" => .super
  | "switch" => .switch
  | "this" => .this
  | "throw" => .throw
  | "try" => .try
  | "typeof" => .typeOf
  | "while" => .while
  | "with" => .with
  | "yield" => .yield
  | "type" => .type
  | "interface" => .interface
  | "export" => .export
  | "default" => .default
  | "declare" => .declare
  | "async" => .async
  | "assert" => .assert
  | "asserts" => .asserts
  | "constructor" => .constructor
  | "from" => .from
  | "get" => .get
  | "global" => .global
  | "infer" => .infer
  | "intrinsic" => .intrinsic
  | "is" => .is
  | "module" => .module
  | "namespace" => .namespace
  | "object" => .object
  | "of" => .of
  | "out" => .out
  | "override" => .override
  | "package" => .package
  | "private" => .private
  | "protected" => .protected
  | "public" => .public
  | "readonly" => .readonly
  | "require" => .require
  | "satisfies" => .satisfies
  | "set" => .set
  | "static" => .static
  | "symbol" => .symbol
  | "unique" => .unique
  | "using" => .using
  | "true" => .true
  | "false" => .false
  | "null" => .null
  | "undefined" => .undefined
  | "any" => .any
  | "unknown" => .unknown
  | "never" => .never
  | "void" => .void
  | "boolean" => .boolean
  | "number" => .number
  | "string" => .string
  | "bigint" => .bigInt
  | "keyof" => .keyOf
  | "as" => .as
  | _ => .identifier

/-- Whether the token can be represented as an identifier node. -/
def isIdentifier : TokenKind → Bool
  | .identifier | .invalidCharacter | .abstract | .accessor | .let | .await | .defer
  | .implements | .yield | .type | .interface | .declare | .async | .assert | .asserts
  | .constructor | .from | .get | .global | .infer | .intrinsic | .is | .module | .namespace
  | .object | .of | .out | .override | .package | .private | .protected | .public | .readonly
  | .require | .satisfies | .set | .static | .symbol | .unique | .using | .undefined | .any
  | .unknown | .never | .boolean | .number | .string | .bigInt | .keyOf | .as => Bool.true
  | _ => Bool.false

def isIdentifierName : TokenKind → Bool
  | .identifier | .invalidCharacter | .abstract | .accessor | .let | .const | .var | .await
  | .break | .case | .catch | .class | .continue | .debugger | .defer | .delete | .do | .else
  | .enum | .extends | .finally | .for | .function | .if | .import | .implements | .in
  | .instanceOf | .new | .return | .super | .switch | .this | .throw | .try | .typeOf
  | .while | .with | .yield | .type | .interface | .export | .default | .declare | .async
  | .assert | .asserts | .constructor | .from | .get | .global | .infer | .intrinsic | .is
  | .module | .namespace | .object | .of | .out | .override | .package | .private
  | .protected | .public | .readonly | .require | .satisfies | .set | .static | .symbol
  | .unique | .using | .true | .false | .null | .undefined | .any | .unknown | .never | .void
  | .boolean | .number | .string | .bigInt | .keyOf | .as => Bool.true
  | _ => Bool.false

theorem isIdentifierName_fromKeyword (text : String) :
    (fromKeyword text).isIdentifierName = Bool.true := by
  unfold fromKeyword
  split <;> rfl

theorem fromKeyword_ne_endOfFile (text : String) : fromKeyword text ≠ .endOfFile := by
  intro h
  have hname := isIdentifierName_fromKeyword text
  rw [h] at hname
  cases hname

end TokenKind

structure Token where
  kind : TokenKind
  span : Span
deriving DecidableEq, Repr

end Tsz.Syntax
