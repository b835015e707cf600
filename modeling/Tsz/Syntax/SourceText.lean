import Tsz.Syntax.SourceUnit

/-!
# Source texts and what the scanner hands to the parser

Spans count UTF-8 bytes, so slicing a text walks its characters by their width.
-/

namespace Tsz.Syntax

/-- A source file. `extension` is the extension of its path, if the path has one. -/
structure SourceText where
  id : FileId
  extension : Option String
  text : List Char

/-- The bytes a list of characters takes in UTF-8. -/
def utf8Length : List Char → Nat
  | [] => 0
  | c :: cs => c.utf8Size + utf8Length cs

/-- The characters from a byte offset on, `none` inside of a character or past the end. -/
def dropBytes : Nat → List Char → Option (List Char)
  | 0, cs => some cs
  | _ + 1, [] => none
  | n + 1, c :: cs => if c.utf8Size ≤ n + 1 then dropBytes (n + 1 - c.utf8Size) cs else none

def takeBytes : Nat → List Char → Option (List Char)
  | 0, _ => some []
  | _ + 1, [] => none
  | n + 1, c :: cs =>
    if c.utf8Size ≤ n + 1 then (takeBytes (n + 1 - c.utf8Size) cs).map (c :: ·) else none

def isLineBreak (c : Char) : Bool :=
  c == '\n' || c == '\r' || c == '\u2028' || c == '\u2029'

/-- The line breaks among the characters that end at or before a byte offset; a carriage return
before a line feed is none of its own. -/
def lineBreaksBefore : Nat → List Char → Nat
  | _, [] => 0
  | n, c :: cs =>
    if n < c.utf8Size then 0
    else
      let breaks := isLineBreak c && !(c == '\r' && cs.head? == some '\n')
      (if breaks then 1 else 0) + lineBreaksBefore (n - c.utf8Size) cs

def toAsciiLowercase (text : String) : String := text.map Char.toLower

namespace SourceText

variable (source : SourceText)

def kind : SourceKind :=
  match source.extension.map toAsciiLowercase with
  | some "js" | some "mjs" | some "cjs" => .javaScript
  | some "jsx" => .javaScriptJsx
  | some "tsx" => .typeScriptJsx
  | _ => .typeScript

def length : Nat := utf8Length source.text

def sliceChars (span : Span) : List Char :=
  match dropBytes span.start source.text with
  | some rest => (takeBytes (span.stop - span.start) rest).getD []
  | none => []

/-- The text of a span, empty when the span is not one of the text. -/
def slice (span : Span) : String := String.ofList (source.sliceChars span)

/-- The line of a byte offset, from 1 on, if the offset is one of the text. -/
def line (offset : Nat) : Option Nat :=
  (dropBytes offset source.text).map fun _ => lineBreaksBefore offset source.text + 1

/-- The token behind the last token of a file. -/
def endToken : Token where
  kind := .endOfFile
  span := ⟨source.id, source.length, source.length⟩

end SourceText

/-- A located error of the parser. Its public position in UTF-16 units is computed from `span`
when it is reported. -/
structure Diagnostic where
  span : Span
  message : String
  code : Nat
deriving DecidableEq, Repr

/-- The value of an identifier that is spelled with escapes. -/
structure ScannedIdentifierValue where
  span : Span
  cooked : String

structure ScannedStringLiteral where
  span : Span
  literal : ExtendedUnicodeStringLiteral

structure ScannedCookedStringLiteral where
  span : Span
  cooked : Utf16String

structure ScannedRegularExpressionLiteral where
  span : Span
  literal : RegularExpressionLiteral

structure ScannedNumericLiteral where
  span : Span
  literal : NumericRecoveryLiteral

structure ScannedSeparatedNumberLiteral where
  span : Span
  literal : SeparatedNumberLiteral

structure CommentTrivia where
  span : Span
  jsdoc : Bool

/-- The output of the scanner. `body` is every token but the last one, which is `endToken`. -/
structure ScanOutput (source : SourceText) where
  body : List Token
  diagnostics : List Diagnostic := []
  identifierValues : List ScannedIdentifierValue := []
  stringLiterals : List ScannedStringLiteral := []
  cookedStringLiterals : List ScannedCookedStringLiteral := []
  numericLiterals : List ScannedNumericLiteral := []
  separatedNumericLiterals : List ScannedSeparatedNumberLiteral := []
  unterminatedTemplateSpans : List Span := []
  numericSeparatorSpans : List Span := []
  hasUnmodeledNumericSeparator : Bool := false
  regularExpressionLiterals : List ScannedRegularExpressionLiteral := []
  comments : List CommentTrivia := []
  body_kind : ∀ t ∈ body, t.kind ≠ .endOfFile
  body_stop : ∀ t ∈ body, t.span.stop ≤ source.length

def ScanOutput.tokens {source : SourceText} (scanned : ScanOutput source) : List Token :=
  scanned.body ++ [source.endToken]

/-- The scanned value at a span. The scanner emits its values in source order, at most one for
each start. -/
def scanAt {α : Type} (values : List α) (span : Span) (spanOf : α → Span) : Option α :=
  match values.find? fun value => (spanOf value).start == span.start with
  | some value => if spanOf value = span then some value else none
  | none => none

end Tsz.Syntax
