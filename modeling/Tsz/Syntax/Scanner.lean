import Mathlib.Tactic.SplitIfs
import Tsz.Syntax.Scanner.Literals

/-!
# The scanner

From the text of a source to its tokens and the values the parser looks up by span. Every step
takes one character and then as many more as the token has, so the scanner always comes to the
end of the text.
-/

namespace Tsz.Syntax

/-! ## Identifiers -/

/-- The character classes of the library the scanner corrects to its own Unicode version. -/
class UnicodeIdent where
  isXidStart : Char → Bool
  isXidContinue : Char → Bool

def startAdditions : List (Nat × Nat) :=
  [(0x37A, 0x37A), (0xE33, 0xE33), (0xEB3, 0xEB3), (0x309B, 0x309C), (0xFC5E, 0xFC63),
   (0xFDFA, 0xFDFB), (0xFE70, 0xFE70), (0xFE72, 0xFE72), (0xFE74, 0xFE74), (0xFE76, 0xFE76),
   (0xFE78, 0xFE78), (0xFE7A, 0xFE7A), (0xFE7C, 0xFE7C), (0xFE7E, 0xFE7E), (0xFF9E, 0xFF9F)]

def startExclusions : List (Nat × Nat) :=
  [(0x88F, 0x88F), (0xC5C, 0xC5C), (0xCDC, 0xCDC), (0x1C89, 0x1C8A), (0xA7CB, 0xA7CF),
   (0xA7D2, 0xA7D2), (0xA7D4, 0xA7D4), (0xA7DA, 0xA7DC), (0xA7F1, 0xA7F1), (0x105C0, 0x105F3),
   (0x10940, 0x10959), (0x10D4A, 0x10D65), (0x10D6F, 0x10D85), (0x10EC2, 0x10EC7),
   (0x11380, 0x11389), (0x1138B, 0x1138B), (0x1138E, 0x1138E), (0x11390, 0x113B5),
   (0x113B7, 0x113B7), (0x113D1, 0x113D1), (0x113D3, 0x113D3), (0x11BC0, 0x11BE0),
   (0x11DB0, 0x11DDB), (0x13460, 0x143FA), (0x16100, 0x1611D), (0x16D40, 0x16D6C),
   (0x16EA0, 0x16EB8), (0x16EBB, 0x16ED3), (0x16FF2, 0x16FF6), (0x187F8, 0x187FF),
   (0x18CFF, 0x18CFF), (0x18D09, 0x18D1E), (0x18D80, 0x18DF2), (0x1E5D0, 0x1E5ED),
   (0x1E5F0, 0x1E5F0), (0x1E6C0, 0x1E6DE), (0x1E6E0, 0x1E6E2), (0x1E6E4, 0x1E6E5),
   (0x1E6E7, 0x1E6ED), (0x1E6F0, 0x1E6F4), (0x1E6FE, 0x1E6FF), (0x2B73A, 0x2B73F),
   (0x2CEA2, 0x2CEAD), (0x323B0, 0x33479)]

def partAdditions : List (Nat × Nat) :=
  [(0x37A, 0x37A), (0x309B, 0x309C), (0xFC5E, 0xFC63), (0xFDFA, 0xFDFB), (0xFE70, 0xFE70),
   (0xFE72, 0xFE72), (0xFE74, 0xFE74), (0xFE76, 0xFE76), (0xFE78, 0xFE78), (0xFE7A, 0xFE7A),
   (0xFE7C, 0xFE7C), (0xFE7E, 0xFE7E)]

def partExclusions : List (Nat × Nat) :=
  [(0x88F, 0x88F), (0x897, 0x897), (0xC5C, 0xC5C), (0xCDC, 0xCDC), (0x1ACF, 0x1ADD),
   (0x1AE0, 0x1AEB), (0x1C89, 0x1C8A), (0xA7CB, 0xA7CF), (0xA7D2, 0xA7D2), (0xA7D4, 0xA7D4),
   (0xA7DA, 0xA7DC), (0xA7F1, 0xA7F1), (0x105C0, 0x105F3), (0x10940, 0x10959),
   (0x10D40, 0x10D65), (0x10D69, 0x10D6D), (0x10D6F, 0x10D85), (0x10EC2, 0x10EC7),
   (0x10EFA, 0x10EFC), (0x11380, 0x11389), (0x1138B, 0x1138B), (0x1138E, 0x1138E),
   (0x11390, 0x113B5), (0x113B7, 0x113C0), (0x113C2, 0x113C2), (0x113C5, 0x113C5),
   (0x113C7, 0x113CA), (0x113CC, 0x113D3), (0x113E1, 0x113E2), (0x116D0, 0x116E3),
   (0x11B60, 0x11B67), (0x11BC0, 0x11BE0), (0x11BF0, 0x11BF9), (0x11DB0, 0x11DDB),
   (0x11DE0, 0x11DE9), (0x11F5A, 0x11F5A), (0x13460, 0x143FA), (0x16100, 0x16139),
   (0x16D40, 0x16D6C), (0x16D70, 0x16D79), (0x16EA0, 0x16EB8), (0x16EBB, 0x16ED3),
   (0x16FF2, 0x16FF6), (0x187F8, 0x187FF), (0x18CFF, 0x18CFF), (0x18D09, 0x18D1E),
   (0x18D80, 0x18DF2), (0x1CCF0, 0x1CCF9), (0x1E5D0, 0x1E5FA), (0x1E6C0, 0x1E6DE),
   (0x1E6E0, 0x1E6F5), (0x1E6FE, 0x1E6FF), (0x2B73A, 0x2B73F), (0x2CEA2, 0x2CEAD),
   (0x323B0, 0x33479)]

def containsCode (ranges : List (Nat × Nat)) (c : Char) : Bool :=
  ranges.any fun range => range.1 ≤ c.toNat && c.toNat ≤ range.2

def isAscii (c : Char) : Bool := c.toNat < 0x80

section

variable [UnicodeIdent]

def isIdentifierStartCharacter (c : Char) : Bool :=
  if isAscii c then c.isAlpha || c == '_' || c == '$'
  else
    !containsCode startExclusions c &&
      (UnicodeIdent.isXidStart c || containsCode startAdditions c)

def isIdentifierPartCharacter (c : Char) : Bool :=
  if isAscii c then c.isAlphanum || c == '_' || c == '$'
  else
    !containsCode partExclusions c &&
      (UnicodeIdent.isXidContinue c || containsCode partAdditions c)

end

/-- The character of an escape `\u` at the start of the text, and the length of the escape. -/
def identifierEscapeAt (text : List Char) : Option (Char × Nat) :=
  match text with
  | '\\' :: 'u' :: _ =>
    match decodeAuthoredEscape 0 text with
    | (.codePoint value, length, _) => (charFromU32 value).map fun c => (c, length)
    | (.extendedUnicode digitsStart digitsEnd value true, length, _) =>
      if digitsStart < digitsEnd ∧ digitsEnd - digitsStart ≤ 6 then
        (charFromU32 value).map fun c => (c, length)
      else none
    | _ => none
  | _ => none

section

variable [UnicodeIdent]

def startsIdentifier (text : List Char) : Bool :=
  text.head?.any isIdentifierStartCharacter ||
    (identifierEscapeAt text).any fun escape => isIdentifierStartCharacter escape.1

/-- The length of what continues an identifier. Every step takes a character, so the length of the
text is fuel enough. -/
def identifierPartLength : Nat → List Char → Nat
  | 0, _ => 0
  | fuel + 1, text =>
    match identifierEscapeAt text with
    | some (c, length) =>
      if isIdentifierPartCharacter c then
        length + identifierPartLength fuel (text.drop length)
      else 0
    | none =>
      match text with
      | c :: rest => if isIdentifierPartCharacter c then 1 + identifierPartLength fuel rest else 0
      | [] => 0

/-- The length of the identifier at the start of the text. -/
def identifierLength (text : List Char) : Nat :=
  let first := ((identifierEscapeAt text).map (·.2)).getD 1
  first + identifierPartLength text.length (text.drop first)

end

def cookIdentifier : Nat → List Char → List Char
  | 0, _ => []
  | fuel + 1, text =>
    match identifierEscapeAt text with
    | some (c, length) => c :: cookIdentifier fuel (text.drop length)
    | none =>
      match text with
      | c :: rest => c :: cookIdentifier fuel rest
      | [] => []

/-! ## Scanner -/

def isSingleLineWhitespace (c : Char) : Bool :=
  [' ', '\t', '\x0b', '\x0c', '\u0085', '\u00a0', '\u1680', '\u202f', '\u205f', '\u3000',
    '\ufeff'].contains c || 0x2000 ≤ c.toNat && c.toNat ≤ 0x200b

/-- What is skipped between tokens. A vertical tab is not. -/
def isTriviaWhitespace (c : Char) : Bool :=
  if isAscii c then [' ', '\t', '\n', '\x0c', '\r'].contains c
  else isSingleLineWhitespace c || isLineBreak c

def tokenCanEndExpression (kind : TokenKind) : Bool :=
  kind.isIdentifier && ! [.await, .yield].contains kind ||
    [.privateIdentifier, .numericLiteral, .bigIntLiteral, .stringLiteral,
      .regularExpressionLiteral, .noSubstitutionTemplateLiteral, .templateTail, .rightBrace,
      .rightParen, .rightBracket, .plusPlus, .minusMinus, .this, .super, .true, .false,
      .null].contains kind

variable {source : SourceText}

structure Scanner (source : SourceText) where
  braceDepth : Nat := 0
  templateExpressionDepths : List Nat := []
  output : ScanOutput source

/-- The offset at which the rest of the text starts. -/
def SourceText.offsetOf (source : SourceText) (rest : List Char) : Nat :=
  source.length - utf8Length rest

theorem SourceText.offsetOf_le (source : SourceText) (rest : List Char) :
    source.offsetOf rest ≤ source.length := Nat.sub_le _ _

/-- The span between two rests of the text. -/
def SourceText.spanBetween (source : SourceText) (text rest : List Char) : Span :=
  ⟨source.id, source.offsetOf text, source.offsetOf rest⟩

/-- The literal between the slash that starts the text and the rest. -/
def SourceText.regularExpressionLiteral (source : SourceText) (text pattern flags rest : List Char)
    (terminated recoveryAtLineBreak : Bool) : ScannedRegularExpressionLiteral :=
  let span := source.spanBetween text rest
  let patternSpan : Span := ⟨source.id, source.offsetOf text.tail, source.offsetOf pattern⟩
  let flagsSpan := source.spanBetween flags rest
  ⟨span, source.slice span, source.slice patternSpan, source.slice flagsSpan, patternSpan,
    flagsSpan, terminated, recoveryAtLineBreak⟩

namespace Scanner

variable (s : Scanner source)

def diagnose (span : Span) (message : String) (code : Nat) : Scanner source :=
  { s with
    output :=
      { s.output with diagnostics := s.output.diagnostics ++ [⟨span, message, code⟩] } }

def comment (span : Span) (jsdoc : Bool) : Scanner source :=
  { s with output := { s.output with comments := s.output.comments ++ [⟨span, jsdoc⟩] } }

def previousToken : Option Token := s.output.body.getLast?

/-! ## Trivia -/

def skipLineBody (text : List Char) : List Char :=
  (text.drop 2).dropWhile fun c => !isLineBreak c

/-- The text behind the end of a block comment. -/
def afterBlockComment : List Char → Option (List Char)
  | '*' :: '/' :: rest => some rest
  | _ :: rest => afterBlockComment rest
  | [] => none

def blockComment (text : List Char) : Scanner source × List Char :=
  let body := text.drop 2
  let jsdoc := body.head? == some '*' && (body.drop 1).head? != some '/'
  match afterBlockComment body with
  | some rest => (s.comment (source.spanBetween text rest) jsdoc, rest)
  | none =>
    let span := source.spanBetween text []
    ((s.diagnose span "'*/' expected." 1010).comment span jsdoc, [])

/-- Whitespace and comments. Every step but the last takes two characters, so the length of the
text is fuel enough. -/
def skipTrivia : Nat → Scanner source → List Char → Scanner source × List Char
  | 0, s, text => (s, text)
  | fuel + 1, s, text =>
    if source.offsetOf text = 0 ∧ text.take 2 = ['#', '!'] then
      skipTrivia fuel s (skipLineBody text)
    else
      let text := text.dropWhile isTriviaWhitespace
      if text.take 2 = ['/', '/'] then
        let rest := skipLineBody text
        skipTrivia fuel (s.comment (source.spanBetween text rest) false) rest
      else if text.take 2 = ['/', '*'] then
        let (s, rest) := s.blockComment text
        skipTrivia fuel s rest
      else (s, text)

theorem length_skipLineBody_le (text : List Char) :
    (skipLineBody text).length ≤ text.length :=
  Nat.le_trans (List.dropWhile_suffix _).length_le (List.drop_suffix _ _).length_le

theorem length_afterBlockComment_le {text rest : List Char}
    (h : afterBlockComment text = some rest) : rest.length ≤ text.length := by
  fun_induction afterBlockComment text <;> grind

theorem length_blockComment_le (text : List Char) :
    (s.blockComment text).2.length ≤ text.length := by
  unfold blockComment
  dsimp only
  cases h : afterBlockComment (text.drop 2) with
  | none => exact Nat.zero_le _
  | some rest =>
    exact Nat.le_trans (length_afterBlockComment_le h) (List.drop_suffix _ _).length_le

theorem length_skipTrivia_le (fuel : Nat) (s : Scanner source) (text : List Char) :
    (skipTrivia fuel s text).2.length ≤ text.length := by
  induction fuel generalizing s text with
  | zero => exact Nat.le_refl _
  | succ fuel ih =>
    have hdrop : (text.dropWhile isTriviaWhitespace).length ≤ text.length :=
      (List.dropWhile_suffix _).length_le
    rw [skipTrivia]
    dsimp only
    split_ifs
    · exact Nat.le_trans (ih _ _) (length_skipLineBody_le text)
    · exact Nat.le_trans (ih _ _) (Nat.le_trans (length_skipLineBody_le _) hdrop)
    · exact Nat.le_trans (ih _ _) (Nat.le_trans (length_blockComment_le _ _) hdrop)
    · exact hdrop

/-! ## Tokens -/

/-- A token kind with the number of characters behind the first one of the token. -/
structure ScannedToken (source : SourceText) where
  kind : TokenKind
  length : Nat
  scanner : Scanner source

/-- An identifier behind a number with separators that has been recovered is an error. -/
def diagnoseIdentifierAfterNumber (span : Span) : Scanner source :=
  let follows := s.previousToken.any fun previous =>
    [.numericLiteral, .bigIntLiteral].contains previous.kind &&
      previous.span.stop == span.start &&
      (source.sliceChars previous.span).contains '_' &&
      s.output.numericLiterals.getLast?.any fun literal => literal.span == previous.span
  if follows then
    s.diagnose span "An identifier or keyword cannot immediately follow a numeric literal." 1351
  else s

/-- An identifier of so many characters, counted from the start of the text. -/
def scanIdentifier (text : List Char) (length : Nat) (isPrivate : Bool) :
    ScannedToken source :=
  let span := source.spanBetween text (text.drop length)
  let s := s.diagnoseIdentifierAfterNumber span
  let characters := text.take length
  let escaped := characters.contains '\\'
  let cooked :=
    String.ofList (if escaped then cookIdentifier characters.length characters else characters)
  let values := s.output.identifierValues ++ if escaped then [⟨span, cooked⟩] else []
  { kind := if isPrivate then .privateIdentifier else TokenKind.fromKeyword cooked
    length := length - 1
    scanner := { s with output := { s.output with identifierValues := values } } }

def scanNumber [NumberFormat] (text : List Char) : ScannedToken source :=
  let start := source.offsetOf text
  let token := scanNumericLiteral source start text s.previousToken
  let span : Span := ⟨source.id, start, token.stop⟩
  let out := s.output
  { kind := if token.kind = .bigIntLiteral then .bigIntLiteral else .numericLiteral
    length := token.stop - start - 1
    scanner :=
      { s with
        output :=
          { out with
            diagnostics := out.diagnostics ++ token.diagnostics
            numericLiterals :=
              out.numericLiterals ++ (token.recoveryLiteral.map (⟨span, ·⟩)).toList
            separatedNumericLiterals :=
              out.separatedNumericLiterals ++ (token.separatedLiteral.map (⟨span, ·⟩)).toList
            hasUnmodeledNumericSeparator :=
              out.hasUnmodeledNumericSeparator || token.hasUnmodeledSeparator } } }

def scanStringToken (text : List Char) (quote : Char) : ScannedToken source :=
  let start := source.offsetOf text
  let token := scanString source start quote text.tail
  let length := token.body.length + if token.terminated then 1 else 0
  let span := source.spanBetween text (text.tail.drop length)
  let out := s.output
  { kind := .stringLiteral
    length
    scanner :=
      { s with
        output :=
          { out with
            diagnostics := out.diagnostics ++ token.diagnostics
            stringLiterals :=
              out.stringLiterals ++ (token.extendedLiteral.map (⟨span, ·⟩)).toList
            cookedStringLiterals :=
              out.cookedStringLiterals ++ (token.cooked.map (⟨span, ·⟩)).toList } } }

inductive TemplateEnd
  | closed | substitution | unterminated

/-- The length of a template chunk with its end. -/
def templateChunk : List Char → Nat × TemplateEnd
  | [] => (0, .unterminated)
  | '$' :: '\x7b' :: _ => (2, .substitution)
  | ['\\'] => (1, .unterminated)
  | '\\' :: '\r' :: '\n' :: rest =>
    let (length, stop) := templateChunk rest
    (length + 3, stop)
  | '\\' :: _ :: rest =>
    let (length, stop) := templateChunk rest
    (length + 2, stop)
  | c :: rest =>
    if c = Char.ofNat 96 then (1, .closed)
    else
      let (length, stop) := templateChunk rest
      (length + 1, stop)

/-- A template chunk whose first character starts the text: a backtick, or the brace that closes
a substitution. -/
def scanTemplateToken (text : List Char) (isStart : Bool) : ScannedToken source :=
  let (length, stop) := templateChunk text.tail
  let kind : TokenKind := if isStart then .noSubstitutionTemplateLiteral else .templateTail
  let left := if isStart then s.templateExpressionDepths else s.templateExpressionDepths.tail
  match stop with
  | .closed => { kind, length, scanner := { s with templateExpressionDepths := left } }
  | .substitution =>
    if isStart then
      { kind := .templateHead
        length
        scanner :=
          { s with templateExpressionDepths := s.braceDepth :: s.templateExpressionDepths } }
    else { kind := .templateMiddle, length, scanner := s }
  | .unterminated =>
    let span := source.spanBetween text (text.tail.drop length)
    let s := s.diagnose span "Unterminated template literal." 1160
    let spans := s.output.unterminatedTemplateSpans ++ [span]
    { kind
      length
      scanner :=
        { s with
          templateExpressionDepths := left
          output := { s.output with unterminatedTemplateSpans := spans } } }

inductive RegularExpressionEnd
  | closed | lineBreak | endOfText
deriving DecidableEq

/-- The length of a pattern without the slash that ends it. -/
def regularExpressionPattern : (inCharacterClass : Bool) → List Char → Nat × RegularExpressionEnd
  | _, [] => (0, .endOfText)
  | _, ['\\'] => (1, .endOfText)
  | inCharacterClass, '\\' :: d :: rest =>
    if isLineBreak d then (1, .lineBreak)
    else
      let (length, stop) := regularExpressionPattern inCharacterClass rest
      (length + 2, stop)
  | inCharacterClass, c :: rest =>
    if isLineBreak c then (0, .lineBreak)
    else if c = '/' ∧ !inCharacterClass then (0, .closed)
    else
      let inside := if c = '[' then true else if c = ']' then false else inCharacterClass
      let (length, stop) := regularExpressionPattern inside rest
      (length + 1, stop)

def isRegularExpressionFlag (c : Char) : Bool :=
  c == '$' || c == '_' || c.isAlphanum || !isAscii c

/-- A regular expression at the slash that starts the text, if there is one. -/
def scanRegularExpression (text : List Char) : Option (ScannedToken source) :=
  let (length, stop) := regularExpressionPattern false text.tail
  let pattern := text.tail.drop length
  let keep (s : Scanner source) (length : Nat) (literal : ScannedRegularExpressionLiteral) :
      ScannedToken source :=
    { kind := .regularExpressionLiteral
      length
      scanner :=
        { s with
          output :=
            { s.output with
              regularExpressionLiterals := s.output.regularExpressionLiterals ++ [literal] } } }
  if stop = .closed then
    let flags := pattern.drop 1
    let flagCount := (flags.takeWhile isRegularExpressionFlag).length
    some (keep s (length + 1 + flagCount)
      (source.regularExpressionLiteral text pattern flags (flags.drop flagCount) true false))
  else if s.previousToken.all (·.kind == .equals) then
    let s := s.diagnose (source.spanBetween text pattern)
      "Unterminated regular expression literal." 1161
    some (keep s length
      (source.regularExpressionLiteral text pattern pattern pattern false
        (stop == .lineBreak)))
  else none

/-- The operators that start with a character: what follows it and their kind. The first one that
fits is taken. -/
def punctuators : Char → List (List Char × TokenKind)
  | '\x7b' => [([], .leftBrace)]
  | '\x7d' => [([], .rightBrace)]
  | '(' => [([], .leftParen)]
  | ')' => [([], .rightParen)]
  | '[' => [([], .leftBracket)]
  | ']' => [([], .rightBracket)]
  | ':' => [([], .colon)]
  | ';' => [([], .semicolon)]
  | ',' => [([], .comma)]
  | '.' => [(['.', '.'], .dotDotDot), ([], .dot)]
  | '?' => [(['?', '='], .questionQuestionEquals), (['?'], .questionQuestion), ([], .question)]
  | '+' => [(['+'], .plusPlus), (['='], .plusEquals), ([], .plus)]
  | '-' => [(['-'], .minusMinus), (['='], .minusEquals), ([], .minus)]
  | '*' => [(['*', '='], .starStarEquals), (['*'], .starStar), (['='], .starEquals), ([], .star)]
  | '/' => [(['='], .slashEquals), ([], .slash)]
  | '%' => [(['='], .percentEquals), ([], .percent)]
  | '|' => [(['|', '='], .barBarEquals), (['|'], .barBar), (['='], .barEquals), ([], .bar)]
  | '&' =>
    [(['&', '='], .ampersandAmpersandEquals), (['&'], .ampersandAmpersand),
      (['='], .ampersandEquals), ([], .ampersand)]
  | '^' => [(['='], .caretEquals), ([], .caret)]
  | '<' =>
    [(['<', '='], .lessThanLessThanEquals), (['<'], .lessThanLessThan), (['='], .lessThanEquals),
      (['/'], .lessThanSlash), ([], .lessThan)]
  | '>' =>
    [(['>', '>', '='], .greaterThanGreaterThanGreaterThanEquals),
      (['>', '>'], .greaterThanGreaterThanGreaterThan),
      (['>', '='], .greaterThanGreaterThanEquals), (['>'], .greaterThanGreaterThan),
      (['='], .greaterThanEquals), ([], .greaterThan)]
  | '!' => [(['=', '='], .bangEqualsEquals), (['='], .bangEquals), ([], .bang)]
  | '=' =>
    [(['=', '='], .equalsEqualsEquals), (['='], .equalsEquals), (['>'], .fatArrow),
      ([], .equals)]
  | '~' => [([], .tilde)]
  | '@' => [([], .at)]
  | '#' => [([], .hash)]
  | _ => []

/-- `?.` in front of a digit is a conditional and a number. -/
def startsQuestionDot (c : Char) (rest : List Char) : Bool :=
  c == '?' && rest.head? == some '.' && !(rest.drop 1).head?.any Char.isDigit

/-- An operator, or an invalid character. -/
def scanPunctuator (text : List Char) (c : Char) (rest : List Char) : ScannedToken source :=
  if startsQuestionDot c rest then { kind := .questionDot, length := 1, scanner := s }
  else
    match (punctuators c).find? fun operator => operator.1.isPrefixOf rest with
    | some (suffix, kind) => { kind, length := suffix.length, scanner := s }
    | none =>
      -- a stray backslash is reported with an empty span
      let span := source.spanBetween text (if c = '\\' then text else rest)
      { kind := .invalidCharacter
        length := 0
        scanner := s.diagnose span "Invalid character." 1127 }

def canStartRegularExpression : Bool :=
  !s.previousToken.any fun token => tokenCanEndExpression token.kind

def scanSlash (text rest : List Char) : ScannedToken source :=
  match if s.canStartRegularExpression then s.scanRegularExpression text else none with
  | some token => token
  | none => s.scanPunctuator text '/' rest

theorem kind_scanIdentifier_ne (text : List Char) (length : Nat) (isPrivate : Bool) :
    (s.scanIdentifier text length isPrivate).kind ≠ .endOfFile := by
  cases isPrivate
  · exact TokenKind.fromKeyword_ne_endOfFile _
  · simp [scanIdentifier]

theorem kind_scanTemplateToken_ne (text : List Char) (isStart : Bool) :
    (s.scanTemplateToken text isStart).kind ≠ .endOfFile := by
  unfold scanTemplateToken
  dsimp only
  cases isStart <;> split <;> simp

theorem kind_punctuators_ne (c : Char) :
    ∀ operator ∈ punctuators c, operator.2 ≠ .endOfFile := by
  unfold punctuators
  split <;> simp

theorem kind_scanPunctuator_ne (text : List Char) (c : Char) (rest : List Char) :
    (s.scanPunctuator text c rest).kind ≠ .endOfFile := by
  unfold scanPunctuator
  split
  · simp
  · split
    · rename_i h
      exact kind_punctuators_ne c _ (List.mem_of_find?_eq_some h)
    · simp

theorem kind_of_scanRegularExpression {text : List Char} {token : ScannedToken source}
    (h : s.scanRegularExpression text = some token) : token.kind = .regularExpressionLiteral := by
  unfold scanRegularExpression at h
  dsimp only at h
  split_ifs at h <;> obtain rfl := Option.some.inj h <;> rfl

theorem kind_scanSlash_ne (text rest : List Char) :
    (s.scanSlash text rest).kind ≠ .endOfFile := by
  unfold scanSlash
  split
  · rename_i token h
    split_ifs at h
    rw [s.kind_of_scanRegularExpression h]
    simp
  · exact s.kind_scanPunctuator_ne _ _ _

section

variable [UnicodeIdent] [NumberFormat]

/-- The token whose first character is `c`. -/
def scanToken (c : Char) (rest : List Char) : ScannedToken source :=
  let text := c :: rest
  if c = '\x7d' ∧ s.templateExpressionDepths.head? = some s.braceDepth then
    s.scanTemplateToken text false
  else if startsIdentifier text then s.scanIdentifier text (identifierLength text) false
  else if c.isDigit ∨ (c = '.' ∧ rest.head?.any Char.isDigit) then s.scanNumber text
  else if c = '#' ∧ startsIdentifier rest then
    s.scanIdentifier text (1 + identifierLength rest) true
  else if c = '\'' ∨ c = '"' then s.scanStringToken text c
  else if c = Char.ofNat 96 then s.scanTemplateToken text true
  else if c = '/' then s.scanSlash text rest
  else s.scanPunctuator text c rest

/-- A scanned token never has the kind of the end of the file. -/
theorem kind_scanToken_ne (c : Char) (rest : List Char) :
    (s.scanToken c rest).kind ≠ .endOfFile := by
  unfold scanToken
  dsimp only
  split_ifs
  · exact s.kind_scanTemplateToken_ne _ _
  · exact s.kind_scanIdentifier_ne _ _ _
  · simp only [scanNumber]
    split <;> simp
  · exact s.kind_scanIdentifier_ne _ _ _
  · simp [scanStringToken]
  · exact s.kind_scanTemplateToken_ne _ _
  · exact s.kind_scanSlash_ne _ _
  · exact s.kind_scanPunctuator_ne _ _ _

/-- The output with one more token, and the number of braces that are open behind it. -/
def push (token : ScannedToken source) (h : token.kind ≠ .endOfFile) (text rest : List Char) :
    Scanner source :=
  let span := source.spanBetween text rest
  let separated := [.numericLiteral, .bigIntLiteral].contains token.kind &&
    (source.sliceChars span).contains '_'
  let s := token.scanner
  let out := s.output
  { s with
    braceDepth :=
      match token.kind with
      | .leftBrace => s.braceDepth + 1
      | .rightBrace => s.braceDepth - 1
      | _ => s.braceDepth
    output :=
      { out with
        body := out.body ++ [⟨token.kind, span⟩]
        numericSeparatorSpans :=
          if separated then out.numericSeparatorSpans ++ [span] else out.numericSeparatorSpans
        body_kind := by
          intro t ht
          rcases List.mem_append.mp ht with ht | ht
          · exact out.body_kind t ht
          · obtain rfl := List.mem_singleton.mp ht
            exact h
        body_stop := by
          intro t ht
          rcases List.mem_append.mp ht with ht | ht
          · exact out.body_stop t ht
          · obtain rfl := List.mem_singleton.mp ht
            exact source.offsetOf_le rest } }

/-- The tokens of the text, by fuel for so many of them, and the text that is left. -/
def scanTokens : Nat → Scanner source → List Char → Scanner source × List Char
  | 0, s, text => (s, text)
  | fuel + 1, s, text =>
    match skipTrivia text.length s text with
    | (s, []) => (s, [])
    | (s, c :: rest) =>
      let token := s.scanToken c rest
      let after := rest.drop token.length
      scanTokens fuel (push token (s.kind_scanToken_ne c rest) (c :: rest) after) after

/-- With fuel for every character nothing of the text is left. -/
theorem scanTokens_rest (fuel : Nat) (s : Scanner source) (text : List Char)
    (h : text.length ≤ fuel) : (scanTokens fuel s text).2 = [] := by
  induction fuel generalizing s text with
  | zero =>
    rw [scanTokens]
    exact List.eq_nil_of_length_eq_zero (Nat.le_zero.mp h)
  | succ fuel ih =>
    have hle := length_skipTrivia_le text.length s text
    rw [scanTokens]
    split
    · rfl
    · rename_i s' c rest hskip
      rw [hskip] at hle
      refine ih _ _ ?_
      have hdrop := (List.drop_suffix (s'.scanToken c rest).length rest).length_le
      simp only [List.length_cons] at hle
      omega

end

end Scanner

/-! ## Scanning a source -/

def emptyOutput (source : SourceText) : ScanOutput source where
  body := []
  body_kind := by simp
  body_stop := by simp

variable [UnicodeIdent] [NumberFormat]

def scanSource (source : SourceText) : ScanOutput source :=
  (Scanner.scanTokens source.text.length { output := emptyOutput source } source.text).1.output

/-- Enough of the character classes for a text in ASCII. -/
@[reducible] def asciiIdent : UnicodeIdent where
  isXidStart _ := false
  isXidContinue _ := false

/-- Numbers shown as they are spelled. -/
@[reducible] def spelledNumbers : NumberFormat where
  display := some

end Tsz.Syntax
