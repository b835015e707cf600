import Tsz.Syntax.Escapes

/-!
# Scanning literals

Numbers and strings. Both work on the characters from the start of the token on and say where the
token ends; the digits of a number are one byte each.
-/

namespace Tsz.Syntax

variable (source : SourceText)

/-! ## Digits -/

inductive NumericSeparatorDiagnosticKind
  | notAllowed | consecutive
deriving DecidableEq, Repr

structure DigitRun where
  stop : Nat
  rest : List Char
  digitCount : Nat := 0
  invalidSeparator : Bool := false
  sawSeparator : Bool := false
  previousWasDigit : Bool := false
  separatorDiagnostics : List (Nat × NumericSeparatorDiagnosticKind) := []

def isRadixDigit (radix : Nat) (c : Char) : Bool :=
  (hexValue c).any fun digit => digit < radix

/-- A separator is wrong unless a digit stands in front of it. `digitBefore` says whether the run
follows a digit and `previous` is the character in front of the separator. -/
def DigitRun.separator (run : DigitRun) (digitBefore : Bool) (previous : Char)
    (rest : List Char) : DigitRun :=
  let kind : NumericSeparatorDiagnosticKind :=
    if (digitBefore || run.digitCount > 0) && previous == '_' then .consecutive else .notAllowed
  { run with
    stop := run.stop + 1
    rest
    sawSeparator := true
    previousWasDigit := false
    invalidSeparator := run.invalidSeparator || !run.previousWasDigit
    separatorDiagnostics :=
      if run.previousWasDigit then run.separatorDiagnostics
      else run.separatorDiagnostics ++ [(run.stop, kind)] }

def DigitRun.digit (run : DigitRun) (rest : List Char) : DigitRun :=
  { run with
    stop := run.stop + 1
    rest
    digitCount := run.digitCount + 1
    previousWasDigit := true }

def consumeDigitsFrom (radix : Nat) (digitBefore : Bool) :
    Char → List Char → DigitRun → DigitRun
  | _, [], run => run
  | previous, c :: rest, run =>
    if c = '_' then
      consumeDigitsFrom radix digitBefore c rest (run.separator digitBefore previous rest)
    else if isRadixDigit radix c then
      consumeDigitsFrom radix digitBefore c rest (run.digit rest)
    else run

/-- The digits and separators at an offset. A separator at the end is wrong as well. -/
def consumeDigits (radix : Nat) (digitBefore : Bool) (offset : Nat) (text : List Char) :
    DigitRun :=
  let run := consumeDigitsFrom radix digitBefore '0' text { stop := offset, rest := text }
  if run.sawSeparator && !run.previousWasDigit then
    let trailing := run.stop - 1
    { run with
      invalidSeparator := true
      separatorDiagnostics :=
        if run.separatorDiagnostics.any fun d => d.1 == trailing then run.separatorDiagnostics
        else run.separatorDiagnostics ++ [(trailing, .notAllowed)] }
  else run

def numericSeparatorDiagnostics (run : DigitRun) : List Diagnostic :=
  run.separatorDiagnostics.map fun (offset, kind) =>
    let span : Span := ⟨source.id, offset, offset + 1⟩
    match kind with
    | .notAllowed => ⟨span, "Numeric separators are not allowed here.", 6188⟩
    | .consecutive =>
      ⟨span, "Multiple consecutive numeric separators are not permitted.", 6189⟩

/-! ## Numbers -/

structure ScannedNumericToken where
  stop : Nat
  kind : TokenKind
  diagnostics : List Diagnostic := []
  recoveryLiteral : Option NumericRecoveryLiteral := none
  separatedLiteral : Option SeparatedNumberLiteral := none
  hasUnmodeledSeparator : Bool := false

def withoutSeparators (text : String) : String :=
  String.ofList (text.toList.filter fun c => c != '_')

def conservativelyContinuesIdentifier (rest : List Char) : Bool :=
  rest.head?.any fun c =>
    c.isAlphanum || ['_', '$', '\\'].contains c || c.toNat ≥ 0x80

/-- The value of digits, canonically spelled when it is a safe integer. -/
def canonicalBoundedInteger (digits : String) (radix : Nat) : Option String :=
  let value := digits.toList.foldl
    (fun value c => value * radix + (c.toNat - '0'.toNat)) 0
  if value ≤ 9007199254740991 then some (toString value) else none

def legacyOctalReplacementDigits (digits : String) : String :=
  let value := digits.toList.foldl (fun value c => value * 8 + (c.toNat - '0'.toNat)) 0
  if value > 9223372036854775807 then "777777777777777777777"
  else
    match digits.toList.dropWhile fun c => c == '0' with
    | [] => "0"
    | digits => String.ofList digits

section

variable [NumberFormat]

def plainNumericToken (start offset : Nat) (rest : List Char)
    (sawSeparator withRadixSpecifier : Bool) : ScannedNumericToken :=
  let isBigInt := rest.head? == some 'n'
  let stop := if isBigInt then offset + 1 else offset
  let rest := if isBigInt then rest.tail else rest
  let raw := source.slice ⟨source.id, start, stop⟩
  let separatedLiteral : Option SeparatedNumberLiteral :=
    if !isBigInt && sawSeparator && raw.toList.contains '_' then
      (NumberFormat.display raw).map fun canonical => ⟨raw, canonical, withRadixSpecifier⟩
    else none
  { stop
    kind := if isBigInt then .bigIntLiteral else .numericLiteral
    separatedLiteral
    hasUnmodeledSeparator := sawSeparator &&
      (isBigInt || separatedLiteral.isNone || conservativelyContinuesIdentifier rest) }

def recoveredNumericToken (start stop : Nat) (semanticText emitText : String)
    (kind : NumericRecoveryKind) (validationSupported : Bool) (diagnostics : List Diagnostic)
    (tokenKind : TokenKind) : ScannedNumericToken :=
  let raw := source.slice ⟨source.id, start, stop⟩
  { stop
    kind := tokenKind
    diagnostics
    recoveryLiteral := some ⟨raw, semanticText, emitText, kind, validationSupported⟩
    hasUnmodeledSeparator := raw.toList.contains '_' &&
      (kind == .invalidSeparator || kind == .incompleteRadix) }

def scanPrefixedNumeric (start radix : Nat) (rest : List Char) : ScannedNumericToken :=
  let run := consumeDigits radix false (start + 2) rest
  let plain := plainNumericToken source start run.stop run.rest run.sawSeparator true
  let raw := source.slice ⟨source.id, start, plain.stop⟩
  if run.digitCount = 0 ∧ !run.invalidSeparator then
    recoveredNumericToken source start plain.stop "0" raw .incompleteRadix false [] plain.kind
  else if !run.invalidSeparator then plain
  else
    let kind : NumericRecoveryKind :=
      if run.digitCount = 0 then .incompleteRadix else .invalidSeparator
    let semanticText :=
      if run.digitCount = 0 ∨ plain.kind = .bigIntLiteral then "0" else withoutSeparators raw
    recoveredNumericToken source start plain.stop semanticText raw kind false
      (numericSeparatorDiagnostics source run) plain.kind

/-- The part of a decimal number in front of its exponent. -/
structure DecimalHead where
  start : Nat
  stop : Nat
  rest : List Char
  integer : String
  leadingZeroDecimal : Bool
  hasFraction : Bool
  invalidSeparator : Bool
  sawSeparator : Bool
  diagnostics : List Diagnostic

/-- The exponent behind a head, if there is one. -/
def decimalExponent (head : DecimalHead) : Option DigitRun :=
  match head.rest with
  | c :: rest =>
    if c = 'e' ∨ c = 'E' then
      let sign := rest.head?.any fun c => c == '+' || c == '-'
      some
        (consumeDigits 10 false (head.stop + if sign then 2 else 1)
          (if sign then rest.tail else rest))
    else none
  | [] => none

def finishDecimalNumeric (head : DecimalHead) : ScannedNumericToken :=
  let exponent := decimalExponent head
  let stop := (exponent.map (·.stop)).getD head.stop
  let rest := (exponent.map (·.rest)).getD head.rest
  let missingExponentDigits := exponent.any (·.digitCount == 0)
  let invalidSeparator := head.invalidSeparator || exponent.any (·.invalidSeparator)
  let sawSeparator := head.sawSeparator || exponent.any (·.sawSeparator)
  let hasFractionOrExponent := head.hasFraction || exponent.isSome
  let leadingZero : List Diagnostic :=
    if head.leadingZeroDecimal then
      [⟨⟨source.id, head.start, stop⟩, "Decimals with leading zeros are not allowed.", 1489⟩]
    else []
  let missingDigits : List Diagnostic :=
    if missingExponentDigits then [⟨⟨source.id, stop, stop⟩, "Digit expected.", 1124⟩] else []
  let diagnostics := head.diagnostics ++
    (exponent.map (numericSeparatorDiagnostics source)).getD [] ++ leadingZero ++ missingDigits
  if diagnostics.isEmpty && !invalidSeparator ||
      !hasFractionOrExponent && !head.leadingZeroDecimal && !invalidSeparator then
    plainNumericToken source head.start stop rest sawSeparator false
  else
    let suffix := rest.head? == some 'n'
    let missingExponentSuffix := missingExponentDigits && !invalidSeparator && suffix &&
      !conservativelyContinuesIdentifier rest.tail
    let isBigInt := invalidSeparator && !hasFractionOrExponent && suffix
    let stop := if isBigInt || missingExponentSuffix then stop + 1 else stop
    let tokenKind : TokenKind := if isBigInt then .bigIntLiteral else .numericLiteral
    let raw := source.slice ⟨source.id, head.start, stop⟩
    if missingExponentDigits then
      recoveredNumericToken source head.start stop
        (withoutSeparators (source.slice ⟨source.id, head.start, head.stop⟩)) raw
        .missingExponentDigits
        (!head.leadingZeroDecimal && !head.hasFraction && !invalidSeparator &&
          !missingExponentSuffix)
        diagnostics tokenKind
    else if invalidSeparator && !head.leadingZeroDecimal then
      recoveredNumericToken source head.start stop (withoutSeparators raw) raw .invalidSeparator
        false diagnostics tokenKind
    else
      let canonical :=
        if hasFractionOrExponent then none else canonicalBoundedInteger head.integer 10
      recoveredNumericToken source head.start stop (canonical.getD (withoutSeparators raw))
        (canonical.getD raw) .leadingZeroDecimal canonical.isSome diagnostics tokenKind

def legacyOctalToken (start stop : Nat) (integer : String) (negative : Bool) :
    ScannedNumericToken :=
  let replacement :=
    (if negative then "-0o" else "0o") ++ legacyOctalReplacementDigits integer
  -- the reported range takes in the character in front of a negated literal
  let span : Span := ⟨source.id, if negative then start - 1 else start, stop⟩
  let message := "Octal literals are not allowed. Use the syntax '" ++ replacement ++ "'."
  let canonical := canonicalBoundedInteger integer 8
  recoveredNumericToken source start stop (canonical.getD integer) (canonical.getD integer)
    .legacyOctal canonical.isSome [⟨span, message, 1121⟩] .numericLiteral

/-- The digits in front of the point. Behind a leading zero separators follow no other digit. -/
def decimalInteger (start : Nat) (text : List Char) : DigitRun :=
  match text with
  | '0' :: rest =>
    let digits := rest.takeWhile Char.isDigit
    let stop := start + 1 + digits.length
    let after := rest.drop digits.length
    if digits.isEmpty && after.head? == some '_' then consumeDigits 10 true (start + 1) rest
    else { stop, rest := after }
  | text => consumeDigits 10 false start text

def scanDecimal (start : Nat) (text : List Char) (previousToken : Option Token) :
    ScannedNumericToken :=
  let run := decimalInteger start text
  let integer := source.slice ⟨source.id, start, run.stop⟩
  let digits := integer.toList
  let hasLegacyPrefix := digits.length > 1 && digits.head? == some '0' && !digits.contains '_'
  if hasLegacyPrefix && digits.all isOctalDigit then
    legacyOctalToken source start run.stop integer (previousToken.any (·.kind == .minus))
  else
    let head : DecimalHead :=
      { start
        stop := run.stop
        rest := run.rest
        integer
        leadingZeroDecimal := hasLegacyPrefix
        hasFraction := false
        invalidSeparator := run.invalidSeparator
        sawSeparator := run.sawSeparator
        diagnostics := numericSeparatorDiagnostics source run }
    match run.rest with
    | '.' :: rest =>
      let fraction := consumeDigits 10 false (run.stop + 1) rest
      finishDecimalNumeric source
        { head with
          stop := fraction.stop
          rest := fraction.rest
          hasFraction := true
          invalidSeparator := run.invalidSeparator || fraction.invalidSeparator
          sawSeparator := run.sawSeparator || fraction.sawSeparator
          diagnostics := head.diagnostics ++ numericSeparatorDiagnostics source fraction }
    | _ => finishDecimalNumeric source head

def radixOfPrefix : List Char → Option Nat
  | '0' :: c :: _ =>
    if c = 'x' ∨ c = 'X' then some 16
    else if c = 'b' ∨ c = 'B' then some 2
    else if c = 'o' ∨ c = 'O' then some 8
    else none
  | _ => none

def scanNumericLiteral (start : Nat) (text : List Char) (previousToken : Option Token) :
    ScannedNumericToken :=
  match text with
  | '.' :: rest =>
    let fraction := consumeDigits 10 false (start + 1) rest
    finishDecimalNumeric source
      { start
        stop := fraction.stop
        rest := fraction.rest
        integer := source.slice ⟨source.id, start, fraction.stop⟩
        leadingZeroDecimal := false
        hasFraction := true
        invalidSeparator := fraction.invalidSeparator
        sawSeparator := fraction.sawSeparator
        diagnostics := numericSeparatorDiagnostics source fraction }
  | text =>
    match radixOfPrefix text with
    | some radix => scanPrefixedNumeric source start radix (text.drop 2)
    | none => scanDecimal source start text previousToken

end

/-! ## Strings -/

/-- The characters between the quotes, as far as the literal goes. -/
structure StringProbe where
  body : List Char
  terminated : Bool
  hasExtendedEscape : Bool

def StringProbe.push (probe : StringProbe) (front : List Char) (extended : Bool) : StringProbe :=
  { probe with
    body := front ++ probe.body
    hasExtendedEscape := extended || probe.hasExtendedEscape }

def probeString (quote : Char) : List Char → StringProbe
  | [] => ⟨[], false, false⟩
  | ['\\'] => ⟨['\\'], false, false⟩
  | '\\' :: '\r' :: '\n' :: rest => (probeString quote rest).push ['\\', '\r', '\n'] false
  | '\\' :: c :: rest =>
    (probeString quote rest).push ['\\', c] (c == 'u' && rest.head? == some '\x7b')
  | c :: rest =>
    if c = quote then ⟨[], true, false⟩
    else if c = '\n' ∨ c = '\r' then ⟨[], false, false⟩
    else (probeString quote rest).push [c] false

/-- The errors of the escapes in the body of a string. Every step takes a character, so the length
of the body is fuel enough. -/
def stringEscapeDiagnostics : Nat → (offset : Nat) → List Char → List Diagnostic
  | 0, _, _ | _ + 1, _, [] => []
  | fuel + 1, offset, c :: rest =>
    if c = '\\' then
      let (escape, next, after) := decodeAuthoredEscape offset (c :: rest)
      let span : Span := ⟨source.id, offset, next⟩
      let error : List Diagnostic :=
        match escape with
        | .legacyOctal value => [⟨span, legacyOctalMessage value, 1487⟩]
        | .nonOctalDecimal digit => [⟨span, nonOctalDecimalMessage digit, 1488⟩]
        | .missingFixedHex =>
          [⟨⟨source.id, next, next⟩, "Hexadecimal digit expected.", 1125⟩]
        | _ => []
      error ++ stringEscapeDiagnostics fuel next after
    else stringEscapeDiagnostics fuel (offset + c.utf8Size) rest

def codePointUnits (value : Nat) : List UInt16 :=
  if value ≤ 0xffff then [value.toUInt16]
  else
    let adjusted := value - 0x10000
    [(0xd800 + adjusted / 0x400).toUInt16, (0xdc00 + adjusted % 0x400).toUInt16]

/-- The code units an escape of a string stands for. -/
def AuthoredEscape.units : AuthoredEscape → Option (List UInt16)
  | .empty => some []
  | .codePoint value | .legacyOctal value => some (codePointUnits value)
  | .nonOctalDecimal digit => some (codePointUnits digit.toNat)
  | .extendedUnicode digitsStart digitsEnd value closed =>
    if closed ∧ digitsStart < digitsEnd ∧ value ≤ 0x10ffff then some (codePointUnits value)
    else none
  | .missingFixedHex | .missingCharacter => none

def charUnits (c : Char) : List UInt16 := codePointUnits c.toNat

/-- The value of a terminated string. -/
def cookString : Nat → List Char → Option (List UInt16)
  | 0, _ | _ + 1, [] => some []
  | fuel + 1, c :: rest =>
    if c = '\\' then do
      let (escape, _, after) := decodeAuthoredEscape 0 (c :: rest)
      return (← escape.units) ++ (← cookString fuel after)
    else do return charUnits c ++ (← cookString fuel rest)

/-- What the scan of a string with an extended escape has found. Other escapes keep their
spelling in `cooked`. -/
structure ExtendedString where
  cooked : List UInt16 := []
  events : List Diagnostic := []
  containsInvalidEscape : Bool := false
  containsExtendedUnicodeEscape : Bool := false

def ExtendedString.keep (literal : ExtendedString) (text : List Char) : ExtendedString :=
  { literal with cooked := literal.cooked ++ text.flatMap charUnits }

/-- A second event at one offset is dropped. -/
def pushEvent (events : List Diagnostic) (event : Diagnostic) : List Diagnostic :=
  if events.getLast?.any fun last => last.span.start == event.span.start then events
  else events ++ [event]

/-- An escape `\u` with braces whose digits start at `digitsStart`; `text` is its spelling up to
the digits. -/
def ExtendedString.escape (literal : ExtendedString) (digitsStart : Nat) (text : List Char) :
    ExtendedString × Nat × List Char :=
  let (value, digitsEnd, after) := hexDigits 0 digitsStart text
  let at' (start stop : Nat) : Span := ⟨source.id, start, stop⟩
  let digits := digitsEnd - digitsStart
  let value_events :=
    if digits = 0 then
      pushEvent literal.events ⟨at' digitsEnd digitsEnd, "Hexadecimal digit expected.", 1125⟩
    else if value > 0x10ffff then
      pushEvent literal.events ⟨at' digitsStart digitsEnd,
        "An extended Unicode escape value must be between 0x0 and 0x10FFFF inclusive.", 1198⟩
    else literal.events
  let closed := after.head? == some '\x7d'
  let events :=
    if after.isEmpty then
      pushEvent value_events ⟨at' digitsEnd digitsEnd, "Unexpected end of text.", 1126⟩
    else if closed then value_events
    else
      pushEvent value_events
        ⟨at' digitsEnd digitsEnd, "Unterminated Unicode escape sequence.", 1199⟩
  let valid := digits ≠ 0 ∧ value ≤ 0x10ffff ∧ closed
  let stop := if closed then digitsEnd + 1 else digitsEnd
  let spelling := ['\\', 'u', '\x7b'] ++ text.take (stop - digitsStart)
  let literal := { literal with events }
  let literal :=
    if valid then
      { literal with
        cooked := literal.cooked ++ codePointUnits value
        containsExtendedUnicodeEscape := true }
    else { literal.keep spelling with containsInvalidEscape := true }
  (literal, stop, if closed then after.tail else after)

/-- The string up to its quote or its line break, and whether it is terminated. -/
def scanExtendedString (quote : Char) :
    Nat → (offset : Nat) → List Char → ExtendedString → ExtendedString × Nat × Bool
  | 0, offset, _, literal => (literal, offset, false)
  | _ + 1, offset, [], literal => (literal, offset, false)
  | fuel + 1, offset, c :: rest, literal =>
    if c = quote then (literal, offset + 1, true)
    else if c = '\n' ∨ c = '\r' then (literal, offset, false)
    else if c = '\\' then
      match rest with
      | 'u' :: '\x7b' :: text =>
        let (literal, next, after) := literal.escape source (offset + 3) text
        scanExtendedString quote fuel next after literal
      | '\r' :: '\n' :: after =>
        scanExtendedString quote fuel (offset + 3) after (literal.keep ['\\', '\r', '\n'])
      | d :: after =>
        scanExtendedString quote fuel (offset + 1 + d.utf8Size) after (literal.keep ['\\', d])
      | [] => (literal.keep ['\\'], offset + 1, false)
    else scanExtendedString quote fuel (offset + c.utf8Size) rest (literal.keep [c])

structure ScannedStringToken where
  body : List Char
  terminated : Bool
  diagnostics : List Diagnostic
  extendedLiteral : Option ExtendedUnicodeStringLiteral
  cooked : Option Utf16String

/-- The string whose quote is at `start`; `text` follows the quote. -/
def scanString (start : Nat) (quote : Char) (text : List Char) : ScannedStringToken :=
  let probe := probeString quote text
  let stop := start + 1 + utf8Length probe.body + if probe.terminated then 1 else 0
  let span : Span := ⟨source.id, start, stop⟩
  let escapes := stringEscapeDiagnostics source probe.body.length (start + 1) probe.body
  let cooked := if probe.terminated then cookString probe.body.length probe.body else none
  if probe.hasExtendedEscape then
    let (literal, stop, terminated) :=
      scanExtendedString source quote (text.length + 1) (start + 1) text {}
    let events :=
      if terminated then literal.events
      else
        pushEvent literal.events ⟨⟨source.id, stop, stop⟩, "Unterminated string literal.", 1002⟩
    { body := probe.body
      terminated := probe.terminated
      diagnostics := (escapes ++ events).mergeSort fun d e => d.span.start ≤ e.span.start
      extendedLiteral :=
        some ⟨source.slice span, ⟨literal.cooked⟩, terminated, literal.containsInvalidEscape,
          literal.containsExtendedUnicodeEscape⟩
      cooked := cooked.map (⟨·⟩) }
  else
    { body := probe.body
      terminated := probe.terminated
      diagnostics :=
        if probe.terminated then escapes
        else escapes ++ [⟨span, "Unterminated string literal.", 1002⟩]
      extendedLiteral := none
      cooked := cooked.map (⟨·⟩) }

end Tsz.Syntax
