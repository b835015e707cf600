import Tsz.Syntax.SourceText

/-!
# Escapes

One escape of a string, a template or an identifier, and the cooking of template text. Positions
are byte offsets into the text that is decoded.
-/

namespace Tsz.Syntax

inductive AuthoredEscape
  | empty
  | codePoint (value : Nat)
  | legacyOctal (value : Nat)
  | nonOctalDecimal (digit : Char)
  | missingFixedHex
  | extendedUnicode (digitsStart digitsEnd value : Nat) (closed : Bool)
  | missingCharacter
deriving DecidableEq, Repr

def hexValue (c : Char) : Option Nat :=
  if '0' ≤ c ∧ c ≤ '9' then some (c.toNat - '0'.toNat)
  else if 'a' ≤ c ∧ c ≤ 'f' then some (c.toNat - 'a'.toNat + 10)
  else if 'A' ≤ c ∧ c ≤ 'F' then some (c.toNat - 'A'.toNat + 10)
  else none

def isOctalDigit (c : Char) : Bool := '0' ≤ c ∧ c ≤ '7'

/-- So many hexadecimal digits, with the offset behind the last one that was read. -/
def fixedHex : Nat → Nat → Nat → List Char → Option Nat × Nat × List Char
  | 0, value, offset, rest => (some value, offset, rest)
  | _ + 1, _, offset, [] => (none, offset, [])
  | width + 1, value, offset, c :: rest =>
    match hexValue c with
    | some digit => fixedHex width (value * 16 + digit) (offset + 1) rest
    | none => (none, offset, c :: rest)

def hexDigits (value offset : Nat) : List Char → Nat × Nat × List Char
  | [] => (value, offset, [])
  | c :: rest =>
    match hexValue c with
    | some digit => hexDigits (value * 16 + digit) (offset + 1) rest
    | none => (value, offset, c :: rest)

/-- At most so many further octal digits. -/
def octalDigits : Nat → Nat → Nat → List Char → Nat × Nat × List Char
  | 0, value, offset, rest => (value, offset, rest)
  | _ + 1, value, offset, [] => (value, offset, [])
  | width + 1, value, offset, c :: rest =>
    if isOctalDigit c then
      octalDigits width (value * 8 + (c.toNat - '0'.toNat)) (offset + 1) rest
    else (value, offset, c :: rest)

def fixedHexEscape (width offset : Nat) (rest : List Char) : AuthoredEscape × Nat × List Char :=
  match fixedHex width 0 offset rest with
  | (some value, offset, rest) => (.codePoint value, offset, rest)
  | (none, offset, rest) => (.missingFixedHex, offset, rest)

/-- The escape behind a backslash whose next character is at `offset`, with what follows it. -/
def decodeEscapeBody (offset : Nat) : List Char → AuthoredEscape × Nat × List Char
  | [] => (.missingCharacter, offset, [])
  | '\r' :: '\n' :: rest => (.empty, offset + 2, rest)
  | 'u' :: '{' :: rest =>
    let (value, digitsEnd, rest) := hexDigits 0 (offset + 2) rest
    match rest with
    | '}' :: rest => (.extendedUnicode (offset + 2) digitsEnd value true, digitsEnd + 1, rest)
    | rest => (.extendedUnicode (offset + 2) digitsEnd value false, digitsEnd, rest)
  | c :: rest =>
    let next := offset + c.utf8Size
    if isLineBreak c then (.empty, next, rest)
    else if c = '0' ∧ !(rest.head?.any Char.isDigit) then (.codePoint 0, next, rest)
    else if isOctalDigit c then
      let (value, next, rest) :=
        octalDigits (if c ≤ '3' then 2 else 1) (c.toNat - '0'.toNat) next rest
      (.legacyOctal value, next, rest)
    else if c = '8' ∨ c = '9' then (.nonOctalDecimal c, next, rest)
    else if c = 'b' then (.codePoint 0x08, next, rest)
    else if c = 'f' then (.codePoint 0x0c, next, rest)
    else if c = 'n' then (.codePoint 0x0a, next, rest)
    else if c = 'r' then (.codePoint 0x0d, next, rest)
    else if c = 't' then (.codePoint 0x09, next, rest)
    else if c = 'v' then (.codePoint 0x0b, next, rest)
    else if c = 'x' then fixedHexEscape 2 next rest
    else if c = 'u' then fixedHexEscape 4 next rest
    else (.codePoint c.toNat, next, rest)

/-- The escape whose backslash is at `offset`; `text` starts with the backslash and ends where
the literal does. -/
def decodeAuthoredEscape (offset : Nat) (text : List Char) : AuthoredEscape × Nat × List Char :=
  decodeEscapeBody (offset + 1) text.tail

/-- The character of a code point, `none` for a surrogate or a value out of range. -/
def charFromU32 (value : Nat) : Option Char :=
  if value < 0xD800 ∨ (0xDFFF < value ∧ value < 0x110000) then some (Char.ofNat value) else none

/-! ## Templates -/

structure TemplateEscapeDiagnostic where
  relativeStart : Nat
  length : Nat
  code : Nat
  message : String
deriving DecidableEq, Repr

inductive CookError
  | diagnostic (diagnostic : TemplateEscapeDiagnostic)
  | unrepresentable
deriving DecidableEq, Repr

def hexDigitText (digit : Nat) : Char :=
  if digit < 10 then Char.ofNat ('0'.toNat + digit) else Char.ofNat ('a'.toNat + digit - 10)

/-- A byte in two hexadecimal digits. -/
def hexByteText (value : Nat) : String :=
  String.ofList [hexDigitText (value / 16 % 16), hexDigitText (value % 16)]

def legacyOctalMessage (value : Nat) : String :=
  "Octal escape sequences are not allowed. Use the syntax '\\x" ++ hexByteText value ++ "'."

def nonOctalDecimalMessage (digit : Char) : String :=
  "Escape sequence '\\" ++ String.ofList [digit] ++ "' is not allowed."

/-- The character an escape stands for, if it stands for one. -/
def cookDecodedEscape (escape : AuthoredEscape) (escapeStart escapeEnd : Nat) :
    Except CookError (Option Char) :=
  let error (start length code : Nat) (message : String) : Except CookError (Option Char) :=
    .error (.diagnostic ⟨start, length, code, message⟩)
  let cooked (value : Nat) : Except CookError (Option Char) :=
    match charFromU32 value with
    | some c => .ok (some c)
    | none => .error .unrepresentable
  match escape with
  | .empty => .ok none
  | .codePoint value => cooked value
  | .legacyOctal value =>
    error (escapeStart + 1) (escapeEnd - escapeStart) 1487 (legacyOctalMessage value)
  | .nonOctalDecimal digit =>
    error (escapeStart + 1) (escapeEnd - escapeStart) 1488 (nonOctalDecimalMessage digit)
  | .missingFixedHex => error (escapeEnd + 1) 1 1125 "Hexadecimal digit expected."
  | .extendedUnicode digitsStart digitsEnd value closed =>
    if digitsStart = digitsEnd then error (digitsEnd + 1) 1 1125 "Hexadecimal digit expected."
    else if !closed then error (digitsEnd + 1) 1 1199 "Unterminated Unicode escape sequence."
    else if value > 0x10ffff then
      error (digitsStart + 1) (digitsEnd - digitsStart) 1198
        "An extended Unicode escape value must be between 0x0 and 0x10FFFF inclusive."
    else cooked value
  | .missingCharacter => error (escapeEnd + 1) 1 1199 "Unterminated Unicode escape sequence."

/-- The value of template text. Every step consumes a character, so the length of the text is
fuel enough. -/
def cookFrom : Nat → Nat → List Char → Except CookError (List Char)
  | 0, _, _ | _ + 1, _, [] => .ok []
  | fuel + 1, offset, '\r' :: '\n' :: rest => do
    return '\n' :: (← cookFrom fuel (offset + 2) rest)
  | fuel + 1, offset, '\r' :: rest => do return '\n' :: (← cookFrom fuel (offset + 1) rest)
  | fuel + 1, offset, '\\' :: rest => do
    let (escape, next, rest) := decodeAuthoredEscape offset ('\\' :: rest)
    let c ← cookDecodedEscape escape offset next
    let cooked ← cookFrom fuel next rest
    return c.toList ++ cooked
  | fuel + 1, offset, c :: rest => do
    return c :: (← cookFrom fuel (offset + c.utf8Size) rest)

def cook (body : List Char) : Except CookError String := do
  return String.ofList (← cookFrom body.length 0 body)

/-- The text between a prefix and a suffix. -/
def stripAround (opening closing text : List Char) : Option (List Char) :=
  if opening.isPrefixOf text then
    let rest := text.drop opening.length
    if closing.isSuffixOf rest then some (rest.take (rest.length - closing.length)) else none
  else none

def scanNoSubstitutionTemplate (raw : List Char) :
    Except CookError NoSubstitutionTemplateLiteral :=
  match stripAround [Char.ofNat 96] [Char.ofNat 96] raw with
  | some body => do return ⟨String.ofList raw, ← cook body⟩
  | none => .error .unrepresentable

def scanTemplateChunk (raw : List Char) (kind : TokenKind) : Except CookError String :=
  let tick := Char.ofNat 96
  let body :=
    match kind with
    | .templateHead => stripAround [tick] ['$', '{'] raw
    | .templateMiddle => stripAround ['}'] ['$', '{'] raw
    | .templateTail => stripAround ['}'] [tick] raw
    | _ => none
  match body with
  | some body => cook body
  | none => .error .unrepresentable

end Tsz.Syntax
