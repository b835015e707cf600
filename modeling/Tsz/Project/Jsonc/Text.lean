import Tsz.Syntax.Numbers.Spellings
import Tsz.Syntax.Scanner.Strings

/-!
# JSON with comments

The texts a configuration is read from: JSON values with whitespace and comments between their
lexemes, and with commas in front of closing brackets.

## Main definitions

* `IsGap` — whitespace and comments.
* `Tree` — the concrete syntax of values and of what stands between brackets.
* `Document` — a value with what stands around it.
* `Tree.regap` — the same value with spaces for the gaps and the commas at the end of its lists.
-/

namespace Tsz.Jsonc

open Tsz.Syntax Decimals

/-! ## Gaps -/

/-- Whitespace and comments that are closed. -/
inductive IsGap : List Char → Prop
  | nil : IsGap []
  | whitespace {c : Char} {rest : List Char} (hc : isTriviaWhitespace c = true)
      (h : IsGap rest) : IsGap (c :: rest)
  | line {body rest : List Char} {c : Char} (hbody : ∀ d ∈ body, isLineBreak d = false)
      (hc : isLineBreak c = true) (h : IsGap rest) : IsGap ('/' :: '/' :: (body ++ c :: rest))
  | block {body rest : List Char} (hbody : ¬ ['*', '/'] <:+: body ++ ['*']) (h : IsGap rest) :
      IsGap ('/' :: '*' :: (body ++ '*' :: '/' :: rest))

structure Gap where
  text : List Char
  isGap : IsGap text

/-- What may stand behind the value: a gap, and a comment in the last line. -/
inductive IsEnd : List Char → Prop
  | gap {text : List Char} (h : IsGap text) : IsEnd text
  | line {text body : List Char} (h : IsGap text) (hbody : ∀ d ∈ body, isLineBreak d = false) :
      IsEnd (text ++ '/' :: '/' :: body)

theorem isGap_replicate (n : Nat) : IsGap (List.replicate n ' ') := by
  induction n with
  | zero => exact .nil
  | succ n ih => exact .whitespace rfl ih

def Gap.spaces (n : Nat) : Gap := ⟨List.replicate n ' ', isGap_replicate n⟩

/-! ## Lexemes -/

/-- The number without its sign. -/
inductive IsNumber : List Char → Prop
  | mk {integer point exponent : List Char}
      (hinteger : integer = ['0'] ∨
        integer ≠ [] ∧ IsDigits integer ∧ integer.head? ≠ some '0')
      (hpoint : point = [] ∨ ∃ fraction, fraction ≠ [] ∧ IsDigits fraction ∧
        point = '.' :: fraction)
      (hexponent : exponent = [] ∨ ∃ mark sign digits, (mark = 'e' ∨ mark = 'E') ∧
        IsSign sign ∧ digits ≠ [] ∧ IsDigits digits ∧ exponent = mark :: (sign ++ digits)) :
      IsNumber (integer ++ (point ++ exponent))

theorem IsNumber.isSpelling {digits : List Char} (h : IsNumber digits) :
    IsSpelling digits ∧ ∃ c rest, digits = c :: rest ∧ c.isDigit = true := by
  obtain ⟨hinteger, hpoint, hexponent⟩ := h
  rename_i integer point exponent
  have hne : integer ≠ [] := by
    rintro rfl
    rcases hinteger with h | h
    · cases h
    · exact h.1 rfl
  refine ⟨.decimal ⟨fun h => absurd h hne, ?_, ?_, ?_⟩, ?_⟩
  · rcases hinteger with h | ⟨-, hdigits, hzero⟩
    · exact .inr (.inl h)
    · exact .inr (.inr ⟨.of_digits hdigits hne, hzero⟩)
  · obtain h | ⟨fraction, hfraction, hdigits, rfl⟩ := hpoint
    · exact .inl h
    · exact .inr ⟨fraction, .inr (.of_digits hdigits hfraction), rfl⟩
  · obtain h | ⟨mark, sign, digits, hmark, hsign, hdigits, hall, rfl⟩ := hexponent
    · exact .inl h
    · exact .inr ⟨mark, sign, digits, hmark, hsign, .of_digits hall hdigits, rfl⟩
  · obtain ⟨c, rest, rfl⟩ := List.exists_cons_of_ne_nil hne
    refine ⟨c, rest ++ (point ++ exponent), rfl, ?_⟩
    rcases hinteger with h | ⟨-, hdigits, -⟩
    · obtain ⟨rfl, -⟩ := List.cons.inj h
      rfl
    · exact hdigits c List.mem_cons_self

structure JsonNumber where
  negative : Bool
  digits : List Char
  isNumber : IsNumber digits

/-- The characters between the quotes of a string. -/
inductive IsStringBody : List Char → Prop
  | nil : IsStringBody []
  | character {c : Char} {rest : List Char} (hcontrol : ' ' ≤ c) (hquote : c ≠ '"')
      (hescape : c ≠ '\\') (h : IsStringBody rest) : IsStringBody (c :: rest)
  | escape {c : Char} {rest : List Char} (hc : c ∈ ['"', '\\', '/', 'b', 'f', 'n', 'r', 't'])
      (h : IsStringBody rest) : IsStringBody ('\\' :: c :: rest)
  | unicode {digits rest : List Char} (hlength : digits.length = 4)
      (hdigits : ∀ c ∈ digits, isHexDigit c = true) (h : IsStringBody rest) :
      IsStringBody ('\\' :: 'u' :: (digits ++ rest))

structure JsonString where
  body : List Char
  isBody : IsStringBody body

def JsonString.text (s : JsonString) : List Char := '"' :: (s.body ++ ['"'])

inductive Word
  | true | false | null
deriving DecidableEq

inductive Mark
  | leftBrace | rightBrace | leftBracket | rightBracket | colon | comma | minus
deriving DecidableEq

def Word.text : Word → List Char
  | .true => ['t', 'r', 'u', 'e']
  | .false => ['f', 'a', 'l', 's', 'e']
  | .null => ['n', 'u', 'l', 'l']

def Word.kind : Word → TokenKind
  | .true => .true
  | .false => .false
  | .null => .null

def Mark.char : Mark → Char
  | .leftBrace => '\x7b'
  | .rightBrace => '\x7d'
  | .leftBracket => '['
  | .rightBracket => ']'
  | .colon => ':'
  | .comma => ','
  | .minus => '-'

def Mark.kind : Mark → TokenKind
  | .leftBrace => .leftBrace
  | .rightBrace => .rightBrace
  | .leftBracket => .leftBracket
  | .rightBracket => .rightBracket
  | .colon => .colon
  | .comma => .comma
  | .minus => .minus

inductive Lexeme
  | mark (m : Mark)
  | word (w : Word)
  | number (digits : List Char) (h : IsNumber digits)
  | string (s : JsonString)

namespace Lexeme

def text : Lexeme → List Char
  | mark m => [m.char]
  | word w => w.text
  | number digits _ => digits
  | string s => s.text

def kind : Lexeme → TokenKind
  | mark m => m.kind
  | word w => w.kind
  | number _ _ => .numericLiteral
  | string _ => .stringLiteral

end Lexeme

/-- A lexeme and what stands in front of it. -/
structure Piece where
  gap : Gap
  lexeme : Lexeme

def Piece.text (piece : Piece) : List Char := piece.gap.text ++ piece.lexeme.text

def render (pieces : List Piece) : List Char := pieces.flatMap Piece.text

@[simp] theorem render_nil : render [] = [] := rfl

@[simp] theorem render_cons (piece : Piece) (pieces : List Piece) :
    render (piece :: pieces) = piece.gap.text ++ (piece.lexeme.text ++ render pieces) := by
  simp [render, Piece.text]

@[simp] theorem render_append (front back : List Piece) :
    render (front ++ back) = render front ++ render back := by
  simp [render]

/-! ## Syntax -/

inductive Bracket
  | array | object
deriving DecidableEq

def Bracket.opening : Bracket → Mark
  | .array => .leftBracket
  | .object => .leftBrace

def Bracket.closing : Bracket → Mark
  | .array => .rightBracket
  | .object => .rightBrace

/-- A value, what follows an opening bracket or a comma, and what follows an entry. -/
inductive Part
  | value
  | items (b : Bracket)
  | tail (b : Bracket)

inductive Tree : Part → Type
  | word (gap : Gap) (w : Word) : Tree .value
  | number (gap : Gap) (n : JsonNumber) : Tree .value
  | string (gap : Gap) (s : JsonString) : Tree .value
  | nested (gap : Gap) (b : Bracket) (items : Tree (.items b)) : Tree .value
  | close {b : Bracket} (gap : Gap) : Tree (.items b)
  | element (value : Tree .value) (tail : Tree (.tail .array)) : Tree (.items .array)
  | member (gap : Gap) (key : JsonString) (colon : Gap) (value : Tree .value)
      (tail : Tree (.tail .object)) : Tree (.items .object)
  | stop {b : Bracket} (gap : Gap) : Tree (.tail b)
  | comma {b : Bracket} (gap : Gap) (items : Tree (.items b)) : Tree (.tail b)

namespace Tree

variable {part : Part}

/-- The lexemes. A sign is one of its own. -/
def pieces : {part : Part} → Tree part → List Piece
  | _, word gap w => [⟨gap, .word w⟩]
  | _, number gap n =>
    if n.negative then [⟨gap, .mark .minus⟩, ⟨.spaces 0, .number n.digits n.isNumber⟩]
    else [⟨gap, .number n.digits n.isNumber⟩]
  | _, string gap s => [⟨gap, .string s⟩]
  | _, nested gap b items => ⟨gap, .mark b.opening⟩ :: items.pieces
  | .items b, close gap => [⟨gap, .mark b.closing⟩]
  | _, element value tail => value.pieces ++ tail.pieces
  | _, member gap key colon value tail =>
    ⟨gap, .string key⟩ :: ⟨colon, .mark .colon⟩ :: (value.pieces ++ tail.pieces)
  | .tail b, stop gap => [⟨gap, .mark b.closing⟩]
  | _, comma gap items => ⟨gap, .mark .comma⟩ :: items.pieces

def text (t : Tree part) : List Char := render t.pieces

/-- What follows a comma. In front of a closing bracket there is none. -/
def joined (width : Nat → Nat) (gap : Nat) {b : Bracket} (after : Tree (.items b))
    (items : Tree (.items b)) : Tree (.tail b) :=
  match items with
  | close gap' => stop (.spaces (width (gap + 1 + utf8Length gap'.text)))
  | _ => comma (.spaces (width gap)) after

/-- The same value with so many spaces for a gap of a given width, and for the comma at the end of a
list with the gaps around it. -/
def regap (width : Nat → Nat) : {part : Part} → Tree part → Tree part
  | _, word gap w => word (.spaces (width (utf8Length gap.text))) w
  | _, number gap n => number (.spaces (width (utf8Length gap.text))) n
  | _, string gap s => string (.spaces (width (utf8Length gap.text))) s
  | _, nested gap b items => nested (.spaces (width (utf8Length gap.text))) b (items.regap width)
  | _, close gap => close (.spaces (width (utf8Length gap.text)))
  | _, element value tail => element (value.regap width) (tail.regap width)
  | _, member gap key colon value tail =>
    member (.spaces (width (utf8Length gap.text))) key (.spaces (width (utf8Length colon.text)))
      (value.regap width) (tail.regap width)
  | _, stop gap => stop (.spaces (width (utf8Length gap.text)))
  | _, comma gap items => joined width (utf8Length gap.text) (items.regap width) items

/-- A value as JSON has it, with spaces between its lexemes. -/
inductive IsJson : {part : Part} → Tree part → Prop
  | word (n : Nat) (w : Word) : IsJson (word (.spaces n) w)
  | number (n : Nat) (m : JsonNumber) : IsJson (number (.spaces n) m)
  | string (n : Nat) (s : JsonString) : IsJson (string (.spaces n) s)
  | nested (n : Nat) {b : Bracket} {items : Tree (.items b)} (h : IsJson items) :
      IsJson (nested (.spaces n) b items)
  | close {b : Bracket} (n : Nat) : IsJson (close (.spaces n) : Tree (.items b))
  | element {value : Tree .value} {tail : Tree (.tail .array)} (h : IsJson value)
      (htail : IsJson tail) : IsJson (element value tail)
  | member (n m : Nat) (key : JsonString) {value : Tree .value} {tail : Tree (.tail .object)}
      (h : IsJson value) (htail : IsJson tail) :
      IsJson (member (.spaces n) key (.spaces m) value tail)
  | stop {b : Bracket} (n : Nat) : IsJson (stop (.spaces n) : Tree (.tail b))
  | comma {b : Bracket} (n : Nat) {items : Tree (.items b)} (hitems : ∀ gap, items ≠ close gap)
      (h : IsJson items) : IsJson (comma (.spaces n) items)

end Tree

/-- A text of a configuration. -/
structure Document where
  value : Tree .value
  after : List Char
  isEnd : IsEnd after

namespace Document

def text (d : Document) : List Char := d.value.text ++ d.after

def regap (width : Nat → Nat) (d : Document) : Document where
  value := d.value.regap width
  after := List.replicate (width (utf8Length d.after)) ' '
  isEnd := .gap (isGap_replicate _)

end Document

/-! ## Values with other gaps -/

namespace Tree

variable {part : Part} (width : Nat → Nat)

theorem joined_of_ne {b : Bracket} {gap : Nat} {after items : Tree (.items b)}
    (h : ∀ gap, items ≠ close gap) :
    joined width gap after items = comma (.spaces (width gap)) after := by
  unfold joined
  split
  · exact absurd rfl (h _)
  · rfl

theorem regap_ne_close {b : Bracket} {items : Tree (.items b)} (h : ∀ gap, items ≠ close gap)
    (gap : Gap) : items.regap width ≠ close gap := by
  cases items with
  | close gap' => exact absurd rfl (h gap')
  | element value tail => nofun
  | member gap' key colon value tail => nofun

/-- Every comma is in front of an entry. -/
theorem isJson_regap (t : Tree part) : IsJson (t.regap width) := by
  induction t with
  | word gap w => exact .word _ w
  | number gap n => exact .number _ n
  | string gap s => exact .string _ s
  | nested gap b items ih => exact .nested _ ih
  | close gap => exact .close _
  | element value tail ih ihtail => exact .element ih ihtail
  | member gap key colon value tail ih ihtail => exact .member _ _ key ih ihtail
  | stop gap => exact .stop _
  | comma gap items ih =>
    by_cases h : ∃ gap, items = close gap
    · obtain ⟨gap', rfl⟩ := h
      exact .stop _
    · rw [regap, joined_of_ne width (not_exists.mp h)]
      exact .comma _ (regap_ne_close width (not_exists.mp h)) ih

/-- Without spaces every rendering of a value is the same one. -/
theorem regap_regap (t : Tree part) :
    (t.regap width).regap (fun _ => 0) = t.regap fun _ => 0 := by
  induction t with
  | word gap w => rfl
  | number gap n => rfl
  | string gap s => rfl
  | nested gap b items ih => rw [regap, regap, ih, regap]
  | close gap => rfl
  | element value tail ih ihtail => rw [regap, regap, ih, ihtail, regap]
  | member gap key colon value tail ih ihtail => rw [regap, regap, ih, ihtail, regap]
  | stop gap => rfl
  | comma gap items ih =>
    by_cases h : ∃ gap, items = close gap
    · obtain ⟨gap', rfl⟩ := h
      rfl
    · have hne := not_exists.mp h
      rw [regap, joined_of_ne width hne, regap, ih, joined_of_ne _ (regap_ne_close width hne),
        regap, joined_of_ne _ hne]

end Tree

end Tsz.Jsonc
