import Tsz.Numeric.Decimals
import Tsz.Syntax.Scanner.Rescan

/-!
# The first characters of tokens

What the scanner skips in front of a token, and which token a character starts.
-/

namespace Tsz.Syntax

open Decimals

variable {source : SourceText}

theorem skipTrivia_cons {c : Char} (hspace : isTriviaWhitespace c = false) (hslash : c ≠ '/')
    (hhash : c ≠ '#') (fuel : Nat) (s : Scanner source) (rest : List Char) :
    Scanner.skipTrivia fuel s (c :: rest) = (s, c :: rest) := by
  cases fuel with
  | zero => rfl
  | succ fuel =>
    rw [Scanner.skipTrivia]
    simp [hspace, hslash, hhash, List.dropWhile_cons_of_neg]

variable [UnicodeIdent]

theorem not_startsIdentifier {c : Char} (h : c.isDigit = true ∨ c = '.') (rest : List Char) :
    startsIdentifier (c :: rest) = false := by
  have hascii : isAscii c = true := by
    rcases h with h | rfl
    · exact isAscii_of_isDigit h
    · rfl
  have hstart : isIdentifierStartCharacter c = false := by
    rw [isIdentifierStartCharacter, if_pos hascii]
    rcases h with h | rfl
    · obtain ⟨d, hd, rfl⟩ := exists_digitChar h
      have hall : ∀ d < 10, ((Nat.digitChar d).isAlpha || Nat.digitChar d == '_' ||
          Nat.digitChar d == '$') = false := by decide
      exact hall d hd
    · rfl
  have hescape : identifierEscapeAt (c :: rest) = none := by
    unfold identifierEscapeAt
    split
    · next heq =>
      obtain ⟨rfl, -⟩ := List.cons.inj heq
      rcases h with h | h <;> cases h
    · rfl
  rw [startsIdentifier, hescape, List.head?_cons, Option.any_some, hstart]
  rfl

variable [NumberFormat]

theorem scanToken_number (s : Scanner source) {c : Char} {rest : List Char}
    (h : c.isDigit = true ∨ c = '.' ∧ rest.head?.any Char.isDigit = true) :
    s.scanToken c rest = s.scanNumber (c :: rest) := by
  have hstart := not_startsIdentifier (h.imp_right And.left) rest
  have hbrace : c ≠ '\x7d' := by
    rintro rfl
    rcases h with h | ⟨h, -⟩ <;> cases h
  unfold Scanner.scanToken
  dsimp only
  rw [if_neg fun hboth => hbrace hboth.1, hstart, if_neg Bool.false_ne_true, if_pos h]

theorem scanToken_identifier (s : Scanner source) {c : Char} {rest : List Char}
    (hbrace : c ≠ '\x7d') (hstart : startsIdentifier (c :: rest) = true) :
    s.scanToken c rest = s.scanIdentifier (c :: rest) (identifierLength (c :: rest)) false := by
  unfold Scanner.scanToken
  dsimp only
  rw [if_neg fun hboth => hbrace hboth.1, if_pos hstart]

end Tsz.Syntax
