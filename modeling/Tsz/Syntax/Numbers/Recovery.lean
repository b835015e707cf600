import Tsz.Syntax.Coordinates
import Tsz.Syntax.Numbers.Parse

/-!
# Recovered numbers

The scanner reads digits and separators wherever they stand and says what text a number has for
the checker. That text is read again.

## Main definitions

* `authoredValue` — the number that the digits of a token denote.
* `IsMisread` — digits behind `0_` that are read again as an octal number.

## Main results

* `consumeDigitsFrom_spec` — what a run of digits and separators takes.
* `scanNumericLiteral_value` — a token is read as its number just if it is not misread.
-/

namespace Tsz.Syntax

open Rounding Rounding.Format Decimals

/-! ## Runs of digits -/

def isRunCharacter (radix : Nat) (c : Char) : Bool := c == '_' || isRadixDigit radix c

def withoutSeparatorChars (text : List Char) : List Char := text.filter (· ≠ '_')

/-- A run takes the digits and separators at the front of a text. -/
theorem consumeDigitsFrom_spec (radix : Nat) (digitBefore : Bool) :
    ∀ (previous : Char) (text : List Char) (run : DigitRun), run.rest = text →
      (consumeDigitsFrom radix digitBefore previous text run).rest =
          text.dropWhile (isRunCharacter radix) ∧
        (consumeDigitsFrom radix digitBefore previous text run).stop =
          run.stop + (text.takeWhile (isRunCharacter radix)).length ∧
        (consumeDigitsFrom radix digitBefore previous text run).digitCount =
          run.digitCount + (withoutSeparatorChars (text.takeWhile (isRunCharacter radix))).length ∧
        (run.invalidSeparator = true →
          (consumeDigitsFrom radix digitBefore previous text run).invalidSeparator = true)
  | _, [], run, h => by
    rw [consumeDigitsFrom]
    exact ⟨h, rfl, rfl, id⟩
  | previous, c :: text, run, h => by
    rw [consumeDigitsFrom]
    split_ifs with hseparator hdigit
    · subst hseparator
      obtain ⟨hrest, hstop, hcount, hinvalid⟩ := consumeDigitsFrom_spec radix digitBefore '_' text
        (run.separator digitBefore previous text) rfl
      refine ⟨hrest, ?_, hcount, fun hrun => hinvalid ?_⟩
      · have hnext : (run.separator digitBefore previous text).stop = run.stop + 1 := rfl
        rw [hstop, hnext, List.takeWhile_cons_of_pos rfl, List.length_cons]
        omega
      · simp [DigitRun.separator, hrun]
    · have hrun : isRunCharacter radix c = true := by simp [isRunCharacter, hdigit]
      obtain ⟨hrest, hstop, hcount, hinvalid⟩ := consumeDigitsFrom_spec radix digitBefore c text
        (run.digit text) rfl
      refine ⟨?_, ?_, ?_, hinvalid⟩
      · rw [hrest, List.dropWhile_cons_of_pos hrun]
      · have hnext : (run.digit text).stop = run.stop + 1 := rfl
        rw [hstop, hnext, List.takeWhile_cons_of_pos hrun, List.length_cons]
        omega
      · have hnext : (run.digit text).digitCount = run.digitCount + 1 := rfl
        rw [hcount, hnext, List.takeWhile_cons_of_pos hrun, withoutSeparatorChars,
          withoutSeparatorChars, List.filter_cons_of_pos (by simpa using hseparator),
          List.length_cons]
        omega
    · have hrun : isRunCharacter radix c = false := by simp [isRunCharacter, hseparator, hdigit]
      rw [List.takeWhile_cons_of_neg (by simp [hrun]), List.dropWhile_cons_of_neg (by simp [hrun])]
      exact ⟨h, rfl, rfl, id⟩

/-- A run by the characters that it takes. -/
structure TakesRun (radix start : Nat) (text front : List Char) (run : DigitRun) : Prop where
  text_eq : text = front ++ run.rest
  all : ∀ c ∈ front, isRunCharacter radix c = true
  stop : run.stop = start + front.length
  digitCount : run.digitCount = (withoutSeparatorChars front).length

theorem takes_consumeDigits (radix : Nat) (digitBefore : Bool) (start : Nat) (text : List Char) :
    TakesRun radix start text (text.takeWhile (isRunCharacter radix))
      (consumeDigits radix digitBefore start text) := by
  obtain ⟨hrest, hstop, hcount, -⟩ := consumeDigitsFrom_spec radix digitBefore '0' text
    { stop := start, rest := text } rfl
  have hall : ∀ c ∈ text.takeWhile (isRunCharacter radix), isRunCharacter radix c = true :=
    fun c hc => List.mem_takeWhile_imp hc
  have hcount := hcount.trans (Nat.zero_add _)
  unfold consumeDigits
  dsimp only
  split
  · exact ⟨by rw [hrest, List.takeWhile_append_dropWhile], hall, hstop, hcount⟩
  · exact ⟨by rw [hrest, List.takeWhile_append_dropWhile], hall, hstop, hcount⟩

/-- A separator in front of every digit is wrong. -/
theorem invalidSeparator_consumeDigits (radix : Nat) (digitBefore : Bool) (start : Nat)
    (text : List Char) : (consumeDigits radix digitBefore start ('_' :: text)).invalidSeparator =
      true := by
  obtain ⟨-, -, -, hinvalid⟩ := consumeDigitsFrom_spec radix digitBefore '_' text
    (DigitRun.separator { stop := start, rest := '_' :: text } digitBefore '0' text) rfl
  have hinvalid := hinvalid rfl
  unfold consumeDigits
  dsimp only
  rw [consumeDigitsFrom, if_pos rfl]
  split
  · rfl
  · exact hinvalid

theorem isAscii_of_isRunCharacter {radix : Nat} {c : Char} (h : isRunCharacter radix c = true) :
    isAscii c := by
  rcases Bool.or_eq_true_iff.mp h with h | h
  · rw [eq_of_beq h]
    decide
  · obtain ⟨digit, hvalue, -⟩ := (Option.any_eq_true _ _).mp h
    exact isAscii_of_hexValue hvalue

theorem isDigit_of_isRadixDigit {radix : Nat} (hradix : radix ≤ 10) {c : Char}
    (h : isRadixDigit radix c) : c.isDigit = true := by
  obtain ⟨digit, hvalue, hlt⟩ := (Option.any_eq_true _ _).mp h
  have hlt : digit < radix := by simpa using hlt
  unfold hexValue at hvalue
  split_ifs at hvalue with hdigit hlower hupper
  · exact Bool.and_eq_true_iff.mpr ⟨decide_eq_true hdigit.1, decide_eq_true hdigit.2⟩
  · have := Option.some.inj hvalue
    omega
  · have := Option.some.inj hvalue
    omega

theorem isDigits_withoutSeparators {front : List Char}
    (h : ∀ c ∈ front, isRunCharacter 10 c = true) : IsDigits (withoutSeparatorChars front) := by
  intro c hc
  obtain ⟨hmem, hne⟩ := List.mem_filter.mp hc
  have hrun := h c hmem
  have hne : c ≠ '_' := by simpa using hne
  exact isDigit_of_isRadixDigit (Nat.le_refl 10) (by simpa [isRunCharacter, hne] using hrun)

/-! ## Slices -/

/-- A text stands at an offset of a source. -/
structure SourceText.IsAt (source : SourceText) (start : Nat) (text : List Char) : Prop where
  suffix : text <:+ source.text
  offset : start = source.offsetOf text

theorem SourceText.IsAt.slice {source : SourceText} {start : Nat} {front rest : List Char}
    (h : source.IsAt start (front ++ rest)) (hascii : ∀ c ∈ front, isAscii c) :
    source.slice ⟨source.id, start, start + front.length⟩ = String.ofList front := by
  obtain ⟨before, hbefore⟩ := h.suffix
  have hstart : start = utf8Length before := by
    rw [h.offset, SourceText.offsetOf_append hbefore.symm]
  have hstop : start + front.length - start = utf8Length front := by
    rw [Scanner.utf8Length_of_isAscii hascii, Nat.add_sub_cancel_left]
  rw [SourceText.slice, SourceText.sliceChars]
  simp only
  rw [hstop, hstart, ← hbefore, dropBytes_append]
  simp only [takeBytes_append, Option.getD_some]

/-! ## Octal and decimal readings -/

theorem radixNumber_append (radix : Nat) (digits : List Char) (c : Char) :
    radixNumber radix (digits ++ [c]) = radixNumber radix digits * radix + (hexValue c).getD 0 := by
  simp [radixNumber]

theorem digitChar_of_octal {c : Char} (h : isRadixDigit 8 c = true) :
    ∃ d < 8, c = Nat.digitChar d ∧ hexValue c = some d := by
  obtain ⟨d, hd, rfl⟩ := exists_digitChar (isDigit_of_isRadixDigit (by decide) h)
  have hvalue : ∀ d < 10, hexValue (Nat.digitChar d) = some d := by decide
  refine ⟨d, ?_, rfl, hvalue d hd⟩
  simpa [isRadixDigit, hvalue d hd] using h

/-- Digits denote more in decimal than in octal, but for a single one. -/
theorem octal_le_decimal {digits : List Char} (h : ∀ c ∈ digits, isRadixDigit 8 c = true) :
    (number digits < 8 → radixNumber 8 digits = number digits) ∧
      (8 ≤ number digits → 0 < radixNumber 8 digits ∧
        9 * radixNumber 8 digits ≤ 8 * number digits) := by
  induction digits using List.reverseRecOn with
  | nil => exact ⟨fun _ => rfl, fun hlarge => absurd hlarge (by decide)⟩
  | append_singleton digits c ih =>
    obtain ⟨d, hd, rfl, hvalue⟩ := digitChar_of_octal (h c (by simp))
    have ih := ih fun c hc => h c (List.mem_append_left _ hc)
    rw [radixNumber_append, hvalue, Option.getD_some, number_append, number_singleton (by omega),
      List.length_singleton, Nat.pow_one]
    generalize radixNumber 8 digits = octal at ih
    generalize number digits = decimal at ih
    obtain ⟨hsmall, hlarge⟩ := ih
    by_cases hlt : decimal < 8
    · rw [hsmall hlt]
      omega
    · obtain ⟨hpos, hle⟩ := hlarge (by omega)
      omega

theorem round_ne_round {x y : Nat} (hpos : 0 < x) (hratio : 9 * x ≤ 8 * y)
    (hbound : x < overflowBound) :
    binary64.round (inUnits x) ≠ binary64.round (inUnits y) := by
  intro heq
  have hround := isRounded_round binary64 (inUnits_nonneg (Nat.cast_nonneg x))
  have hround' := isRounded_round binary64 (inUnits_nonneg (Nat.cast_nonneg y))
  rw [← heq] at hround'
  have hnormal : 2 ^ 52 ≤ binary64.round (inUnits x) := by
    have hone : (1 : ℚ) ≤ x := by exact_mod_cast hpos
    have hle := (isRounded_round binary64 (inUnits_nonneg zero_le_one)).mono hround
      (inUnits_le hone)
    exact le_trans (by decide +kernel) hle
  have hfinite : binary64.round (inUnits x) < binary64.infinity := by
    refine lt_of_le_of_ne hround.le_infinity fun hinfinity => ?_
    rw [hinfinity] at hround
    have := (isRounded_infinity_iff_le x).mp hround
    omega
  have hnear := hround.sub_mul_le hround' hnormal hfinite
  have hunit : (0 : ℚ) < 2 ^ 1074 := by positivity
  have hx : (0 : ℚ) < x := by exact_mod_cast hpos
  have hratio : 9 * (x : ℚ) ≤ 8 * y := by exact_mod_cast hratio
  unfold inUnits at hnear
  generalize (2 : ℚ) ^ 1074 = unit at hnear hunit
  have hnear : (y - x) * 2 ^ 52 * unit ≤ 2 * x * unit := by
    calc (y - x) * 2 ^ 52 * unit = (y * unit - x * unit) * 2 ^ 52 := by ring
      _ ≤ 2 * (x * unit) := hnear
      _ = 2 * x * unit := by ring
  have hnear := le_of_mul_le_mul_right hnear hunit
  norm_num at hnear
  linarith

/-- Both readings of octal digits round to one double if they are small or overflow. -/
theorem octal_round_iff {digits : List Char} (h : ∀ c ∈ digits, isRadixDigit 8 c = true) :
    binary64.round (inUnits (radixNumber 8 digits)) = binary64.round (inUnits (number digits)) ↔
      ¬ (8 ≤ number digits ∧ radixNumber 8 digits < overflowBound) := by
  obtain ⟨hsmall, hlarge⟩ := octal_le_decimal h
  by_cases hlt : number digits < 8
  · rw [hsmall hlt]
    exact iff_of_true rfl fun hboth => absurd hboth.1 (by omega)
  · obtain ⟨hpos, hratio⟩ := hlarge (by omega)
    by_cases hbound : radixNumber 8 digits < overflowBound
    · exact iff_of_false (round_ne_round hpos hratio hbound) fun hnot => hnot ⟨by omega, hbound⟩
    · refine iff_of_true ?_ fun hboth => hbound hboth.2
      have hinfinity {n : Nat} (hn : overflowBound ≤ n) :
          binary64.round (inUnits n) = binary64.infinity :=
        (isRounded_round binary64 (inUnits_nonneg (Nat.cast_nonneg n))).unique
          ((isRounded_infinity_iff_le n).mpr hn)
      rw [hinfinity (by omega), hinfinity (by omega)]

/-! ## What digits denote -/

/-- The number that the digits of a token denote, without separators and a suffix. -/
def authoredValue (raw : List Char) : ℚ :=
  match prefixedNumeric raw with
  | some (digits, radix) => radixNumber radix (withoutSeparatorChars digits)
  | none =>
    if isLegacyOctal raw then radixNumber 8 (raw.drop 1)
    else decimalValue (raw.filter fun c => c ≠ '_' ∧ c ≠ 'n')

/-- The digits in front of a point or an exponent. -/
def integerDigits (raw : List Char) : List Char :=
  withoutSeparatorChars (raw.takeWhile (isRunCharacter 10))

/-- A token behind `0_` without a point and an exponent that has digits, whose digits denote two
doubles in octal and in decimal. -/
structure IsMisread (raw : List Char) : Prop where
  front : raw.take 2 = ['0', '_']
  point : '.' ∉ raw
  exponent : ∀ c ∈ raw.dropWhile (isRunCharacter 10), c.isDigit = false
  octal : (integerDigits raw).all (isRadixDigit 8) = true
  large : 8 ≤ number (integerDigits raw)
  bounded : radixNumber 8 (integerDigits raw) < overflowBound

/-! ## Decimal texts -/

/-- Only digits alone are octal ones. -/
theorem isLegacyOctal_parts {integer point exponent : List Char} (hpoint : IsPoint point)
    (hexponent : IsExponent exponent)
    (h : isLegacyOctal (integer ++ (point ++ exponent)) = true) :
    point = [] ∧ exponent = [] ∧ isLegacyOctal integer = true := by
  have hall : ∀ c ∈ integer ++ (point ++ exponent), isRadixDigit 8 c = true := by
    simp only [isLegacyOctal, Bool.and_eq_true] at h
    exact List.all_eq_true.mp h.2
  have hpoint' : point = [] := by
    obtain rfl | ⟨fraction, -, rfl⟩ := hpoint
    · rfl
    · exact absurd (hall '.' (by simp)) (by decide)
  subst hpoint'
  obtain rfl | ⟨mark, sign, digits, hmark, -, -, -, rfl⟩ := hexponent
  · exact ⟨rfl, rfl, by simpa using h⟩
  · have hmem := hall mark (by simp)
    rcases hmark with rfl | rfl
    · exact absurd hmem (by decide)
    · exact absurd hmem (by decide)

theorem radixNumber_drop {digits : List Char} (h : isLegacyOctal digits = true) :
    radixNumber 8 (digits.drop 1) = radixNumber 8 digits := by
  cases digits with
  | nil => rfl
  | cons c digits =>
    simp only [isLegacyOctal, List.head?_cons, Bool.and_eq_true, decide_eq_true_eq,
      Option.some.injEq] at h
    obtain ⟨⟨-, rfl⟩, -⟩ := h
    rfl

/-- A decimal text is read as its number, or in octal if all of it are octal digits. -/
theorem numericValue_parts {integer point exponent : List Char} (hinteger : IsDigits integer)
    (hpoint : IsPoint point) (hexponent : IsExponent exponent)
    (hsome : integer ++ point.drop 1 ≠ []) :
    numericValue (integer ++ (point ++ exponent)) =
      some (binary64.round (inUnits
        (if isLegacyOctal (integer ++ (point ++ exponent)) then
          (radixNumber 8 (integer ++ (point ++ exponent)) : ℚ)
        else decimalValue (integer ++ (point ++ exponent))))) := by
  rw [numericValue_eq, mathematicalValue, prefixedNumeric_parts hinteger hpoint hexponent]
  dsimp only
  split_ifs with hlegacy hdecimal
  · rw [radixNumber_drop hlegacy]
    rfl
  · rfl
  · exact absurd (isDecimalLiteral_of_parts hinteger hpoint hsome hexponent) hdecimal

/-- What is written of a decimal number: separators stand anywhere, and an exponent can lack its
digits. -/
structure Written (integer point exponent : List Char) : Prop where
  digits : withoutSeparatorChars integer ++ withoutSeparatorChars (point.drop 1) ≠ []
  integer : ∀ c ∈ integer, isRunCharacter 10 c = true
  point : point = [] ∨ ∃ fraction, (∀ c ∈ fraction, isRunCharacter 10 c = true) ∧
    point = '.' :: fraction
  exponent : exponent = [] ∨ ∃ mark sign digits, (mark = 'e' ∨ mark = 'E') ∧ IsSign sign ∧
    (∀ c ∈ digits, isRunCharacter 10 c = true) ∧ exponent = mark :: (sign ++ digits)

/-- The exponent that counts, without separators. -/
def completeExponent (exponent : List Char) : List Char :=
  if exponent.any Char.isDigit then withoutSeparatorChars exponent else []

namespace Written

variable {integer point exponent : List Char}

theorem withoutSeparators_append (front back : List Char) :
    withoutSeparatorChars (front ++ back) =
      withoutSeparatorChars front ++ withoutSeparatorChars back :=
  List.filter_append front back

theorem isPoint (h : Written integer point exponent) : IsPoint (withoutSeparatorChars point) := by
  obtain rfl | ⟨fraction, hfraction, rfl⟩ := h.point
  · exact .inl rfl
  · exact .inr ⟨_, isDigits_withoutSeparators hfraction, rfl⟩

theorem drop_point (h : Written integer point exponent) :
    (withoutSeparatorChars point).drop 1 = withoutSeparatorChars (point.drop 1) := by
  obtain rfl | ⟨fraction, hfraction, rfl⟩ := h.point <;> rfl

theorem withoutSeparators_sign {sign : List Char} (h : IsSign sign) :
    withoutSeparatorChars sign = sign := by
  obtain rfl | rfl | rfl := h <;> rfl

theorem withoutSeparators_exponent {mark : Char} {sign digits : List Char}
    (hmark : mark = 'e' ∨ mark = 'E') (hsign : IsSign sign) :
    withoutSeparatorChars (mark :: (sign ++ digits)) =
      mark :: (sign ++ withoutSeparatorChars digits) := by
  have hne : mark ≠ '_' := by rcases hmark with rfl | rfl <;> decide
  rw [withoutSeparatorChars, List.filter_cons_of_pos (by simpa using hne)]
  congr 1
  exact (withoutSeparators_append sign digits).trans (by rw [withoutSeparators_sign hsign])

theorem any_isDigit_exponent {mark : Char} {sign digits : List Char}
    (hmark : mark = 'e' ∨ mark = 'E') (hsign : IsSign sign)
    (hdigits : ∀ c ∈ digits, isRunCharacter 10 c = true) :
    (mark :: (sign ++ digits)).any Char.isDigit = true ↔ withoutSeparatorChars digits ≠ [] := by
  have hmark' : mark.isDigit = false := by rcases hmark with rfl | rfl <;> rfl
  have hsign' : sign.any Char.isDigit = false := by obtain rfl | rfl | rfl := hsign <;> rfl
  rw [List.any_cons, List.any_append, hmark', hsign', Bool.false_or, Bool.false_or,
    List.any_eq_true]
  constructor
  · rintro ⟨c, hc, hdigit⟩ hnil
    have hne : c ≠ '_' := by
      rintro rfl
      cases hdigit
    have hmem : c ∈ withoutSeparatorChars digits := List.mem_filter.mpr ⟨hc, by simpa using hne⟩
    rw [hnil] at hmem
    cases hmem
  · intro hne
    obtain ⟨c, hc⟩ := List.exists_mem_of_ne_nil _ hne
    exact ⟨c, List.mem_of_mem_filter hc, isDigits_withoutSeparators hdigits c hc⟩

theorem isExponent (h : Written integer point exponent) :
    IsExponent (completeExponent exponent) := by
  unfold completeExponent
  split_ifs with hany
  · obtain rfl | ⟨mark, sign, digits, hmark, hsign, hdigits, rfl⟩ := h.exponent
    · exact .inl rfl
    · exact .inr ⟨mark, sign, _, hmark, hsign, isDigits_withoutSeparators hdigits,
        (any_isDigit_exponent hmark hsign hdigits).mp hany, withoutSeparators_exponent hmark hsign⟩
  · exact .inl rfl

/-- An exponent without digits denotes zero. -/
theorem exponentValue_exponent (h : Written integer point exponent) :
    (EndsDigits (withoutSeparatorChars exponent) ∧
      (withoutSeparatorChars exponent).head? ≠ some '.') ∧
    exponentValue (withoutSeparatorChars exponent) = exponentValue (completeExponent exponent) := by
  have hcomplete := h.isExponent
  unfold completeExponent at hcomplete ⊢
  split_ifs at hcomplete ⊢ with hany
  · exact ⟨⟨hcomplete.endsDigits, hcomplete.head_ne⟩, rfl⟩
  · obtain rfl | ⟨mark, sign, digits, hmark, hsign, hdigits, rfl⟩ := h.exponent
    · exact ⟨⟨endsDigits_nil, by simp [withoutSeparatorChars]⟩, rfl⟩
    · have hnil : withoutSeparatorChars digits = [] := by
        by_contra hne
        exact hany ((any_isDigit_exponent hmark hsign hdigits).mpr hne)
      rw [withoutSeparators_exponent hmark hsign, hnil, List.append_nil]
      have hzero : exponentValue (mark :: sign) = exponentValue [] := by
        obtain rfl | rfl | rfl := hsign <;> rcases hmark with rfl | rfl <;> rfl
      refine ⟨⟨?_, ?_⟩, hzero⟩
      · intro c hc
        obtain rfl : mark = c := by simpa using hc
        rcases hmark with rfl | rfl <;> rfl
      · rcases hmark with rfl | rfl <;> simp

/-- The text that is read again. -/
def significant (integer point exponent : List Char) : List Char :=
  withoutSeparatorChars integer ++ (withoutSeparatorChars point ++ completeExponent exponent)

theorem mem_cases (h : Written integer point exponent) {c : Char}
    (hc : c ∈ integer ++ (point ++ exponent)) :
    c.isDigit = true ∨ c ∈ ['_', '.', 'e', 'E', '+', '-'] := by
  have hrun {c : Char} (hc : isRunCharacter 10 c = true) :
      c.isDigit = true ∨ c ∈ ['_', '.', 'e', 'E', '+', '-'] := by
    rcases Bool.or_eq_true_iff.mp hc with hc | hc
    · exact .inr (by simp [eq_of_beq hc])
    · exact .inl (isDigit_of_isRadixDigit (Nat.le_refl 10) hc)
  rcases List.mem_append.mp hc with hc | hc
  · exact hrun (h.integer c hc)
  rcases List.mem_append.mp hc with hc | hc
  · obtain rfl | ⟨fraction, hfraction, rfl⟩ := h.point
    · cases hc
    · rcases List.mem_cons.mp hc with rfl | hc
      · exact .inr (by decide)
      · exact hrun (hfraction c hc)
  · obtain rfl | ⟨mark, sign, digits, hmark, hsign, hdigits, rfl⟩ := h.exponent
    · cases hc
    · rcases List.mem_cons.mp hc with rfl | hc
      · exact .inr (by rcases hmark with rfl | rfl <;> decide)
      rcases List.mem_append.mp hc with hc | hc
      · refine .inr ?_
        obtain rfl | rfl | rfl := hsign
        · cases hc
        · rw [List.mem_singleton.mp hc]
          decide
        · rw [List.mem_singleton.mp hc]
          decide
      · exact hrun (hdigits c hc)

theorem not_mem (h : Written integer point exponent) {suffix : List Char}
    (hsuffix : suffix = [] ∨ suffix = ['n']) {c : Char} (hdigit : c.isDigit = false)
    (hother : c ∉ ['_', '.', 'e', 'E', '+', '-', 'n']) :
    c ∉ integer ++ (point ++ (exponent ++ suffix)) := by
  intro hc
  simp only [List.mem_cons, List.not_mem_nil, or_false, not_or] at hother
  have hc : c ∈ integer ++ (point ++ exponent) ∨ c ∈ suffix := by
    simpa [or_assoc] using hc
  rcases hc with hc | hc
  · rcases h.mem_cases hc with hd | hd
    · rw [hdigit] at hd
      cases hd
    · simp [hother] at hd
  · obtain rfl | rfl := hsuffix
    · cases hc
    · exact hother.2.2.2.2.2.2 (List.mem_singleton.mp hc)

theorem filter_raw (h : Written integer point exponent) {suffix : List Char}
    (hsuffix : suffix = [] ∨ suffix = ['n']) :
    (integer ++ (point ++ (exponent ++ suffix))).filter (fun c => c ≠ '_' ∧ c ≠ 'n') =
      withoutSeparatorChars integer ++
        (withoutSeparatorChars point ++ withoutSeparatorChars exponent) := by
  have hpart : (integer ++ (point ++ exponent)).filter (fun c => c ≠ '_' ∧ c ≠ 'n') =
      withoutSeparatorChars (integer ++ (point ++ exponent)) := by
    refine List.filter_congr fun c hc => ?_
    have hn : c ≠ 'n' := by
      rintro rfl
      rcases h.mem_cases hc with hd | hd
      · cases hd
      · exact absurd hd (by decide)
    simp [hn]
  have hnil : suffix.filter (fun c => c ≠ '_' ∧ c ≠ 'n') = [] := by
    obtain rfl | rfl := hsuffix <;> rfl
  rw [← List.append_assoc point, ← List.append_assoc integer, List.filter_append, hnil,
    List.append_nil, hpart, withoutSeparators_append, withoutSeparators_append]

/-- The exponent and the suffix do not belong to the digits in front. -/
theorem takeWhile_raw (h : Written integer point exponent) {suffix : List Char}
    (hsuffix : suffix = [] ∨ suffix = ['n']) :
    (integer ++ (point ++ (exponent ++ suffix))).takeWhile (isRunCharacter 10) = integer ∧
      (integer ++ (point ++ (exponent ++ suffix))).dropWhile (isRunCharacter 10) =
        point ++ (exponent ++ suffix) := by
  have hhead : ∀ c ∈ (point ++ (exponent ++ suffix)).head?, isRunCharacter 10 c = false := by
    intro c hc
    obtain rfl | ⟨fraction, -, rfl⟩ := h.point
    · obtain rfl | ⟨mark, sign, digits, hmark, -, -, rfl⟩ := h.exponent
      · obtain rfl | rfl := hsuffix
        · cases hc
        · obtain rfl : 'n' = c := by simpa using hc
          decide
      · obtain rfl : mark = c := by simpa using hc
        rcases hmark with rfl | rfl <;> decide
    · obtain rfl : '.' = c := by simpa using hc
      decide
  rw [List.takeWhile_append_of_pos h.integer, List.dropWhile_append_of_pos h.integer]
  cases hrest : point ++ (exponent ++ suffix) with
  | nil => simp
  | cons c rest =>
    rw [hrest] at hhead
    have hc := hhead c rfl
    simp [hc]

theorem authoredValue_raw (h : Written integer point exponent) {suffix raw : List Char}
    (hsuffix : suffix = [] ∨ suffix = ['n'])
    (hraw : raw = integer ++ (point ++ (exponent ++ suffix))) (hnot : isLegacyOctal raw = false) :
    authoredValue raw = decimalValue (significant integer point exponent) := by
  have hmarked : prefixedNumeric raw = none := by
    apply prefixedNumeric_eq_none
    intro c cs heq hc
    have hmem : c ∈ integer ++ (point ++ (exponent ++ suffix)) := by
      rw [← hraw, heq]
      simp
    refine h.not_mem hsuffix ?_ ?_ hmem
    · simp only [List.mem_cons, List.not_mem_nil, or_false] at hc
      rcases hc with rfl | rfl | rfl | rfl | rfl | rfl <;> decide
    · simp only [List.mem_cons, List.not_mem_nil, or_false] at hc
      rcases hc with rfl | rfl | rfl | rfl | rfl | rfl <;> decide
  obtain ⟨hends, hvalue⟩ := h.exponentValue_exponent
  rw [authoredValue, hmarked]
  dsimp only
  rw [hnot, if_neg Bool.false_ne_true, hraw, h.filter_raw hsuffix]
  exact decimalValue_congr (isDigits_withoutSeparators h.integer) h.isPoint hends
    ⟨h.isExponent.endsDigits, h.isExponent.head_ne⟩ hvalue

/-- A misread text is one of octal digits. -/
theorem isMisread_iff (h : Written integer point exponent) {suffix raw : List Char}
    (hsuffix : suffix = [] ∨ suffix = ['n'])
    (hraw : raw = integer ++ (point ++ (exponent ++ suffix)))
    (hfront : isLegacyOctal (withoutSeparatorChars integer) = true → raw.take 2 = ['0', '_']) :
    IsMisread raw ↔ isLegacyOctal (significant integer point exponent) = true ∧
      8 ≤ number (significant integer point exponent) ∧
      radixNumber 8 (significant integer point exponent) < overflowBound := by
  obtain ⟨htake, hdrop⟩ := h.takeWhile_raw hsuffix
  rw [← hraw] at htake hdrop
  have hdigits : integerDigits raw = withoutSeparatorChars integer := by
    rw [integerDigits, htake]
  constructor
  · intro hmisread
    have hpoint : point = [] := by
      obtain hnil | ⟨fraction, -, hpoint⟩ := h.point
      · exact hnil
      · exact absurd (by simp [hraw, hpoint]) hmisread.point
    have hexponent : completeExponent exponent = [] := by
      refine if_neg fun hany => ?_
      obtain ⟨c, hc, hdigit⟩ := List.any_eq_true.mp hany
      have hnone := hmisread.exponent c (by simp [hdrop, hc])
      rw [hdigit] at hnone
      cases hnone
    have hsignificant : significant integer point exponent = withoutSeparatorChars integer := by
      rw [significant, hpoint, hexponent]
      exact List.append_nil _
    have hoctal := hmisread.octal
    have hlarge := hmisread.large
    have hbounded := hmisread.bounded
    rw [hdigits] at hoctal hlarge hbounded
    rw [hsignificant]
    refine ⟨?_, hlarge, hbounded⟩
    obtain ⟨more, hmore⟩ : ∃ more, integer = '0' :: more := by
      have hmarked : raw = '0' :: '_' :: raw.drop 2 := by
        have hsplit := List.take_append_drop 2 raw
        rw [hmisread.front] at hsplit
        exact hsplit.symm
      refine ⟨(('_' :: raw.drop 2).takeWhile (isRunCharacter 10)), ?_⟩
      rw [← htake]
      conv_lhs => rw [hmarked]
      exact List.takeWhile_cons_of_pos rfl
    have htext : withoutSeparatorChars integer = '0' :: withoutSeparatorChars more := by
      rw [hmore]
      rfl
    have hlength : withoutSeparatorChars more ≠ [] := by
      intro hnil
      rw [htext, hnil] at hlarge
      exact absurd hlarge (by decide)
    rw [htext] at hoctal ⊢
    have hpos := List.length_pos_iff.mpr hlength
    simp only [isLegacyOctal, hoctal, List.length_cons, List.head?_cons, Bool.and_true,
      Bool.and_eq_true, decide_eq_true_eq]
    exact ⟨by omega, trivial⟩
  · rintro ⟨hlegacy, hlarge, hbounded⟩
    obtain ⟨hpoint, hexponent, hinteger⟩ := isLegacyOctal_parts h.isPoint h.isExponent hlegacy
    have hpoint' : point = [] := by
      obtain hnil | ⟨fraction, -, hpoint'⟩ := h.point
      · exact hnil
      · rw [hpoint'] at hpoint
        cases hpoint
    have hnone : exponent.any Char.isDigit = false := by
      by_contra hany
      have hany : exponent.any Char.isDigit = true := by simpa using hany
      obtain rfl | ⟨mark, sign, digits, hmark, hsign, -, rfl⟩ := h.exponent
      · cases hany
      · rw [completeExponent, if_pos hany, withoutSeparators_exponent hmark hsign] at hexponent
        cases hexponent
    have hsignificant : significant integer point exponent = withoutSeparatorChars integer := by
      rw [significant, hpoint, hexponent]
      exact List.append_nil _
    rw [hsignificant] at hlarge hbounded
    refine ⟨hfront hinteger, ?_, ?_, ?_, hdigits ▸ hlarge, hdigits ▸ hbounded⟩
    · rw [hraw, hpoint']
      intro hmem
      have hmem : '.' ∈ integer ∨ '.' ∈ exponent ∨ '.' ∈ suffix := by simpa using hmem
      rcases hmem with hmem | hmem | hmem
      · exact absurd (h.integer '.' hmem) (by decide)
      · obtain rfl | ⟨mark, sign, digits, hmark, hsign, hrun, rfl⟩ := h.exponent
        · cases hmem
        · rcases List.mem_cons.mp hmem with rfl | hmem
          · rcases hmark with hmark | hmark <;> cases hmark
          rcases List.mem_append.mp hmem with hmem | hmem
          · obtain rfl | rfl | rfl := hsign <;> simp at hmem
          · exact absurd (hrun '.' hmem) (by decide)
      · obtain rfl | rfl := hsuffix <;> simp at hmem
    · intro c hc
      rw [hdrop, hpoint'] at hc
      have hc : c ∈ exponent ∨ c ∈ suffix := by simpa using hc
      rcases hc with hc | hc
      · exact Bool.eq_false_iff.mpr fun hdigit =>
          Bool.eq_false_iff.mp hnone (List.any_eq_true.mpr ⟨c, hc, hdigit⟩)
      · obtain rfl | rfl := hsuffix
        · cases hc
        · rw [List.mem_singleton.mp hc]
          rfl
    · rw [hdigits]
      simp only [isLegacyOctal, Bool.and_eq_true] at hinteger
      exact hinteger.2

theorem numericValue_significant (h : Written integer point exponent) :
    numericValue (significant integer point exponent) =
      some (binary64.round (inUnits
        (if isLegacyOctal (significant integer point exponent) then
          (radixNumber 8 (significant integer point exponent) : ℚ)
        else decimalValue (significant integer point exponent)))) := by
  refine numericValue_parts (isDigits_withoutSeparators h.integer) h.isPoint h.isExponent ?_
  rw [h.drop_point]
  exact h.digits

/-- The text is read again as the number of the digits, but for a misread one. -/
theorem value_iff (h : Written integer point exponent) {suffix raw : List Char}
    (hsuffix : suffix = [] ∨ suffix = ['n'])
    (hraw : raw = integer ++ (point ++ (exponent ++ suffix))) (hnot : isLegacyOctal raw = false)
    (hfront : isLegacyOctal (withoutSeparatorChars integer) = true → raw.take 2 = ['0', '_']) :
    numericValue (significant integer point exponent) =
      some (binary64.round (inUnits (authoredValue raw))) ↔ ¬ IsMisread raw := by
  rw [h.isMisread_iff hsuffix hraw hfront, h.authoredValue_raw hsuffix hraw hnot,
    h.numericValue_significant, Option.some_inj]
  generalize significant integer point exponent = text
  by_cases hlegacy : isLegacyOctal text = true
  · have hlegacy' := hlegacy
    simp only [isLegacyOctal, Bool.and_eq_true] at hlegacy'
    have hoctal := List.all_eq_true.mp hlegacy'.2
    have hdecimal : decimalValue text = number text :=
      Decimal.decimalValue_digits fun c hc => isDigit_of_isRadixDigit (by decide) (hoctal c hc)
    rw [hdecimal, if_pos hlegacy, octal_round_iff hoctal]
    simp only [hlegacy, true_and]
  · rw [if_neg hlegacy]
    exact iff_of_true rfl fun hmisread => hlegacy hmisread.1

end Written

end Tsz.Syntax
