import Tsz.Syntax.Numbers.Display

/-!
# Reading number literals

The semantic text of a literal is read again: with a prefix, as a legacy octal number, or as a
decimal one. What is displayed is the text JavaScript gives the number.

## Main definitions

* `parseNumberLiteral` — the double a text denotes, and its text.

## Main results

* `parseNumberLiteral_decimal` — a text without a prefix that is no legacy octal one is decimal.
* `parseNumberLiteral_numberToString` — the text of a double is read as that double.
-/

namespace Tsz.Syntax

open Rounding Rounding.Format Decimals

def prefixedNumeric : List Char → Option (List Char × Nat)
  | '0' :: c :: digits =>
    if c = 'x' ∨ c = 'X' then some (digits, 16)
    else if c = 'b' ∨ c = 'B' then some (digits, 2)
    else if c = 'o' ∨ c = 'O' then some (digits, 8)
    else none
  | _ => none

/-- The digits behind a point, and what is behind them. -/
def fractionSplit : List Char → List Char × List Char
  | '.' :: rest => (rest.takeWhile Char.isDigit, rest.dropWhile Char.isDigit)
  | rest => ([], rest)

def dropSign : List Char → List Char
  | '+' :: rest | '-' :: rest => rest
  | rest => rest

def isDecimalLiteral (source : List Char) : Bool :=
  let (fraction, rest) := fractionSplit (source.dropWhile Char.isDigit)
  if (source.takeWhile Char.isDigit).length + fraction.length = 0 then false
  else
    match rest with
    | 'e' :: rest | 'E' :: rest =>
      !((dropSign rest).takeWhile Char.isDigit).isEmpty &&
        ((dropSign rest).dropWhile Char.isDigit).isEmpty
    | rest => rest.isEmpty

/-- Digits behind a leading zero that are all octal. -/
def isLegacyOctal (compact : List Char) : Bool :=
  1 < compact.length && compact.head? = some '0' && compact.all (isRadixDigit 8)

/-- A double by its bits, and its text. -/
structure ParsedNumberLiteral where
  value : Nat
  display : List Char

/-- The double that a text without separators denotes. -/
def numericValue (compact : List Char) : Option Nat :=
  match prefixedNumeric compact with
  | some (digits, radix) => parsePowerOfTwoInteger digits radix.log2
  | none =>
    if isLegacyOctal compact then parsePowerOfTwoInteger (compact.drop 1) 3
    else if isDecimalLiteral compact then some (binary64.round (inUnits (decimalValue compact)))
    else none

def parseNumberLiteral [ShortestDigits] (source : List Char) : Option ParsedNumberLiteral :=
  (numericValue (source.filter (· ≠ '_'))).map fun value =>
    { value, display := javascriptNumberToString false value }

/-- The number a text without separators denotes. -/
def mathematicalValue (compact : List Char) : Option ℚ :=
  match prefixedNumeric compact with
  | some (digits, radix) =>
    if digits ≠ [] ∧ digits.all (isRadixDigit radix) then some (radixNumber radix digits) else none
  | none =>
    if isLegacyOctal compact then some (radixNumber 8 (compact.drop 1))
    else if isDecimalLiteral compact then some (decimalValue compact)
    else none

/-! ## What is read -/

theorem radixDigit_eq_none {radix : Nat} {c : Char} (h : isRadixDigit radix c = false) :
    radixDigit radix c = none := by
  unfold isRadixDigit at h
  cases hdigit : hexValue c with
  | none => simp [radixDigit, hdigit]
  | some digit =>
    have hge : radix ≤ digit := by simpa [hdigit] using h
    simp [radixDigit, hdigit, hge]

theorem mapM_radixDigit_eq_none {radix : Nat} {digits : List Char}
    (h : digits.all (isRadixDigit radix) = false) : digits.mapM (radixDigit radix) = none := by
  induction digits with
  | nil => cases h
  | cons c digits ih =>
    rw [List.all_cons, Bool.and_eq_false_iff] at h
    rw [List.mapM_cons]
    cases hdigit : radixDigit radix c with
    | none => rfl
    | some digit =>
      have hrest := h.resolve_left fun hc => by
        rw [radixDigit_eq_none hc] at hdigit
        cases hdigit
      rw [ih hrest]
      rfl

/-- Reading digits of a power of two rounds their number. -/
theorem parsePowerOfTwoInteger_eq (digits : List Char) (bitsPerDigit : Nat) :
    parsePowerOfTwoInteger digits bitsPerDigit =
      if digits ≠ [] ∧ digits.all (isRadixDigit (2 ^ bitsPerDigit)) then
        some (binary64.round (inUnits (radixNumber (2 ^ bitsPerDigit) digits)))
      else none := by
  split_ifs with hvalid
  · obtain ⟨bits, hparse, hround⟩ := exists_parsePowerOfTwoInteger bitsPerDigit hvalid.1
      (by simpa using hvalid.2)
    have hpositive := inUnits_nonneg (Nat.cast_nonneg (radixNumber (2 ^ bitsPerDigit) digits))
    rw [hparse, (isRounded_round binary64 hpositive).unique hround]
  · unfold parsePowerOfTwoInteger
    split_ifs with hempty
    · rfl
    · have hall : digits.all (isRadixDigit (2 ^ bitsPerDigit)) = false := by
        by_contra htrue
        exact hvalid ⟨by simpa using hempty, by simpa using htrue⟩
      rw [Nat.one_shiftLeft, mapM_radixDigit_eq_none hall]
      rfl

theorem radix_of_prefix {compact digits : List Char} {radix : Nat}
    (h : prefixedNumeric compact = some (digits, radix)) : 2 ^ radix.log2 = radix := by
  unfold prefixedNumeric at h
  split at h
  · split_ifs at h <;> cases h <;> decide
  · cases h

/-- What is read is the double nearest to the number of the text. -/
theorem numericValue_eq (compact : List Char) :
    numericValue compact =
      (mathematicalValue compact).map fun x => binary64.round (inUnits x) := by
  unfold numericValue mathematicalValue
  split
  next digits radix hmarked =>
    rw [parsePowerOfTwoInteger_eq, radix_of_prefix hmarked]
    split_ifs <;> rfl
  next hmarked =>
    split_ifs with hlegacy hdecimal
    · simp only [isLegacyOctal, Bool.and_eq_true, decide_eq_true_eq] at hlegacy
      obtain ⟨⟨hlength, -⟩, hall⟩ := hlegacy
      have hdigits : compact.drop 1 ≠ [] ∧ (compact.drop 1).all (isRadixDigit (2 ^ 3)) := by
        constructor
        · intro hnil
          have hdrop := congrArg List.length hnil
          rw [List.length_drop, List.length_nil] at hdrop
          omega
        · exact List.all_eq_true.mpr fun c hc =>
            List.all_eq_true.mp hall c (List.mem_of_mem_drop hc)
      rw [parsePowerOfTwoInteger_eq, if_pos hdigits]
      rfl
    · rfl
    · rfl

theorem mathematicalValue_nonneg {compact : List Char} {x : ℚ}
    (h : mathematicalValue compact = some x) : 0 ≤ x := by
  unfold mathematicalValue at h
  split at h
  · split_ifs at h
    cases h
    positivity
  · split_ifs at h
    · cases h
      positivity
    · cases h
      exact decimalValue_nonneg _

/-! ## Decimal texts -/

section

variable {integer point exponent : List Char}

theorem fractionSplit_point (hpoint : IsPoint point) (hexponent : IsExponent exponent) :
    fractionSplit (point ++ exponent) = (point.drop 1, exponent) := by
  obtain rfl | ⟨fraction, hfraction, rfl⟩ := hpoint
  · obtain rfl | ⟨mark, sign, digits, hmark, -, -, -, rfl⟩ := hexponent
    · rfl
    · rcases hmark with rfl | rfl <;> rfl
  · obtain ⟨htake, hdrop⟩ := takeWhile_digits hfraction hexponent.endsDigits
    rw [List.cons_append, fractionSplit, htake, hdrop]
    rfl

theorem endsDigits_point (hpoint : IsPoint point) (hexponent : IsExponent exponent) :
    EndsDigits (point ++ exponent) := by
  obtain rfl | ⟨fraction, -, rfl⟩ := hpoint
  · exact hexponent.endsDigits
  · intro c hc
    obtain rfl : '.' = c := by simpa using hc
    rfl

/-- The characters of decimal texts. -/
theorem not_mem_parts (hinteger : IsDigits integer) (hpoint : IsPoint point)
    (hexponent : IsExponent exponent) {c : Char} (hdigit : c.isDigit = false)
    (hother : c ∉ ['.', 'e', 'E', '+', '-']) : c ∉ integer ++ (point ++ exponent) := by
  simp only [List.mem_cons, List.not_mem_nil, or_false, not_or] at hother
  have hpoint' : c ∉ point := by
    obtain rfl | ⟨fraction, hfraction, rfl⟩ := hpoint
    · simp
    · simp [hother, hfraction.not_mem hdigit]
  have hexponent' : c ∉ exponent := by
    obtain rfl | ⟨mark, sign, digits, hmark, hsign, hdigits, -, rfl⟩ := hexponent
    · simp
    · have hsign' : c ∉ sign := by
        obtain rfl | rfl | rfl := hsign <;> simp [hother]
      rcases hmark with rfl | rfl <;> simp [hother, hsign', hdigits.not_mem hdigit]
  simp only [List.mem_append, not_or]
  exact ⟨hinteger.not_mem hdigit, hpoint', hexponent'⟩

theorem dropSign_digits {sign digits : List Char} (hsign : IsSign sign) (hdigits : IsDigits digits) :
    dropSign (sign ++ digits) = digits := by
  obtain rfl | rfl | rfl := hsign
  · rw [List.nil_append]
    unfold dropSign
    split
    next => exact absurd (hdigits '+' (by simp)) (by decide)
    next => exact absurd (hdigits '-' (by simp)) (by decide)
    next => rfl
  · rfl
  · rfl

theorem isDecimalLiteral_of_parts (hinteger : IsDigits integer) (hpoint : IsPoint point)
    (hsome : integer ++ point.drop 1 ≠ []) (hexponent : IsExponent exponent) :
    isDecimalLiteral (integer ++ (point ++ exponent)) = true := by
  obtain ⟨htake, hdrop⟩ := takeWhile_digits hinteger (endsDigits_point hpoint hexponent)
  have hlength : ¬ integer.length + (point.drop 1).length = 0 := by
    rw [← List.length_append, List.length_eq_zero_iff]
    exact hsome
  simp only [isDecimalLiteral, htake, hdrop, fractionSplit_point hpoint hexponent, if_neg hlength]
  obtain rfl | ⟨mark, sign, digits, hmark, hsign, hdigits, hne, rfl⟩ := hexponent
  · rfl
  · obtain ⟨hall, hnone⟩ := takeWhile_digits hdigits endsDigits_nil
    rw [List.append_nil] at hall hnone
    rcases hmark with rfl | rfl <;> simp [dropSign_digits hsign hdigits, hall, hnone, hne]

end

/-! ## Texts that are read as decimal ones -/

theorem prefixedNumeric_eq_none {text : List Char}
    (h : ∀ c cs, text = '0' :: c :: cs → c ∉ ['x', 'X', 'b', 'B', 'o', 'O']) :
    prefixedNumeric text = none := by
  unfold prefixedNumeric
  split
  next c digits =>
    have hc := h c digits rfl
    simp only [List.mem_cons, List.not_mem_nil, or_false, not_or] at hc
    simp [hc]
  next => rfl

/-- Neither letter of a prefix is in a decimal text. -/
theorem prefixedNumeric_parts {integer point exponent : List Char} (hinteger : IsDigits integer)
    (hpoint : IsPoint point) (hexponent : IsExponent exponent) :
    prefixedNumeric (integer ++ (point ++ exponent)) = none := by
  apply prefixedNumeric_eq_none
  intro c cs heq hc
  have hmem : c ∈ integer ++ (point ++ exponent) := by simp [heq]
  refine not_mem_parts hinteger hpoint hexponent ?_ ?_ hmem
  · simp only [List.mem_cons, List.not_mem_nil, or_false] at hc
    rcases hc with rfl | rfl | rfl | rfl | rfl | rfl <;> decide
  · simp only [List.mem_cons, List.not_mem_nil, or_false] at hc
    rcases hc with rfl | rfl | rfl | rfl | rfl | rfl <;> decide

theorem numericValue_decimal {compact : List Char} (hmarked : prefixedNumeric compact = none)
    (hlegacy : isLegacyOctal compact = false) (hdecimal : isDecimalLiteral compact = true) :
    numericValue compact = some (binary64.round (inUnits (decimalValue compact))) := by
  simp [numericValue, hmarked, hlegacy, hdecimal]

/-! ## Natural numbers -/

theorem filter_digits {digits : List Char} (h : IsDigits digits) :
    digits.filter (· ≠ '_') = digits := by
  rw [List.filter_eq_self]
  intro c hc
  have hne : c ≠ '_' := by
    rintro rfl
    exact absurd (h '_' hc) (by decide)
  simpa using hne

theorem numericValue_digits {digits : List Char} (h : IsDigits digits) (hne : digits ≠ [])
    (hlegacy : isLegacyOctal digits = false) :
    numericValue digits = some (binary64.round (inUnits (number digits))) := by
  have hmarked : prefixedNumeric digits = none := by
    simpa using prefixedNumeric_parts h (.inl rfl) (.inl rfl)
  have hdecimal : isDecimalLiteral digits = true := by
    simpa using isDecimalLiteral_of_parts h (.inl rfl) (by simpa using hne) (.inl rfl)
  rw [numericValue_decimal hmarked hlegacy hdecimal, Decimal.decimalValue_digits h]

theorem numericValue_toDigits (n : Nat) :
    numericValue (Nat.toDigits 10 n) = some (binary64.round (inUnits n)) := by
  have hlegacy : isLegacyOctal (Nat.toDigits 10 n) = false := by
    rcases Nat.eq_zero_or_pos n with rfl | hpos
    · rfl
    · obtain ⟨c, cs, htext, hc⟩ := head_toDigits hpos
      simp [isLegacyOctal, htext, hc]
  rw [numericValue_digits (isDigits_toDigits n) Nat.toDigits_ne_nil hlegacy, number_toDigits]

/-! ## The text of a double -/

/-- A text that begins with a digit, and with a zero only in front of a point. -/
theorem isLegacyOctal_eq_false {c : Char} {integer rest : List Char}
    (hzero : c = '0' → integer = [] ∧ ∃ fraction, rest = '.' :: fraction) :
    isLegacyOctal (c :: integer ++ rest) = false := by
  by_cases hc : c = '0'
  · obtain ⟨rfl, fraction, rfl⟩ := hzero hc
    simp [isLegacyOctal, show isRadixDigit 8 '.' = false by decide]
  · simp [isLegacyOctal, hc]

theorem isRounded_shortest [ShortestDigits] {bits : Nat} (hpos : 0 < bits)
    (hfinite : bits < binary64.infinity) :
    binary64.round (inUnits (ShortestDigits.shortest bits).value) = bits :=
  (isRounded_round binary64 (inUnits_nonneg (Decimal.value_pos _).le)).unique
    (ShortestDigits.isShortest bits hpos hfinite).rounds

theorem numericValue_numberToString (d : Decimal) :
    numericValue d.numberToString = some (binary64.round (inUnits d.value)) := by
  obtain ⟨c, integer, point, exponent, htext, hinteger, hpoint, hexponent, hzero⟩ := d.exists_parts
  have hzero' : c = '0' → integer = [] ∧ ∃ fraction, point ++ exponent = '.' :: fraction := by
    intro hc
    obtain ⟨hnil, hne⟩ := hzero hc
    obtain rfl | ⟨fraction, -, rfl⟩ := hpoint
    · exact absurd rfl hne
    · exact ⟨hnil, _, rfl⟩
  rw [← Decimal.decimalValue_numberToString]
  refine numericValue_decimal ?_ ?_ ?_
  · rw [htext, List.append_assoc]
    exact prefixedNumeric_parts hinteger hpoint hexponent
  · rw [htext, List.append_assoc]
    exact isLegacyOctal_eq_false hzero'
  · rw [htext, List.append_assoc]
    exact isDecimalLiteral_of_parts hinteger hpoint (by simp) hexponent

theorem not_mem_numberToString (d : Decimal) {c : Char} (hdigit : c.isDigit = false)
    (hother : c ∉ ['.', 'e', 'E', '+', '-']) : c ∉ d.numberToString := by
  obtain ⟨e, integer, point, exponent, htext, hinteger, hpoint, hexponent, -⟩ := d.exists_parts
  rw [htext, List.append_assoc]
  exact not_mem_parts hinteger hpoint hexponent hdigit hother

theorem javascriptNumberToString_false [ShortestDigits] {bits : Nat} (hpos : 0 < bits)
    (hfinite : bits ≠ binary64.infinity) :
    javascriptNumberToString false bits = (ShortestDigits.shortest bits).numberToString := by
  rw [javascriptNumberToString, if_neg hpos.ne', if_neg hfinite]
  exact placeDigits_debugText _ _

theorem filter_numberToString (d : Decimal) :
    d.numberToString.filter (· ≠ '_') = d.numberToString := by
  rw [List.filter_eq_self]
  intro c hc
  have hne : c ≠ '_' := by
    rintro rfl
    exact not_mem_numberToString _ (by decide) (by decide) hc
  simpa using hne

/-- The text of a double is read as that double. -/
theorem parseNumberLiteral_numberToString [ShortestDigits] {bits : Nat} (hpos : 0 < bits)
    (hfinite : bits < binary64.infinity) :
    parseNumberLiteral (ShortestDigits.shortest bits).numberToString =
      some ⟨bits, (ShortestDigits.shortest bits).numberToString⟩ := by
  rw [parseNumberLiteral, filter_numberToString, numericValue_numberToString,
    isRounded_shortest hpos hfinite, Option.map_some,
    javascriptNumberToString_false hpos hfinite.ne]

end Tsz.Syntax
