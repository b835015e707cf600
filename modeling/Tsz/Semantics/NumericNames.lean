import Tsz.Syntax.Numbers.Parse

/-!
# Numeric property names

A property name is numeric if it is the text of a number: it is read as a literal and compared with
the text of what was read.

## Main definitions

* `Number.toText` — the text of a number.
* `isNumericLiteralName`, `canonicalArrayIndex` — the names the checker takes for numbers and for
  indices.

## Main results

* `isNumericLiteralName_iff`, `canonicalArrayIndex_iff` — they are the texts of numbers, and of
  natural numbers.
* `shortest_natural` — the shortest digits of a natural number are its own.
-/

namespace Tsz.Semantics

open Rounding Rounding.Format Decimals Syntax

/-- Not a number, or a double by its sign and its bits. -/
inductive Number where
  | nan
  | double (negative : Bool) (bits : Nat) (le_infinity : bits ≤ binary64.infinity)

/-- The text JavaScript gives a double. -/
def doubleToText [ShortestDigits] (negative : Bool) (bits : Nat) : List Char :=
  if bits = 0 then ['0']
  else
    (if negative then ['-'] else []) ++
      if bits = binary64.infinity then "Infinity".toList
      else (ShortestDigits.shortest bits).numberToString

/-- The text JavaScript gives a number. -/
def Number.toText [ShortestDigits] : Number → List Char
  | .nan => "NaN".toList
  | .double negative bits _ => doubleToText negative bits

def stripMinus : List Char → Bool × List Char
  | '-' :: source => (true, source)
  | value => (false, value)

def isNumericLiteralName [ShortestDigits] (value : List Char) : Bool :=
  if value = "NaN".toList ∨ value = "Infinity".toList ∨ value = "-Infinity".toList then true
  else
    let (negative, source) := stripMinus value
    match parseNumberLiteral source with
    | none => false
    | some parsed =>
      if negative then parsed.display ≠ ['0'] && source = parsed.display
      else value = parsed.display

/-- The index is cut off at the largest one. -/
def canonicalArrayIndex [ShortestDigits] (value : List Char) : Option Nat :=
  (parseNumberLiteral value).bind fun parsed =>
    if value = parsed.display ∧ parsed.value < binary64.infinity ∧
        2 ^ 1074 ∣ binary64.units parsed.value ∧
        parsed.value ≤ binary64.round (inUnits 18446744073709551616) then
      some (min (binary64.units parsed.value / 2 ^ 1074) 18446744073709551615)
    else none

/-! ## Texts -/

theorem stripMinus_cases (value : List Char) :
    (∃ source, value = '-' :: source ∧ stripMinus value = (true, source)) ∨
      stripMinus value = (false, value) := by
  unfold stripMinus
  split
  next source => exact .inl ⟨source, rfl, rfl⟩
  next => exact .inr rfl

theorem stripMinus_numberToString (d : Decimal) :
    stripMinus d.numberToString = (false, d.numberToString) := by
  obtain ⟨c, integer, point, exponent, htext, hinteger, -⟩ := d.exists_parts
  have hc : c ≠ '-' := by
    rintro rfl
    exact absurd (hinteger '-' (by simp)) (by decide)
  rw [htext, List.append_assoc, List.cons_append]
  unfold stripMinus
  split
  next heq => exact absurd (List.cons.inj heq).1 hc
  next => rfl

theorem numberToString_ne_zero (d : Decimal) : d.numberToString ≠ ['0'] := by
  intro heq
  have hvalue := Decimal.decimalValue_numberToString d
  have hpos := d.value_pos
  have hzero : decimalValue ['0'] = 0 := by decide +kernel
  rw [heq, hzero] at hvalue
  exact hpos.ne hvalue

/-! ## Doubles of natural numbers -/

theorem inUnits_natural (n : Nat) : inUnits n = (n * 2 ^ 1074 : Nat) := by
  rw [inUnits, Nat.cast_mul, Nat.cast_pow, Nat.cast_ofNat]

theorem double_pow (k : Nat) : 2 ^ 52 * 2 ^ (k + 1) = 2 ^ 53 * 2 ^ k := by
  rw [← Nat.pow_add, ← Nat.pow_add]
  congr 1
  omega

theorem mul_pow_lt {m n : Nat} (h : m < n) (k : Nat) : m * 2 ^ k < n * 2 ^ k :=
  Nat.mul_lt_mul_of_pos_right h (Nat.two_pow_pos k)

/-- Up to the last one without a gap, natural numbers are doubles. -/
theorem exists_units_natural {n : Nat} (h : n ≤ 2 ^ 53) :
    ∃ bits < binary64.infinity, binary64.units bits = n * 2 ^ 1074 := by
  rcases Nat.eq_zero_or_pos n with rfl | hpos
  · exact ⟨0, by decide, by rw [units_of_lt (Nat.two_pow_pos _), Nat.zero_mul]⟩
  obtain ⟨m, e, hlow, hhigh, he, hm⟩ : ∃ m e, 2 ^ 52 ≤ m ∧ m < 2 ^ 53 ∧ e < 1076 ∧
      m * 2 ^ e = n * 2 ^ 1074 := by
    rcases h.lt_or_eq with hlt | rfl
    · have hlog : n.log2 < 53 := (Nat.log2_lt hpos.ne').mpr hlt
      have hlow := Nat.log2_self_le hpos.ne'
      have hhigh := Nat.lt_log2_self (n := n)
      have hlow := Nat.mul_le_mul_right (2 ^ (52 - n.log2)) hlow
      have hhigh := Nat.mul_lt_mul_of_pos_right hhigh (Nat.two_pow_pos (52 - n.log2))
      rw [← Nat.pow_add, show n.log2 + (52 - n.log2) = 52 by omega] at hlow
      rw [← Nat.pow_add, show n.log2 + 1 + (52 - n.log2) = 53 by omega] at hhigh
      refine ⟨_, 1022 + n.log2, hlow, hhigh, by omega, ?_⟩
      rw [Nat.mul_assoc, ← Nat.pow_add]
      congr 2
      omega
    · exact ⟨2 ^ 52, 1074 + 1, le_rfl, by decide, by decide, double_pow 1074⟩
  obtain ⟨fraction, rfl⟩ := Nat.exists_eq_add_of_le hlow
  refine ⟨(e + 1) * 2 ^ 52 + fraction, ?_, ?_⟩
  · rw [infinity]
    dsimp only [binary64]
    omega
  · rw [← hm]
    exact units_binary64 e fraction (by omega)

theorem bits_natural {bits n : Nat} (hpos : 0 < n) (h : n ≤ 2 ^ 53)
    (hunits : binary64.units bits = n * 2 ^ 1074) : 0 < bits ∧ bits < binary64.infinity := by
  obtain ⟨other, hfinite, hother⟩ := exists_units_natural h
  obtain rfl : other = bits := units_strictMono.injective (hother.trans hunits.symm)
  refine ⟨Nat.pos_of_ne_zero ?_, hfinite⟩
  rintro rfl
  have hzero := mul_pow_lt hpos 1074
  rw [units_of_lt (Nat.two_pow_pos _)] at hunits
  omega

theorem units_round_natural {n : Nat} (h : n ≤ 2 ^ 53) :
    binary64.units (binary64.round (inUnits n)) = n * 2 ^ 1074 := by
  obtain ⟨bits, hfinite, hunits⟩ := exists_units_natural h
  have hround : IsRounded binary64 (inUnits n) bits := by
    rw [inUnits_natural, ← hunits]
    exact isRounded_units hfinite.le
  rw [(isRounded_round binary64 (inUnits_nonneg (Nat.cast_nonneg n))).unique hround, hunits]

/-- What rounds to a natural number is near it. -/
theorem value_natural {bits n : Nat} {x : ℚ} (hpos : 0 < n) (hlt : n < 2 ^ 53)
    (hunits : binary64.units bits = n * 2 ^ 1074) (h : IsRounded binary64 (inUnits x) bits) :
    (n : ℚ) - 1 / 2 ≤ x ∧ x ≤ n + 1 / 2 := by
  have hunit : (0 : ℚ) < 2 ^ 1074 := by positivity
  obtain ⟨below, hbelow, hbelowUnits⟩ := exists_units_natural (show n - 1 ≤ 2 ^ 53 by omega)
  obtain ⟨above, habove, haboveUnits⟩ := exists_units_natural (show n + 1 ≤ 2 ^ 53 by omega)
  have hbelowBits : below < bits := by
    rw [← units_strictMono.lt_iff_lt, hbelowUnits, hunits]
    exact mul_pow_lt (Nat.sub_lt hpos Nat.one_pos) 1074
  have haboveBits : bits < above := by
    rw [← units_strictMono.lt_iff_lt, haboveUnits, hunits]
    exact mul_pow_lt (Nat.lt_succ_self n) 1074
  have hlow := h.le_two_mul hbelowBits
  have hhigh := h.two_mul_le haboveBits habove.le
  rw [hunits, hbelowUnits, ← inUnits_natural, ← inUnits_natural, Nat.cast_sub hpos] at hlow
  rw [hunits, haboveUnits, ← inUnits_natural, ← inUnits_natural] at hhigh
  unfold inUnits at hlow hhigh
  generalize (2 : ℚ) ^ 1074 = unit at hunit hlow hhigh
  push_cast at hlow hhigh
  have hlow' : (2 * n - 1) * unit ≤ 2 * x * unit := by linarith
  have hhigh' : 2 * x * unit ≤ (2 * n + 1) * unit := by linarith
  have hlow := le_of_mul_le_mul_right hlow' hunit
  have hhigh := le_of_mul_le_mul_right hhigh' hunit
  constructor
  · linarith
  · linarith

/-- The power of ten below a natural number tells the size of its digits. -/
theorem scale_natural {bits n : Nat} {d : Decimal} (hpos : 0 < n) (hlt : n < 2 ^ 53)
    (hunits : binary64.units bits = n * 2 ^ 1074) (h : IsShortest bits d) : 0 ≤ d.scale := by
  have hlow := Nat.pow_log_le_self 10 hpos.ne'
  have hhigh := Nat.lt_pow_succ_log_self (b := 10) (by decide) n
  generalize Nat.log 10 n = k at hlow hhigh
  have hunit : (10 : ℚ) ^ (k : Int) = (10 ^ k : Nat) := by push_cast; rfl
  have hlength : d.digits.length ≤ k + 1 := by
    obtain ⟨other, hvalue, hscale⟩ := Decimal.exists_value_eq hpos 0
    rw [zpow_zero, mul_one] at hvalue
    have hexponent : other.exponent < k + 1 := by
      refine (zpow_lt_zpow_iff_right₀ (a := (10 : ℚ)) (by norm_num)).mp ?_
      refine other.value_bounds.1.trans_lt ?_
      rw [hvalue]
      exact_mod_cast hhigh
    have hfewest := h.fewest other (by
      rw [hvalue, inUnits_natural, ← hunits]
      exact isRounded_units (bits_natural hpos hlt.le hunits).2.le)
    unfold Decimal.scale at hscale
    omega
  have hgap : binary64.round (inUnits (9 / 10 * (10 ^ k : Nat))) <
      binary64.round (inUnits (10 ^ k : Nat)) := by
    cases k with
    | zero => decide +kernel
    | succ k =>
      have hnine : (9 / 10 * (10 ^ (k + 1) : Nat) : ℚ) = (9 * 10 ^ k : Nat) := by
        push_cast
        ring
      rw [hnine, ← units_strictMono.lt_iff_lt (f := units binary64),
        units_round_natural (by omega), units_round_natural (by omega)]
      exact mul_pow_lt (by omega) 1074
  have hexponent : ¬ d.exponent < k := by
    rw [exponent_lt_iff h hunit hgap, ← units_strictMono.lt_iff_lt (f := units binary64), hunits,
      units_round_natural (by omega), not_lt]
    exact Nat.mul_le_mul_right _ hlow
  unfold Decimal.scale
  omega

section

variable [ShortestDigits]

/-! ## Numeric names -/

theorem parseNumberLiteral_zero : parseNumberLiteral ['0'] = some ⟨0, ['0']⟩ := by
  have hvalue : numericValue ['0'] = some 0 := by decide +kernel
  rw [parseNumberLiteral, show ['0'].filter (· ≠ '_') = ['0'] from rfl, hvalue, Option.map_some,
    javascriptNumberToString, if_pos rfl]
  rfl

/-- What is read with its own text is a number. -/
theorem exists_number_of_parse {source : List Char} {parsed : ParsedNumberLiteral}
    (hparse : parseNumberLiteral source = some parsed) (hsource : source = parsed.display)
    (hinfinity : source ≠ "Infinity".toList) :
    (parsed.value = 0 ∧ source = ['0']) ∨
      (0 < parsed.value ∧ parsed.value < binary64.infinity ∧
        source = (ShortestDigits.shortest parsed.value).numberToString) := by
  obtain ⟨value, hvalue, rfl⟩ := Option.map_eq_some_iff.mp hparse
  dsimp only at hsource ⊢
  rcases Nat.eq_zero_or_pos value with rfl | hpos
  · exact .inl ⟨rfl, hsource.trans (if_pos rfl)⟩
  · have hfinite : value ≠ binary64.infinity := by
      rintro rfl
      rw [javascriptNumberToString, if_neg hpos.ne', if_pos rfl] at hsource
      exact hinfinity hsource
    rw [javascriptNumberToString_false hpos hfinite] at hsource
    have hround : value ≤ binary64.infinity := by
      have hread := numericValue_numberToString (ShortestDigits.shortest value)
      have hcompact : source.filter (· ≠ '_') = source := by
        rw [hsource]
        exact filter_numberToString _
      rw [hcompact, hsource, hread] at hvalue
      rw [← Option.some.inj hvalue]
      exact (isRounded_round binary64 (inUnits_nonneg (Decimal.value_pos _).le)).le_infinity
    exact .inr ⟨hpos, by omega, hsource⟩

theorem parseNumberLiteral_shortest {bits : Nat} (hpos : 0 < bits)
    (hle : bits ≤ binary64.infinity) (hfinite : bits ≠ binary64.infinity) :
    parseNumberLiteral (ShortestDigits.shortest bits).numberToString =
      some ⟨bits, (ShortestDigits.shortest bits).numberToString⟩ :=
  parseNumberLiteral_numberToString hpos (by omega)

theorem isNumericLiteralName_toText (number : Number) :
    isNumericLiteralName number.toText = true := by
  cases number with
  | nan => rfl
  | double negative bits hle =>
    rw [Number.toText, doubleToText]
    rcases Nat.eq_zero_or_pos bits with rfl | hpos
    · rw [if_pos rfl, isNumericLiteralName, if_neg (by decide)]
      simp [stripMinus, parseNumberLiteral_zero]
    rw [if_neg hpos.ne']
    by_cases hfinite : bits = binary64.infinity
    · rw [if_pos hfinite]
      cases negative <;> rfl
    · rw [if_neg hfinite]
      have hparse := parseNumberLiteral_shortest hpos hle hfinite
      cases negative with
      | true =>
        rw [if_pos rfl, isNumericLiteralName]
        split_ifs
        · rfl
        · simp [stripMinus, hparse, numberToString_ne_zero]
      | false =>
        rw [if_neg Bool.false_ne_true, isNumericLiteralName]
        split_ifs
        · rfl
        · simp [stripMinus_numberToString, hparse]

/-- A name is numeric if it is the text of a number. -/
theorem isNumericLiteralName_iff (value : List Char) :
    isNumericLiteralName value = true ↔ ∃ number : Number, number.toText = value := by
  constructor
  · intro h
    unfold isNumericLiteralName at h
    split_ifs at h with hword
    · rcases hword with rfl | rfl | rfl
      · exact ⟨.nan, rfl⟩
      · exact ⟨.double false binary64.infinity le_rfl, rfl⟩
      · exact ⟨.double true binary64.infinity le_rfl, rfl⟩
    push Not at hword
    rcases stripMinus_cases value with ⟨source, rfl, hstrip⟩ | hstrip
    · rw [hstrip] at h
      cases hparse : parseNumberLiteral source with
      | none => simp [hparse] at h
      | some parsed =>
        obtain ⟨hzero, hsource⟩ : parsed.display ≠ ['0'] ∧ source = parsed.display := by
          simpa [hparse] using h
        have hinfinity : source ≠ "Infinity".toList := by
          rintro rfl
          exact hword.2.2 rfl
        obtain ⟨-, hnone⟩ | ⟨hpos, hfinite, htext⟩ :=
          exists_number_of_parse hparse hsource hinfinity
        · exact absurd (hsource.symm.trans hnone) hzero
        · refine ⟨.double true parsed.value hfinite.le, ?_⟩
          rw [Number.toText, doubleToText, if_neg hpos.ne', if_neg hfinite.ne, if_pos rfl, ← htext]
          rfl
    · rw [hstrip] at h
      cases hparse : parseNumberLiteral value with
      | none => simp [hparse] at h
      | some parsed =>
        have hsource : value = parsed.display := by simpa [hparse] using h
        obtain ⟨hzero, htext⟩ | ⟨hpos, hfinite, htext⟩ :=
          exists_number_of_parse hparse hsource hword.2.1
        · exact ⟨.double false 0 (Nat.zero_le _), by rw [Number.toText, doubleToText, if_pos rfl, htext]⟩
        · refine ⟨.double false parsed.value hfinite.le, ?_⟩
          rw [Number.toText, doubleToText, if_neg hpos.ne', if_neg hfinite.ne, ← htext]
          rfl
  · rintro ⟨number, rfl⟩
    exact isNumericLiteralName_toText number

/-! ## Natural numbers -/

/-- The shortest digits of a natural number are its own. -/
theorem shortest_natural {bits n : Nat} (hpos : 0 < n) (hlt : n < 2 ^ 53)
    (hunits : binary64.units bits = n * 2 ^ 1074) :
    (ShortestDigits.shortest bits).numberToString = Nat.toDigits 10 n := by
  obtain ⟨hbits, hfinite⟩ := bits_natural hpos hlt.le hunits
  have hshortest := ShortestDigits.isShortest bits hbits hfinite
  generalize ShortestDigits.shortest bits = d at hshortest
  obtain ⟨hlow, hhigh⟩ := value_natural hpos hlt hunits hshortest.rounds
  have hscale := scale_natural hpos hlt hunits hshortest
  obtain ⟨k, hk⟩ := Int.eq_ofNat_of_zero_le hscale
  have hvalue : d.value = n := by
    have hnatural := Decimal.value_eq_of_scale hk
    rw [hnatural] at hlow hhigh ⊢
    generalize number (d.digits ++ List.replicate k '0') = m at hlow hhigh
    have hle : m < n + 1 := by
      have : (m : ℚ) < n + 1 := by linarith
      exact_mod_cast this
    have hge : n < m + 1 := by
      have : (n : ℚ) < m + 1 := by linarith
      exact_mod_cast this
    have heq : m = n := by omega
    rw [heq]
  refine Decimal.numberToString_natural hvalue hscale ?_
  have hbound : (10 : ℚ) ^ d.exponent < 10 ^ (21 : Int) := by
    have hsmall : (n : ℚ) < 10 ^ (21 : Int) := by
      have : (n : ℚ) < 2 ^ 53 := by exact_mod_cast hlt
      exact this.trans (by norm_num)
    exact (hvalue ▸ d.value_bounds.1).trans_lt hsmall
  exact (zpow_lt_zpow_iff_right₀ (by norm_num)).mp hbound

/-- The text of a natural number is read as it. -/
theorem parseNumberLiteral_natural {n : Nat} (hlt : n < 2 ^ 53) :
    ∃ bits, parseNumberLiteral (Nat.toDigits 10 n) = some ⟨bits, Nat.toDigits 10 n⟩ ∧
      bits < binary64.infinity ∧ binary64.units bits = n * 2 ^ 1074 := by
  rcases Nat.eq_zero_or_pos n with rfl | hpos
  · exact ⟨0, parseNumberLiteral_zero, by decide, by
      rw [units_of_lt (Nat.two_pow_pos _), Nat.zero_mul]⟩
  · obtain ⟨bits, hfinite, hunits⟩ := exists_units_natural hlt.le
    have hbits := (bits_natural hpos hlt.le hunits).1
    have hparse := parseNumberLiteral_numberToString hbits hfinite
    rw [shortest_natural hpos hlt hunits] at hparse
    exact ⟨bits, hparse, hfinite, hunits⟩

/-- An index is the text of a natural number. -/
theorem canonicalArrayIndex_iff (value : List Char) {n : Nat} (hlt : n < 2 ^ 53) :
    canonicalArrayIndex value = some n ↔ value = Nat.toDigits 10 n := by
  unfold canonicalArrayIndex
  constructor
  · intro h
    obtain ⟨parsed, hparse, h⟩ := Option.bind_eq_some_iff.mp h
    split_ifs at h with hindex
    obtain ⟨hsource, hfinite, hdvd, -⟩ := hindex
    have hunits : binary64.units parsed.value = n * 2 ^ 1074 := by
      obtain ⟨m, hm⟩ := hdvd
      rw [hm, Nat.mul_div_cancel_left _ (Nat.two_pow_pos _)] at h
      have heq := Option.some.inj h
      obtain rfl : m = n := by omega
      rw [hm, Nat.mul_comm]
    have hinfinity : value ≠ "Infinity".toList := by
      rintro rfl
      cases hparse
    obtain ⟨hzero, rfl⟩ | ⟨hpos, -, htext⟩ := exists_number_of_parse hparse hsource hinfinity
    · have hn : n = 0 := by
        by_contra hne
        have := (bits_natural (Nat.pos_of_ne_zero hne) hlt.le hunits).1
        omega
      rw [hn]
      rfl
    · rw [htext]
      refine shortest_natural (Nat.pos_of_ne_zero ?_) hlt hunits
      rintro rfl
      have hzero := units_strictMono (F := binary64) hpos
      omega
  · rintro rfl
    obtain ⟨bits, hparse, hfinite, hunits⟩ := parseNumberLiteral_natural hlt
    have hbound : bits ≤ binary64.round (inUnits 18446744073709551616) := by
      have hround : IsRounded binary64 (inUnits n) bits := by
        rw [inUnits_natural, ← hunits]
        exact isRounded_units hfinite.le
      have hle : (n : ℚ) ≤ 18446744073709551616 := by
        have : n ≤ 18446744073709551616 := by omega
        exact_mod_cast this
      exact hround.mono (isRounded_round binary64 (inUnits_nonneg (by norm_num))) (inUnits_le hle)
    have hdvd : 2 ^ 1074 ∣ binary64.units bits := ⟨n, by rw [hunits, Nat.mul_comm]⟩
    rw [hparse, Option.bind_some, if_pos ⟨rfl, hfinite, hdvd, hbound⟩, hunits,
      Nat.mul_div_cancel _ (Nat.two_pow_pos _)]
    congr 1
    omega

/-- The names taken for numbers are the texts of numbers, and those taken for indices are the
texts of natural numbers. -/
theorem numericNames_correct :
    (∀ value, isNumericLiteralName value = true ↔ ∃ number : Number, number.toText = value) ∧
      ∀ value n, n < 2 ^ 53 → (canonicalArrayIndex value = some n ↔ value = Nat.toDigits 10 n) :=
  ⟨isNumericLiteralName_iff, fun value _ hlt => canonicalArrayIndex_iff value hlt⟩

end

theorem numericNames_correct_ten :
    letI := ShortestDigits.withPower 1
    isNumericLiteralName "-Infinity".toList = true ∧
      canonicalArrayIndex "10".toList = some 10 ∧ canonicalArrayIndex "010".toList ≠ some 10 := by
  let := ShortestDigits.withPower 1
  obtain ⟨hname, hindex⟩ := numericNames_correct
  refine ⟨(hname _).mpr ⟨.double true binary64.infinity le_rfl, rfl⟩, ?_, ?_⟩
  · exact (hindex _ 10 (by decide)).mpr rfl
  · rw [ne_eq, hindex _ 10 (by decide)]
    decide

end Tsz.Semantics
