import Mathlib.Algebra.Order.Field.Power
import Mathlib.Data.Rat.Defs
import Mathlib.Tactic.FieldSimp
import Mathlib.Tactic.Linarith
import Mathlib.Tactic.NormNum
import Mathlib.Tactic.Positivity
import Mathlib.Tactic.Ring

/-!
# Decimal numerals

Texts of decimal numbers and what they denote, and positive numbers by their decimal digits.

## Main definitions

* `decimalValue` — the number that a decimal text denotes.
* `Decimal` — digits without zeros at either end, and the place of the first one.
* `Decimal.numberToString` — the text that a number with these digits is given: without an
  exponent from `1e-6` up to `1e21`.

## Main results

* `toDigits_number` — digits without a leading zero are those of their number.
* `Decimal.value_bounds` — the place of the first digit tells the size.
* `Decimal.decimalValue_numberToString` — the text denotes the number.
-/

namespace Decimals

/-- The number that some digits denote. -/
def number (digits : List Char) : Nat := Nat.ofDigitChars 10 digits 0

def IsDigits (digits : List Char) : Prop := ∀ c ∈ digits, c.isDigit = true

section

variable {digits more : List Char}

theorem IsDigits.append (h : IsDigits digits) (hmore : IsDigits more) :
    IsDigits (digits ++ more) := by
  intro c hc
  rcases List.mem_append.mp hc with hc | hc
  · exact h c hc
  · exact hmore c hc

theorem IsDigits.not_mem (h : IsDigits digits) {c : Char} (hc : c.isDigit = false) :
    c ∉ digits := by
  intro hmem
  rw [h c hmem] at hc
  cases hc

theorem isDigits_replicate (n : Nat) : IsDigits (List.replicate n '0') := by
  intro c hc
  rw [List.eq_of_mem_replicate hc]
  rfl

theorem isDigits_toDigits (n : Nat) : IsDigits (Nat.toDigits 10 n) := fun _ hc =>
  Nat.isDigit_of_mem_toDigits (by decide) (by decide) hc

theorem number_append (digits more : List Char) :
    number (digits ++ more) = number digits * 10 ^ more.length + number more := by
  rw [number, Nat.ofDigitChars_append, Nat.ofDigitChars_eq_ofDigitChars_zero, Nat.mul_comm]
  rfl

theorem number_toDigits (n : Nat) : number (Nat.toDigits 10 n) = n :=
  Nat.ofDigitChars_ten_toDigits

@[simp] theorem number_replicate (n : Nat) : number (List.replicate n '0') = 0 := by
  simp [number]

/-- A digit is the character of its number. -/
theorem exists_digitChar {c : Char} (h : c.isDigit = true) : ∃ d < 10, c = Nat.digitChar d := by
  obtain ⟨hlow, hhigh⟩ : 48 ≤ c.toNat ∧ c.toNat ≤ 57 := by
    simpa [Char.isDigit, UInt32.le_iff_toNat_le] using h
  refine ⟨c.toNat - 48, by omega, ?_⟩
  apply Char.toNat_inj.mp
  rw [Nat.toNat_digitChar_of_lt_ten (by omega)]
  omega

theorem number_singleton {d : Nat} (h : d < 10) : number [Nat.digitChar d] = d := by
  simp [number, Nat.ofDigitChars_cons_digitChar_of_lt_ten h]

theorem number_lt (h : IsDigits digits) : number digits < 10 ^ digits.length := by
  induction digits using List.reverseRecOn with
  | nil => decide
  | append_singleton digits c ih =>
    obtain ⟨d, hd, rfl⟩ := exists_digitChar (h c (by simp))
    have hlt := ih fun c hc => h c (List.mem_append_left _ hc)
    rw [number_append, number_singleton hd, List.length_append, List.length_singleton,
      Nat.pow_succ]
    omega

theorem pow_le_number {c : Char} (h : IsDigits (c :: digits)) (hc : c ≠ '0') :
    10 ^ digits.length ≤ number (c :: digits) := by
  obtain ⟨d, hd, rfl⟩ := exists_digitChar (h c List.mem_cons_self)
  have hpos : d ≠ 0 := fun hzero => hc (Nat.digitChar_eq_zero.mpr hzero)
  rw [← List.singleton_append, number_append, number_singleton hd]
  have hle := Nat.mul_le_mul_right (10 ^ digits.length) (Nat.one_le_iff_ne_zero.mpr hpos)
  omega

theorem number_pos {c : Char} (h : IsDigits (c :: digits)) (hc : c ≠ '0') :
    0 < number (c :: digits) :=
  (Nat.pow_pos (by decide)).trans_le (pow_le_number h hc)

/-- Digits without a leading zero are those of their number. -/
theorem toDigits_number {c : Char} (h : IsDigits (c :: digits)) (hc : c ≠ '0') :
    Nat.toDigits 10 (number (c :: digits)) = c :: digits := by
  induction digits using List.reverseRecOn with
  | nil =>
    obtain ⟨d, hd, rfl⟩ := exists_digitChar (h c List.mem_cons_self)
    rw [number_singleton hd, Nat.toDigits_of_lt_base hd]
  | append_singleton digits e ih =>
    have hfront : IsDigits (c :: digits) := fun d hd => h d (by
      rw [← List.cons_append]
      exact List.mem_append_left _ hd)
    obtain ⟨d, hd, rfl⟩ := exists_digitChar (h e (by simp))
    have hpos := number_pos hfront hc
    have happend := Nat.toDigits_append_toDigits (b := 10) (by decide) hpos hd
    rw [ih hfront, Nat.toDigits_of_lt_base hd] at happend
    rw [← List.cons_append, number_append, number_singleton hd, List.length_singleton, Nat.pow_one,
      Nat.mul_comm, ← happend]

theorem head_toDigits {n : Nat} (h : 0 < n) :
    ∃ c cs, Nat.toDigits 10 n = c :: cs ∧ c ≠ '0' := by
  induction n using Nat.strongRecOn with
  | ind n ih =>
    by_cases hlt : n < 10
    · refine ⟨Nat.digitChar n, [], Nat.toDigits_of_lt_base hlt, ?_⟩
      simp only [ne_eq, Nat.digitChar_eq_zero]
      omega
    · obtain ⟨c, cs, heq, hc⟩ := ih (n / 10) (by omega) (by omega)
      refine ⟨c, cs ++ [Nat.digitChar (n % 10)], ?_, hc⟩
      rw [Nat.toDigits_of_base_le (by decide) (by omega), heq]
      rfl

end

/-! ## Decimal texts -/

/-- What an exponent denotes. -/
def signedNumber : List Char → Int
  | '-' :: digits => -number digits
  | '+' :: digits => number digits
  | digits => number digits

/-- What is behind the mantissa of a text. -/
def exponentValue : List Char → Int
  | c :: digits => if c = 'e' ∨ c = 'E' then signedNumber digits else 0
  | [] => 0

/-- The number a decimal text denotes: digits, if any behind a point, and an exponent. -/
def decimalValue (text : List Char) : ℚ :=
  let integer := text.takeWhile Char.isDigit
  match text.dropWhile Char.isDigit with
  | '.' :: rest =>
    let fraction := rest.takeWhile Char.isDigit
    number (integer ++ fraction) *
      10 ^ (exponentValue (rest.dropWhile Char.isDigit) - fraction.length)
  | rest => number integer * 10 ^ exponentValue rest

theorem decimalValue_nonneg (text : List Char) : 0 ≤ decimalValue text := by
  unfold decimalValue
  dsimp only
  split <;> positivity

section

variable {integer fraction rest : List Char}

/-- Where digits end. -/
def EndsDigits (rest : List Char) : Prop := ∀ c ∈ rest.head?, c.isDigit = false

theorem endsDigits_nil : EndsDigits [] := by
  intro c hc
  cases hc

theorem takeWhile_digits (h : IsDigits integer) (hrest : EndsDigits rest) :
    (integer ++ rest).takeWhile Char.isDigit = integer ∧
      (integer ++ rest).dropWhile Char.isDigit = rest := by
  rw [List.takeWhile_append_of_pos h, List.dropWhile_append_of_pos h]
  cases rest with
  | nil => simp
  | cons c rest => simp [hrest c rfl]

theorem decimalValue_integer (h : IsDigits integer) (hrest : EndsDigits rest)
    (hpoint : rest.head? ≠ some '.') :
    decimalValue (integer ++ rest) = number integer * 10 ^ exponentValue rest := by
  obtain ⟨htake, hdrop⟩ := takeWhile_digits h hrest
  rw [decimalValue, htake, hdrop]
  split
  next heq => simp at hpoint
  next => rfl

theorem decimalValue_fraction (h : IsDigits integer) (hfraction : IsDigits fraction)
    (hrest : EndsDigits rest) :
    decimalValue (integer ++ '.' :: (fraction ++ rest)) =
      number (integer ++ fraction) * 10 ^ (exponentValue rest - fraction.length) := by
  have hpoint : EndsDigits ('.' :: (fraction ++ rest)) := by
    intro c hc
    obtain rfl : '.' = c := by simpa using hc
    rfl
  obtain ⟨htake, hdrop⟩ := takeWhile_digits h hpoint
  obtain ⟨htake', hdrop'⟩ := takeWhile_digits hfraction hrest
  rw [decimalValue, htake, hdrop]
  simp only [htake', hdrop']

end

/-- Nothing, or a point and the digits behind it. -/
def IsPoint (text : List Char) : Prop :=
  text = [] ∨ ∃ fraction, IsDigits fraction ∧ text = '.' :: fraction

def IsSign (text : List Char) : Prop := text = [] ∨ text = ['+'] ∨ text = ['-']

/-- Nothing, or the mark of an exponent and digits with or without a sign. -/
def IsExponent (text : List Char) : Prop :=
  text = [] ∨ ∃ mark sign digits, (mark = 'e' ∨ mark = 'E') ∧ IsSign sign ∧ IsDigits digits ∧
    digits ≠ [] ∧ text = mark :: (sign ++ digits)

theorem IsExponent.endsDigits {text : List Char} (h : IsExponent text) : EndsDigits text := by
  intro c hc
  obtain rfl | ⟨mark, sign, digits, hmark, -, -, -, rfl⟩ := h
  · cases hc
  · obtain rfl : mark = c := by simpa using hc
    rcases hmark with rfl | rfl <;> rfl

/-- Only what an exponent denotes matters. -/
theorem decimalValue_congr {integer point exponent exponent' : List Char}
    (hinteger : IsDigits integer) (hpoint : IsPoint point)
    (hexponent : EndsDigits exponent ∧ exponent.head? ≠ some '.')
    (hexponent' : EndsDigits exponent' ∧ exponent'.head? ≠ some '.')
    (h : exponentValue exponent = exponentValue exponent') :
    decimalValue (integer ++ (point ++ exponent)) =
      decimalValue (integer ++ (point ++ exponent')) := by
  obtain rfl | ⟨fraction, hfraction, rfl⟩ := hpoint
  · rw [List.nil_append, List.nil_append, decimalValue_integer hinteger hexponent.1 hexponent.2,
      decimalValue_integer hinteger hexponent'.1 hexponent'.2, h]
  · rw [List.cons_append, List.cons_append, decimalValue_fraction hinteger hfraction hexponent.1,
      decimalValue_fraction hinteger hfraction hexponent'.1, h]

theorem IsExponent.head_ne {text : List Char} (h : IsExponent text) : text.head? ≠ some '.' := by
  obtain rfl | ⟨mark, sign, digits, hmark, -, -, -, rfl⟩ := h
  · simp
  · rcases hmark with rfl | rfl <;> simp

/-! ## Digits and their place -/

/-- A positive number by its decimal digits and the place of the first one. -/
structure Decimal where
  digits : List Char
  exponent : Int
  isDigits : IsDigits digits
  head : ∃ c cs, digits = c :: cs ∧ c ≠ '0'
  last : digits.getLast? ≠ some '0'

namespace Decimal

variable (d : Decimal)

/-- The place behind the last digit. -/
def scale : Int := d.exponent + 1 - d.digits.length

def value : ℚ := number d.digits * 10 ^ d.scale

theorem digits_ne_nil : d.digits ≠ [] := by
  obtain ⟨c, cs, heq, -⟩ := d.head
  simp [heq]

theorem length_pos : 0 < d.digits.length := List.length_pos_iff.mpr d.digits_ne_nil

theorem number_bounds :
    10 ^ (d.digits.length - 1) ≤ number d.digits ∧ number d.digits < 10 ^ d.digits.length := by
  refine ⟨?_, number_lt d.isDigits⟩
  obtain ⟨c, cs, heq, hc⟩ := d.head
  have hdigits := d.isDigits
  rw [heq] at hdigits ⊢
  exact pow_le_number hdigits hc

/-- The place of the first digit tells the size. -/
theorem value_bounds : (10 : ℚ) ^ d.exponent ≤ d.value ∧ d.value < 10 ^ (d.exponent + 1) := by
  obtain ⟨hlow, hhigh⟩ := d.number_bounds
  have hlow : (10 : ℚ) ^ (d.digits.length - 1) ≤ number d.digits := by exact_mod_cast hlow
  have hhigh : (number d.digits : ℚ) < 10 ^ d.digits.length := by exact_mod_cast hhigh
  have hscale : (0 : ℚ) < 10 ^ d.scale := by positivity
  have hlength := d.length_pos
  have hexponent : (10 : ℚ) ^ d.exponent = 10 ^ (d.digits.length - 1) * 10 ^ d.scale := by
    rw [← zpow_natCast, ← zpow_add₀ (by norm_num)]
    congr 1
    unfold scale
    omega
  have hnext : (10 : ℚ) ^ (d.exponent + 1) = 10 ^ d.digits.length * 10 ^ d.scale := by
    rw [← zpow_natCast, ← zpow_add₀ (by norm_num)]
    congr 1
    unfold scale
    omega
  rw [value, hexponent, hnext]
  exact ⟨mul_le_mul_of_nonneg_right hlow hscale.le, mul_lt_mul_of_pos_right hhigh hscale⟩

theorem value_pos : 0 < d.value :=
  lt_of_lt_of_le (by positivity) d.value_bounds.1

/-! ## Its text -/

/-- An exponent with its sign. -/
def signedText (exponent : Int) : List Char :=
  (if 0 ≤ exponent then '+' else '-') :: Nat.toDigits 10 exponent.natAbs

/-- The text of a number with these digits: its digits are filled up with zeros to the point from
`1e-6` up to `1e21`, beyond that it has an exponent. -/
def numberToString : List Char :=
  let n := d.exponent + 1
  if d.digits.length ≤ n ∧ n ≤ 21 then
    d.digits ++ List.replicate (n - d.digits.length).toNat '0'
  else if 0 < n ∧ n ≤ 21 then d.digits.take n.toNat ++ '.' :: d.digits.drop n.toNat
  else if -6 < n ∧ n ≤ 0 then '0' :: '.' :: (List.replicate (-n).toNat '0' ++ d.digits)
  else
    match d.digits with
    | [c] => c :: 'e' :: signedText d.exponent
    | digits => digits.take 1 ++ '.' :: (digits.drop 1 ++ 'e' :: signedText d.exponent)

/-- Whether the text has no exponent. -/
def IsFixed (text : List Char) : Prop := 'e' ∉ text

variable {d}

theorem signedNumber_signedText (exponent : Int) :
    signedNumber (signedText exponent) = exponent := by
  unfold signedText
  split_ifs with h <;> simp only [signedNumber, number_toDigits] <;> omega

theorem exponentValue_signedText (exponent : Int) :
    exponentValue ('e' :: signedText exponent) = exponent := by
  rw [exponentValue, if_pos (.inl rfl), signedNumber_signedText]

theorem endsDigits_exponent (exponent : Int) : EndsDigits ('e' :: signedText exponent) := by
  intro c hc
  obtain rfl : 'e' = c := by simpa using hc
  rfl

theorem isExponent_signedText (exponent : Int) : IsExponent ('e' :: signedText exponent) := by
  refine .inr ⟨'e', [if 0 ≤ exponent then '+' else '-'], Nat.toDigits 10 exponent.natAbs, .inl rfl,
    ?_, isDigits_toDigits _, Nat.toDigits_ne_nil, rfl⟩
  split_ifs
  · exact .inr (.inl rfl)
  · exact .inr (.inr rfl)

theorem decimalValue_digits {digits : List Char} (h : IsDigits digits) :
    decimalValue digits = number digits := by
  have heq := decimalValue_integer h endsDigits_nil (by simp)
  simpa [exponentValue] using heq

theorem value_eq_of_scale {k : Nat} (h : d.scale = k) :
    d.value = (number (d.digits ++ List.replicate k '0') : Nat) := by
  rw [value, h, number_append]
  simp

/-- The text denotes the number. -/
theorem decimalValue_numberToString (d : Decimal) : decimalValue d.numberToString = d.value := by
  have hlength := d.length_pos
  unfold numberToString
  dsimp only
  split_ifs with hinteger hpoint hsmall
  · -- zeros behind the digits
    have hscale : d.scale = ((d.exponent + 1 - d.digits.length).toNat : Nat) := by
      unfold scale
      omega
    rw [value_eq_of_scale hscale,
      decimalValue_digits (d.isDigits.append (isDigits_replicate _))]
  · -- the point between the digits
    have htake : IsDigits (d.digits.take (d.exponent + 1).toNat) := fun c hc =>
      d.isDigits c (List.mem_of_mem_take hc)
    have hdrop : IsDigits (d.digits.drop (d.exponent + 1).toNat) := fun c hc =>
      d.isDigits c (List.mem_of_mem_drop hc)
    have heq := decimalValue_fraction htake hdrop endsDigits_nil
    rw [List.append_nil, List.take_append_drop] at heq
    rw [heq, value, List.length_drop, scale]
    congr 2
    simp only [exponentValue]
    omega
  · -- zeros in front of the digits
    have heq := decimalValue_fraction (isDigits_replicate 1)
      ((isDigits_replicate (-(d.exponent + 1)).toNat).append d.isDigits) endsDigits_nil
    rw [List.append_nil] at heq
    refine Eq.trans heq ?_
    rw [number_append, number_append, value, scale, number_replicate, number_replicate]
    simp only [Nat.zero_mul, Nat.zero_add, List.length_append, List.length_replicate]
    congr 2
    simp only [exponentValue]
    omega
  · -- an exponent behind the digits
    split
    next c hdigits =>
      have hc : IsDigits [c] := hdigits ▸ d.isDigits
      have heq := decimalValue_integer hc (endsDigits_exponent d.exponent) (by simp)
      rw [exponentValue_signedText] at heq
      refine Eq.trans heq ?_
      rw [value, scale, hdigits]
      simp
    next hmany =>
      have htake : IsDigits (d.digits.take 1) := fun c hc => d.isDigits c (List.mem_of_mem_take hc)
      have hdrop : IsDigits (d.digits.drop 1) := fun c hc => d.isDigits c (List.mem_of_mem_drop hc)
      rw [decimalValue_fraction htake hdrop (endsDigits_exponent d.exponent),
        List.take_append_drop, exponentValue_signedText, value, scale, List.length_drop]
      congr 2
      omega

/-- Only beyond the bounds the text has an exponent. -/
theorem isFixed_numberToString (d : Decimal) :
    IsFixed d.numberToString ↔ -6 ≤ d.exponent ∧ d.exponent < 21 := by
  have he : 'e' ∉ d.digits := fun hmem => by simpa using d.isDigits 'e' hmem
  have hzeros (n : Nat) : 'e' ∉ List.replicate n '0' := by simp
  unfold IsFixed numberToString
  dsimp only
  split_ifs with hinteger hpoint hsmall
  · refine iff_of_true ?_ (by have := d.length_pos; omega)
    simp [he]
  · refine iff_of_true ?_ (by omega)
    have htake : 'e' ∉ d.digits.take (d.exponent + 1).toNat := fun h => he (List.mem_of_mem_take h)
    have hdrop : 'e' ∉ d.digits.drop (d.exponent + 1).toNat := fun h => he (List.mem_of_mem_drop h)
    simp [htake, hdrop]
  · refine iff_of_true ?_ (by omega)
    simp [he]
  · refine iff_of_false ?_ ?_
    · split <;> simp
    · intro hbounds
      by_cases hsign : 0 < d.exponent + 1
      · exact hpoint ⟨hsign, by omega⟩
      · exact hsmall ⟨by omega, by omega⟩

/-- An exponent is signed and stands behind the digits. -/
theorem exists_mantissa {d : Decimal} (h : ¬ IsFixed d.numberToString) :
    ∃ mantissa, d.numberToString = mantissa ++ 'e' :: signedText d.exponent ∧
      mantissa.filter (· ≠ '.') = d.digits := by
  have hpoint (digits : List Char) (hdigits : IsDigits digits) :
      digits.filter (· ≠ '.') = digits := by
    rw [List.filter_eq_self]
    intro c hc
    have hne : c ≠ '.' := fun heq => hdigits.not_mem rfl (heq ▸ hc)
    simpa using hne
  rw [isFixed_numberToString] at h
  unfold numberToString
  dsimp only
  rw [if_neg (by omega), if_neg (by omega), if_neg (by omega)]
  split
  next c hdigits =>
    refine ⟨[c], rfl, ?_⟩
    rw [hdigits]
    exact hpoint [c] (hdigits ▸ d.isDigits)
  next =>
    refine ⟨d.digits.take 1 ++ '.' :: d.digits.drop 1, by simp, ?_⟩
    rw [List.filter_append, List.filter_cons_of_neg (by simp), ← List.filter_append,
      List.take_append_drop, hpoint _ d.isDigits]

/-- A power of ten. -/
def power (k : Int) : Decimal where
  digits := ['1']
  exponent := k
  isDigits := by
    intro c hc
    rw [List.mem_singleton.mp hc]
    rfl
  head := ⟨'1', [], rfl, by decide⟩
  last := by decide

@[simp] theorem value_power (k : Int) : (power k).value = 10 ^ k := by
  have hnumber : number ['1'] = 1 := rfl
  simp [value, scale, power, hnumber]

/-! ## Every decimal fraction has digits -/

theorem exists_value_eq {n : Nat} (h : 0 < n) (k : Int) :
    ∃ d : Decimal, d.value = n * 10 ^ k ∧ k ≤ d.scale := by
  induction n using Nat.strongRecOn generalizing k with
  | ind n ih =>
    by_cases hten : n % 10 = 0
    · -- a zero at the end moves the place
      obtain ⟨d, hd, hscale⟩ := ih (n / 10) (by omega) (by omega) (k + 1)
      refine ⟨d, ?_, by omega⟩
      have hn : n = n / 10 * 10 := by omega
      rw [hd, zpow_add_one₀ (by norm_num)]
      conv_rhs => rw [hn]
      push_cast
      ring
    · obtain ⟨c, cs, hdigits, hc⟩ := head_toDigits h
      have hlast : (Nat.toDigits 10 n).getLast? ≠ some '0' := by
        by_cases hlt : n < 10
        · simp only [Nat.toDigits_of_lt_base hlt, List.getLast?_singleton, ne_eq,
            Option.some.injEq, Nat.digitChar_eq_zero]
          omega
        · rw [Nat.toDigits_of_base_le (by decide) (by omega)]
          simpa using hten
      refine ⟨⟨Nat.toDigits 10 n, k - 1 + (Nat.toDigits 10 n).length, isDigits_toDigits n,
        ⟨c, cs, hdigits, hc⟩, hlast⟩, ?_, ?_⟩
      · rw [value, scale, number_toDigits]
        congr 2
        dsimp only
        omega
      · rw [scale]
        dsimp only
        omega

/-! ## The parts of a text -/

/-- A number without an exponent that is not too large has the text of its digits. -/
theorem numberToString_natural {n : Nat} (hvalue : d.value = n) (hscale : 0 ≤ d.scale)
    (hexponent : d.exponent < 21) : d.numberToString = Nat.toDigits 10 n := by
  obtain ⟨k, hk⟩ := Int.eq_ofNat_of_zero_le hscale
  have hnumber : number (d.digits ++ List.replicate k '0') = n := by
    exact_mod_cast (value_eq_of_scale hk).symm.trans hvalue
  have hpadding : (d.exponent + 1 - d.digits.length).toNat = k := by
    unfold scale at hk
    omega
  obtain ⟨c, cs, hdigits, hc⟩ := d.head
  have hall := d.isDigits.append (isDigits_replicate k)
  unfold scale at hscale
  rw [numberToString]
  rw [if_pos (by omega), hpadding, ← hnumber]
  rw [hdigits] at hall ⊢
  exact (toDigits_number hall hc).symm

/-- The text has digits, a point only between digits, and a zero in front of the point only. -/
theorem exists_parts (d : Decimal) : ∃ c integer point exponent,
    d.numberToString = c :: integer ++ point ++ exponent ∧ IsDigits (c :: integer) ∧
      IsPoint point ∧ IsExponent exponent ∧ (c = '0' → integer = [] ∧ point ≠ []) := by
  obtain ⟨c, cs, hdigits, hc⟩ := d.head
  have hall := d.isDigits
  have hsub {digits : List Char} (h : digits ⊆ d.digits) : IsDigits digits :=
    fun c hc => hall c (h hc)
  have hzero {p : Prop} : c = '0' → p := fun h => absurd h hc
  unfold numberToString
  dsimp only
  split_ifs with hinteger hpoint hsmall
  · refine ⟨c, cs ++ List.replicate (d.exponent + 1 - d.digits.length).toNat '0', [], [], ?_, ?_,
      .inl rfl, .inl rfl, hzero⟩
    · rw [hdigits]
      simp
    · rw [← List.cons_append, ← hdigits]
      exact hall.append (isDigits_replicate _)
  · obtain ⟨n, hn⟩ : ∃ n, (d.exponent + 1).toNat = n + 1 :=
      ⟨(d.exponent + 1).toNat - 1, by omega⟩
    refine ⟨c, cs.take n, '.' :: cs.drop n, [], ?_, ?_,
      .inr ⟨_, hsub fun e he => ?_, rfl⟩, .inl rfl, hzero⟩
    · rw [hn, hdigits]
      simp
    · rw [← List.take_succ_cons, ← hdigits]
      exact hsub (List.take_subset _ _)
    · rw [hdigits]
      exact List.mem_cons_of_mem _ (List.mem_of_mem_drop he)
  · exact ⟨'0', [], '.' :: (List.replicate (-(d.exponent + 1)).toNat '0' ++ d.digits), [],
      by simp, isDigits_replicate 1, .inr ⟨_, (isDigits_replicate _).append hall, rfl⟩, .inl rfl,
      fun _ => ⟨rfl, by simp⟩⟩
  · have hone : IsDigits [c] := hsub (by simp [hdigits])
    split
    next e he =>
      obtain rfl : e = c := by
        rw [hdigits] at he
        exact (List.cons.inj he).1.symm
      exact ⟨e, [], [], 'e' :: signedText d.exponent, rfl, hone, .inl rfl,
        isExponent_signedText _, hzero⟩
    next =>
      refine ⟨c, [], '.' :: d.digits.drop 1, 'e' :: signedText d.exponent, ?_, hone,
        .inr ⟨_, hsub (List.drop_subset _ _), rfl⟩, isExponent_signedText _, hzero⟩
      rw [hdigits]
      simp

end Decimal

end Decimals
