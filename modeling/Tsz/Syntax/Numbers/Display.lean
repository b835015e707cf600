import Mathlib.Tactic.IntervalCases
import Tsz.Numeric.Decimals
import Tsz.Syntax.Numbers.PowerOfTwo

/-!
# The text of a number

A number is displayed with the shortest digits that are read back as it. The digits are taken from
the text the host language prints for debugging, and placed again the way JavaScript does.

## Main definitions

* `IsShortest` — fewest digits that round to a double.
* `debugDouble` — the debug text of a finite double.
* `javascriptNumberToString` — the text JavaScript gives it.

## Main results

* `placeDigits_debugText` — the digits placed again.
* `javascriptNumberToString_correct` — the text denotes the shortest digits.
-/

namespace Tsz.Syntax

open Rounding Rounding.Format Decimals

/-- No decimal with fewer digits rounds to the double. -/
structure IsShortest (bits : Nat) (d : Decimal) : Prop where
  rounds : IsRounded binary64 (inUnits d.value) bits
  fewest : ∀ other : Decimal, IsRounded binary64 (inUnits other.value) bits →
    d.digits.length ≤ other.digits.length

/-- The digits the host language prints. -/
class ShortestDigits where
  shortest : Nat → Decimal
  isShortest : ∀ bits, 0 < bits → bits < binary64.infinity → IsShortest bits (shortest bits)

/-! ## The debug text -/

/-- An integer, with a sign only if it is negative. -/
def integerText (n : Int) : List Char :=
  (if n < 0 then ['-'] else []) ++ Nat.toDigits 10 n.natAbs

/-- At least one digit is behind the point, and none is needed in front of an exponent. -/
def debugText (exponential : Bool) (d : Decimal) : List Char :=
  if exponential then
    match d.digits with
    | [c] => c :: 'e' :: integerText d.exponent
    | digits => digits.take 1 ++ '.' :: (digits.drop 1 ++ 'e' :: integerText d.exponent)
  else if 0 ≤ d.exponent then
    let n := (d.exponent + 1).toNat
    let padded := d.digits ++ List.replicate (n + 1 - d.digits.length) '0'
    padded.take n ++ '.' :: padded.drop n
  else '0' :: '.' :: (List.replicate (-(d.exponent + 1)).toNat '0' ++ d.digits)

/-- Small and large numbers are printed with an exponent. -/
def debugExponential (bits : Nat) : Bool :=
  bits < binary64.round (inUnits (1 / 10000)) ||
    binary64.round (inUnits 10000000000000000) ≤ bits

def debugDouble [ShortestDigits] (negative : Bool) (bits : Nat) : List Char :=
  (if negative then ['-'] else []) ++
    debugText (debugExponential bits) (ShortestDigits.shortest bits)

/-! ## Placing the digits -/

def isExponentMark (c : Char) : Bool := c = 'e' || c = 'E'

/-- An integer as the host language reads it; exponents of doubles are in range. -/
def parseInteger (text : List Char) : Option Int :=
  let digits :=
    match text with
    | '-' :: rest | '+' :: rest => rest
    | rest => rest
  if digits ≠ [] ∧ digits.all Char.isDigit then some (signedNumber text) else none

/-- A reversed text without the zeros in front of it, but for a last character. -/
def dropZeros : List Char → List Char
  | '0' :: c :: rest => dropZeros (c :: rest)
  | digits => digits

def popTrailingZeros (digits : List Char) : List Char := (dropZeros digits.reverse).reverse

/-- The place of the first digit of a mantissa without an exponent. -/
def mantissaExponent (mantissa : List Char) : Int :=
  if '.' ∈ mantissa then
    if mantissa.head? ≠ some '0' then mantissa.idxOf '.' - 1
    else -(mantissa.findIdx (fun c => c ≠ '0' ∧ c ≠ '.') - 1)
  else mantissa.length - 1

/-- The digits with the point where JavaScript puts it. -/
def placePoint (digits : List Char) (exponent : Int) : List Char :=
  if -6 ≤ exponent ∧ exponent < 21 then
    let position := exponent + 1
    if position ≤ 0 then '0' :: '.' :: (List.replicate (-position).toNat '0' ++ digits)
    else if digits.length ≤ position.toNat then
      digits ++ List.replicate (position.toNat - digits.length) '0'
    else digits.take position.toNat ++ '.' :: digits.drop position.toNat
  else
    let sign := if 0 ≤ exponent then ['+'] else []
    if digits.length = 1 then digits ++ 'e' :: (sign ++ integerText exponent)
    else digits.take 1 ++ '.' :: (digits.drop 1 ++ 'e' :: (sign ++ integerText exponent))

def placeDigits (shortest : List Char) : List Char :=
  let mantissa := shortest.takeWhile fun c => !isExponentMark c
  let explicitExponent :=
    match shortest.dropWhile fun c => !isExponentMark c with
    | [] => none
    | _ :: text => parseInteger text
  let digits := popTrailingZeros ((mantissa.filter (· ≠ '.')).dropWhile (· = '0'))
  placePoint digits (explicitExponent.getD (mantissaExponent mantissa))

def javascriptNumberToString [ShortestDigits] (negative : Bool) (bits : Nat) : List Char :=
  if bits = 0 then "0".toList
  else if bits = binary64.infinity then "Infinity".toList
  else placeDigits (debugDouble negative bits)

/-! ## The shape of the digits -/

theorem popTrailingZeros_append {digits : List Char} (hne : digits ≠ [])
    (hlast : digits.getLast? ≠ some '0') (n : Nat) :
    popTrailingZeros (digits ++ List.replicate n '0') = digits := by
  have hdrop (rest : List Char) (c : Char) (hc : c ≠ '0') :
      dropZeros (List.replicate n '0' ++ c :: rest) = c :: rest := by
    induction n with
    | zero =>
      rw [List.replicate_zero, List.nil_append]
      unfold dropZeros
      split
      next heq => exact absurd (List.cons.inj heq).1 hc
      next => rfl
    | succ n ih =>
      cases n with
      | zero => simpa [dropZeros] using ih
      | succ n => simpa [List.replicate_succ, dropZeros] using ih
  rcases List.eq_nil_or_concat digits with rfl | ⟨init, last, rfl⟩
  · exact absurd rfl hne
  · rw [List.concat_eq_append] at hlast ⊢
    have hc : last ≠ '0' := by simpa using hlast
    rw [popTrailingZeros, List.reverse_append, List.reverse_replicate, List.reverse_append,
      List.reverse_singleton, List.singleton_append, hdrop _ _ hc]
    simp

theorem parseInteger_integerText (n : Int) : parseInteger (integerText n) = some n := by
  have hall : ∀ c ∈ Nat.toDigits 10 n.natAbs, c.isDigit = true := isDigits_toDigits _
  unfold integerText
  split_ifs with hneg
  · have hsigned : signedNumber ('-' :: Nat.toDigits 10 n.natAbs) = n := by
      simp only [signedNumber, number_toDigits]
      omega
    simp only [List.singleton_append, parseInteger, hsigned]
    rw [if_pos ⟨Nat.toDigits_ne_nil, by simpa using hall⟩]
  · obtain ⟨c, cs, hdigits⟩ := List.exists_cons_of_ne_nil
      (Nat.toDigits_ne_nil (n := n.natAbs) (b := 10))
    have hc : c.isDigit = true := hall c (by simp [hdigits])
    have hminus : c ≠ '-' := by rintro rfl; cases hc
    have hplus : c ≠ '+' := by rintro rfl; cases hc
    have hsigned : signedNumber (c :: cs) = n := by
      have hnumber := number_toDigits n.natAbs
      rw [hdigits] at hnumber
      unfold signedNumber
      split
      next heq => exact absurd (List.cons.inj heq).1 hminus
      next heq => exact absurd (List.cons.inj heq).1 hplus
      next => omega
    rw [List.nil_append, hdigits]
    unfold parseInteger
    split
    next heq => exact absurd (List.cons.inj heq).1 hminus
    next heq => exact absurd (List.cons.inj heq).1 hplus
    next =>
      rw [hsigned, if_pos ⟨by simp, by simpa [hdigits] using hall⟩]

/-- A text is split at the first mark of an exponent. -/
theorem takeWhile_mark {mantissa : List Char} (h : ∀ c ∈ mantissa, isExponentMark c = false)
    {rest : List Char} (hrest : ∀ c ∈ rest.head?, isExponentMark c = true) :
    ((mantissa ++ rest).takeWhile fun c => !isExponentMark c) = mantissa ∧
      ((mantissa ++ rest).dropWhile fun c => !isExponentMark c) = rest := by
  have hall : ∀ c ∈ mantissa, (!isExponentMark c) = true := fun c hc => by simp [h c hc]
  rw [List.takeWhile_append_of_pos hall, List.dropWhile_append_of_pos hall]
  cases rest with
  | nil => simp
  | cons c rest => simp [hrest c rfl]

/-- Characters a mantissa can have beside its point. -/
def IsPlain (text : List Char) : Prop := ∀ c ∈ text, isExponentMark c = false ∧ c ≠ '.'

theorem isPlain_of_isDigits {digits : List Char} (h : IsDigits digits) : IsPlain digits := by
  intro c hc
  obtain ⟨d, hd, rfl⟩ := exists_digitChar (h c hc)
  unfold isExponentMark
  interval_cases d <;> decide

theorem IsPlain.minus {text : List Char} (h : IsPlain text) : IsPlain ('-' :: text) :=
  List.forall_mem_cons.mpr ⟨by decide, h⟩

theorem IsPlain.not_mem_point {text : List Char} (h : IsPlain text) : '.' ∉ text :=
  fun hmem => (h '.' hmem).2 rfl

theorem IsPlain.filter_eq {text : List Char} (h : IsPlain text) : text.filter (· ≠ '.') = text :=
  List.filter_eq_self.mpr fun c hc => by simpa using (h c hc).2

/-- Placing a text reads its digits and the place of the first one. -/
theorem placeDigits_of_point {front fraction digits : List Char} {padding : Nat} {exponent : Int}
    (hfront : IsPlain front) (hfraction : IsPlain fraction) (hne : digits ≠ [])
    (hlast : digits.getLast? ≠ some '0')
    (hdigits : (front ++ fraction).dropWhile (· = '0') = digits ++ List.replicate padding '0')
    (hexponent : mantissaExponent (front ++ '.' :: fraction) = exponent) :
    placeDigits (front ++ '.' :: fraction) = placePoint digits exponent := by
  have hmark : ∀ c ∈ front ++ '.' :: fraction, isExponentMark c = false := by
    intro c hc
    rcases List.mem_append.mp hc with hc | hc
    · exact (hfront c hc).1
    · rcases List.mem_cons.mp hc with rfl | hc
      · rfl
      · exact (hfraction c hc).1
  obtain ⟨htake, hdrop⟩ := takeWhile_mark hmark (fun c (hc : c ∈ [].head?) => nomatch hc)
  rw [List.append_nil] at htake hdrop
  have hfilter : (front ++ '.' :: fraction).filter (· ≠ '.') = front ++ fraction := by
    rw [List.filter_append, hfront.filter_eq, List.filter_cons_of_neg (by simp),
      hfraction.filter_eq]
  simp only [placeDigits, htake, hdrop, hfilter, hdigits, popTrailingZeros_append hne hlast,
    Option.getD_none, hexponent]

/-- An exponent that is written tells the place. -/
theorem placeDigits_of_exponent {mantissa digits : List Char} {exponent : Int}
    (hmark : ∀ c ∈ mantissa, isExponentMark c = false) (hne : digits ≠ [])
    (hlast : digits.getLast? ≠ some '0')
    (hdigits : (mantissa.filter (· ≠ '.')).dropWhile (· = '0') = digits) :
    placeDigits (mantissa ++ 'e' :: integerText exponent) = placePoint digits exponent := by
  have hrest : ∀ c ∈ ('e' :: integerText exponent).head?, isExponentMark c = true := by
    intro c hc
    obtain rfl : 'e' = c := by simpa using hc
    rfl
  obtain ⟨htake, hdrop⟩ := takeWhile_mark hmark hrest
  have hpop := popTrailingZeros_append hne hlast 0
  rw [List.replicate_zero, List.append_nil] at hpop
  simp only [placeDigits, htake, hdrop, hdigits, hpop, parseInteger_integerText,
    Option.getD_some]

theorem mantissaExponent_of_ne_zero {front fraction : List Char} {c : Char} (hc : c ≠ '0')
    (hpoint : '.' ∉ c :: front) :
    mantissaExponent (c :: front ++ '.' :: fraction) = front.length := by
  have hindex : (c :: front ++ '.' :: fraction).idxOf '.' = front.length + 1 := by
    rw [List.idxOf_append_of_notMem hpoint]
    simp
  rw [mantissaExponent, if_pos (by simp), if_pos (by simpa using hc), hindex]
  push_cast
  omega

theorem findIdx_replicate {p : Char → Bool} {c : Char} (hzero : p '0' = false) (hc : p c = true)
    (zeros : Nat) (rest : List Char) :
    (List.replicate zeros '0' ++ c :: rest).findIdx p = zeros := by
  induction zeros with
  | zero => simp [List.findIdx_cons, hc]
  | succ zeros ih => simp [List.replicate_succ, List.findIdx_cons, hzero, ih]

theorem mantissaExponent_of_zero (zeros : Nat) {c : Char} (rest : List Char) (hc : c ≠ '0')
    (hpoint : c ≠ '.') :
    mantissaExponent ('0' :: '.' :: (List.replicate zeros '0' ++ c :: rest)) =
      -(zeros + 1 : Int) := by
  have hindex : ('0' :: '.' :: (List.replicate zeros '0' ++ c :: rest)).findIdx
      (fun c => c ≠ '0' ∧ c ≠ '.') = zeros + 2 := by
    rw [List.findIdx_cons, List.findIdx_cons, findIdx_replicate (by simp) (by simp [hc, hpoint])]
    simp
  rw [mantissaExponent, if_pos (by simp), if_neg (by simp), hindex]
  push_cast
  omega

/-- With the digits of a number the point is put where its text has it. -/
theorem placePoint_digits (d : Decimal) : placePoint d.digits d.exponent = d.numberToString := by
  have hlength := d.length_pos
  unfold placePoint Decimal.numberToString
  dsimp only
  by_cases hfixed : -6 ≤ d.exponent ∧ d.exponent < 21
  · rw [if_pos hfixed]
    by_cases hpositive : d.exponent + 1 ≤ 0
    · rw [if_pos hpositive, if_neg (by omega), if_neg (by omega), if_pos (by omega)]
    · rw [if_neg hpositive]
      by_cases hpadded : d.digits.length ≤ (d.exponent + 1).toNat
      · have hzeros : (d.exponent + 1).toNat - d.digits.length =
            (d.exponent + 1 - d.digits.length).toNat := by
          omega
        rw [if_pos hpadded, if_pos (by omega), hzeros]
      · rw [if_neg hpadded, if_neg (by omega), if_pos (by omega)]
  · have hsign : (if 0 ≤ d.exponent then ['+'] else []) ++ integerText d.exponent =
        Decimal.signedText d.exponent := by
      unfold integerText Decimal.signedText
      split_ifs with hpos hneg hneg
      · omega
      · rfl
      · rfl
      · omega
    rw [if_neg hfixed, hsign,
      if_neg (show ¬ ((d.digits.length : Int) ≤ d.exponent + 1 ∧ d.exponent + 1 ≤ 21) by omega),
      if_neg (show ¬ (0 < d.exponent + 1 ∧ d.exponent + 1 ≤ 21) by omega),
      if_neg (show ¬ (-6 < d.exponent + 1 ∧ d.exponent + 1 ≤ 0) by omega)]
    split_ifs with hone
    · obtain ⟨c, hc⟩ := List.length_eq_one_iff.mp hone
      rw [hc]
      rfl
    · split
      next c hc => exact absurd (congrArg List.length hc) hone
      next => rfl

/-- The digits in front of a point that stands behind the first of them, padded with zeros. -/
theorem padded_split (d : Decimal) {n : Nat} (hn : d.exponent = n) :
    ∃ c front fraction padding, c ≠ '0' ∧ front.length = n ∧
      IsDigits (c :: front) ∧ IsDigits fraction ∧
      c :: front ++ fraction = d.digits ++ List.replicate padding '0' ∧
      debugText false d = c :: front ++ '.' :: fraction := by
  obtain ⟨c, cs, hdigits, hc⟩ := d.head
  have hcount : (d.exponent + 1).toNat = n + 1 := by omega
  have hpadded : IsDigits (d.digits ++ List.replicate (n + 1 + 1 - d.digits.length) '0') :=
    d.isDigits.append (isDigits_replicate _)
  have hlength : n + 1 ≤ (d.digits ++ List.replicate (n + 1 + 1 - d.digits.length) '0').length := by
    rw [List.length_append, List.length_replicate]
    omega
  have htext : debugText false d =
      (d.digits ++ List.replicate (n + 1 + 1 - d.digits.length) '0').take (n + 1) ++
        '.' :: (d.digits ++ List.replicate (n + 1 + 1 - d.digits.length) '0').drop (n + 1) := by
    simp [debugText, hn]
  rw [htext]
  generalize hall : d.digits ++ List.replicate (n + 1 + 1 - d.digits.length) '0' = all at *
  obtain ⟨rest, rfl⟩ : ∃ rest, all = c :: rest := ⟨_, by rw [← hall, hdigits]; rfl⟩
  refine ⟨c, rest.take n, rest.drop n, n + 1 + 1 - d.digits.length, hc, ?_, ?_, ?_, ?_, rfl⟩
  · rw [List.length_cons] at hlength
    rw [List.length_take]
    omega
  · exact fun e he => hpadded e (List.mem_of_mem_take (i := n + 1) he)
  · exact fun e he => hpadded e (List.mem_cons_of_mem _ (List.mem_of_mem_drop he))
  · rw [List.cons_append, List.take_append_drop, hall]

theorem fraction_split (d : Decimal) {zeros : Nat} (h : d.exponent = -(zeros + 1 : Int)) :
    debugText false d = ['0'] ++ '.' :: (List.replicate zeros '0' ++ d.digits) := by
  have hcount : (-(d.exponent + 1)).toNat = zeros := by omega
  have hneg : ¬ 0 ≤ d.exponent := by omega
  rw [debugText, if_neg (by simp), if_neg hneg, hcount]
  rfl

/-- The digits of the debug text are placed again as they were. -/
theorem placeDigits_debugText (exponential : Bool) (d : Decimal) :
    placeDigits (debugText exponential d) = d.numberToString := by
  rw [← placePoint_digits]
  obtain ⟨c, cs, hdigits, hc⟩ := d.head
  have hplain := isPlain_of_isDigits d.isDigits
  have hdrop (more : List Char) : (d.digits ++ more).dropWhile (· = '0') = d.digits ++ more := by
    rw [hdigits, List.cons_append, List.dropWhile_cons_of_neg (by simpa using hc)]
  have hself : d.digits.dropWhile (· = '0') = d.digits := by
    simpa using hdrop []
  cases exponential with
  | true =>
    rw [debugText, if_pos rfl]
    split
    next e he =>
      rw [he] at hplain hself
      have hplace : placeDigits ([e] ++ 'e' :: integerText d.exponent) =
          placePoint [e] d.exponent :=
        placeDigits_of_exponent (fun c hc => (hplain c hc).1) (by simp) (he ▸ d.last)
          (by rw [hplain.filter_eq, hself])
      exact hplace.trans (by rw [he])
    next =>
      have htake : IsPlain (d.digits.take 1) := fun c hc => hplain c (List.mem_of_mem_take hc)
      have hrest : IsPlain (d.digits.drop 1) := fun c hc => hplain c (List.mem_of_mem_drop hc)
      have hmark : ∀ c ∈ d.digits.take 1 ++ '.' :: d.digits.drop 1, isExponentMark c = false := by
        intro c hc
        rcases List.mem_append.mp hc with hc | hc
        · exact (htake c hc).1
        · rcases List.mem_cons.mp hc with rfl | hc
          · rfl
          · exact (hrest c hc).1
      have hfilter : (d.digits.take 1 ++ '.' :: d.digits.drop 1).filter (· ≠ '.') = d.digits := by
        rw [List.filter_append, htake.filter_eq, List.filter_cons_of_neg (by simp),
          hrest.filter_eq, List.take_append_drop]
      have hplace : placeDigits ((d.digits.take 1 ++ '.' :: d.digits.drop 1) ++
          'e' :: integerText d.exponent) = placePoint d.digits d.exponent :=
        placeDigits_of_exponent hmark d.digits_ne_nil d.last (by rw [hfilter, hself])
      rwa [List.append_assoc, List.cons_append] at hplace
  | false =>
    rcases le_or_gt 0 d.exponent with hexponent | hexponent
    · obtain ⟨n, hn⟩ := Int.eq_ofNat_of_zero_le hexponent
      obtain ⟨e, front, fraction, padding, he, hlength, hfront, hfraction, hall, htext⟩ :=
        padded_split d hn
      rw [htext]
      refine placeDigits_of_point (isPlain_of_isDigits hfront) (isPlain_of_isDigits hfraction)
        d.digits_ne_nil d.last (by rw [hall]; exact hdrop _) ?_
      rw [mantissaExponent_of_ne_zero he (hfront.not_mem rfl), hlength, hn]
    · obtain ⟨zeros, hzeros⟩ : ∃ zeros : Nat, d.exponent = -(zeros + 1 : Int) :=
        ⟨(-(d.exponent + 1)).toNat, by omega⟩
      have hzero : (List.replicate 1 '0' ++ (List.replicate zeros '0' ++ d.digits)).dropWhile
          (· = '0') = d.digits := by
        rw [← List.append_assoc, List.replicate_append_replicate, List.dropWhile_append_of_pos
          (fun c hc => by simp [List.eq_of_mem_replicate hc]), hself]
      rw [fraction_split d hzeros]
      refine placeDigits_of_point (isPlain_of_isDigits (isDigits_replicate 1))
        (isPlain_of_isDigits ((isDigits_replicate zeros).append d.isDigits)) d.digits_ne_nil
        d.last (by rw [List.replicate_zero, List.append_nil]; exact hzero) ?_
      rw [hdigits]
      exact (mantissaExponent_of_zero zeros cs hc (hplain c (by simp [hdigits])).2).trans
        hzeros.symm

/-- A sign counts as a digit, which does no harm where the point is written. -/
theorem placePoint_minus {digits : List Char} {exponent : Int} (hlow : 0 ≤ exponent)
    (hhigh : exponent < 20) :
    placePoint ('-' :: digits) (exponent + 1) = '-' :: placePoint digits exponent := by
  have hcount : (exponent + 1 + 1).toNat = (exponent + 1).toNat + 1 := by omega
  have hlow' : ¬ exponent + 1 + 1 ≤ 0 := by omega
  have hlow'' : ¬ exponent + 1 ≤ 0 := by omega
  simp only [placePoint, if_pos (show -6 ≤ exponent + 1 ∧ exponent + 1 < 21 by omega),
    if_pos (show -6 ≤ exponent ∧ exponent < 21 by omega), if_neg hlow', if_neg hlow'', hcount,
    List.length_cons, Nat.add_le_add_iff_right, Nat.add_sub_add_right, List.take_succ_cons,
    List.drop_succ_cons, List.cons_append]
  split_ifs <;> rfl

theorem placeDigits_minus {d : Decimal} (hlow : -6 ≤ d.exponent) (hhigh : d.exponent < 20) :
    placeDigits ('-' :: debugText false d) = '-' :: d.numberToString := by
  rw [← placePoint_digits]
  have hlast (front : List Char) : (front ++ d.digits).getLast? ≠ some '0' := by
    rw [List.getLast?_append_of_ne_nil _ d.digits_ne_nil]
    exact d.last
  rcases le_or_gt 0 d.exponent with hexponent | hexponent
  · obtain ⟨n, hn⟩ := Int.eq_ofNat_of_zero_le hexponent
    obtain ⟨e, front, fraction, padding, he, hlength, hfront, hfraction, hall, htext⟩ :=
      padded_split d hn
    have hdigits : ('-' :: (e :: front) ++ fraction).dropWhile (· = '0') =
        ('-' :: d.digits) ++ List.replicate padding '0' := by
      rw [List.cons_append, hall, List.dropWhile_cons_of_neg (by simp)]
      rfl
    have hplace : mantissaExponent ('-' :: (e :: front) ++ '.' :: fraction) = d.exponent + 1 := by
      rw [mantissaExponent_of_ne_zero (by decide)
        ((isPlain_of_isDigits hfront).minus.not_mem_point), List.length_cons, hlength, hn]
      rfl
    rw [htext, ← placePoint_minus hexponent hhigh]
    exact placeDigits_of_point (isPlain_of_isDigits hfront).minus (isPlain_of_isDigits hfraction)
      (by simp) (hlast ['-']) hdigits hplace
  · obtain ⟨zeros, hzeros⟩ : ∃ zeros : Nat, d.exponent = -(zeros + 1 : Int) :=
      ⟨(-(d.exponent + 1)).toNat, by omega⟩
    have hfraction := isPlain_of_isDigits ((isDigits_replicate zeros).append d.isDigits)
    have hdigits : (['-', '0'] ++ (List.replicate zeros '0' ++ d.digits)).dropWhile (· = '0') =
        ('-' :: '0' :: List.replicate zeros '0' ++ d.digits) ++ List.replicate 0 '0' := by
      rw [List.cons_append, List.dropWhile_cons_of_neg (by simp)]
      simp
    have hplace : mantissaExponent (['-', '0'] ++ '.' :: (List.replicate zeros '0' ++ d.digits)) =
        1 :=
      mantissaExponent_of_ne_zero (by decide) (by decide)
    have htext := placeDigits_of_point (isPlain_of_isDigits (isDigits_replicate 1)).minus hfraction
      (by simp) (hlast ('-' :: '0' :: List.replicate zeros '0')) hdigits hplace
    rw [fraction_split d hzeros]
    refine Eq.trans htext ?_
    have hposition : (-(d.exponent + 1)).toNat = zeros := by omega
    have hlong : ¬ (zeros + d.digits.length + 1 + 1 ≤ 2) := by
      have := d.length_pos
      omega
    simp only [placePoint, if_pos (show (-6 : Int) ≤ 1 ∧ (1 : Int) < 21 by decide),
      if_pos (show -6 ≤ d.exponent ∧ d.exponent < 21 by omega),
      if_pos (show d.exponent + 1 ≤ 0 by omega), hposition]
    simp [hlong]

/-! ## Shortest digits -/

theorem inUnits_nonneg {x : ℚ} (h : 0 ≤ x) : 0 ≤ inUnits x := by
  unfold inUnits
  positivity

theorem inUnits_le {x y : ℚ} (h : x ≤ y) : inUnits x ≤ inUnits y :=
  mul_le_mul_of_nonneg_right h (by positivity)

/-- The size of a double tells the place of the first digit, for a power of ten that is no double's
multiple of nine. -/
theorem exponent_lt_iff {bits : Nat} {d : Decimal} (h : IsShortest bits d) {k : Int} {unit : ℚ}
    (hunit : (10 : ℚ) ^ k = unit)
    (hgap : binary64.round (inUnits (9 / 10 * unit)) < binary64.round (inUnits unit)) :
    d.exponent < k ↔ bits < binary64.round (inUnits unit) := by
  have hpos : 0 < unit := by
    rw [← hunit]
    positivity
  have hround := isRounded_round binary64 (inUnits_nonneg hpos.le)
  obtain ⟨hlow, hhigh⟩ := d.value_bounds
  constructor
  · intro hlt
    have hvalue : d.value ≤ unit := by
      rw [← hunit]
      exact hhigh.le.trans (zpow_le_zpow_right₀ (by norm_num) (by omega))
    have hle := h.rounds.mono hround (inUnits_le hvalue)
    refine hle.lt_of_ne fun heq => ?_
    -- then one digit is enough, and it is at most nine
    have hone : d.digits.length = 1 := by
      have hfewest := h.fewest (Decimal.power k) (by rwa [Decimal.value_power, hunit, heq])
      exact le_antisymm hfewest d.length_pos
    have hnine : d.value ≤ 9 / 10 * unit := by
      have hnumber : number d.digits ≤ 9 := by
        have hlt := number_lt d.isDigits
        rw [hone] at hlt
        omega
      have hcast : (number d.digits : ℚ) ≤ 9 := by exact_mod_cast hnumber
      have hten : unit / 10 = 10 ^ (k - 1) := by
        rw [← hunit, zpow_sub_one₀ (by norm_num), div_eq_mul_inv]
      have hscale : (10 : ℚ) ^ d.scale ≤ unit / 10 := by
        rw [hten]
        refine zpow_le_zpow_right₀ (by norm_num) ?_
        unfold Decimal.scale
        omega
      calc d.value ≤ 9 * 10 ^ d.scale := mul_le_mul_of_nonneg_right hcast (by positivity)
        _ ≤ 9 * (unit / 10) := mul_le_mul_of_nonneg_left hscale (by norm_num)
        _ = 9 / 10 * unit := by ring
    have hle' := h.rounds.mono (isRounded_round binary64 (inUnits_nonneg (by linarith)))
      (inUnits_le hnine)
    omega
  · intro hlt
    by_contra hge
    have hvalue : unit ≤ d.value := by
      rw [← hunit]
      exact (zpow_le_zpow_right₀ (by norm_num) (by omega)).trans hlow
    have hle := hround.mono h.rounds (inUnits_le hvalue)
    omega

theorem exists_isShortest {bits : Nat} (hpos : 0 < bits) (hfinite : bits < binary64.infinity) :
    ∃ d, IsShortest bits d := by
  have hunits : 0 < binary64.units bits := by
    have := units_strictMono (F := binary64) hpos
    omega
  have hexact (n : Nat) (u : ℚ) : u * 5 ^ n * 10 ^ (-(n : Int)) * 2 ^ n = u := by
    rw [zpow_neg, zpow_natCast, mul_right_comm, mul_assoc u, ← mul_pow]
    norm_num
  -- a double is a decimal fraction
  have hdecimal : ∃ length, ∃ d : Decimal,
      IsRounded binary64 (inUnits d.value) bits ∧ d.digits.length = length := by
    have hfraction (n : Nat) : ∃ d : Decimal, d.value * 2 ^ n = binary64.units bits := by
      have hfive : 0 < binary64.units bits * 5 ^ n := Nat.mul_pos hunits (Nat.pow_pos (by decide))
      obtain ⟨d, hd, -⟩ := Decimal.exists_value_eq hfive (-(n : Int))
      refine ⟨d, ?_⟩
      rw [hd, Nat.cast_mul, Nat.cast_pow, Nat.cast_ofNat]
      exact hexact n _
    obtain ⟨d, hd⟩ := hfraction 1074
    refine ⟨_, d, ?_, rfl⟩
    have hvalue : inUnits d.value = binary64.units bits := hd
    rw [hvalue]
    exact isRounded_units hfinite.le
  classical
  obtain ⟨d, hround, hlength⟩ := Nat.find_spec hdecimal
  refine ⟨d, hround, fun other hother => ?_⟩
  rw [hlength]
  exact Nat.find_min' hdecimal ⟨other, hother, rfl⟩

theorem exists_isShortest_or_power (k : Int) (bits : Nat) :
    ∃ d, (0 < bits → bits < binary64.infinity → IsShortest bits d) ∧
      (bits = binary64.round (inUnits (10 ^ k)) → d = .power k) := by
  by_cases hpower : bits = binary64.round (inUnits (10 ^ k))
  · refine ⟨.power k, fun _ _ => ⟨?_, fun other _ => other.length_pos⟩, fun _ => rfl⟩
    rw [Decimal.value_power, hpower]
    exact isRounded_round _ (inUnits_nonneg (by positivity))
  · by_cases hfinite : 0 < bits ∧ bits < binary64.infinity
    · obtain ⟨d, hd⟩ := exists_isShortest hfinite.1 hfinite.2
      exact ⟨d, fun _ _ => hd, fun h => absurd h hpower⟩
    · exact ⟨.power k, fun hpos hlt => absurd ⟨hpos, hlt⟩ hfinite, fun _ => rfl⟩

/-- Digits that are shortest ones everywhere, and a power of ten where it is one. -/
@[reducible] noncomputable def ShortestDigits.withPower (k : Int) : ShortestDigits where
  shortest bits := (exists_isShortest_or_power k bits).choose
  isShortest bits := (exists_isShortest_or_power k bits).choose_spec.1

theorem ShortestDigits.shortest_withPower (k : Int) :
    (withPower k).shortest (binary64.round (inUnits (10 ^ k))) = .power k :=
  (exists_isShortest_or_power k _).choose_spec.2 rfl

/-! ## The text -/

/-- The text of a double that is not negative, or is neither small nor large: the digits that the
host language prints, with an exponent outside of the bounds of JavaScript. -/
theorem javascriptNumberToString_correct [ShortestDigits] (negative : Bool) (bits : Nat)
    (hfinite : bits < binary64.infinity)
    (hsign : negative = false ∨ binary64.round (inUnits (1 / 10000)) ≤ bits ∧
      bits < binary64.round (inUnits 10000000000000000)) :
    (bits = 0 → javascriptNumberToString negative bits = ['0']) ∧
      (0 < bits → ∃ d, d = ShortestDigits.shortest bits ∧
        javascriptNumberToString negative bits =
          (if negative then ['-'] else []) ++ d.numberToString ∧
        decimalValue d.numberToString = d.value ∧
        (Decimal.IsFixed d.numberToString ↔
          binary64.round (inUnits (1 / 1000000)) ≤ bits ∧
            bits < binary64.round (inUnits 1000000000000000000000)) ∧
        (¬ Decimal.IsFixed d.numberToString → ∃ mantissa,
          d.numberToString = mantissa ++ 'e' :: Decimal.signedText d.exponent ∧
            mantissa.filter (· ≠ '.') = d.digits)) := by
  refine ⟨fun hzero => if_pos hzero, fun hpos => ?_⟩
  have hshortest := ShortestDigits.isShortest bits hpos hfinite
  refine ⟨_, rfl, ?_, Decimal.decimalValue_numberToString _, ?_, Decimal.exists_mantissa⟩
  · rw [javascriptNumberToString, if_neg hpos.ne', if_neg hfinite.ne, debugDouble]
    cases negative with
    | false => exact placeDigits_debugText _ _
    | true =>
      obtain ⟨hlow, hhigh⟩ := hsign.resolve_left (by simp)
      have hfixed : debugExponential bits = false := by
        simp only [debugExponential, Bool.or_eq_false_iff, decide_eq_false_iff_not]
        omega
      have hsmall := exponent_lt_iff hshortest (show (10 : ℚ) ^ (-4 : Int) = 1 / 10000 by norm_num)
        (by decide +kernel)
      have hlarge := exponent_lt_iff hshortest
        (show (10 : ℚ) ^ (16 : Int) = 10000000000000000 by norm_num) (by decide +kernel)
      rw [hfixed, if_pos rfl, List.singleton_append]
      exact placeDigits_minus (by omega) (by omega)
  · have hsmall := exponent_lt_iff hshortest (show (10 : ℚ) ^ (-6 : Int) = 1 / 1000000 by norm_num)
      (by decide +kernel)
    have hlarge := exponent_lt_iff hshortest
      (show (10 : ℚ) ^ (21 : Int) = 1000000000000000000000 by norm_num) (by decide +kernel)
    rw [Decimal.isFixed_numberToString, ← hlarge]
    omega

/-- The text of ten quadrillions, the first number that is printed with an exponent. -/
theorem javascriptNumberToString_ten_quadrillion :
    letI := ShortestDigits.withPower 16
    javascriptNumberToString false (binary64.round (inUnits (10 ^ (16 : Int)))) =
      "10000000000000000".toList := by
  have hround : 0 < binary64.round (inUnits (10 ^ (16 : Int))) ∧
      binary64.round (inUnits (10 ^ (16 : Int))) < binary64.infinity := by decide +kernel
  let := ShortestDigits.withPower 16
  obtain ⟨d, rfl, htext, -⟩ :=
    (javascriptNumberToString_correct false _ hround.2 (.inl rfl)).2 hround.1
  rw [htext, ShortestDigits.shortest_withPower]
  decide

/-- With a sign its text is that of a quadrillion. -/
theorem javascriptNumberToString_minus_ten_quadrillion :
    letI := ShortestDigits.withPower 16
    binary64.round (inUnits (10 ^ (16 : Int))) < binary64.infinity ∧
      javascriptNumberToString true (binary64.round (inUnits (10 ^ (16 : Int)))) =
        '-' :: "1000000000000000".toList ∧
      decimalValue "1000000000000000".toList = 10 ^ 15 := by
  have hround : binary64.round (inUnits (10 ^ (16 : Int))) < binary64.infinity ∧
      binary64.round (inUnits (10 ^ (16 : Int))) ≠ 0 ∧
      debugExponential (binary64.round (inUnits (10 ^ (16 : Int)))) = true := by decide +kernel
  let := ShortestDigits.withPower 16
  refine ⟨hround.1, ?_, by decide +kernel⟩
  rw [javascriptNumberToString, if_neg hround.2.1, if_neg hround.1.ne, debugDouble, hround.2.2,
    ShortestDigits.shortest_withPower]
  decide

end Tsz.Syntax
