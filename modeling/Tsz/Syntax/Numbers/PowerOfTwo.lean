import Tsz.Numeric.Rounding
import Tsz.Syntax.Scanner.Literals

/-!
# Numbers with a prefix

Binary, octal and hexadecimal digits are read into a double by their bits: the first 53 are kept,
the next one is the guard, and any bit behind that one is sticky. A double is its bit pattern.

## Main results

* `LeadingBits.holds_pushDigit` — what is kept of the digits read so far.
* `LeadingBits.isRounded_toDouble` — rounding by the guard and the sticky bit.
* `parsePowerOfTwoInteger_correct` — the double is the nearest one.
-/

namespace Tsz.Syntax

open Rounding Rounding.Format

def binary64 : Format := ⟨52, 2047⟩

/-- The units of `binary64` in a number. -/
def inUnits (n : ℚ) : ℚ := n * 2 ^ 1074

/-- The bits of a number from its first set one on, as far as a double needs them. -/
structure LeadingBits where
  leading : Nat := 0
  consumed : Nat := 0
  guard : Bool := false
  sticky : Bool := false

namespace LeadingBits

def push (bits : LeadingBits) (bit : Bool) : LeadingBits :=
  let read :=
    if bits.consumed < 53 then { bits with leading := bits.leading <<< 1 ||| bit.toNat }
    else if bits.consumed = 53 then { bits with guard := bit }
    else { bits with sticky := bits.sticky || bit }
  { read with consumed := bits.consumed + 1 }

/-- The bits of a digit, the highest one first. -/
def pushDigit (bits : LeadingBits) (value : Nat) : Nat → LeadingBits
  | 0 => bits
  | width + 1 => (bits.push (value.testBit width)).pushDigit value width

def roundsUp (bits : LeadingBits) : Bool :=
  bits.guard && (bits.sticky || bits.leading &&& 1 != 0)

/-- The double whose first bits these are, if rounding up has not carried into the exponent. -/
def pack (leading exponent : Nat) : Nat :=
  if exponent > 1023 then binary64.infinity
  else (exponent + 1023) <<< 52 ||| (leading &&& (1 <<< 52 - 1))

/-- The double for the bits of an integer that has more than 53 of them. -/
def toDouble (bits : LeadingBits) (bitLength : Nat) : Nat :=
  let leading := if bits.roundsUp then bits.leading + 1 else bits.leading
  if leading = 1 <<< 53 then pack (leading >>> 1) (bitLength - 1 + 1)
  else pack leading (bitLength - 1)

end LeadingBits

def radixDigit (radix : Nat) (c : Char) : Option Nat := (hexValue c).filter (· < radix)

/-- The double for digits whose first one is not zero. -/
def significantDigits (bitsPerDigit first : Nat) (trailing : List Nat) : Nat :=
  let firstWidth := first.log2 + 1
  let bitLength := trailing.length * bitsPerDigit + firstWidth
  let bits := trailing.foldl (fun bits value => bits.pushDigit value bitsPerDigit)
    (({} : LeadingBits).pushDigit first firstWidth)
  if bitLength > 1024 then binary64.infinity
  else if bitLength ≤ 53 then binary64.round (inUnits bits.leading)
  else bits.toDouble bitLength

def parsePowerOfTwoInteger (digits : List Char) (bitsPerDigit : Nat) : Option Nat :=
  if digits.isEmpty then none
  else
    (digits.mapM (radixDigit (1 <<< bitsPerDigit))).map fun values =>
      match values.dropWhile (· == 0) with
      | [] => 0
      | first :: trailing => significantDigits bitsPerDigit first trailing

/-- The integer that digits denote. -/
def radixNumber (radix : Nat) (digits : List Char) : Nat :=
  digits.foldl (fun value c => value * radix + (hexValue c).getD 0) 0

/-! ## The bits that are kept -/

namespace LeadingBits

variable {bits : LeadingBits} {n : Nat}

/-- The bits are those of a number: all of them, or the first ones with the guard behind them and
whether anything is left. -/
structure Holds (bits : LeadingBits) (n : Nat) : Prop where
  exact : bits.consumed ≤ 53 → bits.leading = n ∧ bits.guard = false ∧ bits.sticky = false
  rest : ∀ k, bits.consumed = 54 + k → ∃ r < 2 ^ k,
    n = (2 * bits.leading + bits.guard.toNat) * 2 ^ k + r ∧ (bits.sticky = true ↔ r ≠ 0)

theorem holds_empty : Holds {} 0 := by
  constructor
  · simp
  · intro k hk
    have hzero : ({} : LeadingBits).consumed = 0 := rfl
    omega

theorem shift_or_bit (n : Nat) (bit : Bool) : n <<< 1 ||| bit.toNat = 2 * n + bit.toNat := by
  rw [← Nat.shiftLeft_add_eq_or_of_lt (by cases bit <;> decide), Nat.shiftLeft_eq]
  omega

theorem consumed_push (bits : LeadingBits) (bit : Bool) :
    (bits.push bit).consumed = bits.consumed + 1 := rfl

theorem holds_push (h : Holds bits n) (bit : Bool) :
    Holds (bits.push bit) (2 * n + bit.toNat) := by
  rcases Nat.lt_trichotomy bits.consumed 53 with hlt | heq | hgt
  · obtain ⟨hleading, hguard, hsticky⟩ := h.exact (Nat.le_of_lt hlt)
    constructor
    · intro
      simp [push, hlt, shift_or_bit, hleading, hguard, hsticky]
    · intro k hk
      rw [consumed_push] at hk
      omega
  · obtain ⟨hleading, hguard, hsticky⟩ := h.exact (Nat.le_of_eq heq)
    constructor
    · intro hle
      rw [consumed_push] at hle
      omega
    · intro k hk
      rw [consumed_push] at hk
      obtain rfl : k = 0 := by omega
      exact ⟨0, by decide, by simp [push, heq, hleading], by simp [push, heq, hsticky]⟩
  · have hnot : ¬ bits.consumed < 53 := by omega
    have hne : bits.consumed ≠ 53 := by omega
    constructor
    · intro hle
      rw [consumed_push] at hle
      omega
    · intro k hk
      rw [consumed_push] at hk
      obtain ⟨j, rfl⟩ : ∃ j, k = j + 1 := ⟨k - 1, by omega⟩
      obtain ⟨r, hr, hn, hsticky⟩ := h.rest j (by omega)
      refine ⟨2 * r + bit.toNat, ?_, ?_, ?_⟩
      · have := bit.toNat_lt
        rw [Nat.pow_succ]
        omega
      · simp only [push, hnot, hne, if_false, hn]
        ring
      · simp only [push, hnot, hne, if_false, Bool.or_eq_true, hsticky]
        cases bit <;> simp

theorem consumed_pushDigit (bits : LeadingBits) (value width : Nat) :
    (bits.pushDigit value width).consumed = bits.consumed + width := by
  induction width generalizing bits with
  | zero => rfl
  | succ width ih =>
    rw [pushDigit, ih, consumed_push]
    omega

theorem holds_pushDigit (h : Holds bits n) (value width : Nat) :
    Holds (bits.pushDigit value width) (n * 2 ^ width + value % 2 ^ width) := by
  induction width generalizing bits n with
  | zero => simpa [pushDigit, Nat.mod_one] using h
  | succ width ih =>
    have hstep := ih (holds_push h (value.testBit width))
    have hvalue : (2 * n + (value.testBit width).toNat) * 2 ^ width + value % 2 ^ width =
        n * 2 ^ (width + 1) + value % 2 ^ (width + 1) := by
      rw [Nat.mod_pow_succ, Nat.toNat_testBit]
      ring
    rwa [hvalue] at hstep

/-! ## Rounding -/

/-- The pattern of the double that keeps the leading bits and drops the others. -/
def truncated (k fraction : Nat) : Nat := (k + 1075 + 1) * 2 ^ 52 + fraction

theorem pack_eq {leading exponent : Nat} (hexponent : exponent ≤ 1023) (hlow : 2 ^ 52 ≤ leading)
    (hhigh : leading < 2 ^ 53) :
    pack leading exponent = (exponent + 1023) * 2 ^ 52 + (leading - 2 ^ 52) := by
  have hmask : leading &&& (1 <<< 52 - 1) = leading - 2 ^ 52 := by
    rw [Nat.one_shiftLeft, Nat.and_two_pow_sub_one_eq_mod]
    omega
  rw [pack, if_neg (Nat.not_lt.mpr hexponent), hmask,
    ← Nat.shiftLeft_add_eq_or_of_lt (by omega), Nat.shiftLeft_eq]

theorem toDouble_eq {k fraction : Nat} (hleading : bits.leading = 2 ^ 52 + fraction)
    (hfraction : fraction < 2 ^ 52) (hk : k ≤ 970) :
    bits.toDouble (54 + k) =
      if bits.roundsUp then truncated k fraction + 1 else truncated k fraction := by
  have hexponent : 54 + k - 1 = k + 53 := by omega
  have hcarried : 1 <<< 53 >>> 1 = 2 ^ 52 := by decide
  simp only [toDouble, truncated, hexponent]
  split_ifs with hup hcarry hcarry
  · -- the carry runs through all the bits
    rw [hcarry, hcarried]
    rcases Nat.lt_or_ge k 970 with hlt | hge
    · rw [pack_eq (by omega) (Nat.le_refl _) (by decide)]
      omega
    · have hinfinity : binary64.infinity = 2047 * 2 ^ 52 := rfl
      rw [pack, if_pos (by omega), hinfinity]
      omega
  · rw [pack_eq (by omega) (by omega) (by omega)]
    omega
  · omega
  · rw [pack_eq (by omega) (by omega) (by omega)]
    omega

theorem roundsUp_iff : bits.roundsUp ↔ bits.guard ∧ (bits.sticky ∨ bits.leading % 2 = 1) := by
  simp [roundsUp, Nat.and_one_is_mod]

theorem isRounded_toDouble {bitLength : Nat} (h : Holds bits n)
    (hconsumed : bits.consumed = bitLength) (hlong : 53 < bitLength) (hshort : bitLength ≤ 1024)
    (hlow : 2 ^ (bitLength - 1) ≤ n) (hhigh : n < 2 ^ bitLength) :
    IsRounded binary64 (inUnits n) (bits.toDouble bitLength) := by
  obtain ⟨k, rfl⟩ : ∃ k, bitLength = 54 + k := ⟨bitLength - 54, by omega⟩
  obtain ⟨r, hr, hn, hsticky⟩ := h.rest k hconsumed
  have hpos : 0 < 2 ^ k := Nat.two_pow_pos k
  obtain ⟨fraction, hleading, hfraction⟩ : ∃ fraction, bits.leading = 2 ^ 52 + fraction ∧
      fraction < 2 ^ 52 := by
    have hge : 2 ^ 53 < 2 * bits.leading + bits.guard.toNat + 1 := by
      apply Nat.lt_of_mul_lt_mul_right (a := 2 ^ k)
      calc
        2 ^ 53 * 2 ^ k = 2 ^ (54 + k - 1) := by
          rw [← Nat.pow_add]
          congr 1
          omega
        _ ≤ n := hlow
        _ < (2 * bits.leading + bits.guard.toNat + 1) * 2 ^ k := by
          rw [hn]
          exact (Nat.add_lt_add_left hr _).trans_eq (Nat.succ_mul _ _).symm
    have hlt : 2 * bits.leading + bits.guard.toNat < 2 ^ 54 := by
      apply Nat.lt_of_mul_lt_mul_right (a := 2 ^ k)
      rw [← Nat.pow_add]
      exact Nat.lt_of_le_of_lt (by rw [hn]; exact Nat.le_add_right _ _) hhigh
    have := bits.guard.toNat_lt
    exact ⟨bits.leading - 2 ^ 52, by omega, by omega⟩
  have hunits : binary64.units (truncated k fraction) = bits.leading * 2 ^ (k + 1075) := by
    rw [hleading]
    exact units_normal (F := binary64) (k + 1075) hfraction
  have hscale : binary64.scale (truncated k fraction) = k + 1075 :=
    scale_normal (F := binary64) (k + 1075) hfraction
  have hinfinity : truncated k fraction < binary64.infinity := by
    simp only [truncated, infinity, binary64]
    omega
  obtain ⟨unit, hunit, hunitpos⟩ : ∃ unit : ℚ, (2 : ℚ) ^ 1074 = unit ∧ 0 < unit :=
    ⟨_, rfl, by positivity⟩
  have hpow : (2 ^ (k + 1075) : ℚ) = 2 ^ k * (2 * unit) := by
    rw [pow_add, pow_succ' 2 1074, hunit]
  -- what is cut off, against the distance to the next double
  have hcut : 2 * (inUnits n - binary64.units (truncated k fraction)) =
      ((bits.guard.toNat * 2 ^ k + r : Nat) : ℚ) * (2 * unit) := by
    rw [hunits, inUnits, hn, hunit]
    push_cast
    rw [hpow]
    ring
  have hdistance : (2 ^ binary64.scale (truncated k fraction) : ℚ) =
      ((2 ^ k : Nat) : ℚ) * (2 * unit) := by
    rw [hscale, hpow]
    push_cast
    rfl
  have hlt : bits.guard.toNat * 2 ^ k + r < 2 * 2 ^ k := by
    cases bits.guard <;> simp <;> omega
  have hround := isRounded_of_cut (by positivity) hinfinity hcut hdistance hlt
  have heven : Even (truncated k fraction) ↔ bits.leading % 2 = 0 := by
    rw [Nat.even_iff, truncated, hleading]
    omega
  have hdown : (bits.guard.toNat * 2 ^ k + r < 2 ^ k ∨
      bits.guard.toNat * 2 ^ k + r = 2 ^ k ∧ Even (truncated k fraction)) ↔ ¬ bits.roundsUp := by
    rw [heven, roundsUp_iff, hsticky]
    cases bits.guard with
    | false => simp [hr]
    | true => simp
  rw [toDouble_eq hleading hfraction (by omega)]
  simpa only [hdown, ite_not] using hround

end LeadingBits

/-! ## Digits -/

open LeadingBits

theorem radixDigit_eq_some {radix : Nat} {c : Char} (h : isRadixDigit radix c) :
    radixDigit radix c = some ((hexValue c).getD 0) ∧ (hexValue c).getD 0 < radix := by
  unfold isRadixDigit at h
  cases hdigit : hexValue c with
  | none => simp [hdigit] at h
  | some digit =>
    have hlt : digit < radix := by simpa [hdigit] using h
    simp [radixDigit, hdigit, hlt]

theorem mapM_radixDigit {radix : Nat} {digits : List Char}
    (h : ∀ c ∈ digits, isRadixDigit radix c) :
    digits.mapM (radixDigit radix) = some (digits.map fun c => (hexValue c).getD 0) := by
  induction digits with
  | nil => rfl
  | cons c digits ih =>
    rw [List.forall_mem_cons] at h
    simp [List.mapM_cons, (radixDigit_eq_some h.1).1, ih h.2]

/-- The number of digits given by their values, behind the ones that are read. -/
def valueFrom (radix : Nat) (n : Nat) (values : List Nat) : Nat :=
  values.foldl (fun n value => n * radix + value) n

theorem radixNumber_eq (radix : Nat) (digits : List Char) :
    radixNumber radix digits =
      valueFrom radix 0 (digits.map fun c => (hexValue c).getD 0) := by
  rw [radixNumber, valueFrom, List.foldl_map]

theorem valueFrom_cons (radix n value : Nat) (values : List Nat) :
    valueFrom radix n (value :: values) = valueFrom radix (n * radix + value) values := rfl

theorem valueFrom_dropWhile (radix : Nat) (values : List Nat) :
    valueFrom radix 0 (values.dropWhile (· == 0)) = valueFrom radix 0 values := by
  induction values with
  | nil => rfl
  | cons value values ih =>
    by_cases hzero : value = 0
    · simp [hzero, ih, valueFrom_cons]
    · simp [hzero]

theorem valueFrom_bounds {radix : Nat} {values : List Nat} (h : ∀ value ∈ values, value < radix)
    (n : Nat) :
    n * radix ^ values.length ≤ valueFrom radix n values ∧
      valueFrom radix n values < (n + 1) * radix ^ values.length := by
  induction values generalizing n with
  | nil => simp [valueFrom]
  | cons value values ih =>
    rw [List.forall_mem_cons] at h
    obtain ⟨hlow, hhigh⟩ := ih h.2 (n * radix + value)
    rw [valueFrom_cons, List.length_cons, Nat.pow_succ']
    constructor
    · calc
        n * (radix * radix ^ values.length) = n * radix * radix ^ values.length := by ring
        _ ≤ (n * radix + value) * radix ^ values.length :=
          Nat.mul_le_mul_right _ (Nat.le_add_right _ _)
        _ ≤ _ := hlow
    · calc
        valueFrom radix (n * radix + value) values <
            (n * radix + value + 1) * radix ^ values.length := hhigh
        _ ≤ (n * radix + radix) * radix ^ values.length := by
          apply Nat.mul_le_mul_right
          have := h.1
          omega
        _ = _ := by ring

theorem consumed_foldl_pushDigit (bits : LeadingBits) (values : List Nat) (width : Nat) :
    (values.foldl (fun bits value => bits.pushDigit value width) bits).consumed =
      bits.consumed + values.length * width := by
  induction values generalizing bits with
  | nil => simp
  | cons value values ih =>
    rw [List.foldl_cons, ih, consumed_pushDigit, List.length_cons, Nat.succ_mul]
    omega

theorem holds_foldl_pushDigit {bits : LeadingBits} {n width : Nat} {values : List Nat}
    (hbits : Holds bits n) (h : ∀ value ∈ values, value < 2 ^ width) :
    Holds (values.foldl (fun bits value => bits.pushDigit value width) bits)
      (valueFrom (2 ^ width) n values) := by
  induction values generalizing bits n with
  | nil => exact hbits
  | cons value values ih =>
    rw [List.forall_mem_cons] at h
    have hdigit := holds_pushDigit hbits value width
    rw [Nat.mod_eq_of_lt h.1] at hdigit
    exact ih hdigit h.2

theorem units_binary64 (exponent fraction : Nat) (h : fraction < 2 ^ 52) :
    binary64.units ((exponent + 1) * 2 ^ 52 + fraction) = (2 ^ 52 + fraction) * 2 ^ exponent :=
  units_normal exponent h

/-- The first number that rounds to infinity. -/
def overflowBound : Nat := 2 ^ 1024 - 2 ^ 970

/-- The middle between the last double and the number that would come next. -/
theorem middle_le_iff {step unit n : Nat} (hpos : 0 < unit) :
    (((2 ^ 52 + (2 ^ 52 - 1)) * (2 * step * unit) : Nat) : ℚ) +
        ((2 ^ 52 + 0) * (2 * (2 * step * unit)) : Nat) ≤ 2 * (n * unit) ↔
      2 ^ 54 * step - step ≤ n := by
  have hsum : (2 ^ 52 + (2 ^ 52 - 1)) * (2 * step * unit) +
      (2 ^ 52 + 0) * (2 * (2 * step * unit)) = 2 * (2 ^ 54 * step - step) * unit := by
    have hstep : 2 ^ 54 * step - step = (2 ^ 54 - 1) * step := by omega
    rw [hstep]
    ring
  rw [← Nat.cast_add, hsum]
  norm_cast
  rw [← Nat.mul_assoc, Nat.mul_le_mul_right_iff hpos]
  omega

theorem isRounded_infinity_iff_le (n : Nat) :
    IsRounded binary64 (inUnits n) binary64.infinity ↔ overflowBound ≤ n := by
  have hinfinity : binary64.infinity = (2046 + 1) * 2 ^ 52 + 0 := rfl
  have hlast : binary64.infinity - 1 = (2045 + 1) * 2 ^ 52 + (2 ^ 52 - 1) := by decide
  have hsplit : (2 : Nat) ^ 2045 = 2 * 2 ^ 970 * 2 ^ 1074 := by
    rw [← pow_succ', ← pow_add]
  have hbound : (2 : Nat) ^ 1024 = 2 ^ 54 * 2 ^ 970 := by
    rw [← pow_add]
  rw [isRounded_infinity_iff (by decide) (by decide), hlast, hinfinity,
    units_binary64 2046 0 (by decide), units_binary64 2045 (2 ^ 52 - 1) (by decide),
    pow_succ' 2 2045, hsplit, overflowBound, hbound, inUnits]
  obtain ⟨unit, hunit, hpos⟩ : ∃ unit : Nat, 2 ^ 1074 = unit ∧ 0 < unit :=
    ⟨_, rfl, Nat.two_pow_pos _⟩
  have hcast : (2 : ℚ) ^ 1074 = (unit : ℚ) := by
    rw [← hunit, Nat.cast_pow, Nat.cast_ofNat]
  rw [hunit, hcast]
  exact middle_le_iff hpos

/-! ## The double -/

theorem isRounded_zero : IsRounded binary64 (inUnits 0) 0 := by
  have hzero : inUnits 0 = binary64.units 0 := by
    rw [units_of_lt (Nat.two_pow_pos _), inUnits, zero_mul, Nat.cast_zero]
  rw [hzero]
  exact isRounded_units (Nat.zero_le _)

theorem isRounded_significantDigits {bitsPerDigit first : Nat} {trailing : List Nat}
    (hfirst : first ≠ 0) (h : ∀ value ∈ trailing, value < 2 ^ bitsPerDigit) :
    IsRounded binary64 (inUnits (valueFrom (2 ^ bitsPerDigit) first trailing))
      (significantDigits bitsPerDigit first trailing) := by
  obtain ⟨hlow, hhigh⟩ := valueFrom_bounds h first
  have hpow : (2 ^ bitsPerDigit) ^ trailing.length = 2 ^ (trailing.length * bitsPerDigit) := by
    rw [← Nat.pow_mul, Nat.mul_comm]
  rw [hpow] at hlow hhigh
  have hlow : 2 ^ (trailing.length * bitsPerDigit + (first.log2 + 1) - 1) ≤
      valueFrom (2 ^ bitsPerDigit) first trailing := by
    refine le_trans ?_ hlow
    rw [← Nat.add_assoc, Nat.add_sub_cancel, Nat.pow_add, Nat.mul_comm]
    exact Nat.mul_le_mul_right _ (Nat.log2_self_le hfirst)
  have hhigh : valueFrom (2 ^ bitsPerDigit) first trailing <
      2 ^ (trailing.length * bitsPerDigit + (first.log2 + 1)) := by
    refine lt_of_lt_of_le hhigh ?_
    rw [Nat.pow_add, Nat.mul_comm]
    exact Nat.mul_le_mul_left _ Nat.lt_log2_self
  have hholds := holds_foldl_pushDigit (holds_pushDigit holds_empty first (first.log2 + 1)) h
  rw [Nat.zero_mul, Nat.zero_add, Nat.mod_eq_of_lt Nat.lt_log2_self] at hholds
  have hconsumed := consumed_foldl_pushDigit (({} : LeadingBits).pushDigit first (first.log2 + 1))
    trailing bitsPerDigit
  rw [consumed_pushDigit, Nat.zero_add, Nat.add_comm (first.log2 + 1)] at hconsumed
  unfold significantDigits
  dsimp only
  split_ifs with hover hexact
  · apply (isRounded_infinity_iff_le _).mpr
    have hlong : 1024 ≤ trailing.length * bitsPerDigit + (first.log2 + 1) - 1 := by omega
    have hle := Nat.pow_le_pow_right Nat.two_pos hlong
    exact (Nat.sub_le _ _).trans (hle.trans hlow)
  · rw [(hholds.exact (by omega)).1]
    exact isRounded_round _ (by unfold inUnits; positivity)
  · exact isRounded_toDouble hholds hconsumed (by omega) (by omega) hlow hhigh

/-- Reading digits of a power of two gives the nearest double. -/
theorem exists_parsePowerOfTwoInteger {digits : List Char} (bitsPerDigit : Nat)
    (hne : digits ≠ []) (hvalid : ∀ c ∈ digits, isRadixDigit (2 ^ bitsPerDigit) c) :
    ∃ bits, parsePowerOfTwoInteger digits bitsPerDigit = some bits ∧
      IsRounded binary64 (inUnits (radixNumber (2 ^ bitsPerDigit) digits)) bits := by
  rw [radixNumber_eq, ← valueFrom_dropWhile]
  have hvalues : ∀ value ∈ digits.map fun c => (hexValue c).getD 0,
      value < 2 ^ bitsPerDigit := by
    intro value hvalue
    obtain ⟨c, hc, rfl⟩ := List.mem_map.mp hvalue
    exact (radixDigit_eq_some (hvalid c hc)).2
  rw [parsePowerOfTwoInteger, if_neg (by simpa using hne), Nat.one_shiftLeft,
    mapM_radixDigit hvalid]
  refine ⟨_, rfl, ?_⟩
  dsimp only
  generalize digits.map (fun c => (hexValue c).getD 0) = values at hvalues
  cases hdrop : values.dropWhile (· == 0) with
  | nil => exact_mod_cast isRounded_zero
  | cons first trailing =>
    rw [valueFrom_cons, Nat.zero_mul, Nat.zero_add]
    have hfirst : first ≠ 0 := by
      have := List.head?_dropWhile_not (· == 0) values
      simpa [hdrop] using this
    have hsuffix := List.dropWhile_suffix (· == 0) (l := values)
    refine isRounded_significantDigits hfirst fun value hvalue =>
      hvalues value (hsuffix.subset ?_)
    rw [hdrop]
    exact List.mem_cons_of_mem _ hvalue

/-- Reading digits of a power of two gives the nearest double, and infinity from the middle
between the last double and the next power of two on. -/
theorem parsePowerOfTwoInteger_correct {digits : List Char} (bitsPerDigit : Nat)
    (hne : digits ≠ []) (hvalid : ∀ c ∈ digits, isRadixDigit (2 ^ bitsPerDigit) c) :
    ∃ bits, parsePowerOfTwoInteger digits bitsPerDigit = some bits ∧
      IsRounded binary64 (inUnits (radixNumber (2 ^ bitsPerDigit) digits)) bits ∧
      (bits = binary64.infinity ↔
        overflowBound ≤ radixNumber (2 ^ bitsPerDigit) digits) := by
  obtain ⟨bits, hparse, hround⟩ := exists_parsePowerOfTwoInteger bitsPerDigit hne hvalid
  refine ⟨bits, hparse, hround, ?_⟩
  rw [← isRounded_infinity_iff_le]
  constructor
  · rintro rfl
    exact hround
  · intro hinfinity
    exact hround.unique hinfinity

theorem parsePowerOfTwoInteger_correct_ff : ∃ bits,
    parsePowerOfTwoInteger ['f', 'F'] 4 = some bits ∧
      IsRounded binary64 (inUnits (radixNumber (2 ^ 4) ['f', 'F'])) bits ∧
      (bits = binary64.infinity ↔ overflowBound ≤ radixNumber (2 ^ 4) ['f', 'F']) :=
  parsePowerOfTwoInteger_correct 4 (by decide) (List.all_eq_true.mp (by decide))

/-- A tie goes to the even double, and the carry of the last double is infinity. -/
example : parsePowerOfTwoInteger "20000000000001".toList 4 = some 0x4340000000000000 ∧
    parsePowerOfTwoInteger "20000000000003".toList 4 = some 0x4340000000000002 ∧
    parsePowerOfTwoInteger (List.replicate 256 'f') 4 = some binary64.infinity := by
  decide +kernel

end Tsz.Syntax
