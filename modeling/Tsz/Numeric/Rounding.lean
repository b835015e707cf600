import Mathlib.Algebra.Order.Ring.Abs
import Mathlib.Data.Nat.Log
import Mathlib.Data.Rat.Floor
import Mathlib.Order.Monotone.Basic
import Mathlib.Tactic.Linarith
import Mathlib.Tactic.Ring

/-!
# Rounding to a binary format

The numbers of a binary floating-point format that are not negative, by their bit patterns, and
rounding to the nearest of them. Numbers are counted in units of the smallest positive number of
the format; infinity counts as the number that would come next.

## Main results

* `Format.units_succ` — the distance of a number from the next one.
* `Format.isRounded_of_between` — rounding between two neighbours.
* `Format.isRounded_round`, `Format.IsRounded.unique` — every number has one rounding.
* `Format.isRounded_infinity_iff` — where rounding overflows.
-/

namespace Rounding

/-- The bits of a fraction, and the exponent field of infinity. -/
structure Format where
  fractionBits : Nat
  maxExponent : Nat

namespace Format

variable (F : Format)

/-- The pattern of infinity. Smaller patterns are finite numbers, in their order. -/
def infinity : Nat := F.maxExponent * 2 ^ F.fractionBits

/-- Behind a pattern comes the next number by so many doublings of the smallest one. -/
def scale (bits : Nat) : Nat := bits / 2 ^ F.fractionBits - 1

def significand (bits : Nat) : Nat :=
  if bits < 2 ^ F.fractionBits then bits else 2 ^ F.fractionBits + bits % 2 ^ F.fractionBits

def units (bits : Nat) : Nat := F.significand bits * 2 ^ F.scale bits

variable {F}

theorem units_of_lt {bits : Nat} (h : bits < 2 ^ F.fractionBits) : F.units bits = bits := by
  simp [units, significand, scale, h, Nat.div_eq_of_lt h]

theorem units_normal (exponent : Nat) {fraction : Nat} (h : fraction < 2 ^ F.fractionBits) :
    F.units ((exponent + 1) * 2 ^ F.fractionBits + fraction) =
      (2 ^ F.fractionBits + fraction) * 2 ^ exponent := by
  have hpos : 0 < 2 ^ F.fractionBits := Nat.two_pow_pos _
  have hge : ¬ (exponent + 1) * 2 ^ F.fractionBits + fraction < 2 ^ F.fractionBits := by
    rw [Nat.add_mul]
    omega
  have hdiv : ((exponent + 1) * 2 ^ F.fractionBits + fraction) / 2 ^ F.fractionBits =
      exponent + 1 := by
    rw [Nat.mul_comm, Nat.mul_add_div hpos, Nat.div_eq_of_lt h, Nat.add_zero]
  simp [units, significand, scale, hge, hdiv, Nat.mul_add_mod_of_lt h]

theorem scale_of_lt {bits : Nat} (h : bits < 2 ^ F.fractionBits) : F.scale bits = 0 := by
  simp [scale, Nat.div_eq_of_lt h]

theorem scale_normal (exponent : Nat) {fraction : Nat} (h : fraction < 2 ^ F.fractionBits) :
    F.scale ((exponent + 1) * 2 ^ F.fractionBits + fraction) = exponent := by
  rw [scale, Nat.mul_comm, Nat.mul_add_div (Nat.two_pow_pos _), Nat.div_eq_of_lt h, Nat.add_zero,
    Nat.add_sub_cancel]

/-- A pattern is a subnormal number or a normal one. -/
theorem cases (bits : Nat) :
    bits < 2 ^ F.fractionBits ∨ ∃ exponent fraction, fraction < 2 ^ F.fractionBits ∧
      bits = (exponent + 1) * 2 ^ F.fractionBits + fraction := by
  by_cases h : bits < 2 ^ F.fractionBits
  · exact .inl h
  · have hdiv : 0 < bits / 2 ^ F.fractionBits :=
      Nat.div_pos (Nat.le_of_not_lt h) (Nat.two_pow_pos _)
    refine .inr ⟨bits / 2 ^ F.fractionBits - 1, bits % 2 ^ F.fractionBits,
      Nat.mod_lt _ (Nat.two_pow_pos _), ?_⟩
    rw [Nat.sub_add_cancel hdiv, Nat.div_add_mod']

theorem units_succ (bits : Nat) : F.units (bits + 1) = F.units bits + 2 ^ F.scale bits := by
  rcases F.cases bits with h | ⟨exponent, fraction, h, rfl⟩
  · rw [units_of_lt h, scale_of_lt h, Nat.pow_zero]
    by_cases hlt : bits + 1 < 2 ^ F.fractionBits
    · exact units_of_lt hlt
    · -- behind the last subnormal number
      have hlast : bits + 1 = 2 ^ F.fractionBits := by omega
      have hfirst := F.units_normal 0 (Nat.two_pow_pos F.fractionBits)
      simp only [Nat.zero_add, Nat.one_mul, Nat.add_zero, Nat.pow_zero, Nat.mul_one] at hfirst
      rw [hlast, hfirst]
  · rw [units_normal exponent h, scale_normal exponent h, ← Nat.succ_mul]
    by_cases hlt : fraction + 1 < 2 ^ F.fractionBits
    · rw [Nat.add_assoc, units_normal exponent hlt]
      rfl
    · -- behind the last number with an exponent
      have hlast : 2 ^ F.fractionBits = fraction + 1 := by omega
      have hnext : (exponent + 1) * 2 ^ F.fractionBits + fraction + 1 =
          (exponent + 1 + 1) * 2 ^ F.fractionBits + 0 := by
        rw [Nat.add_assoc, ← hlast, ← Nat.succ_mul]
        rfl
      rw [hnext, units_normal _ (Nat.two_pow_pos _), Nat.add_zero, Nat.succ_eq_add_one,
        Nat.add_assoc, ← hlast, Nat.pow_succ]
      ring

theorem units_strictMono : StrictMono F.units :=
  strictMono_nat_of_lt_succ fun bits => by
    rw [units_succ]
    exact Nat.lt_add_of_pos_right (Nat.two_pow_pos _)

theorem units_le_iff {m n : Nat} : F.units m ≤ F.units n ↔ m ≤ n := units_strictMono.le_iff_le

/-! ## Rounding -/

/-- The number in units rounds to the pattern: none is nearer, and of two that are as near it is
the even one. -/
structure IsRounded (F : Format) (x : ℚ) (bits : Nat) : Prop where
  le_infinity : bits ≤ F.infinity
  nearest : ∀ other ≤ F.infinity, |x - F.units bits| ≤ |x - F.units other|
  even : ∀ other ≤ F.infinity, other ≠ bits → |x - F.units bits| = |x - F.units other| → Even bits

theorem abs_sub_lt_of_le {x : ℚ} {m n : Nat} (hx : F.units n ≤ x) (h : m < n) :
    |x - F.units n| < |x - F.units m| := by
  have hmn : (F.units m : ℚ) < F.units n := by exact_mod_cast units_strictMono h
  rw [abs_of_nonneg (by linarith), abs_of_nonneg (by linarith)]
  linarith

theorem abs_sub_lt_of_ge {x : ℚ} {m n : Nat} (hx : x ≤ F.units n) (h : n < m) :
    |x - F.units n| < |x - F.units m| := by
  have hmn : (F.units n : ℚ) < F.units m := by exact_mod_cast units_strictMono h
  rw [abs_of_nonpos (by linarith), abs_of_nonpos (by linarith)]
  linarith

variable {x : ℚ} {bits : Nat}

/-- Between two neighbours a number rounds to the nearer one, and in the middle to the even one. -/
theorem isRounded_of_between (hbits : bits < F.infinity) (hle : F.units bits ≤ x)
    (hge : x ≤ F.units (bits + 1)) :
    IsRounded F x
      (if 2 * (x - F.units bits) < 2 ^ F.scale bits ∨
          2 * (x - F.units bits) = 2 ^ F.scale bits ∧ Even bits then bits
        else bits + 1) := by
  have hsucc : (F.units (bits + 1) : ℚ) = F.units bits + 2 ^ F.scale bits := by
    exact_mod_cast units_succ bits
  have hlow : |x - F.units bits| = x - F.units bits := abs_of_nonneg (by linarith)
  have hhigh : |x - F.units (bits + 1)| = F.units (bits + 1) - x := by
    rw [abs_of_nonpos (by linarith), neg_sub]
  have hbelow (other : Nat) (h : other ≤ bits) : |x - F.units bits| ≤ |x - F.units other| := by
    rcases Nat.lt_or_eq_of_le h with h | rfl
    · exact (abs_sub_lt_of_le hle h).le
    · exact le_refl _
  have habove (other : Nat) (h : bits + 1 ≤ other) :
      |x - F.units (bits + 1)| ≤ |x - F.units other| := by
    rcases Nat.lt_or_eq_of_le h with h | rfl
    · exact (abs_sub_lt_of_ge hge h).le
    · exact le_refl _
  split_ifs with hnear
  · have hnearer : |x - F.units bits| ≤ |x - F.units (bits + 1)| := by
      rw [hlow, hhigh]
      rcases hnear with hnear | ⟨hnear, -⟩ <;> linarith
    refine ⟨hbits.le, fun other _ => ?_, fun other _ hne heq => ?_⟩
    · rcases Nat.lt_or_ge bits other with h | h
      · exact hnearer.trans (habove other h)
      · exact hbelow other h
    · rcases Nat.lt_or_ge bits other with h | h
      · -- the neighbours are as near as each other
        have hboth : |x - F.units bits| = |x - F.units (bits + 1)| :=
          le_antisymm hnearer (heq ▸ habove other h)
        rw [hlow, hhigh] at hboth
        rcases hnear with hnear | ⟨-, heven⟩
        · linarith
        · exact heven
      · exact absurd heq (abs_sub_lt_of_le hle (Nat.lt_of_le_of_ne h hne)).ne
  · have hnot : ¬ 2 * (x - F.units bits) < 2 ^ F.scale bits := fun h => hnear (.inl h)
    have hnearer : |x - F.units (bits + 1)| ≤ |x - F.units bits| := by
      rw [hlow, hhigh]
      linarith
    refine ⟨hbits, fun other _ => ?_, fun other _ hne heq => ?_⟩
    · rcases Nat.lt_or_ge bits other with h | h
      · exact habove other h
      · exact hnearer.trans (hbelow other h)
    · rcases Nat.lt_or_ge bits other with h | h
      · exact absurd heq (abs_sub_lt_of_ge hge (Nat.lt_of_le_of_ne h hne.symm)).ne
      · have hboth : |x - F.units (bits + 1)| = |x - F.units bits| :=
          le_antisymm hnearer (heq ▸ hbelow other h)
        rw [hlow, hhigh] at hboth
        have hodd : ¬ Even bits := fun heven => hnear (.inr ⟨by linarith, heven⟩)
        exact Nat.even_add_one.mpr hodd

/-- The same with what is cut off and the distance of the neighbours counted in some unit. -/
theorem isRounded_of_cut {cut distance : Nat} {unit : ℚ} (hunit : 0 < unit)
    (hbits : bits < F.infinity) (hcut : 2 * (x - F.units bits) = cut * unit)
    (hdistance : (2 : ℚ) ^ F.scale bits = distance * unit) (hlt : cut < 2 * distance) :
    IsRounded F x
      (if cut < distance ∨ cut = distance ∧ Even bits then bits else bits + 1) := by
  have hle : (F.units bits : ℚ) ≤ x := by
    have : (0 : ℚ) ≤ cut * unit := by positivity
    linarith
  have hge : x ≤ F.units (bits + 1) := by
    have hcast : (cut : ℚ) ≤ 2 * distance := by exact_mod_cast hlt.le
    have := mul_le_mul_of_nonneg_right hcast hunit.le
    rw [units_succ]
    push_cast
    linarith
  have hround := isRounded_of_between hbits hle hge
  simpa only [hcut, hdistance, mul_lt_mul_iff_left₀ hunit, Nat.cast_lt,
    mul_left_inj' hunit.ne', Nat.cast_inj] using hround

theorem isRounded_units (h : bits ≤ F.infinity) : IsRounded F (F.units bits) bits := by
  refine ⟨h, fun other _ => by simp, fun other _ hne heq => ?_⟩
  have hunits : (F.units bits : ℚ) = F.units other := by
    rw [sub_self, abs_zero] at heq
    exact sub_eq_zero.mp (abs_eq_zero.mp heq.symm)
  exact absurd (units_strictMono.injective (by exact_mod_cast hunits)) hne.symm

/-- What is not below the number behind the last finite one rounds to infinity. -/
theorem isRounded_of_infinity_le (h : F.units F.infinity ≤ x) : IsRounded F x F.infinity := by
  refine ⟨le_refl _, fun other hother => ?_, fun other hother hne heq => ?_⟩
  · rcases Nat.lt_or_eq_of_le hother with hlt | rfl
    · exact (abs_sub_lt_of_le h hlt).le
    · exact le_refl _
  · exact absurd heq (abs_sub_lt_of_le h (Nat.lt_of_le_of_ne hother hne)).ne

/-- The pattern of the last number that is not above so many units. -/
def below (F : Format) (n : Nat) : Nat :=
  if n < 2 ^ F.fractionBits then n
  else
    let exponent := n.log2 - F.fractionBits
    exponent * 2 ^ F.fractionBits + n / 2 ^ exponent

theorem below_cases {n : Nat} (h : 2 ^ F.fractionBits ≤ n) :
    ∃ exponent fraction, fraction < 2 ^ F.fractionBits ∧
      F.below n = (exponent + 1) * 2 ^ F.fractionBits + fraction ∧
      (2 ^ F.fractionBits + fraction) * 2 ^ exponent ≤ n ∧
      n < (2 ^ F.fractionBits + fraction + 1) * 2 ^ exponent := by
  have hn : n ≠ 0 := by
    have := Nat.two_pow_pos F.fractionBits
    omega
  obtain ⟨exponent, hlog⟩ : ∃ exponent, n.log2 = exponent + F.fractionBits :=
    ⟨n.log2 - F.fractionBits, by have := (Nat.le_log2 hn).mpr h; omega⟩
  have hlow : 2 ^ F.fractionBits ≤ n / 2 ^ exponent := by
    rw [Nat.le_div_iff_mul_le (Nat.two_pow_pos _), ← Nat.pow_add, Nat.add_comm, ← hlog]
    exact Nat.log2_self_le hn
  have hhigh : n / 2 ^ exponent < 2 * 2 ^ F.fractionBits := by
    rw [Nat.div_lt_iff_lt_mul (Nat.two_pow_pos _), ← Nat.pow_succ', ← Nat.pow_add]
    have := Nat.lt_log2_self (n := n)
    rw [hlog] at this
    exact lt_of_lt_of_eq this (by congr 1; omega)
  have hdiv : 2 ^ F.fractionBits + (n / 2 ^ exponent - 2 ^ F.fractionBits) = n / 2 ^ exponent := by
    omega
  refine ⟨exponent, n / 2 ^ exponent - 2 ^ F.fractionBits, by omega, ?_, ?_, ?_⟩
  · simp only [below, Nat.not_lt.mpr h, if_false, hlog, Nat.add_sub_cancel, Nat.succ_mul,
      Nat.add_assoc, hdiv]
  · rw [hdiv]
    exact Nat.div_mul_le_self n _
  · rw [hdiv]
    exact Nat.lt_mul_of_div_lt (Nat.lt_succ_self _) (Nat.two_pow_pos _)

theorem units_below_le (n : Nat) : F.units (F.below n) ≤ n ∧ n < F.units (F.below n + 1) := by
  rw [units_succ]
  rcases Nat.lt_or_ge n (2 ^ F.fractionBits) with h | h
  · have hbelow : F.below n = n := if_pos h
    rw [hbelow, units_of_lt h, scale_of_lt h]
    omega
  · obtain ⟨exponent, fraction, hfraction, hbelow, hle, hlt⟩ := F.below_cases h
    rw [hbelow, units_normal exponent hfraction, scale_normal exponent hfraction]
    rw [Nat.succ_mul] at hlt
    exact ⟨hle, hlt⟩

/-- The nearest number to so many units. -/
def round (F : Format) (x : ℚ) : Nat :=
  let bits := F.below ⌊x⌋₊
  if F.infinity ≤ bits then F.infinity
  else if 2 * (x - F.units bits) < 2 ^ F.scale bits ∨
      2 * (x - F.units bits) = 2 ^ F.scale bits ∧ Even bits then bits
  else bits + 1

theorem isRounded_round (F : Format) (hx : 0 ≤ x) : IsRounded F x (F.round x) := by
  obtain ⟨hle, hlt⟩ := F.units_below_le ⌊x⌋₊
  have hfloor : (F.units (F.below ⌊x⌋₊) : ℚ) ≤ x :=
    le_trans (by exact_mod_cast hle) (Nat.floor_le hx)
  unfold round
  dsimp only
  split_ifs with hinfinity hnear
  · refine isRounded_of_infinity_le (le_trans ?_ hfloor)
    exact_mod_cast units_le_iff.mpr hinfinity
  all_goals
    have hround := isRounded_of_between (Nat.lt_of_not_le hinfinity) hfloor
      (Nat.lt_floor_add_one x |>.le.trans (by exact_mod_cast hlt))
    simpa only [hnear, if_true, if_false] using hround

theorem abs_sub_le_iff {u w : ℚ} (h : u < w) : |x - u| ≤ |x - w| ↔ 2 * x ≤ u + w := by
  rcases abs_cases (x - u) with hu | hu <;> rcases abs_cases (x - w) with hw | hw <;>
    constructor <;> intro <;> linarith

theorem abs_sub_ge_iff {u w : ℚ} (h : u < w) : |x - w| ≤ |x - u| ↔ u + w ≤ 2 * x := by
  rcases abs_cases (x - u) with hu | hu <;> rcases abs_cases (x - w) with hw | hw <;>
    constructor <;> intro <;> linarith

namespace IsRounded

variable {y : ℚ} {other : Nat}

theorem two_mul_le (h : IsRounded F x bits) (hlt : bits < other) (hother : other ≤ F.infinity) :
    2 * x ≤ F.units bits + F.units other :=
  (abs_sub_le_iff (by exact_mod_cast units_strictMono hlt)).mp (h.nearest other hother)

theorem le_two_mul (h : IsRounded F x bits) (hlt : other < bits) :
    F.units other + F.units bits ≤ 2 * x :=
  (abs_sub_ge_iff (by exact_mod_cast units_strictMono hlt)).mp
    (h.nearest other (hlt.le.trans h.le_infinity))

/-- Two roundings would be as near, and so both even; but between them is a nearer number. -/
theorem not_lt (h : IsRounded F x bits) (h' : IsRounded F x other) : ¬ bits < other := by
  intro hlt
  have hsum := le_antisymm (h.two_mul_le hlt h'.le_infinity) (h'.le_two_mul hlt)
  have hsame : |x - F.units bits| = |x - F.units other| :=
    le_antisymm (h.nearest other h'.le_infinity) (h'.nearest bits h.le_infinity)
  obtain ⟨m, hm⟩ := h.even other h'.le_infinity hlt.ne' hsame
  obtain ⟨n, hn⟩ := h'.even bits h.le_infinity hlt.ne hsame.symm
  have hnext : bits + 1 < other := by omega
  have hnearer := h.two_mul_le (Nat.lt_succ_self bits) (hnext.le.trans h'.le_infinity)
  have hmono : (F.units (bits + 1) : ℚ) < F.units other := by exact_mod_cast units_strictMono hnext
  linarith

theorem unique (h : IsRounded F x bits) (h' : IsRounded F x other) : bits = other :=
  le_antisymm (Nat.le_of_not_lt (h'.not_lt h)) (Nat.le_of_not_lt (h.not_lt h'))

theorem mono (h : IsRounded F x bits) (h' : IsRounded F y other) (hxy : x ≤ y) : bits ≤ other := by
  by_contra hlt
  have hlt := Nat.lt_of_not_le hlt
  have hx := h.le_two_mul hlt
  have hy := h'.two_mul_le hlt h.le_infinity
  obtain rfl : x = y := le_antisymm hxy (by linarith)
  exact h'.not_lt h hlt

/-- Numbers that round to one normal number are near each other. -/
theorem sub_mul_le (h : IsRounded F x bits) (h' : IsRounded F y bits)
    (hnormal : 2 ^ F.fractionBits ≤ bits) (hfinite : bits < F.infinity) :
    (y - x) * 2 ^ F.fractionBits ≤ 2 * x := by
  obtain ⟨previous, rfl⟩ : ∃ previous, bits = previous + 1 :=
    ⟨bits - 1, by have := Nat.two_pow_pos F.fractionBits; omega⟩
  have hlow := h.le_two_mul (Nat.lt_succ_self previous)
  have hhigh := h'.two_mul_le (Nat.lt_succ_self (previous + 1)) hfinite
  have hscale : F.scale previous ≤ F.scale (previous + 1) :=
    Nat.sub_le_sub_right (Nat.div_le_div_right (Nat.le_succ _)) _
  have hstep : 2 ^ F.scale (previous + 1) * 2 ^ F.fractionBits ≤ F.units (previous + 1) := by
    rw [units, significand, if_neg (by omega), Nat.mul_comm]
    exact Nat.mul_le_mul_right _ (Nat.le_add_right _ _)
  have hstep : (2 : ℚ) ^ F.scale (previous + 1) * 2 ^ F.fractionBits ≤ F.units (previous + 1) := by
    exact_mod_cast hstep
  have hprevious : (2 : ℚ) ^ F.scale previous ≤ 2 ^ F.scale (previous + 1) :=
    pow_le_pow_right₀ (by norm_num) hscale
  have hbelow : (F.units (previous + 1) : ℚ) = F.units previous + 2 ^ F.scale previous := by
    rw [units_succ]
    push_cast
    ring
  have habove : (F.units (previous + 1 + 1) : ℚ) =
      F.units (previous + 1) + 2 ^ F.scale (previous + 1) := by
    rw [units_succ (previous + 1)]
    push_cast
    ring
  have hpositive : (0 : ℚ) ≤ F.units previous := Nat.cast_nonneg _
  have hdifference : y - x ≤ 2 ^ F.scale (previous + 1) := by linarith
  calc (y - x) * 2 ^ F.fractionBits
      ≤ 2 ^ F.scale (previous + 1) * 2 ^ F.fractionBits :=
        mul_le_mul_of_nonneg_right hdifference (by positivity)
    _ ≤ F.units (previous + 1) := hstep
    _ ≤ 2 * x := by linarith

end IsRounded

/-- Rounding overflows from the middle between the last finite number and the next one on. -/
theorem isRounded_infinity_iff (hpos : 0 < F.infinity) (heven : Even F.infinity) :
    IsRounded F x F.infinity ↔
      (F.units (F.infinity - 1) : ℚ) + F.units F.infinity ≤ 2 * x := by
  constructor
  · intro h
    exact h.le_two_mul (Nat.sub_lt hpos Nat.one_pos)
  · intro h
    rcases lt_or_ge x (F.units F.infinity) with hlt | hge
    · have hlast : F.infinity - 1 + 1 = F.infinity := Nat.sub_add_cancel hpos
      have hsucc : (F.units F.infinity : ℚ) =
          F.units (F.infinity - 1) + 2 ^ F.scale (F.infinity - 1) := by
        rw [← hlast]
        exact_mod_cast units_succ (F.infinity - 1)
      have hle : (F.units (F.infinity - 1) : ℚ) ≤ x := by
        have : (0 : ℚ) < 2 ^ F.scale (F.infinity - 1) := by positivity
        linarith
      have hround := isRounded_of_between (Nat.sub_lt hpos Nat.one_pos) hle (hlast ▸ hlt.le)
      have hodd : ¬ Even (F.infinity - 1) := by
        rw [← Nat.even_add_one, hlast]
        exact heven
      have hnot : ¬ 2 * (x - F.units (F.infinity - 1)) < 2 ^ F.scale (F.infinity - 1) := by
        linarith
      rw [if_neg (by simp [hnot, hodd]), hlast] at hround
      exact hround
    · exact isRounded_of_infinity_le hge

end Format

end Rounding
