import Tsz.Syntax.Numbers.Recovery
import Tsz.Syntax.Parser.Literals

/-!
# The values of number tokens

What the checker reads of a number token is the number of its digits, however the scanner has
recovered it, but for digits behind `0_` that are read again in octal.

## Main results

* `scanNumericLiteral_faithful` — what the scanner finds at a digit is read as its digits, or it is
  misread.
-/

namespace Tsz.Syntax

open Rounding Rounding.Format Decimals

/-- The text of a token that is read again. -/
def ScannedNumericToken.semanticText (token : ScannedNumericToken) (raw : String) : String :=
  match token.recoveryLiteral with
  | some literal => literal.semanticText
  | none => raw

/-- A text is read as the number of a token, but if the token is misread. -/
def Faithful (raw semantic : List Char) : Prop :=
  numericValue (withoutSeparatorChars semantic) =
    some (binary64.round (inUnits (authoredValue raw))) ↔ ¬ IsMisread raw

theorem withoutSeparatorChars_idem (text : List Char) :
    withoutSeparatorChars (withoutSeparatorChars text) = withoutSeparatorChars text := by
  simp [withoutSeparatorChars]

theorem toList_withoutSeparators (text : List Char) :
    (withoutSeparators (String.ofList text)).toList = withoutSeparatorChars text := by
  simp only [withoutSeparators, String.toList_ofList, withoutSeparatorChars]
  exact List.filter_congr fun c _ => (decide_not (p := c = '_')).symm

/-! ## Decimal tokens -/

/-- The exponent behind a head. -/
theorem decimalExponent_cases (head : DecimalHead) :
    decimalExponent head = none ∨
      ∃ run mark sign front, decimalExponent head = some run ∧ (mark = 'e' ∨ mark = 'E') ∧
        IsSign sign ∧ (∀ c ∈ front, isRunCharacter 10 c = true) ∧
        head.rest = mark :: (sign ++ front) ++ run.rest ∧
        run.stop = head.stop + (mark :: (sign ++ front)).length ∧
        run.digitCount = (withoutSeparatorChars front).length := by
  unfold decimalExponent
  split
  next c rest hrest =>
    split_ifs with hmark
    · refine .inr ?_
      cases hsign : rest.head?.any fun c => c == '+' || c == '-' with
      | false =>
        simp only [Bool.false_eq_true, if_false]
        have htakes := takes_consumeDigits 10 false (head.stop + 1) rest
        refine ⟨_, c, [], _, rfl, hmark, .inl rfl, htakes.all, ?_, ?_, htakes.digitCount⟩
        · rw [hrest, List.nil_append, List.cons_append, ← htakes.text_eq]
        · rw [htakes.stop, List.nil_append, List.length_cons]
          omega
      | true =>
        simp only [if_true]
        obtain ⟨d, hd, hsign⟩ := (Option.any_eq_true _ _).mp hsign
        obtain ⟨tail, rfl⟩ : ∃ tail, rest = d :: tail := by
          cases rest with
          | nil => cases hd
          | cons e tail => exact ⟨tail, by rw [Option.some.inj hd]⟩
        have hsign : IsSign [d] := by
          rcases Bool.or_eq_true_iff.mp hsign with hsign | hsign
          · exact .inr (.inl (by rw [eq_of_beq hsign]))
          · exact .inr (.inr (by rw [eq_of_beq hsign]))
        have htakes := takes_consumeDigits 10 false (head.stop + 2) tail
        refine ⟨_, c, [d], _, rfl, hmark, hsign, htakes.all, ?_, ?_, htakes.digitCount⟩
        · rw [hrest, List.cons_append, List.append_assoc]
          exact congrArg (c :: d :: ·) htakes.text_eq
        · rw [List.tail_cons, htakes.stop]
          simp only [List.length_cons, List.length_append, List.length_nil]
          omega
    · exact .inl rfl
  next => exact .inl rfl

variable {source : SourceText}

/-- A head by the characters that it has taken. -/
structure DecimalHead.Takes (source : SourceText) (head : DecimalHead)
    (integer point : List Char) : Prop where
  isAt : source.IsAt head.start (integer ++ point ++ head.rest)
  stop : head.stop = head.start + (integer ++ point).length
  written : Written integer point []
  hasFraction : head.hasFraction = false → point = []
  leadingZero : head.leadingZeroDecimal = true →
    head.integer = String.ofList integer ∧ IsDigits integer
  notLegacy : isLegacyOctal integer = false
  front : isLegacyOctal (withoutSeparatorChars integer) = true →
    integer.take 2 = ['0', '_'] ∧ head.invalidSeparator = true

theorem isAscii_of_written {integer point exponent : List Char}
    (h : Written integer point exponent) {suffix : List Char}
    (hsuffix : suffix = [] ∨ suffix = ['n']) :
    ∀ c ∈ integer ++ (point ++ (exponent ++ suffix)), isAscii c := by
  intro c hc
  have hc : c ∈ integer ++ (point ++ exponent) ∨ c ∈ suffix := by simpa [or_assoc] using hc
  rcases hc with hc | hc
  · rcases h.mem_cases hc with hd | hd
    · exact isAscii_of_isDigit hd
    · simp only [List.mem_cons, List.not_mem_nil, or_false] at hd
      rcases hd with rfl | rfl | rfl | rfl | rfl | rfl <;> decide
  · obtain rfl | rfl := hsuffix
    · cases hc
    · rw [List.mem_singleton.mp hc]
      decide

namespace DecimalHead.Takes

variable {head : DecimalHead} {integer point exponent suffix rest : List Char}

theorem written_append (h : head.Takes source integer point)
    (hexponent : exponent = [] ∨ ∃ mark sign digits, (mark = 'e' ∨ mark = 'E') ∧ IsSign sign ∧
      (∀ c ∈ digits, isRunCharacter 10 c = true) ∧ exponent = mark :: (sign ++ digits)) :
    Written integer point exponent :=
  ⟨h.written.digits, h.written.integer, h.written.point, hexponent⟩

/-- The characters of a token. -/
theorem slice (h : head.Takes source integer point)
    (hwritten : Written integer point exponent) (hsuffix : suffix = [] ∨ suffix = ['n'])
    (rest : List Char) (hrest : head.rest = exponent ++ (suffix ++ rest)) :
    source.slice ⟨source.id, head.start, head.stop + (exponent ++ suffix).length⟩ =
      String.ofList (integer ++ (point ++ (exponent ++ suffix))) := by
  have hat := h.isAt
  rw [hrest] at hat
  have heq : integer ++ point ++ (exponent ++ (suffix ++ rest)) =
      (integer ++ (point ++ (exponent ++ suffix))) ++ rest := by simp
  rw [heq] at hat
  rw [← hat.slice (isAscii_of_written hwritten hsuffix), h.stop]
  congr 2
  simp only [List.length_append]
  omega

/-- The characters in front of the exponent. -/
theorem slice_front (h : head.Takes source integer point) :
    source.slice ⟨source.id, head.start, head.stop⟩ = String.ofList (integer ++ point) := by
  have hslice := h.slice h.written (.inl rfl) head.rest rfl
  simpa using hslice

/-- A token of the characters of a number is not a legacy octal one. -/
theorem isLegacyOctal_raw (h : head.Takes source integer point)
    (hwritten : Written integer point exponent) (hsuffix : suffix = [] ∨ suffix = ['n']) :
    isLegacyOctal (integer ++ (point ++ (exponent ++ suffix))) = false := by
  by_contra hlegacy
  have hlegacy : isLegacyOctal (integer ++ (point ++ (exponent ++ suffix))) = true := by
    simpa using hlegacy
  have hall : ∀ c ∈ integer ++ (point ++ (exponent ++ suffix)), isRadixDigit 8 c = true := by
    simp only [isLegacyOctal, Bool.and_eq_true] at hlegacy
    exact List.all_eq_true.mp hlegacy.2
  have hpoint : point = [] := by
    obtain hnil | ⟨fraction, -, hpoint⟩ := hwritten.point
    · exact hnil
    · exact absurd (hall '.' (by simp [hpoint])) (by decide)
  have hexponent : exponent = [] := by
    obtain hnil | ⟨mark, sign, digits, hmark, -, -, hexponent⟩ := hwritten.exponent
    · exact hnil
    · have hc := hall mark (by simp [hexponent])
      rcases hmark with rfl | rfl <;> exact absurd hc (by decide)
  have hsuffix : suffix = [] := by
    obtain hnil | hn := hsuffix
    · exact hnil
    · exact absurd (hall 'n' (by simp [hn])) (by decide)
  rw [hpoint, hexponent, hsuffix] at hlegacy
  have hnot := h.notLegacy
  simp only [List.append_nil] at hlegacy
  rw [hlegacy] at hnot
  cases hnot

theorem take_front {front more : List Char} (h : front.take 2 = ['0', '_']) :
    (front ++ more).take 2 = ['0', '_'] := by
  have hlength : 2 ≤ front.length := by
    have := congrArg List.length h
    rw [List.length_take] at this
    simp only [List.length_cons, List.length_nil] at this
    omega
  rw [List.take_append_of_le_length hlength, h]

/-- The significant text of a token is read as the number of its digits, but for a misread one. -/
theorem faithful (h : head.Takes source integer point)
    (hwritten : Written integer point exponent) (hsuffix : suffix = [] ∨ suffix = ['n'])
    {semantic : List Char}
    (hsemantic : withoutSeparatorChars semantic = Written.significant integer point exponent) :
    Faithful (integer ++ (point ++ (exponent ++ suffix))) semantic := by
  rw [Faithful, hsemantic]
  refine hwritten.value_iff hsuffix rfl (h.isLegacyOctal_raw hwritten hsuffix) fun hlegacy => ?_
  exact take_front (h.front hlegacy).1

/-- All of a token but a suffix, when its exponent is complete. -/
theorem withoutSeparators_raw (hwritten : Written integer point exponent)
    (hcomplete : exponent = [] ∨ exponent.any Char.isDigit = true) :
    withoutSeparatorChars (integer ++ (point ++ exponent)) =
      Written.significant integer point exponent := by
  rw [Written.withoutSeparators_append, Written.withoutSeparators_append, Written.significant]
  congr 2
  obtain rfl | hany := hcomplete
  · rfl
  · rw [completeExponent, if_pos hany]

/-- What is read behind a head: an exponent, or nothing. -/
theorem exists_exponent (h : head.Takes source integer point) : ∃ exponent rest,
    Written integer point exponent ∧ head.rest = exponent ++ rest ∧
      ((decimalExponent head).map (·.stop)).getD head.stop = head.stop + exponent.length ∧
      ((decimalExponent head).map (·.rest)).getD head.rest = rest ∧
      ((decimalExponent head).isSome = false → exponent = []) ∧
      ((decimalExponent head).any (·.digitCount == 0) = true → completeExponent exponent = []) ∧
      ((decimalExponent head).any (·.digitCount == 0) = false →
        exponent = [] ∨ exponent.any Char.isDigit = true) := by
  rcases decimalExponent_cases head with
    hnone | ⟨run, mark, sign, front, hrun, hmark, hsign, hfront, hrest, hstop, hcount⟩
  · refine ⟨[], head.rest, h.written, rfl, ?_⟩
    simp [hnone]
  · refine ⟨mark :: (sign ++ front), run.rest,
      h.written_append (.inr ⟨mark, sign, front, hmark, hsign, hfront, rfl⟩), hrest, ?_, ?_, ?_,
      ?_, ?_⟩
    · simpa [hrun] using hstop
    · simp [hrun]
    · simp [hrun]
    · intro hmissing
      have hnil : withoutSeparatorChars front = [] := by
        simpa [hrun, hcount] using hmissing
      exact if_neg fun hany => (Written.any_isDigit_exponent hmark hsign hfront).mp hany hnil
    · intro hmissing
      refine .inr ((Written.any_isDigit_exponent hmark hsign hfront).mpr fun hnil => ?_)
      simp [hrun, hcount, hnil] at hmissing

end DecimalHead.Takes

/-- The text of a safe integer is read as it. -/
theorem numericValue_canonical {digits : List Char} {radix : Nat} {text : String}
    (h : canonicalBoundedInteger (String.ofList digits) radix = some text) :
    numericValue (withoutSeparatorChars text.toList) =
      some (binary64.round (inUnits (digits.foldl
        (fun value c => value * radix + (c.toNat - '0'.toNat)) 0 : Nat))) := by
  unfold canonicalBoundedInteger at h
  rw [String.toList_ofList] at h
  dsimp only at h
  split_ifs at h
  obtain rfl := Option.some.inj h
  have htext : (toString (digits.foldl
      (fun value c => value * radix + (c.toNat - '0'.toNat)) 0)).toList =
      Nat.toDigits 10 (digits.foldl (fun value c => value * radix + (c.toNat - '0'.toNat)) 0) := by
    rw [Nat.toString_eq_repr, Nat.toList_repr]
  rw [htext, withoutSeparatorChars, filter_digits (isDigits_toDigits _), numericValue_toDigits]

theorem foldl_eq_number (digits : List Char) :
    digits.foldl (fun value c => value * 10 + (c.toNat - '0'.toNat)) 0 = number digits := by
  rw [number, Nat.ofDigitChars_eq_foldl]
  congr 1
  funext value c
  rw [Nat.mul_comm]

theorem prefixedNumeric_of_radix {text : List Char} {radix : Nat}
    (h : radixOfPrefix text = some radix) :
    ∃ mark rest, text = '0' :: mark :: rest ∧ mark ≠ '_' ∧ isAscii mark ∧
      ∀ digits, prefixedNumeric ('0' :: mark :: digits) = some (digits, radix) := by
  unfold radixOfPrefix at h
  split at h
  next mark rest =>
    refine ⟨mark, rest, rfl, ?_⟩
    split_ifs at h with hx hb ho
    · obtain rfl := Option.some.inj h
      rcases hx with rfl | rfl <;> exact ⟨by decide, by decide, fun _ => rfl⟩
    · obtain rfl := Option.some.inj h
      rcases hb with rfl | rfl <;> exact ⟨by decide, by decide, fun _ => rfl⟩
    · obtain rfl := Option.some.inj h
      rcases ho with rfl | rfl <;> exact ⟨by decide, by decide, fun _ => rfl⟩
  next => cases h

theorem withoutSeparators_marked {mark : Char} (hmark : mark ≠ '_') (front : List Char) :
    withoutSeparatorChars ('0' :: mark :: front) = '0' :: mark :: withoutSeparatorChars front := by
  rw [withoutSeparatorChars, List.filter_cons_of_pos (by decide),
    List.filter_cons_of_pos (by simpa using hmark)]
  rfl

/-! ## Digits in front of a point -/

theorem isRunCharacter_of_isDigit {c : Char} (h : c.isDigit = true) :
    isRunCharacter 10 c = true := by
  rw [isRunCharacter, isRadixDigit_of_isDigit h, Bool.or_true]

/-- The digits in front of a point: behind a leading zero either digits alone, or separators that
are wrong. -/
theorem decimalInteger_takes (start : Nat) {c : Char} (rest : List Char) (hc : c.isDigit = true) :
    ∃ more, (∀ d ∈ c :: more, isRunCharacter 10 d = true) ∧
      c :: rest = c :: more ++ (decimalInteger start (c :: rest)).rest ∧
      (decimalInteger start (c :: rest)).stop = start + (c :: more).length ∧
      (c = '0' → IsDigits (c :: more) ∨
        (c :: more).take 2 = ['0', '_'] ∧
          (decimalInteger start (c :: rest)).invalidSeparator = true) := by
  have hrun := isRunCharacter_of_isDigit hc
  unfold decimalInteger
  split
  next rest' heq =>
    obtain ⟨rfl, rfl⟩ := List.cons.inj heq
    dsimp only
    split
    next hseparator =>
      obtain ⟨-, hhead⟩ := Bool.and_eq_true_iff.mp hseparator
      have hnil : rest.takeWhile Char.isDigit = [] := by
        simpa using (Bool.and_eq_true_iff.mp hseparator).1
      rw [hnil, List.length_nil, List.drop_zero] at hhead
      obtain ⟨tail, rfl⟩ := List.head?_eq_some_iff.mp (eq_of_beq hhead)
      have htakes := takes_consumeDigits 10 true (start + 1) ('_' :: tail)
      refine ⟨_, List.forall_mem_cons.mpr ⟨hrun, htakes.all⟩, ?_, ?_, fun _ => .inr ⟨?_, ?_⟩⟩
      · rw [List.cons_append, ← htakes.text_eq]
      · rw [htakes.stop, List.length_cons]
        omega
      · rw [List.takeWhile_cons_of_pos rfl]
        rfl
      · exact invalidSeparator_consumeDigits 10 true (start + 1) tail
    next =>
      have hdigits : IsDigits ('0' :: rest.takeWhile Char.isDigit) :=
        List.forall_mem_cons.mpr ⟨hc, fun d hd => List.mem_takeWhile_imp hd⟩
      refine ⟨_, fun d hd => isRunCharacter_of_isDigit (hdigits d hd), ?_, ?_,
        fun _ => .inl hdigits⟩
      · have hsplit := List.prefix_iff_eq_append.mp
          (List.takeWhile_prefix Char.isDigit (l := rest))
        rw [List.cons_append, hsplit]
      · dsimp only
        rw [List.length_cons]
        omega
  next text hne =>
    have htakes := takes_consumeDigits 10 false start (c :: rest)
    rw [List.takeWhile_cons_of_pos hrun] at htakes
    exact ⟨_, htakes.all, htakes.text_eq, htakes.stop, fun hzero => (hne rest (by
      rw [hzero])).elim⟩

theorem isOctalDigit_eq (c : Char) : isOctalDigit c = isRadixDigit 8 c := by
  cases h : isRadixDigit 8 c with
  | true =>
    obtain ⟨d, hd, rfl, -⟩ := digitChar_of_octal h
    have hall : ∀ d < 8, isOctalDigit (Nat.digitChar d) = true := by decide
    exact hall d hd
  | false =>
    by_contra hoctal
    have hoctal : '0' ≤ c ∧ c ≤ '7' := by simpa [isOctalDigit] using hoctal
    have hhigh : c.toNat ≤ '7'.toNat := hoctal.2
    have hseven : '7'.toNat = 55 := rfl
    have hdigit : c ≤ '9' := Char.le_trans hoctal.2 (by decide : '7' ≤ '9')
    simp only [isRadixDigit, hexValue, hoctal.1, hdigit, and_self, if_true, Option.any_some,
      decide_eq_false_iff_not, not_lt] at h
    have hzero : '0'.toNat = 48 := rfl
    omega

/-- Octal digits without a separator and with a zero in front. -/
theorem isLegacyOctal_iff (digits : List Char) :
    ((1 < digits.length ∧ digits.head? == some '0') ∧ digits.contains '_' = false) ∧
        digits.all isOctalDigit = true ↔ isLegacyOctal digits = true := by
  have hall : digits.all isOctalDigit = digits.all (isRadixDigit 8) :=
    congrArg (digits.all ·) (funext isOctalDigit_eq)
  rw [hall]
  simp only [isLegacyOctal, Bool.and_eq_true, decide_eq_true_eq, beq_iff_eq]
  constructor
  · rintro ⟨⟨hhead, -⟩, hoctal⟩
    exact ⟨hhead, hoctal⟩
  · rintro ⟨hhead, hoctal⟩
    refine ⟨⟨hhead, ?_⟩, hoctal⟩
    by_contra hseparator
    have hmem : '_' ∈ digits := by simpa using hseparator
    exact absurd (List.all_eq_true.mp hoctal '_' hmem) (by decide)

theorem foldl_eq_radixNumber {digits : List Char} (h : ∀ c ∈ digits, isRadixDigit 8 c = true) :
    digits.foldl (fun value c => value * 8 + (c.toNat - '0'.toNat)) 0 = radixNumber 8 digits := by
  refine List.foldl_ext _ _ _ fun value c hc => ?_
  obtain ⟨d, hd, rfl, hvalue⟩ := digitChar_of_octal (h c hc)
  rw [hvalue, Option.getD_some, Nat.toNat_digitChar_of_lt_ten (by omega)]
  congr 1
  have : '0'.toNat = 48 := rfl
  omega

/-- Legacy octal digits are read as their number, with or without a canonical spelling. -/
theorem legacyOctal_faithful {digits : List Char} (h : isLegacyOctal digits = true) :
    Faithful digits
      ((canonicalBoundedInteger (String.ofList digits) 8).getD (String.ofList digits)).toList := by
  have hparts := h
  simp only [isLegacyOctal, Bool.and_eq_true, decide_eq_true_eq] at hparts
  obtain ⟨⟨hlength, hhead⟩, hoctal⟩ := hparts
  have hoctal := List.all_eq_true.mp hoctal
  have hdigits : IsDigits digits := fun c hc => isDigit_of_isRadixDigit (by decide) (hoctal c hc)
  have hne : digits ≠ [] := by
    rintro rfl
    cases hhead
  have hmarked : prefixedNumeric digits = none := by
    simpa using prefixedNumeric_parts hdigits (.inl rfl) (.inl rfl)
  have hauthored : authoredValue digits = (radixNumber 8 digits : ℚ) := by
    rw [authoredValue, hmarked]
    dsimp only
    rw [if_pos h, radixNumber_drop h]
  have hmisread : ¬ IsMisread digits := by
    intro hmisread
    have hmem : '_' ∈ digits := by
      refine List.mem_of_mem_take (i := 2) ?_
      rw [hmisread.front]
      decide
    exact absurd (hdigits '_' hmem) (by decide)
  rw [Faithful, hauthored]
  refine iff_of_true ?_ hmisread
  cases hcanonical : canonicalBoundedInteger (String.ofList digits) 8 with
  | none =>
    have hvalue := numericValue_parts hdigits (.inl rfl) (.inl rfl) (by simpa using hne)
    simp only [List.append_nil, if_pos h] at hvalue
    rw [Option.getD_none, String.toList_ofList, withoutSeparatorChars, filter_digits hdigits,
      hvalue]
  | some text =>
    rw [Option.getD_some, numericValue_canonical hcanonical, foldl_eq_radixNumber hoctal]

variable [NumberFormat]

/-- A plain number token ends where its digits do, and its text is read again. -/
theorem plainNumericToken_spec {start offset : Nat} {rest : List Char}
    {sawSeparator withRadixSpecifier : Bool}
    (hkind : (plainNumericToken source start offset rest sawSeparator withRadixSpecifier).kind =
      .numericLiteral) :
    (plainNumericToken source start offset rest sawSeparator withRadixSpecifier).stop = offset ∧
      (plainNumericToken source start offset rest sawSeparator withRadixSpecifier).recoveryLiteral =
        none := by
  unfold plainNumericToken at hkind ⊢
  dsimp only at hkind ⊢
  split_ifs at hkind with hbigInt
  exact ⟨if_neg hbigInt, rfl⟩

theorem finishDecimalNumeric_faithful {head : DecimalHead} (integer point : List Char)
    (h : head.Takes source integer point)
    (hkind : (finishDecimalNumeric source head).kind = .numericLiteral) :
    ∃ raw, source.slice ⟨source.id, head.start, (finishDecimalNumeric source head).stop⟩ =
        String.ofList raw ∧
      Faithful raw
        ((finishDecimalNumeric source head).semanticText (String.ofList raw)).toList := by
  obtain ⟨exponent, rest, hwritten, hrest, hstopEq, hrestEq, hsome, hmissing, hcomplete⟩ :=
    h.exists_exponent
  have hraw := h.slice hwritten (.inl rfl) rest (by simpa using hrest)
  simp only [List.append_nil] at hraw
  have hfaithful {semantic : List Char}
      (hsemantic : withoutSeparatorChars semantic =
        Written.significant integer point exponent) :
      Faithful (integer ++ (point ++ exponent)) semantic := by
    simpa using h.faithful hwritten (.inl rfl) hsemantic
  unfold finishDecimalNumeric at hkind ⊢
  simp only [hstopEq, hrestEq] at hkind ⊢
  have hinvalid : head.invalidSeparator = true → (head.invalidSeparator ||
      (decimalExponent head).any (·.invalidSeparator)) = true := by
    intro hinvalid
    rw [hinvalid, Bool.true_or]
  have hfraction : (head.hasFraction || (decimalExponent head).isSome) = false →
      point = [] ∧ exponent = [] := by
    intro hnone
    obtain ⟨hpoint, hexponent⟩ := Bool.or_eq_false_iff.mp hnone
    exact ⟨h.hasFraction hpoint, hsome hexponent⟩
  generalize (decimalExponent head).any (·.digitCount == 0) = missing at hkind hmissing hcomplete ⊢
  generalize (head.invalidSeparator || (decimalExponent head).any (·.invalidSeparator)) = invalid
    at hkind hinvalid ⊢
  generalize (head.hasFraction || (decimalExponent head).isSome) = fraction at hkind hfraction ⊢
  generalize (head.sawSeparator || (decimalExponent head).any (·.sawSeparator)) = saw at hkind ⊢
  generalize hdiagnostics : head.diagnostics ++ _ ++ _ ++ _ = diagnostics at hkind ⊢
  split at hkind
  next hplain =>
    rw [if_pos hplain]
    obtain ⟨hstop, hnone⟩ := plainNumericToken_spec hkind
    have hexponent : exponent = [] ∨ exponent.any Char.isDigit = true := by
      rcases Bool.or_eq_true_iff.mp hplain with hclean | hinteger
      · refine hcomplete (Bool.eq_false_iff.mpr fun hmissing => ?_)
        have hempty := List.isEmpty_iff.mp (Bool.and_eq_true_iff.mp hclean).1
        rw [← hdiagnostics, hmissing] at hempty
        simp at hempty
      · simp only [Bool.and_eq_true, Bool.not_eq_true'] at hinteger
        exact .inl (hfraction hinteger.1.1).2
    refine ⟨_, by rw [hstop]; exact hraw, ?_⟩
    rw [ScannedNumericToken.semanticText, hnone, String.toList_ofList]
    exact hfaithful (DecimalHead.Takes.withoutSeparators_raw hwritten hexponent)
  next hplain =>
    rw [if_neg hplain]
    generalize (invalid && !fraction && rest.head? == some 'n') = isBigInt at hkind ⊢
    obtain rfl : isBigInt = false := by
      cases isBigInt with
      | false => rfl
      | true =>
        split at hkind
        · cases hkind
        · split at hkind <;> cases hkind
    cases missing with
    | true =>
      simp only [Bool.true_and, Bool.false_or, if_true]
      generalize hhasSuffix : (!invalid && rest.head? == some 'n' &&
        !conservativelyContinuesIdentifier rest.tail) = hasSuffix
      obtain ⟨suffix, more, hsuffix, hmore, hend⟩ : ∃ suffix more,
          (suffix = [] ∨ suffix = ['n']) ∧ rest = suffix ++ more ∧
          (if hasSuffix = true then head.stop + exponent.length + 1
            else head.stop + exponent.length) = head.stop + (exponent ++ suffix).length := by
        cases hasSuffix with
        | false => exact ⟨[], rest, .inl rfl, rfl, by simp⟩
        | true =>
          simp only [Bool.and_eq_true] at hhasSuffix
          obtain ⟨more, hmore⟩ := List.head?_eq_some_iff.mp (eq_of_beq hhasSuffix.1.2)
          exact ⟨['n'], more, .inr rfl, hmore, by simp [Nat.add_assoc]⟩
      have hslice := h.slice hwritten hsuffix more (by rw [hrest, hmore])
      simp only [hend]
      refine ⟨_, hslice, h.faithful hwritten hsuffix ?_⟩
      simp only [ScannedNumericToken.semanticText, recoveredNumericToken, h.slice_front,
        toList_withoutSeparators, withoutSeparatorChars_idem]
      rw [Written.withoutSeparators_append, Written.significant, hmissing rfl, List.append_nil]
    | false =>
      simp only [Bool.false_and, Bool.or_false, Bool.false_eq_true, if_false] at hkind ⊢
      have hspelled := hfaithful
        (DecimalHead.Takes.withoutSeparators_raw hwritten (hcomplete rfl))
      have hkept : Faithful (integer ++ (point ++ exponent))
          (withoutSeparatorChars (integer ++ (point ++ exponent))) := by
        rw [Faithful, withoutSeparatorChars_idem]
        exact hspelled
      split
      · refine ⟨_, hraw, ?_⟩
        simp only [ScannedNumericToken.semanticText, recoveredNumericToken, hraw,
          toList_withoutSeparators]
        exact hkept
      next hvalid =>
        refine ⟨_, hraw, ?_⟩
        simp only [ScannedNumericToken.semanticText, recoveredNumericToken, hraw]
        cases hcanonical : if fraction = true then none else
            canonicalBoundedInteger head.integer 10 with
        | none =>
          rw [Option.getD_none, toList_withoutSeparators]
          exact hkept
        | some text =>
          rw [Option.getD_some]
          split_ifs at hcanonical with hnone
          have hnone : fraction = false := by simpa using hnone
          obtain ⟨hpoint, hexponent⟩ := hfraction hnone
          have hleading : head.leadingZeroDecimal = true := by
            by_contra hleading
            have hleading : head.leadingZeroDecimal = false := by simpa using hleading
            rw [hleading] at hvalid hplain
            have hinvalid : invalid = false := by simpa using hvalid
            simp [hnone, hinvalid] at hplain
          obtain ⟨hinteger, hdigits⟩ := h.leadingZero hleading
          rw [hinteger] at hcanonical
          have hvalue := numericValue_canonical hcanonical
          rw [foldl_eq_number] at hvalue
          have hne : integer ≠ [] := by
            rintro rfl
            exact h.written.digits (by rw [hpoint]; rfl)
          rw [Faithful, hvalue, ← numericValue_digits hdigits hne h.notLegacy]
          rw [Faithful] at hspelled
          simp only [hpoint, hexponent, List.append_nil] at hspelled ⊢
          rwa [withoutSeparatorChars, filter_digits hdigits] at hspelled

/-! ## Prefixed tokens -/

theorem scanPrefixedNumeric_faithful {start radix : Nat} {mark : Char} {rest : List Char}
    (hat : source.IsAt start ('0' :: mark :: rest)) (hmark : mark ≠ '_') (hascii : isAscii mark)
    (hmarked : ∀ digits, prefixedNumeric ('0' :: mark :: digits) = some (digits, radix))
    (hkind : (scanPrefixedNumeric source start radix rest).kind = .numericLiteral) :
    ∃ raw, source.slice ⟨source.id, start, (scanPrefixedNumeric source start radix rest).stop⟩ =
        String.ofList raw ∧
      Faithful raw ((scanPrefixedNumeric source start radix rest).semanticText
        (String.ofList raw)).toList := by
  have htakes := takes_consumeDigits radix false (start + 2) rest
  generalize rest.takeWhile (isRunCharacter radix) = front at htakes
  unfold scanPrefixedNumeric at hkind ⊢
  generalize consumeDigits radix false (start + 2) rest = run at htakes hkind ⊢
  simp only [apply_ite ScannedNumericToken.kind, recoveredNumericToken, ite_self] at hkind
  obtain ⟨hstop, hnone⟩ := plainNumericToken_spec hkind
  have hraw : source.slice ⟨source.id, start, run.stop⟩ =
      String.ofList ('0' :: mark :: front) := by
    have hat' : source.IsAt start (('0' :: mark :: front) ++ run.rest) := by
      rw [htakes.text_eq] at hat
      exact hat
    rw [← hat'.slice, htakes.stop]
    · congr 2
      simp only [List.length_cons]
      omega
    · intro c hc
      rcases List.mem_cons.mp hc with rfl | hc
      · decide
      rcases List.mem_cons.mp hc with rfl | hc
      · exact hascii
      · exact isAscii_of_isRunCharacter (htakes.all c hc)
  have hmisread : ¬ IsMisread ('0' :: mark :: front) := by
    intro hmisread
    have hfront := hmisread.front
    simp only [List.take_succ_cons, List.take_zero, List.cons.injEq, and_true, true_and] at hfront
    exact hmark hfront
  have hauthored : authoredValue ('0' :: mark :: front) =
      (radixNumber radix (withoutSeparatorChars front) : ℚ) := by
    rw [authoredValue, hmarked]
  have hzero (h : withoutSeparatorChars front = []) :
      Faithful ('0' :: mark :: front) "0".toList := by
    rw [Faithful, hauthored, h]
    exact iff_of_true (numericValue_toDigits 0) hmisread
  have hspelled {semantic : List Char} (hne : withoutSeparatorChars front ≠ [])
      (hsemantic : withoutSeparatorChars semantic = '0' :: mark :: withoutSeparatorChars front) :
      Faithful ('0' :: mark :: front) semantic := by
    have hall : (withoutSeparatorChars front).all (isRadixDigit radix) = true := by
      rw [List.all_eq_true]
      intro c hc
      obtain ⟨hmem, hne⟩ := List.mem_filter.mp hc
      have hne : c ≠ '_' := by simpa using hne
      have hrun := htakes.all c hmem
      simpa [isRunCharacter, hne] using hrun
    rw [Faithful, hsemantic, numericValue_eq, mathematicalValue, hmarked, hauthored]
    dsimp only
    rw [if_pos ⟨hne, hall⟩]
    exact iff_of_true rfl hmisread
  have hcount : run.digitCount = 0 ↔ withoutSeparatorChars front = [] := by
    rw [htakes.digitCount, List.length_eq_zero_iff]
  have hstops : ∀ token : ScannedNumericToken, token.stop = run.stop →
      source.slice ⟨source.id, start, token.stop⟩ = String.ofList ('0' :: mark :: front) :=
    fun token htoken => by rw [htoken]; exact hraw
  dsimp only
  by_cases hincomplete : run.digitCount = 0 ∧ !run.invalidSeparator
  · rw [if_pos hincomplete]
    exact ⟨_, hstops _ hstop, hzero (hcount.mp hincomplete.1)⟩
  rw [if_neg hincomplete]
  by_cases hvalid : !run.invalidSeparator
  · have hne : withoutSeparatorChars front ≠ [] := fun hnil => hincomplete ⟨hcount.mpr hnil, hvalid⟩
    rw [if_pos hvalid]
    refine ⟨_, hstops _ hstop, ?_⟩
    rw [ScannedNumericToken.semanticText, hnone, String.toList_ofList]
    exact hspelled hne (withoutSeparators_marked hmark front)
  · rw [if_neg hvalid]
    refine ⟨_, hstops _ hstop, ?_⟩
    simp only [ScannedNumericToken.semanticText, recoveredNumericToken, hkind, hstop, hraw]
    by_cases hempty : run.digitCount = 0
    · rw [if_pos (.inl hempty)]
      exact hzero (hcount.mp hempty)
    · rw [if_neg (by simp [hempty]), toList_withoutSeparators]
      refine hspelled (fun hnil => hempty (hcount.mpr hnil)) ?_
      rw [withoutSeparatorChars_idem, withoutSeparators_marked hmark]

/-! ## Tokens -/

theorem scanDecimal_faithful {start : Nat} {c : Char} {rest : List Char} (hc : c.isDigit = true)
    (hat : source.IsAt start (c :: rest)) (previousToken : Option Token)
    (hkind : (scanDecimal source start (c :: rest) previousToken).kind = .numericLiteral) :
    ∃ raw,
      source.slice ⟨source.id, start, (scanDecimal source start (c :: rest) previousToken).stop⟩ =
        String.ofList raw ∧
      Faithful raw ((scanDecimal source start (c :: rest) previousToken).semanticText
        (String.ofList raw)).toList := by
  obtain ⟨more, hall, htext, hstop, hzero⟩ := decimalInteger_takes start rest hc
  unfold scanDecimal at hkind ⊢
  generalize decimalInteger start (c :: rest) = run at hkind htext hstop hzero ⊢
  have hat' := hat
  rw [htext] at hat'
  have hinteger : source.slice ⟨source.id, start, run.stop⟩ = String.ofList (c :: more) := by
    rw [hstop]
    exact hat'.slice fun d hd => isAscii_of_isRunCharacter (hall d hd)
  simp only [hinteger, String.toList_ofList] at hkind ⊢
  have hlegacyIff := isLegacyOctal_iff (c :: more)
  generalize hmarked : (decide ((c :: more).length > 1) && (c :: more).head? == some '0' &&
    !(c :: more).contains '_') = hasPrefix at hkind ⊢
  have hprefixIff : hasPrefix = true ↔ (1 < (c :: more).length ∧
      (c :: more).head? == some '0') ∧ (c :: more).contains '_' = false := by
    rw [← hmarked]
    simp only [Bool.and_eq_true, decide_eq_true_eq, Bool.not_eq_true', gt_iff_lt]
  by_cases hlegacy : isLegacyOctal (c :: more) = true
  · obtain ⟨hpre, hoctal⟩ := hlegacyIff.mpr hlegacy
    have hcondition : (hasPrefix && (c :: more).all isOctalDigit) = true := by
      rw [hprefixIff.mpr hpre, hoctal]
      rfl
    rw [if_pos hcondition]
    exact ⟨_, hinteger, legacyOctal_faithful hlegacy⟩
  · have hcondition : ¬ (hasPrefix && (c :: more).all isOctalDigit) = true := by
      intro hboth
      obtain ⟨hpre, hoctal⟩ := Bool.and_eq_true_iff.mp hboth
      exact hlegacy (hlegacyIff.mp ⟨hprefixIff.mp hpre, hoctal⟩)
    have hdigit : withoutSeparatorChars (c :: more) ≠ [] := by
      have hne : c ≠ '_' := by
        rintro rfl
        cases hc
      rw [withoutSeparatorChars, List.filter_cons_of_pos (by simpa using hne)]
      simp
    have hdigits (h : (c :: more).contains '_' = false) : IsDigits (c :: more) := by
      intro d hd
      have hne : d ≠ '_' := by
        rintro rfl
        simp [hd] at h
      have hrun := hall d hd
      exact isDigit_of_isRadixDigit (Nat.le_refl 10) (by simpa [isRunCharacter, hne] using hrun)
    have hfront : isLegacyOctal (withoutSeparatorChars (c :: more)) = true →
        (c :: more).take 2 = ['0', '_'] ∧ run.invalidSeparator = true := by
      intro hwithout
      have hc : c = '0' := by
        have hne : c ≠ '_' := by
          rintro rfl
          cases hc
        rw [withoutSeparatorChars, List.filter_cons_of_pos (by simpa using hne)] at hwithout
        simp only [isLegacyOctal, List.head?_cons, Bool.and_eq_true, decide_eq_true_eq,
          Option.some.injEq] at hwithout
        exact hwithout.1.2
      refine (hzero hc).resolve_left fun halone => hlegacy ?_
      rwa [withoutSeparatorChars, filter_digits halone] at hwithout
    have hleading : hasPrefix = true → String.ofList (c :: more) = String.ofList (c :: more) ∧
        IsDigits (c :: more) := fun hpre => ⟨rfl, hdigits (hprefixIff.mp hpre).2⟩
    rw [if_neg hcondition] at hkind ⊢
    split at hkind
    next fraction hfraction =>
      have htakes := takes_consumeDigits 10 false (run.stop + 1) fraction
      rw [hfraction] at hat'
      refine finishDecimalNumeric_faithful (c :: more)
        ('.' :: fraction.takeWhile (isRunCharacter 10)) ⟨?_, ?_, ⟨?_, hall,
          .inr ⟨_, htakes.all, rfl⟩, .inl rfl⟩, fun h => absurd h (by simp), hleading,
          by simpa using hlegacy, ?_⟩ hkind
      · rw [htakes.text_eq] at hat'
        simpa using hat'
      · dsimp only
        rw [htakes.stop, hstop]
        simp only [List.length_append, List.length_cons]
        omega
      · exact fun hnil => hdigit (List.append_eq_nil_iff.mp hnil).1
      · intro hwithout
        obtain ⟨htake, hinvalid⟩ := hfront hwithout
        refine ⟨htake, ?_⟩
        dsimp only
        rw [hinvalid, Bool.true_or]
    next =>
      refine finishDecimalNumeric_faithful (c :: more) [] ⟨?_, ?_,
        ⟨?_, hall, .inl rfl, .inl rfl⟩, fun _ => rfl, hleading, by simpa using hlegacy, hfront⟩
        hkind
      · simpa using hat'
      · simpa using hstop
      · exact fun hnil => hdigit (List.append_eq_nil_iff.mp hnil).1

/-- The characters that start a number. -/
def StartsNumber (text : List Char) : Prop :=
  ∃ c rest, c.isDigit = true ∧ (text = c :: rest ∨ text = '.' :: c :: rest)

/-- A number that is scanned is read as the number of its digits, but for a misread one. -/
theorem scanNumericLiteral_faithful {start : Nat} {text : List Char} (htext : StartsNumber text)
    (hat : source.IsAt start text) (previousToken : Option Token)
    (hkind : (scanNumericLiteral source start text previousToken).kind = .numericLiteral) :
    ∃ raw,
      source.slice ⟨source.id, start, (scanNumericLiteral source start text previousToken).stop⟩ =
        String.ofList raw ∧
      Faithful raw ((scanNumericLiteral source start text previousToken).semanticText
        (String.ofList raw)).toList := by
  obtain ⟨c, rest, hc, rfl | rfl⟩ := htext
  · unfold scanNumericLiteral at hkind ⊢
    split at hkind
    next heq =>
      obtain ⟨rfl, -⟩ := List.cons.inj heq
      cases hc
    next =>
      cases hradix : radixOfPrefix (c :: rest) with
      | some radix =>
        obtain ⟨mark, tail, htail, hmark, hascii, hmarked⟩ := prefixedNumeric_of_radix hradix
        rw [htail] at hat hkind ⊢
        rw [htail] at hradix
        simp only [hradix, List.drop_succ_cons, List.drop_zero] at hkind ⊢
        exact scanPrefixedNumeric_faithful hat hmark hascii hmarked hkind
      | none =>
        simp only [hradix] at hkind ⊢
        exact scanDecimal_faithful hc hat previousToken hkind
  · have htakes := takes_consumeDigits 10 false (start + 1) (c :: rest)
    have hrun := isRunCharacter_of_isDigit hc
    rw [List.takeWhile_cons_of_pos hrun] at htakes
    have hne : c ≠ '_' := by
      rintro rfl
      cases hc
    refine finishDecimalNumeric_faithful []
      ('.' :: c :: rest.takeWhile (isRunCharacter 10)) ⟨?_, ?_, ⟨?_, nofun,
        .inr ⟨_, htakes.all, rfl⟩, .inl rfl⟩, fun h => absurd h (by simp),
        fun h => absurd h (by simp), rfl, fun h => absurd h (by decide)⟩ hkind
    · rw [htakes.text_eq] at hat
      simpa using hat
    · dsimp only
      rw [htakes.stop]
      simp only [List.length_append, List.length_cons, List.length_nil]
      omega
    · rw [List.drop_succ_cons, List.drop_zero, withoutSeparatorChars, withoutSeparatorChars,
        List.filter_cons_of_pos (by simpa using hne)]
      simp

end Tsz.Syntax
