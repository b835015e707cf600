import Tsz.Syntax.Numbers.NumberTokens

/-!
# Valid numbers

The spellings of numbers that the language has, and what the scanner makes of them.

## Main definitions

* `IsSpelling` — a number with separators between its digits.
* `EndsAtDot` — a spelling behind which a dot is a token of its own.

## Main results

* `scanNumericLiteral_spelling` — a spelling is scanned as it stands.
-/

namespace Tsz.Syntax

open Rounding Rounding.Format Decimals

/-! ## Runs of digits -/

/-- Digits with single separators between them. -/
inductive IsSeparated (radix : Nat) : List Char → Prop
  | digit {c : Char} (hc : isRadixDigit radix c = true) : IsSeparated radix [c]
  | next {c : Char} {digits : List Char} (hc : isRadixDigit radix c = true)
      (hdigits : IsSeparated radix digits) : IsSeparated radix (c :: digits)
  | separator {c : Char} {digits : List Char} (hc : isRadixDigit radix c = true)
      (hdigits : IsSeparated radix digits) : IsSeparated radix (c :: '_' :: digits)

theorem ne_separator_of_isRadixDigit {radix : Nat} {c : Char} (h : isRadixDigit radix c = true) :
    c ≠ '_' := by
  rintro rfl
  cases h

namespace IsSeparated

variable {radix : Nat} {front : List Char}

theorem all (h : IsSeparated radix front) : ∀ c ∈ front, isRunCharacter radix c = true := by
  induction h with
  | digit hc => simp [isRunCharacter, hc]
  | next hc _ ih => exact List.forall_mem_cons.mpr ⟨by simp [isRunCharacter, hc], ih⟩
  | separator hc _ ih =>
    exact List.forall_mem_cons.mpr
      ⟨by simp [isRunCharacter, hc], List.forall_mem_cons.mpr ⟨rfl, ih⟩⟩

theorem exists_cons (h : IsSeparated radix front) :
    ∃ c rest, front = c :: rest ∧ isRadixDigit radix c = true := by
  cases h with
  | digit hc => exact ⟨_, _, rfl, hc⟩
  | next hc _ => exact ⟨_, _, rfl, hc⟩
  | separator hc _ => exact ⟨_, _, rfl, hc⟩

theorem withoutSeparators_ne_nil (h : IsSeparated radix front) :
    withoutSeparatorChars front ≠ [] := by
  obtain ⟨c, rest, rfl, hc⟩ := h.exists_cons
  rw [withoutSeparatorChars, List.filter_cons_of_pos
    (by simpa using ne_separator_of_isRadixDigit hc)]
  simp

/-- Digits alone are separated. -/
theorem of_digits {digits : List Char} (h : IsDigits digits) (hne : digits ≠ []) :
    IsSeparated 10 digits := by
  induction digits with
  | nil => exact absurd rfl hne
  | cons c digits ih =>
    obtain ⟨hc, hdigits⟩ := List.forall_mem_cons.mp h
    have hc : isRadixDigit 10 c = true := by
      have hall : ∀ d < 10, isRadixDigit 10 (Nat.digitChar d) = true := by decide
      obtain ⟨d, hd, rfl⟩ := exists_digitChar hc
      exact hall d hd
    cases digits with
    | nil => exact .digit hc
    | cons d digits => exact .next hc (ih hdigits (by simp))

end IsSeparated

/-- A run takes separated digits, and finds nothing wrong. -/
theorem consumeDigitsFrom_separated {radix : Nat} {front : List Char} (h : IsSeparated radix front)
    {rest : List Char} (hrest : rest.head?.any (isRunCharacter radix) = false)
    (digitBefore : Bool) (previous : Char) (run : DigitRun) :
    consumeDigitsFrom radix digitBefore previous (front ++ rest) run =
      { run with
        stop := run.stop + front.length
        rest
        digitCount := run.digitCount + (withoutSeparatorChars front).length
        sawSeparator := run.sawSeparator || front.contains '_'
        previousWasDigit := true } := by
  induction h generalizing previous run with
  | @digit c hc =>
    have hne := ne_separator_of_isRadixDigit hc
    rw [List.singleton_append, consumeDigitsFrom, if_neg hne, if_pos hc]
    have hstop : consumeDigitsFrom radix digitBefore c rest (run.digit rest) = run.digit rest := by
      cases rest with
      | nil => rw [consumeDigitsFrom]
      | cons d rest =>
        have hd : isRunCharacter radix d = false := by simpa using hrest
        obtain ⟨hd, hd'⟩ := Bool.or_eq_false_iff.mp hd
        rw [consumeDigitsFrom, if_neg (by simpa using hd), if_neg (by simpa using hd')]
    rw [hstop]
    simp [DigitRun.digit, withoutSeparatorChars, hne, hne.symm]
  | @next c digits hc _ ih =>
    have hne := ne_separator_of_isRadixDigit hc
    rw [List.cons_append, consumeDigitsFrom, if_neg hne, if_pos hc, ih]
    simp only [DigitRun.digit, withoutSeparatorChars, List.filter_cons_of_pos (l := digits)
      (p := fun d => decide (d ≠ '_')) (a := c) (by simpa using hne), List.length_cons,
      List.contains_cons, beq_eq_false_iff_ne.mpr hne.symm, Bool.false_or]
    congr 1 <;> omega
  | @separator c digits hc _ ih =>
    have hne := ne_separator_of_isRadixDigit hc
    rw [List.cons_append, consumeDigitsFrom, if_neg hne, if_pos hc, List.cons_append,
      consumeDigitsFrom, if_pos rfl, ih]
    simp [DigitRun.digit, DigitRun.separator, withoutSeparatorChars, hne]
    omega

/-- The whole run of separated digits. -/
theorem consumeDigits_separated {radix : Nat} {front : List Char} (h : IsSeparated radix front)
    {rest : List Char} (hrest : rest.head?.any (isRunCharacter radix) = false)
    (digitBefore : Bool) (start : Nat) :
    consumeDigits radix digitBefore start (front ++ rest) =
      { stop := start + front.length
        rest
        digitCount := (withoutSeparatorChars front).length
        sawSeparator := front.contains '_'
        previousWasDigit := true } := by
  unfold consumeDigits
  rw [consumeDigitsFrom_separated h hrest]
  simp

theorem consumeDigits_none {radix : Nat} {rest : List Char}
    (hrest : rest.head?.any (isRunCharacter radix) = false) (digitBefore : Bool) (start : Nat) :
    consumeDigits radix digitBefore start rest = { stop := start, rest } := by
  have hnone : consumeDigitsFrom radix digitBefore '0' rest { stop := start, rest } =
      { stop := start, rest } := by
    cases rest with
    | nil => rw [consumeDigitsFrom]
    | cons d rest =>
      have hd : isRunCharacter radix d = false := by simpa using hrest
      obtain ⟨hd, hd'⟩ := Bool.or_eq_false_iff.mp hd
      rw [consumeDigitsFrom, if_neg (by simpa using hd), if_neg (by simpa using hd')]
  unfold consumeDigits
  rw [hnone]
  rfl

/-! ## Spellings -/

/-- The parts of a decimal number. A zero in front stands alone. -/
structure IsDecimalSpelling (integer point exponent : List Char) : Prop where
  digits : integer = [] → ∃ c fraction, isRadixDigit 10 c = true ∧ point = '.' :: c :: fraction
  integer : integer = [] ∨ integer = ['0'] ∨ IsSeparated 10 integer ∧ integer.head? ≠ some '0'
  point : point = [] ∨ ∃ fraction, (fraction = [] ∨ IsSeparated 10 fraction) ∧
    point = '.' :: fraction
  exponent : exponent = [] ∨ ∃ mark sign digits, (mark = 'e' ∨ mark = 'E') ∧ IsSign sign ∧
    IsSeparated 10 digits ∧ exponent = mark :: (sign ++ digits)

/-- A number of the language: a decimal one, or digits behind the mark of their radix. -/
inductive IsSpelling : List Char → Prop
  | decimal {integer point exponent : List Char} (h : IsDecimalSpelling integer point exponent) :
    IsSpelling (integer ++ (point ++ exponent))
  | prefixed {mark : Char} {digits : List Char} {radix : Nat}
      (hradix : radixOfPrefix ['0', mark] = some radix) (hdigits : IsSeparated radix digits) :
    IsSpelling ('0' :: mark :: digits)

/-- A dot behind the spelling is no part of a longer number. -/
def EndsAtDot (spelling : List Char) : Prop :=
  (prefixedNumeric spelling).isSome = true ∨ ∃ c ∈ spelling, c = '.' ∨ c = 'e' ∨ c = 'E'

/-- A text that does not go on with the number in front of it. -/
def EndsSpelling (spelling rest : List Char) : Prop :=
  ∀ c, rest.head? = some c → c.isAlphanum = false ∧ c ≠ '_' ∧ (c = '.' → EndsAtDot spelling)

theorem isAlphanum_of_isRadixDigit {radix : Nat} {c : Char} (h : isRadixDigit radix c = true) :
    c.isAlphanum = true := by
  obtain ⟨digit, hvalue, -⟩ := (Option.any_eq_true _ _).mp h
  unfold hexValue at hvalue
  change ((c.isUpper || c.isLower) || c.isDigit) = true
  rw [Bool.or_eq_true, Bool.or_eq_true]
  split_ifs at hvalue with hdigit hlower hupper
  · exact .inr (Bool.and_eq_true_iff.mpr ⟨decide_eq_true hdigit.1, decide_eq_true hdigit.2⟩)
  · have hle : c ≤ 'z' := Char.le_trans hlower.2 (show 'f' ≤ 'z' by decide)
    exact .inl (.inr (Bool.and_eq_true_iff.mpr ⟨decide_eq_true hlower.1, decide_eq_true hle⟩))
  · have hle : c ≤ 'Z' := Char.le_trans hupper.2 (show 'F' ≤ 'Z' by decide)
    exact .inl (.inl (decide_eq_true ⟨hupper.1, hle⟩))

namespace EndsSpelling

variable {spelling rest : List Char}

theorem not_run (h : EndsSpelling spelling rest) (radix : Nat) :
    rest.head?.any (isRunCharacter radix) = false := by
  cases hhead : rest.head? with
  | none => rfl
  | some c =>
    obtain ⟨halpha, hne, -⟩ := h c hhead
    rw [Option.any_some, isRunCharacter, Bool.or_eq_false_iff]
    refine ⟨by simpa using hne, Bool.eq_false_iff.mpr fun hdigit => ?_⟩
    rw [isAlphanum_of_isRadixDigit hdigit] at halpha
    cases halpha

theorem head_ne (h : EndsSpelling spelling rest) {c : Char} (hc : c.isAlphanum = true) :
    rest.head? ≠ some c := by
  intro hhead
  rw [(h c hhead).1] at hc
  cases hc

end EndsSpelling

theorem not_endsAtDot_integer {integer : List Char}
    (h : integer = ['0'] ∨ IsSeparated 10 integer ∧ integer.head? ≠ some '0') :
    ¬ EndsAtDot integer := by
  rintro (hmarked | ⟨c, hc, hcases⟩)
  · obtain rfl | ⟨-, hne⟩ := h
    · cases hmarked
    · unfold prefixedNumeric at hmarked
      split at hmarked
      · exact hne rfl
      · cases hmarked
  · have hrun : isRunCharacter 10 c = true := by
      obtain rfl | ⟨hseparated, -⟩ := h
      · rw [List.mem_singleton.mp hc]
        rfl
      · exact hseparated.all c hc
    rcases hcases with rfl | rfl | rfl <;> cases hrun

theorem radixOfPrefix_integer {integer rest : List Char}
    (h : integer = ['0'] ∨ IsSeparated 10 integer ∧ integer.head? ≠ some '0')
    (hrest : ∀ c, rest.head? = some c → c.isAlphanum = false ∨ c = 'e' ∨ c = 'E') :
    radixOfPrefix (integer ++ rest) = none := by
  obtain rfl | ⟨hseparated, hne⟩ := h
  · cases rest with
    | nil => rfl
    | cons d rest =>
      have hd (e : Char) (he : e.isAlphanum = true) (hlower : e ≠ 'e') (hupper : e ≠ 'E') :
          d ≠ e := by
        rintro rfl
        obtain hnot | hmark := hrest _ rfl
        · rw [hnot] at he
          cases he
        · exact hmark.elim hlower hupper
      simp [radixOfPrefix, hd 'x' rfl, hd 'X' rfl, hd 'b' rfl, hd 'B' rfl, hd 'o' rfl, hd 'O' rfl]
  · obtain ⟨c, digits, rfl, -⟩ := hseparated.exists_cons
    have hzero : c ≠ '0' := by simpa using hne
    rw [List.cons_append]
    unfold radixOfPrefix
    split
    · next heq => exact absurd (List.cons.inj heq).1 hzero
    · rfl

theorem IsDecimalSpelling.head_behind_integer {integer point exponent rest : List Char}
    (h : IsDecimalSpelling integer point exponent)
    (hrest : ∀ c, rest.head? = some c → c.isAlphanum = false) :
    ∀ c, (point ++ (exponent ++ rest)).head? = some c →
      c.isAlphanum = false ∨ c = 'e' ∨ c = 'E' := by
  intro c hc
  obtain rfl | ⟨fraction, -, rfl⟩ := h.point
  · obtain rfl | ⟨mark, sign, digits, hmark, -, -, rfl⟩ := h.exponent
    · exact .inl (hrest c hc)
    · obtain rfl := Option.some.inj hc
      exact .inr hmark
  · obtain rfl := Option.some.inj hc
    exact .inl rfl

theorem isSome_prefixedNumeric (text : List Char) :
    (prefixedNumeric text).isSome = (radixOfPrefix text).isSome := by
  unfold prefixedNumeric
  split
  · rw [radixOfPrefix]
    split_ifs <;> rfl
  · next hnot =>
    unfold radixOfPrefix
    split
    · exact absurd rfl (hnot _ _)
    · rfl

/-- A decimal spelling has no radix. -/
theorem IsDecimalSpelling.prefixedNumeric_eq {integer point exponent : List Char}
    (h : IsDecimalSpelling integer point exponent) :
    (prefixedNumeric (integer ++ (point ++ exponent))).isSome = false := by
  rw [isSome_prefixedNumeric]
  by_cases hinteger : integer = []
  · obtain ⟨c, fraction, -, rfl⟩ := h.digits hinteger
    rw [hinteger]
    rfl
  · have hbehind : ∀ c, (point ++ (exponent ++ [])).head? = some c → _ :=
      h.head_behind_integer nofun
    rw [List.append_nil] at hbehind
    rw [radixOfPrefix_integer (h.integer.resolve_left hinteger) hbehind]
    rfl

/-- A run in which nothing is wrong. -/
structure IsCleanRun (start : Nat) (front rest : List Char) (run : DigitRun) : Prop where
  stop : run.stop = start + front.length
  rest : run.rest = rest
  valid : run.invalidSeparator = false
  sawSeparator : run.sawSeparator = front.contains '_'
  diagnostics : run.separatorDiagnostics = []

theorem isCleanRun_separated {radix : Nat} {front rest : List Char}
    (h : front = [] ∨ IsSeparated radix front)
    (hrest : rest.head?.any (isRunCharacter radix) = false) (digitBefore : Bool) (start : Nat) :
    IsCleanRun start front rest (consumeDigits radix digitBefore start (front ++ rest)) := by
  obtain rfl | h := h
  · rw [List.nil_append, consumeDigits_none hrest]
    exact ⟨rfl, rfl, rfl, rfl, rfl⟩
  · rw [consumeDigits_separated h hrest]
    exact ⟨rfl, rfl, rfl, rfl, rfl⟩

theorem isCleanRun_decimalInteger {integer rest : List Char}
    (h : integer = ['0'] ∨ IsSeparated 10 integer ∧ integer.head? ≠ some '0')
    (hrest : rest.head?.any (isRunCharacter 10) = false) (start : Nat) :
    IsCleanRun start integer rest (decimalInteger start (integer ++ rest)) := by
  obtain rfl | ⟨h, hzero⟩ := h
  · have hdigits : rest.takeWhile Char.isDigit = [] := by
      cases rest with
      | nil => rfl
      | cons c rest =>
        refine List.takeWhile_cons_of_neg fun hc => ?_
        simp [isRunCharacter_of_isDigit hc] at hrest
    have hseparator : rest.head? ≠ some '_' := by
      intro hhead
      simp [hhead, isRunCharacter] at hrest
    simp only [List.singleton_append, decimalInteger, hdigits, List.isEmpty_nil, Bool.true_and,
      List.length_nil, List.drop_zero, beq_iff_eq, hseparator, if_false]
    exact ⟨rfl, rfl, rfl, rfl, rfl⟩
  · obtain ⟨c, digits, rfl, hc⟩ := h.exists_cons
    have hne : c ≠ '0' := by simpa using hzero
    have hrun := isCleanRun_separated (.inr h) hrest false start
    rw [List.cons_append] at hrun ⊢
    unfold decimalInteger
    split
    · next heq => exact absurd (List.cons.inj heq).1 hne
    · exact hrun

section

variable [NumberFormat] {source : SourceText}

omit [NumberFormat] in
theorem numericSeparatorDiagnostics_clean {start : Nat} {front rest : List Char} {run : DigitRun}
    (h : IsCleanRun start front rest run) : numericSeparatorDiagnostics source run = [] := by
  rw [numericSeparatorDiagnostics, h.diagnostics]
  rfl

/-- A head without errors, and its exponent if it has one. -/
theorem finishDecimalNumeric_clean {head : DecimalHead} {exponent rest : List Char}
    (hvalid : head.invalidSeparator = false) (hleading : head.leadingZeroDecimal = false)
    (hdiagnostics : head.diagnostics = []) (hrest : head.rest = exponent ++ rest)
    (hrun : rest.head?.any (isRunCharacter 10) = false)
    (hexponent : exponent = [] ∧ rest.head? ≠ some 'e' ∧ rest.head? ≠ some 'E' ∨
      ∃ mark sign digits, (mark = 'e' ∨ mark = 'E') ∧ IsSign sign ∧
        IsSeparated 10 digits ∧ exponent = mark :: (sign ++ digits)) :
    finishDecimalNumeric source head =
      plainNumericToken source head.start (head.stop + exponent.length) rest
        (head.sawSeparator || exponent.contains '_') false := by
  have hexp : decimalExponent head = none ∧ exponent = [] ∨
      ∃ run, decimalExponent head = some run ∧ run.stop = head.stop + exponent.length ∧
        run.rest = rest ∧ run.invalidSeparator = false ∧ run.digitCount ≠ 0 ∧
        run.sawSeparator = exponent.contains '_' ∧ run.separatorDiagnostics = [] := by
    obtain ⟨rfl, hlower, hupper⟩ | ⟨mark, sign, digits, hmark, hsign, hdigits, rfl⟩ := hexponent
    · refine .inl ⟨?_, rfl⟩
      rw [decimalExponent, hrest, List.nil_append]
      cases rest with
      | nil => rfl
      | cons c rest =>
        have hne : ¬ (c = 'e' ∨ c = 'E') := by simpa using And.intro hlower hupper
        exact if_neg hne
    · refine .inr ?_
      have hcount : (withoutSeparatorChars digits).length ≠ 0 := by
        simpa using hdigits.withoutSeparators_ne_nil
      have hmark' : mark ≠ '_' := by rcases hmark with rfl | rfl <;> decide
      have hsomeSign : (sign ++ digits ++ rest).head?.any (fun c => c == '+' || c == '-') =
          !sign.isEmpty := by
        obtain rfl | rfl | rfl := hsign
        · obtain ⟨c, more, rfl, hc⟩ := hdigits.exists_cons
          have hc : c ≠ '+' ∧ c ≠ '-' := by
            constructor <;> rintro rfl <;> cases hc
          simp [hc.1, hc.2]
        · rfl
        · rfl
      have hsignSeparator : sign.contains '_' = false := by obtain rfl | rfl | rfl := hsign <;> rfl
      rw [decimalExponent, hrest, List.cons_append]
      simp only [if_pos hmark, hsomeSign]
      refine ⟨_, rfl, ?_⟩
      have hdrop : (if (!sign.isEmpty) = true then (sign ++ digits ++ rest).tail
          else sign ++ digits ++ rest) = digits ++ rest := by
        obtain rfl | rfl | rfl := hsign <;> rfl
      rw [hdrop, consumeDigits_separated hdigits hrun]
      refine ⟨?_, rfl, rfl, hcount, ?_, rfl⟩
      · obtain rfl | rfl | rfl := hsign <;> simp <;> omega
      · simp only [List.contains_cons, List.contains_append, hsignSeparator,
          beq_eq_false_iff_ne.mpr hmark'.symm, Bool.false_or]
  unfold finishDecimalNumeric
  obtain ⟨hnone, rfl⟩ | ⟨run, hsome, hstop, hrunRest, hrunValid, hcount, hsaw, hdiag⟩ := hexp
  · simp [hnone, hvalid, hleading, hdiagnostics, hrest]
  · simp [hsome, hvalid, hleading, hdiagnostics, hstop, hrunRest, hrunValid, hcount, hsaw,
      numericSeparatorDiagnostics, hdiag]

omit [NumberFormat] in
theorem isExponent_head {exponent rest : List Char}
    (h : exponent = [] ∨ ∃ mark sign digits, (mark = 'e' ∨ mark = 'E') ∧ IsSign sign ∧
      IsSeparated 10 digits ∧ exponent = mark :: (sign ++ digits))
    (hrest : rest.head?.any (isRunCharacter 10) = false) :
    (exponent ++ rest).head?.any (isRunCharacter 10) = false := by
  obtain rfl | ⟨mark, sign, digits, hmark, -, -, rfl⟩ := h
  · exact hrest
  · rcases hmark with rfl | rfl <;> rfl

/-- What is known of a number behind its integer. -/
def integerHead (start : Nat) (integer rest : List Char) : DecimalHead where
  start
  stop := start + integer.length
  rest
  integer := String.ofList integer
  leadingZeroDecimal := false
  hasFraction := false
  invalidSeparator := false
  sawSeparator := integer.contains '_'
  diagnostics := []

/-- The number with the integer in front, by what follows the integer. -/
def numberBehindInteger (source : SourceText) (start : Nat) (integer rest : List Char) :
    ScannedNumericToken :=
  match rest with
  | '.' :: behind =>
    let fraction := consumeDigits 10 false (start + integer.length + 1) behind
    finishDecimalNumeric source
      { integerHead start integer rest with
        stop := fraction.stop
        rest := fraction.rest
        hasFraction := true
        invalidSeparator := false || fraction.invalidSeparator
        sawSeparator := integer.contains '_' || fraction.sawSeparator
        diagnostics := [] ++ numericSeparatorDiagnostics source fraction }
  | _ => finishDecimalNumeric source (integerHead start integer rest)

/-- An integer is scanned in front of what follows it. -/
theorem scanNumericLiteral_integer {start : Nat} {integer rest : List Char}
    (h : integer = ['0'] ∨ IsSeparated 10 integer ∧ integer.head? ≠ some '0')
    (hrun : rest.head?.any (isRunCharacter 10) = false)
    (hbehind : ∀ c, rest.head? = some c → c.isAlphanum = false ∨ c = 'e' ∨ c = 'E')
    (hat : source.IsAt start (integer ++ rest)) (previousToken : Option Token) :
    scanNumericLiteral source start (integer ++ rest) previousToken =
      numberBehindInteger source start integer rest := by
  have hclean := isCleanRun_decimalInteger h hrun start
  have hradix := radixOfPrefix_integer h hbehind
  have hascii : ∀ c ∈ integer, isAscii c := by
    obtain rfl | ⟨hseparated, -⟩ := h
    · exact List.all_eq_true.mp (by decide)
    · exact fun c hc => isAscii_of_isRunCharacter (hseparated.all c hc)
  have hslice := hat.slice hascii
  obtain ⟨c, digits, rfl, hc⟩ : ∃ c digits, integer = c :: digits ∧ c.isDigit = true := by
    obtain rfl | ⟨hseparated, -⟩ := h
    · exact ⟨_, _, rfl, rfl⟩
    · obtain ⟨c, digits, rfl, hc⟩ := hseparated.exists_cons
      exact ⟨c, digits, rfl, isDigit_of_isRadixDigit (Nat.le_refl 10) hc⟩
  have hscan : scanNumericLiteral source start (c :: digits ++ rest) previousToken =
      scanDecimal source start (c :: digits ++ rest) previousToken := by
    unfold scanNumericLiteral
    split
    · next heq =>
      obtain ⟨rfl, -⟩ := List.cons.inj heq
      cases hc
    · rw [hradix]
  have hlegacy : (decide ((c :: digits).length > 1) && (c :: digits).head? == some '0' &&
      !(c :: digits).contains '_') = false := by
    obtain heq | ⟨-, hne⟩ := h
    · rw [heq]
      rfl
    · rw [beq_eq_false_iff_ne.mpr hne, Bool.and_false, Bool.false_and]
  rw [hscan]
  unfold scanDecimal
  generalize decimalInteger start (c :: digits ++ rest) = run at hclean ⊢
  simp only [hclean.stop, hslice, String.toList_ofList, hlegacy, Bool.false_and,
    Bool.false_eq_true, if_false, hclean.rest, hclean.valid, hclean.sawSeparator,
    numericSeparatorDiagnostics_clean hclean]
  rfl

/-- A decimal spelling is scanned as it stands. -/
theorem scanNumericLiteral_decimal {start : Nat} {integer point exponent rest : List Char}
    (h : IsDecimalSpelling integer point exponent)
    (hat : source.IsAt start (integer ++ (point ++ exponent) ++ rest))
    (hends : EndsSpelling (integer ++ (point ++ exponent)) rest) (previousToken : Option Token) :
    scanNumericLiteral source start (integer ++ (point ++ exponent) ++ rest) previousToken =
      plainNumericToken source start (start + (integer ++ (point ++ exponent)).length) rest
        ((integer ++ (point ++ exponent)).contains '_') false := by
  have hrun := hends.not_run 10
  have hexponentRun := isExponent_head h.exponent hrun
  have hexponent : exponent = [] ∧ rest.head? ≠ some 'e' ∧ rest.head? ≠ some 'E' ∨
      ∃ mark sign digits, (mark = 'e' ∨ mark = 'E') ∧ IsSign sign ∧
        IsSeparated 10 digits ∧ exponent = mark :: (sign ++ digits) :=
    h.exponent.imp (fun hnil => ⟨hnil, hends.head_ne rfl, hends.head_ne rfl⟩) id
  by_cases hinteger : integer = []
  · subst hinteger
    obtain ⟨c, fraction, hc, rfl⟩ := h.digits rfl
    have hfraction : IsSeparated 10 (c :: fraction) := by
      obtain hnil | ⟨fraction', hfraction, heq⟩ := h.point
      · cases hnil
      · obtain ⟨-, rfl⟩ := List.cons.inj heq
        exact hfraction.resolve_left (by simp)
    have hclean := isCleanRun_separated (.inr hfraction) hexponentRun false (start + 1)
    rw [List.nil_append, List.append_assoc]
    generalize hrunEq : consumeDigits 10 false (start + 1) (c :: fraction ++ (exponent ++ rest)) =
      run at hclean
    have hscan : scanNumericLiteral source start ('.' :: c :: fraction ++ (exponent ++ rest))
        previousToken = finishDecimalNumeric source
          { start
            stop := run.stop
            rest := run.rest
            integer := source.slice ⟨source.id, start, run.stop⟩
            leadingZeroDecimal := false
            hasFraction := true
            invalidSeparator := run.invalidSeparator
            sawSeparator := run.sawSeparator
            diagnostics := numericSeparatorDiagnostics source run } := by
      rw [← hrunEq]
      rfl
    rw [hscan, finishDecimalNumeric_clean hclean.valid rfl
      (numericSeparatorDiagnostics_clean hclean) hclean.rest hrun hexponent]
    simp only [hclean.stop, hclean.sawSeparator]
    congr 1
    · simp only [List.length_append, List.length_cons]
      omega
    · simp [Bool.or_assoc]
  · have hcases := h.integer.resolve_left hinteger
    have hpointRun : (point ++ (exponent ++ rest)).head?.any (isRunCharacter 10) = false := by
      obtain rfl | ⟨fraction, -, rfl⟩ := h.point
      · exact hexponentRun
      · rfl
    have htext : integer ++ (point ++ exponent) ++ rest =
        integer ++ (point ++ (exponent ++ rest)) := by simp
    rw [htext] at hat ⊢
    rw [scanNumericLiteral_integer hcases hpointRun
      (h.head_behind_integer fun d hd => (hends d hd).1) hat]
    obtain rfl | ⟨fraction, hfraction, rfl⟩ := h.point
    · have hdot : (exponent ++ rest).head? ≠ some '.' := by
        obtain hnil | ⟨mark, sign, more, hmark, -, -, heq⟩ := h.exponent
        · intro hhead
          rw [hnil, List.nil_append] at hhead
          have hdot := (hends '.' hhead).2.2 rfl
          rw [hnil, List.append_nil, List.append_nil] at hdot
          exact not_endsAtDot_integer hcases hdot
        · rw [heq]
          rcases hmark with rfl | rfl <;> simp
      rw [List.nil_append]
      unfold numberBehindInteger
      split
      · next heq =>
        rw [heq] at hdot
        exact absurd rfl hdot
      · rw [finishDecimalNumeric_clean rfl rfl rfl rfl hrun hexponent]
        simp only [integerHead]
        congr 1
        · simp only [List.length_append, List.length_nil]
          omega
        · simp
    · have hfractionClean := isCleanRun_separated hfraction hexponentRun false
        (start + integer.length + 1)
      simp only [List.cons_append, numberBehindInteger]
      rw [finishDecimalNumeric_clean hfractionClean.valid rfl
        (numericSeparatorDiagnostics_clean hfractionClean) hfractionClean.rest hrun hexponent]
      simp only [integerHead, hfractionClean.stop, hfractionClean.sawSeparator]
      congr 1
      · simp only [List.length_append, List.length_cons]
        omega
      · simp [Bool.or_assoc]

/-- A spelling is scanned as it stands. -/
theorem scanNumericLiteral_spelling {start : Nat} {raw rest : List Char} (h : IsSpelling raw)
    (hat : source.IsAt start (raw ++ rest)) (hends : EndsSpelling raw rest)
    (previousToken : Option Token) :
    scanNumericLiteral source start (raw ++ rest) previousToken =
      plainNumericToken source start (start + raw.length) rest (raw.contains '_')
        (prefixedNumeric raw).isSome := by
  cases h with
  | decimal h =>
    rw [scanNumericLiteral_decimal h hat hends, h.prefixedNumeric_eq]
  | @prefixed mark digits radix hradix hdigits =>
    have hradix' : radixOfPrefix ('0' :: mark :: digits) = some radix := hradix
    have hscan : scanNumericLiteral source start ('0' :: mark :: digits ++ rest) previousToken =
        scanPrefixedNumeric source start radix (digits ++ rest) := by
      have hradix : radixOfPrefix ('0' :: mark :: digits ++ rest) = some radix := hradix
      unfold scanNumericLiteral
      split
      · next heq => cases heq
      · rw [hradix]
        rfl
    have hcount : (withoutSeparatorChars digits).length ≠ 0 := by
      simpa using hdigits.withoutSeparators_ne_nil
    have hmark : mark ≠ '_' := by
      rintro rfl
      cases hradix
    rw [hscan, scanPrefixedNumeric, consumeDigits_separated hdigits (hends.not_run radix),
      isSome_prefixedNumeric, hradix']
    simp only [hcount, false_and, if_false, Bool.not_false, if_true, Option.isSome_some,
      List.contains_cons, beq_eq_false_iff_ne.mpr hmark.symm, Bool.false_or, List.length_cons]
    congr 1
    omega

theorem le_stop_finishDecimalNumeric (head : DecimalHead) :
    head.stop ≤ (finishDecimalNumeric source head).stop := by
  obtain ⟨_, front, -, -, hstop⟩ : CanEnd head.stop head.rest
    (finishDecimalNumeric source head).stop := canEnd_finishDecimalNumeric (Spells.refl _ _)
  omega

/-- A dot behind an integer is a part of the number. -/
theorem lt_stop_integer_dot {start : Nat} {integer behind : List Char}
    (h : integer = ['0'] ∨ IsSeparated 10 integer ∧ integer.head? ≠ some '0')
    (hat : source.IsAt start (integer ++ '.' :: behind)) (previousToken : Option Token) :
    start + integer.length <
      (scanNumericLiteral source start (integer ++ '.' :: behind) previousToken).stop := by
  have hbehind : ∀ c, ('.' :: behind).head? = some c →
      c.isAlphanum = false ∨ c = 'e' ∨ c = 'E' := by
    intro c hc
    obtain rfl := Option.some.inj hc
    exact .inl rfl
  rw [scanNumericLiteral_integer h rfl hbehind hat, numberBehindInteger]
  have htakes := takes_consumeDigits 10 false (start + integer.length + 1) behind
  refine Nat.lt_of_lt_of_le ?_ (le_stop_finishDecimalNumeric _)
  dsimp only
  rw [htakes.stop]
  omega

end

/-! ## Spellings in a source -/

theorem SourceText.IsAt.unique {source : SourceText} {start : Nat} {text text' : List Char}
    (h : source.IsAt start text) (h' : source.IsAt start text') : text = text' := by
  have heq : utf8Length text = utf8Length text' := by
    have hle := utf8Length_mono h.suffix
    have hle' := utf8Length_mono h'.suffix
    have hoffset := h.offset.symm.trans h'.offset
    unfold SourceText.offsetOf SourceText.length at hoffset
    omega
  rcases List.suffix_or_suffix_of_suffix h.suffix h'.suffix with ⟨front, rfl⟩ | ⟨front, rfl⟩
  · cases front with
    | nil => rfl
    | cons c front =>
      have hpos := c.utf8Size_pos
      rw [utf8Length_append, utf8Length] at heq
      omega
  · cases front with
    | nil => rfl
    | cons c front =>
      have hpos := c.utf8Size_pos
      rw [utf8Length_append, utf8Length] at heq
      omega

theorem IsSpelling.exists_cons {raw : List Char} (h : IsSpelling raw) :
    ∃ c more, raw = c :: more ∧ (c.isDigit = true ∨ c = '.' ∧
      ∃ d rest, d.isDigit = true ∧ more = d :: rest) := by
  cases h with
  | @decimal integer point exponent h =>
    by_cases hinteger : integer = []
    · obtain ⟨d, fraction, hd, rfl⟩ := h.digits hinteger
      refine ⟨'.', _, by rw [hinteger]; rfl, .inr ⟨rfl, d, _, ?_, rfl⟩⟩
      exact isDigit_of_isRadixDigit (Nat.le_refl 10) hd
    · obtain rfl | ⟨hseparated, -⟩ := h.integer.resolve_left hinteger
      · exact ⟨_, _, rfl, .inl rfl⟩
      · obtain ⟨c, digits, rfl, hc⟩ := hseparated.exists_cons
        exact ⟨c, _, rfl, .inl (isDigit_of_isRadixDigit (Nat.le_refl 10) hc)⟩
  | prefixed => exact ⟨_, _, rfl, .inl rfl⟩

theorem IsSpelling.isAscii {raw : List Char} (h : IsSpelling raw) : ∀ c ∈ raw, isAscii c := by
  cases h with
  | @decimal integer point exponent h =>
    intro c hc
    simp only [List.mem_append] at hc
    have hsign {sign : List Char} (hsign : IsSign sign) : ∀ c ∈ sign, Tsz.Syntax.isAscii c := by
      obtain rfl | rfl | rfl := hsign <;> exact List.all_eq_true.mp (by decide)
    rcases hc with hc | hc | hc
    · obtain rfl | rfl | ⟨hseparated, -⟩ := h.integer
      · cases hc
      · rw [List.mem_singleton.mp hc]
        decide
      · exact isAscii_of_isRunCharacter (hseparated.all c hc)
    · obtain rfl | ⟨fraction, rfl | hfraction, rfl⟩ := h.point
      · cases hc
      · rw [List.mem_singleton.mp hc]
        decide
      · rcases List.mem_cons.mp hc with rfl | hc
        · decide
        · exact isAscii_of_isRunCharacter (hfraction.all c hc)
    · obtain rfl | ⟨mark, sign, digits, hmark, hsign', hdigits, rfl⟩ := h.exponent
      · cases hc
      · rcases List.mem_cons.mp hc with rfl | hc
        · rcases hmark with rfl | rfl <;> decide
        · rcases List.mem_append.mp hc with hc | hc
          · exact hsign hsign' c hc
          · exact isAscii_of_isRunCharacter (hdigits.all c hc)
  | @prefixed mark digits radix hradix hdigits =>
    intro c hc
    simp only [List.mem_cons] at hc
    rcases hc with rfl | rfl | hc
    · decide
    · obtain ⟨mark', tail, heq, -, hascii, -⟩ := prefixedNumeric_of_radix hradix
      obtain ⟨rfl, -⟩ := List.cons.inj (List.cons.inj heq).2
      exact hascii
    · exact isAscii_of_isRunCharacter (hdigits.all c hc)

/-- The literal of a spelling. -/
def NumberLiteral.ofSpelling [NumberFormat] (raw : List Char) : NumberLiteral :=
  let separated :=
    if raw.contains '_' then
      (NumberFormat.display (String.ofList raw)).map fun canonical =>
        ⟨String.ofList raw, canonical, (prefixedNumeric raw).isSome⟩
    else none
  .ofScanned none separated (String.ofList raw)

theorem semanticText_ofSpelling [NumberFormat] (raw : List Char) :
    (NumberLiteral.ofSpelling raw).semanticText = String.ofList raw := by
  unfold NumberLiteral.ofSpelling NumberLiteral.ofScanned
  dsimp only
  split_ifs
  · cases NumberFormat.display (String.ofList raw) with
    | none => rfl
    | some canonical => rfl
  · rfl

section

variable {source : SourceText} {raw rest : List Char}

theorem numberLiteral_of_isScannedNumber [NumberFormat] {span : Span} {literal : NumberLiteral}
    (hscanned : IsScannedNumber source span literal) (h : IsSpelling raw)
    (hat : source.IsAt span.start (raw ++ rest)) (hends : EndsSpelling raw rest) :
    span.stop = span.start + raw.length ∧ literal = .ofSpelling raw := by
  obtain ⟨text, previousToken, -, hat', -, hspan, rfl⟩ := hscanned
  obtain rfl := hat.unique hat'
  rw [scanNumericLiteral_spelling h hat hends] at hspan ⊢
  have hbigInt : (rest.head? == some 'n') = false :=
    beq_eq_false_iff_ne.mpr (hends.head_ne rfl)
  simp only [plainNumericToken, hbigInt, Bool.false_eq_true, if_false, Bool.not_false,
    Bool.true_and] at hspan ⊢
  have hslice := hat.slice h.isAscii
  refine ⟨congrArg Span.stop hspan, ?_⟩
  rw [hspan]
  simp only [hslice, String.toList_ofList, Bool.and_self, NumberLiteral.ofSpelling]

/-- The parser finds the literal of a spelling at its token. -/
theorem numberLiteral_spelling [UnicodeIdent] [NumberFormat] (p : Parser (scanSource source))
    {token : Token} (htoken : token ∈ (scanSource source).body)
    (hkind : token.kind = .numericLiteral) (h : IsSpelling raw)
    (hat : source.IsAt token.span.start (raw ++ rest)) (hends : EndsSpelling raw rest) :
    token.span.stop = token.span.start + raw.length ∧ p.numberLiteral token = .ofSpelling raw := by
  have hread := numbersRead_scanSource source
  rw [p.numberLiteral_eq (hread.unescaped token htoken hkind)]
  exact numberLiteral_of_isScannedNumber (hread.scanned token htoken hkind) h hat hends

end

/-! ## Values of spellings -/

theorem IsDecimalSpelling.written {integer point exponent : List Char}
    (h : IsDecimalSpelling integer point exponent) : Written integer point exponent where
  digits := by
    by_cases hinteger : integer = []
    · obtain ⟨c, fraction, hc, rfl⟩ := h.digits hinteger
      have hne := ne_separator_of_isRadixDigit hc
      rw [List.drop_succ_cons, List.drop_zero, withoutSeparatorChars, withoutSeparatorChars,
        List.filter_cons_of_pos (by simpa using hne)]
      simp
    · obtain rfl | ⟨hseparated, -⟩ := h.integer.resolve_left hinteger
      · simp [withoutSeparatorChars]
      · exact fun hnil => hseparated.withoutSeparators_ne_nil (List.append_eq_nil_iff.mp hnil).1
  integer := by
    obtain rfl | rfl | ⟨hseparated, -⟩ := h.integer
    · simp
    · exact fun c hc => by rw [List.mem_singleton.mp hc]; rfl
    · exact hseparated.all
  point := by
    obtain rfl | ⟨fraction, rfl | hfraction, rfl⟩ := h.point
    · exact .inl rfl
    · exact .inr ⟨[], List.forall_mem_nil _, rfl⟩
    · exact .inr ⟨fraction, hfraction.all, rfl⟩
  exponent := by
    obtain rfl | ⟨mark, sign, digits, hmark, hsign, hdigits, rfl⟩ := h.exponent
    · exact .inl rfl
    · exact .inr ⟨mark, sign, digits, hmark, hsign, hdigits.all, rfl⟩

theorem IsDecimalSpelling.completeExponent_eq {integer point exponent : List Char}
    (h : IsDecimalSpelling integer point exponent) :
    completeExponent exponent = withoutSeparatorChars exponent := by
  unfold completeExponent
  obtain rfl | ⟨mark, sign, digits, hmark, hsign, hdigits, rfl⟩ := h.exponent
  · rfl
  · exact if_pos ((Written.any_isDigit_exponent hmark hsign hdigits.all).mpr
      hdigits.withoutSeparators_ne_nil)

/-- Every spelling is read as a number. -/
theorem IsSpelling.exists_numericValue {raw : List Char} (h : IsSpelling raw) :
    ∃ bits ≤ binary64.infinity, numericValue (withoutSeparatorChars raw) = some bits := by
  have hmath : ∃ x, 0 ≤ x ∧ mathematicalValue (withoutSeparatorChars raw) = some x := by
    cases h with
    | @decimal integer point exponent h =>
      have hwritten := h.written
      have hinteger := isDigits_withoutSeparators hwritten.integer
      have hexponent := hwritten.isExponent
      rw [h.completeExponent_eq] at hexponent
      have hsome := hwritten.digits
      rw [← hwritten.drop_point] at hsome
      rw [Written.withoutSeparators_append, Written.withoutSeparators_append, mathematicalValue,
        prefixedNumeric_parts hinteger hwritten.isPoint hexponent]
      dsimp only
      split_ifs with hlegacy hdecimal
      · exact ⟨_, Nat.cast_nonneg _, rfl⟩
      · exact ⟨_, decimalValue_nonneg _, rfl⟩
      · exact absurd (isDecimalLiteral_of_parts hinteger hwritten.isPoint hsome hexponent) hdecimal
    | @prefixed mark digits radix hradix hdigits =>
      obtain ⟨mark', tail, heq, hmark, -, hmarked⟩ := prefixedNumeric_of_radix hradix
      obtain ⟨rfl, -⟩ := List.cons.inj (List.cons.inj heq).2
      rw [withoutSeparators_marked hmark, mathematicalValue, hmarked]
      have hall : (withoutSeparatorChars digits).all (isRadixDigit radix) = true := by
        rw [List.all_eq_true]
        intro c hc
        obtain ⟨hmem, hne⟩ := List.mem_filter.mp hc
        have hne : c ≠ '_' := by simpa using hne
        simpa [isRunCharacter, hne] using hdigits.all c hmem
      exact ⟨_, Nat.cast_nonneg _, if_pos ⟨hdigits.withoutSeparators_ne_nil, hall⟩⟩
  obtain ⟨x, hx, hmath⟩ := hmath
  refine ⟨_, (isRounded_round binary64 (inUnits_nonneg hx)).le_infinity, ?_⟩
  rw [numericValue_eq, hmath]
  rfl

/-- A point behind an integer does not change its number. -/
theorem numericValue_integer_dot {integer : List Char}
    (h : integer = ['0'] ∨ IsSeparated 10 integer ∧ integer.head? ≠ some '0') :
    numericValue (withoutSeparatorChars (integer ++ ['.'])) =
      numericValue (withoutSeparatorChars integer) := by
  have hall : ∀ c ∈ integer, isRunCharacter 10 c = true := by
    obtain rfl | ⟨hseparated, -⟩ := h
    · exact fun c hc => by rw [List.mem_singleton.mp hc]; rfl
    · exact hseparated.all
  have hne : withoutSeparatorChars integer ≠ [] := by
    obtain rfl | ⟨hseparated, -⟩ := h
    · decide
    · exact hseparated.withoutSeparators_ne_nil
  have hdigits := isDigits_withoutSeparators hall
  have hlegacy : isLegacyOctal (withoutSeparatorChars integer) = false := by
    obtain rfl | ⟨hseparated, hhead⟩ := h
    · rfl
    · obtain ⟨c, digits, rfl, hc⟩ := hseparated.exists_cons
      have hzero : c ≠ '0' := by simpa using hhead
      rw [withoutSeparatorChars, List.filter_cons_of_pos
        (by simpa using ne_separator_of_isRadixDigit hc)]
      simp [isLegacyOctal, hzero]
  have hdot : withoutSeparatorChars (integer ++ ['.']) =
      withoutSeparatorChars integer ++ (['.'] ++ []) := by
    rw [Written.withoutSeparators_append]
    rfl
  have hnotLegacy : isLegacyOctal (withoutSeparatorChars integer ++ (['.'] ++ [])) = false := by
    rw [Bool.eq_false_iff]
    intro htrue
    obtain ⟨hnil, -⟩ := isLegacyOctal_parts (.inr ⟨[], List.forall_mem_nil _, rfl⟩) (.inl rfl) htrue
    cases hnil
  have hvalue : decimalValue (withoutSeparatorChars integer ++ '.' :: ([] ++ [])) = _ :=
    decimalValue_fraction hdigits (by simp [IsDigits]) endsDigits_nil
  rw [hdot, numericValue_parts hdigits (.inr ⟨[], List.forall_mem_nil _, rfl⟩) (.inl rfl) (by simpa using hne),
    hnotLegacy, numericValue_digits hdigits hne hlegacy]
  simp only [Bool.false_eq_true, if_false, List.append_nil] at hvalue ⊢
  rw [hvalue]
  simp [exponentValue]

theorem isSpelling_numberToString (d : Decimal) : IsSpelling d.numberToString := by
  obtain ⟨c, integer, point, exponent, htext, hinteger, hpoint, hexponent, hzero⟩ := d.exists_parts
  rw [htext, List.append_assoc]
  refine .decimal ⟨nofun, .inr ?_, ?_, ?_⟩
  · by_cases hc : c = '0'
    · rw [hc, (hzero hc).1]
      exact .inl rfl
    · exact .inr ⟨.of_digits hinteger (by simp), by simpa using hc⟩
  · obtain rfl | ⟨fraction, hfraction, rfl⟩ := hpoint
    · exact .inl rfl
    · refine .inr ⟨fraction, ?_, rfl⟩
      by_cases hnil : fraction = []
      · exact .inl hnil
      · exact .inr (.of_digits hfraction hnil)
  · obtain rfl | ⟨mark, sign, digits, hmark, hsign, hdigits, hne, rfl⟩ := hexponent
    · exact .inl rfl
    · exact .inr ⟨mark, sign, digits, hmark, hsign, .of_digits hdigits hne, rfl⟩

/-! ## Integers -/

/-- Only an integer does not end at a dot. -/
theorem IsSpelling.integer_of_not_endsAtDot {raw : List Char} (h : IsSpelling raw)
    (hends : ¬ EndsAtDot raw) : raw = ['0'] ∨ IsSeparated 10 raw ∧ raw.head? ≠ some '0' := by
  cases h with
  | @decimal integer point exponent h =>
    have hpoint : point = [] := by
      obtain hnil | ⟨fraction, -, rfl⟩ := h.point
      · exact hnil
      · exact absurd (.inr ⟨'.', by simp, .inl rfl⟩) hends
    have hexponent : exponent = [] := by
      obtain hnil | ⟨mark, sign, digits, hmark, -, -, rfl⟩ := h.exponent
      · exact hnil
      · exact absurd (.inr ⟨mark, by simp, .inr hmark⟩) hends
    have hinteger : integer ≠ [] := by
      intro hnil
      obtain ⟨c, fraction, -, heq⟩ := h.digits hnil
      rw [hpoint] at heq
      cases heq
    rw [hpoint, hexponent, List.append_nil, List.append_nil]
    exact h.integer.resolve_left hinteger
  | @prefixed mark digits radix hradix hdigits =>
    refine absurd (.inl ?_) hends
    rw [isSome_prefixedNumeric]
    exact congrArg Option.isSome hradix

theorem isSpelling_integer_dot {integer : List Char}
    (h : integer = ['0'] ∨ IsSeparated 10 integer ∧ integer.head? ≠ some '0') :
    IsSpelling (integer ++ ['.']) := by
  have hne : integer ≠ [] := by
    rintro rfl
    rcases h with h | ⟨h, -⟩ <;> cases h
  have hspelling : IsSpelling (integer ++ (['.'] ++ [])) :=
    .decimal ⟨fun hnil => absurd hnil hne, .inr h, .inr ⟨[], .inl rfl, rfl⟩, .inl rfl⟩
  simpa using hspelling

end Tsz.Syntax
