import Tsz.Syntax.Numbers.RecoveredTokens
import Tsz.Syntax.Parser.Unit
import Tsz.Syntax.Scanner.Rescan

/-!
# The number tokens of a source

A literal that is recorded at a token is found again by where it starts, as no token starts where
another one does. So every number token of a source is read as the scanner has left it.

## Main definitions

* `NumbersRead` — the tokens up to a place, with the literals that are recorded at them.

## Main results

* `numberLiteral_iff` — every number token is read as its digits, but for a misread one.
-/

namespace Tsz.Syntax

open Rounding Rounding.Format

variable {source : SourceText} {text rest : List Char} {c : Char}

/-! ## Recorded values -/

theorem scanAt_append_of_ne {α : Type} {values more : List α} {span : Span} {spanOf : α → Span}
    (h : ∀ value ∈ more, (spanOf value).start ≠ span.start) :
    scanAt (values ++ more) span spanOf = scanAt values span spanOf := by
  have hmore : more.find? (fun value => (spanOf value).start == span.start) = none := by
    rw [List.find?_eq_none]
    intro value hvalue
    simpa using h value hvalue
  rw [scanAt, scanAt, List.find?_append, hmore, Option.or_none]

theorem scanAt_append_of_new {α : Type} {values more : List α} {span : Span} {spanOf : α → Span}
    (h : ∀ value ∈ values, (spanOf value).start ≠ span.start) :
    scanAt (values ++ more) span spanOf = scanAt more span spanOf := by
  have hvalues : values.find? (fun value => (spanOf value).start == span.start) = none := by
    rw [List.find?_eq_none]
    intro value hvalue
    simpa using h value hvalue
  rw [scanAt, scanAt, List.find?_append, hvalues, Option.none_or]

theorem scanAt_option {α β : Type} (value : Option β) {span : Span} {build : β → α}
    {spanOf : α → Span} {read : α → β} (hspan : ∀ b, spanOf (build b) = span)
    (hread : ∀ b, read (build b) = b) :
    (scanAt (value.map build).toList span spanOf).map read = value := by
  cases value with
  | none => rfl
  | some b => simp [scanAt, hspan, hread]

/-- The literal of a number token by what is recorded at it. -/
def NumberLiteral.ofScanned (recovery : Option NumericRecoveryLiteral)
    (separated : Option SeparatedNumberLiteral) (raw : String) : NumberLiteral :=
  match recovery with
  | some literal => .recovery literal
  | none =>
    match separated with
    | some literal => .separated literal
    | none => .plain raw

def ScanOutput.numberLiteral (scanned : ScanOutput source) (span : Span) : NumberLiteral :=
  .ofScanned ((scanAt scanned.numericLiterals span (·.span)).map (·.literal))
    ((scanAt scanned.separatedNumericLiterals span (·.span)).map (·.literal)) (source.slice span)

theorem Parser.numberLiteral_eq {scanned : ScanOutput source} (p : Parser scanned) {token : Token}
    (h : ∀ value ∈ scanned.identifierValues, value.span.start ≠ token.span.start) :
    p.numberLiteral token = scanned.numberLiteral token.span := by
  have htext : p.text token.span = source.slice token.span := by
    have hnone : scanAt (scanned.identifierValues ++ []) token.span ScannedIdentifierValue.span =
        scanAt [] token.span ScannedIdentifierValue.span := scanAt_append_of_new h
    rw [List.append_nil] at hnone
    rw [Parser.text, Parser.identifierValue, hnone]
    rfl
  unfold Parser.numberLiteral ScanOutput.numberLiteral NumberLiteral.ofScanned
  cases scanAt scanned.numericLiterals token.span (·.span) with
  | some literal => rfl
  | none =>
    cases scanAt scanned.separatedNumericLiterals token.span (·.span) with
    | some literal => rfl
    | none => simp only [htext, Option.map_none]

/-! ## Kinds and texts of scanned numbers -/

section

variable [NumberFormat]

/-- The kind of a scanned number, and the text of a literal with separators. -/
structure ScannedNumericToken.IsNumber (source : SourceText) (start : Nat)
    (token : ScannedNumericToken) : Prop where
  kind : token.kind = .numericLiteral ∨ token.kind = .bigIntLiteral
  raw : ∀ literal, token.separatedLiteral = some literal →
    literal.raw = source.slice ⟨source.id, start, token.stop⟩

theorem isNumber_plainNumericToken (start offset : Nat) (rest : List Char)
    (sawSeparator withRadixSpecifier : Bool) :
    (plainNumericToken source start offset rest sawSeparator withRadixSpecifier).IsNumber source
      start where
  kind := by
    unfold plainNumericToken
    dsimp only
    split_ifs
    · exact .inr rfl
    · exact .inl rfl
  raw := by
    unfold plainNumericToken
    extract_lets isBigInt stop rest raw separatedLiteral
    intro literal h
    dsimp only at h
    unfold separatedLiteral at h
    split_ifs at h
    obtain ⟨canonical, -, rfl⟩ := Option.map_eq_some_iff.mp h
    rfl

omit [NumberFormat] in
theorem isNumber_recoveredNumericToken {start : Nat} {kind : TokenKind}
    (h : kind = .numericLiteral ∨ kind = .bigIntLiteral) (stop : Nat)
    (semanticText emitText : String) (recovery : NumericRecoveryKind)
    (validationSupported : Bool) (diagnostics : List Diagnostic) :
    (recoveredNumericToken source start stop semanticText emitText recovery validationSupported
      diagnostics kind).IsNumber source start where
  kind := h
  raw _ h := by cases h

theorem isNumber_scanPrefixedNumeric (start radix : Nat) (rest : List Char) :
    (scanPrefixedNumeric source start radix rest).IsNumber source start := by
  unfold scanPrefixedNumeric
  extract_lets run plain raw kind semanticText
  have hplain : plain.IsNumber source start := isNumber_plainNumericToken _ _ _ _ _
  split
  · exact isNumber_recoveredNumericToken hplain.kind _ _ _ _ _ _
  · split
    · exact hplain
    · exact isNumber_recoveredNumericToken hplain.kind _ _ _ _ _ _

theorem isNumber_finishDecimalNumeric {head : DecimalHead} {start : Nat}
    (hstart : head.start = start) : (finishDecimalNumeric source head).IsNumber source start := by
  subst hstart
  unfold finishDecimalNumeric
  extract_lets exponent stop rest missing invalid saw fraction leadingZero missingDigits diagnostics
    suffix missingSuffix isBigInt stop' tokenKind raw canonical
  have hkind : tokenKind = .numericLiteral ∨ tokenKind = .bigIntLiteral := by
    unfold tokenKind
    cases isBigInt
    · exact .inl rfl
    · exact .inr rfl
  split
  · exact isNumber_plainNumericToken _ _ _ _ _
  · split
    · exact isNumber_recoveredNumericToken hkind _ _ _ _ _ _
    · split
      · exact isNumber_recoveredNumericToken hkind _ _ _ _ _ _
      · exact isNumber_recoveredNumericToken hkind _ _ _ _ _ _

theorem isNumber_scanNumericLiteral (source : SourceText) (start : Nat) (text : List Char)
    (previousToken : Option Token) :
    (scanNumericLiteral source start text previousToken).IsNumber source start := by
  unfold scanNumericLiteral
  split
  · exact isNumber_finishDecimalNumeric rfl
  · split
    · exact isNumber_scanPrefixedNumeric _ _ _
    · unfold scanDecimal
      dsimp only
      split
      · exact isNumber_recoveredNumericToken (.inl rfl) _ _ _ _ _ _
      · split
        · exact isNumber_finishDecimalNumeric rfl
        · exact isNumber_finishDecimalNumeric rfl

end

/-- A literal that is recorded for a number at a span. -/
def IsScannedNumber [NumberFormat] (source : SourceText) (span : Span)
    (literal : NumberLiteral) : Prop :=
  ∃ text previousToken, StartsNumber text ∧ source.IsAt span.start text ∧
    (scanNumericLiteral source span.start text previousToken).kind = .numericLiteral ∧
    span = ⟨source.id, span.start,
      (scanNumericLiteral source span.start text previousToken).stop⟩ ∧
    literal = .ofScanned
      (scanNumericLiteral source span.start text previousToken).recoveryLiteral
      (scanNumericLiteral source span.start text previousToken).separatedLiteral
      (source.slice span)

theorem ScannedNumericToken.IsNumber.semanticText_eq {start : Nat} {token : ScannedNumericToken}
    (h : token.IsNumber source start) :
    (NumberLiteral.ofScanned token.recoveryLiteral token.separatedLiteral
      (source.slice ⟨source.id, start, token.stop⟩)).semanticText =
        token.semanticText (source.slice ⟨source.id, start, token.stop⟩) := by
  unfold NumberLiteral.ofScanned ScannedNumericToken.semanticText
  cases token.recoveryLiteral with
  | some literal => rfl
  | none =>
    cases hseparated : token.separatedLiteral with
    | some literal => exact h.raw literal hseparated
    | none => rfl

theorem IsScannedNumber.faithful [NumberFormat] {span : Span} {literal : NumberLiteral}
    (h : IsScannedNumber source span literal) :
    ∃ raw, source.slice span = String.ofList raw ∧ Faithful raw literal.semanticText.toList := by
  obtain ⟨text, previousToken, hstarts, hat, hkind, hspan, rfl⟩ := h
  obtain ⟨raw, hraw, hread⟩ := scanNumericLiteral_faithful hstarts hat previousToken hkind
  have hscanned := isNumber_scanNumericLiteral source span.start text previousToken
  rw [hspan]
  refine ⟨raw, hraw, ?_⟩
  rw [hscanned.semanticText_eq, hraw]
  exact hread

namespace Scanner

/-! ## Which tokens are numbers -/

/-- The literals of numbers and the escaped identifiers that are recorded. -/
def recorded (s : Scanner source) : List ScannedNumericLiteral ×
    List ScannedSeparatedNumberLiteral × List ScannedIdentifierValue :=
  (s.output.numericLiterals, s.output.separatedNumericLiterals, s.output.identifierValues)

/-- A token at an offset that is no number and records none. -/
structure ScannedToken.NoNumber (s : Scanner source) (start : Nat) (token : ScannedToken source) :
    Prop where
  kind : token.kind ≠ .numericLiteral
  recorded : ∃ more, (∀ value ∈ more, value.span.start = start) ∧
    token.scanner.recorded = (s.output.numericLiterals, s.output.separatedNumericLiterals,
      s.output.identifierValues ++ more)

theorem noNumber_of_recorded {s : Scanner source} {start : Nat} {token : ScannedToken source}
    (hkind : token.kind ≠ .numericLiteral) (h : token.scanner.recorded = s.recorded) :
    token.NoNumber s start where
  kind := hkind
  recorded := ⟨[], by simp, by rw [h, List.append_nil]; rfl⟩

theorem fromKeyword_ne_numericLiteral (text : String) :
    TokenKind.fromKeyword text ≠ .numericLiteral := by
  intro h
  have hname := TokenKind.isIdentifierName_fromKeyword text
  rw [h] at hname
  cases hname

theorem kind_punctuators_ne_numericLiteral (c : Char) :
    ∀ operator ∈ punctuators c, operator.2 ≠ .numericLiteral := by
  unfold punctuators
  split <;> simp

variable (s : Scanner source)

theorem noNumber_scanIdentifier (text : List Char) (length : Nat) (isPrivate : Bool) :
    (s.scanIdentifier text length isPrivate).NoNumber s (source.offsetOf text) where
  kind := by
    cases isPrivate
    · exact fromKeyword_ne_numericLiteral _
    · exact nofun
  recorded := by
    unfold scanIdentifier
    extract_lets span t characters escaped cooked values
    have ht : t.recorded = s.recorded := by
      unfold t diagnoseIdentifierAfterNumber
      dsimp only
      split <;> rfl
    obtain ⟨hrecovered, hrest⟩ := Prod.mk.inj ht
    obtain ⟨hseparated, hvalues⟩ := Prod.mk.inj hrest
    refine ⟨if escaped = true then [⟨span, cooked⟩] else [], ?_, ?_⟩
    · split
      · rintro _ (_ | ⟨_, ⟨⟩⟩)
        rfl
      · exact nofun
    · rw [recorded, hrecovered, hseparated]
      unfold values
      rw [hvalues]

theorem noNumber_scanTemplateToken (text : List Char) (isStart : Bool) (start : Nat) :
    (s.scanTemplateToken text isStart).NoNumber s start := by
  unfold scanTemplateToken
  dsimp only
  cases isStart <;> split <;> exact noNumber_of_recorded nofun rfl

theorem noNumber_scanPunctuator (text : List Char) (c : Char) (rest : List Char) (start : Nat) :
    (s.scanPunctuator text c rest).NoNumber s start := by
  unfold scanPunctuator
  split
  · exact noNumber_of_recorded nofun rfl
  · split
    · next h =>
      exact noNumber_of_recorded
        (kind_punctuators_ne_numericLiteral c _ (List.mem_of_find?_eq_some h)) rfl
    · exact noNumber_of_recorded nofun rfl

theorem noNumber_scanSlash (text rest : List Char) (start : Nat) :
    (s.scanSlash text rest).NoNumber s start := by
  unfold scanSlash
  split
  · next token h =>
    split_ifs at h
    refine noNumber_of_recorded ?_ ?_
    · rw [s.kind_of_scanRegularExpression h]
      exact nofun
    · unfold scanRegularExpression at h
      dsimp only at h
      split_ifs at h <;> obtain rfl := Option.some.inj h <;> rfl
  · exact s.noNumber_scanPunctuator _ _ _ _

variable [UnicodeIdent] [NumberFormat]

/-- A token is a number or records none. -/
theorem scanToken_cases (c : Char) (rest : List Char) :
    (StartsNumber (c :: rest) ∧ s.scanToken c rest = s.scanNumber (c :: rest)) ∨
      (s.scanToken c rest).NoNumber s (source.offsetOf (c :: rest)) := by
  unfold scanToken
  dsimp only
  split_ifs with hbrace hidentifier hnumber
  · exact .inr (s.noNumber_scanTemplateToken _ _ _)
  · exact .inr (s.noNumber_scanIdentifier _ _ _)
  · refine .inl ⟨?_, rfl⟩
    rcases hnumber with hdigit | ⟨rfl, hrest⟩
    · exact ⟨c, rest, hdigit, .inl rfl⟩
    · obtain ⟨d, hhead, hdigit⟩ := (Option.any_eq_true _ _).mp hrest
      obtain ⟨tail, rfl⟩ := List.head?_eq_some_iff.mp hhead
      exact ⟨d, tail, hdigit, .inr rfl⟩
  · exact .inr (s.noNumber_scanIdentifier _ _ _)
  · exact .inr (noNumber_of_recorded nofun rfl)
  · exact .inr (s.noNumber_scanTemplateToken _ _ _)
  · exact .inr (s.noNumber_scanSlash _ _ _)
  · exact .inr (s.noNumber_scanPunctuator _ _ _ _)

omit [UnicodeIdent] [NumberFormat] in
theorem recorded_skipTrivia (fuel : Nat) (s : Scanner source) (text : List Char) :
    (skipTrivia fuel s text).1.recorded = s.recorded := by
  induction fuel generalizing s text with
  | zero => rfl
  | succ fuel ih =>
    rw [skipTrivia]
    dsimp only
    split_ifs
    · exact ih _ _
    · exact ih _ _
    · rw [ih]
      unfold blockComment
      dsimp only
      split <;> rfl
    · rfl

/-! ## Runs -/

/-- What is recorded up to a place. -/
structure NumbersRead (s : Scanner source) (limit : Nat) : Prop where
  token_lt : ∀ token ∈ s.output.body, token.span.start < limit
  recovered_lt : ∀ literal ∈ s.output.numericLiterals, literal.span.start < limit
  separated_lt : ∀ literal ∈ s.output.separatedNumericLiterals, literal.span.start < limit
  escaped_lt : ∀ value ∈ s.output.identifierValues, value.span.start < limit
  unescaped : ∀ token ∈ s.output.body, token.kind = .numericLiteral →
    ∀ value ∈ s.output.identifierValues, value.span.start ≠ token.span.start
  scanned : ∀ token ∈ s.output.body, token.kind = .numericLiteral →
    IsScannedNumber source token.span (s.output.numberLiteral token.span)

namespace NumbersRead

variable {s t : Scanner source} {start limit : Nat}

omit [UnicodeIdent] in
theorem congr (h : s.NumbersRead start) (hbody : t.output.body = s.output.body)
    (hrecorded : t.recorded = s.recorded) (hle : start ≤ limit) : t.NumbersRead limit := by
  obtain ⟨hrecovered, hrest⟩ := Prod.mk.inj hrecorded
  obtain ⟨hseparated, hvalues⟩ := Prod.mk.inj hrest
  constructor <;> simp only [hbody, hrecovered, hseparated, hvalues, ScanOutput.numberLiteral]
  · exact fun token htoken => Nat.lt_of_lt_of_le (h.token_lt token htoken) hle
  · exact fun literal hliteral => Nat.lt_of_lt_of_le (h.recovered_lt literal hliteral) hle
  · exact fun literal hliteral => Nat.lt_of_lt_of_le (h.separated_lt literal hliteral) hle
  · exact fun value hvalue => Nat.lt_of_lt_of_le (h.escaped_lt value hvalue) hle
  · exact h.unescaped
  · exact h.scanned

omit [UnicodeIdent] [NumberFormat] in
theorem forall_append {α : Type} {values more : List α} (spanOf : α → Span)
    (hvalues : ∀ value ∈ values, (spanOf value).start < start)
    (hmore : ∀ value ∈ more, (spanOf value).start = start) (hlt : start < limit) :
    ∀ value ∈ values ++ more, (spanOf value).start < limit := by
  intro value hvalue
  rcases List.mem_append.mp hvalue with hvalue | hvalue
  · exact Nat.lt_trans (hvalues value hvalue) hlt
  · exact (hmore value hvalue).trans_lt hlt

omit [UnicodeIdent] in
/-- One more token, with what is recorded at it. -/
theorem append (h : s.NumbersRead start) {kind : TokenKind} {span : Span}
    (hstart : span.start = start) (hlt : start < limit)
    (hbody : t.output.body = s.output.body ++ [⟨kind, span⟩])
    {recovery : Option NumericRecoveryLiteral} {separated : Option SeparatedNumberLiteral}
    {more : List ScannedIdentifierValue} (hmore : ∀ value ∈ more, value.span.start = start)
    (hrecorded : t.recorded =
      (s.output.numericLiterals ++ (recovery.map (⟨span, ·⟩)).toList,
        s.output.separatedNumericLiterals ++ (separated.map (⟨span, ·⟩)).toList,
        s.output.identifierValues ++ more))
    (hread : kind = .numericLiteral → more = [] ∧
      IsScannedNumber source span (.ofScanned recovery separated (source.slice span))) :
    t.NumbersRead limit := by
  obtain ⟨hrecovered, hrest⟩ := Prod.mk.inj hrecorded
  obtain ⟨hseparated, hvalues⟩ := Prod.mk.inj hrest
  have hrecovery : ∀ literal ∈ (recovery.map fun l => ScannedNumericLiteral.mk span l).toList,
      literal.span.start = start := by
    intro literal hliteral
    obtain ⟨_, -, rfl⟩ := Option.map_eq_some_iff.mp (Option.mem_toList.mp hliteral)
    exact hstart
  have hseparator : ∀ literal ∈
      (separated.map fun l => ScannedSeparatedNumberLiteral.mk span l).toList,
      literal.span.start = start := by
    intro literal hliteral
    obtain ⟨_, -, rfl⟩ := Option.map_eq_some_iff.mp (Option.mem_toList.mp hliteral)
    exact hstart
  constructor <;> simp only [hbody, hrecovered, hseparated, hvalues, ScanOutput.numberLiteral]
  · exact forall_append Token.span h.token_lt (by simpa using hstart) hlt
  · exact forall_append ScannedNumericLiteral.span h.recovered_lt hrecovery hlt
  · exact forall_append ScannedSeparatedNumberLiteral.span h.separated_lt hseparator hlt
  · exact forall_append ScannedIdentifierValue.span h.escaped_lt hmore hlt
  · intro token htoken hkind value hvalue
    rcases List.mem_append.mp htoken with htoken | htoken
    · rcases List.mem_append.mp hvalue with hvalue | hvalue
      · exact h.unescaped token htoken hkind value hvalue
      · rw [hmore value hvalue]
        exact (h.token_lt token htoken).ne'
    · obtain rfl := List.mem_singleton.mp htoken
      rw [(hread hkind).1, List.append_nil] at hvalue
      exact hstart ▸ (h.escaped_lt value hvalue).ne
  · intro token htoken hkind
    rcases List.mem_append.mp htoken with htoken | htoken
    · -- the new literals start behind the older tokens
      have hbefore := (h.token_lt token htoken).ne'
      rw [scanAt_append_of_ne fun literal hliteral => hrecovery literal hliteral ▸ hbefore,
        scanAt_append_of_ne fun literal hliteral => hseparator literal hliteral ▸ hbefore]
      exact h.scanned token htoken hkind
    · obtain rfl := List.mem_singleton.mp htoken
      rw [scanAt_append_of_new fun literal hl => hstart ▸ (h.recovered_lt literal hl).ne,
        scanAt_append_of_new fun literal hl => hstart ▸ (h.separated_lt literal hl).ne]
      have hrecovery : (scanAt (recovery.map fun l => ScannedNumericLiteral.mk span l).toList span
          (·.span)).map (·.literal) = recovery :=
        scanAt_option recovery (fun _ => rfl) fun _ => rfl
      have hseparator : (scanAt (separated.map fun l =>
          ScannedSeparatedNumberLiteral.mk span l).toList span (·.span)).map (·.literal) =
            separated :=
        scanAt_option separated (fun _ => rfl) fun _ => rfl
      rw [hrecovery, hseparator]
      exact (hread hkind).2

/-- One more token of the scan loop. -/
theorem step {c : Char} {rest : List Char} (h : s.NumbersRead (source.offsetOf (c :: rest)))
    (htext : c :: rest <:+ source.text) :
    (s.scanOne c rest).1.NumbersRead (source.offsetOf (s.scanOne c rest).2) := by
  have hbody := body_scanOne s c rest
  have hafter : (s.scanOne c rest).2 <:+ rest := List.drop_suffix _ _
  have hlt : source.offsetOf (c :: rest) < source.offsetOf (s.scanOne c rest).2 := by
    have hcons := SourceText.offsetOf_cons htext
    have hle := source.offsetOf_anti hafter
    have hpos := c.utf8Size_pos
    omega
  have hrecorded : (s.scanOne c rest).1.recorded = (s.scanToken c rest).scanner.recorded := rfl
  rcases s.scanToken_cases c rest with ⟨hstarts, hnumber⟩ | hno
  · have hc : c.isDigit ∨ c = '.' := by
      obtain ⟨d, tail, hd, heq | heq⟩ := hstarts
      · exact .inl ((List.cons.inj heq).1 ▸ hd)
      · exact .inr (List.cons.inj heq).1
    have hstop := s.offsetOf_scanNumber hc htext
    rw [← hnumber] at hstop
    have hspan : source.spanBetween (c :: rest) (s.scanOne c rest).2 = ⟨source.id,
        source.offsetOf (c :: rest), (scanNumericLiteral source (source.offsetOf (c :: rest))
          (c :: rest) s.previousToken).stop⟩ := by
      rw [SourceText.spanBetween, ← hstop]
      rfl
    have hscanned := isNumber_scanNumericLiteral source (source.offsetOf (c :: rest)) (c :: rest)
      s.previousToken
    rw [hnumber] at hrecorded
    simp only [scanNumber, recorded] at hrecorded
    rw [hspan, hnumber] at hbody
    simp only [scanNumber] at hbody
    rw [← List.append_nil s.output.identifierValues] at hrecorded
    refine h.append rfl hlt hbody (fun _ hvalue => absurd hvalue List.not_mem_nil) hrecorded ?_
    intro hkind
    refine ⟨rfl, c :: rest, s.previousToken, hstarts, ⟨htext, rfl⟩, ?_, rfl, rfl⟩
    refine hscanned.kind.resolve_right fun hbigInt => ?_
    rw [if_pos hbigInt] at hkind
    cases hkind
  · obtain ⟨more, hmore, hno'⟩ := hno.recorded
    rw [hno', ← List.append_nil s.output.numericLiterals,
      ← List.append_nil s.output.separatedNumericLiterals] at hrecorded
    have hnone {α β : Type} (build : β → α) : ((none : Option β).map build).toList = [] := rfl
    rw [← hnone, ← hnone] at hrecorded
    exact h.append rfl hlt hbody hmore hrecorded fun hkind => absurd hkind hno.kind

theorem scanTokens (fuel : Nat) {text : List Char} (h : s.NumbersRead (source.offsetOf text))
    (htext : text <:+ source.text) :
    (scanTokens fuel s text).1.NumbersRead
      (source.offsetOf (Scanner.scanTokens fuel s text).2) := by
  induction fuel generalizing s text with
  | zero => exact h
  | succ fuel ih =>
    have hskip := suffix_skipTrivia text.length s text htext
    have hbody := body_skipTrivia text.length s text
    have hrecorded := recorded_skipTrivia text.length s text
    have htrivia := h.congr hbody hrecorded (source.offsetOf_anti hskip)
    rcases hrun : Scanner.skipTrivia text.length s text with ⟨t, _ | ⟨c, rest⟩⟩
    · rw [Scanner.scanTokens, hrun]
      rw [hrun] at htrivia
      exact htrivia
    · rw [hrun] at htrivia hskip
      rw [scanTokens_of_skipTrivia hrun]
      have hstart := hskip.trans htext
      refine ih (htrivia.step hstart) ?_
      exact (List.drop_suffix _ _).trans ((List.suffix_cons c rest).trans hstart)

end NumbersRead

end Scanner

section

variable [UnicodeIdent] [NumberFormat]

theorem numbersRead_scanSource (source : SourceText) :
    (Scanner.scanTokens source.text.length { output := emptyOutput source }
      source.text).1.NumbersRead (source.offsetOf (Scanner.scanTokens source.text.length
        { output := emptyOutput source } source.text).2) := by
  refine Scanner.NumbersRead.scanTokens _ ?_ List.suffix_rfl
  constructor <;> simp [emptyOutput]

/-- Every number token of a source is read as the number of its digits, but for those behind `0_`
that are read again in octal. -/
theorem numberLiteral_iff [ShortestDigits] (p : Parser (scanSource source)) {token : Token}
    (htoken : token ∈ (scanSource source).body) (hkind : token.kind = .numericLiteral) :
    ∃ raw, source.slice token.span = String.ofList raw ∧
      ((parseNumberLiteral (p.numberLiteral token).semanticText.toList).map (·.value) =
          some (binary64.round (inUnits (authoredValue raw))) ↔ ¬ IsMisread raw) := by
  have hread := numbersRead_scanSource source
  obtain ⟨raw, hraw, hfaithful⟩ := (hread.scanned token htoken hkind).faithful
  refine ⟨raw, hraw, ?_⟩
  rw [p.numberLiteral_eq (hread.unescaped token htoken hkind), parseNumberLiteral, Option.map_map]
  simp only [Function.comp_def, Option.map_id']
  exact hfaithful

end

section

local instance separatorIdent : UnicodeIdent := asciiIdent

local instance separatorFormat : NumberFormat := spelledNumbers

/-- A number with two separators in a row. -/
def doubleSeparator : SourceText := ⟨⟨0⟩, some "ts", "1__0".toList⟩

theorem numberLiteral_doubleSeparator :
    letI := ShortestDigits.withPower 1
    ∃ raw, doubleSeparator.slice ⟨⟨0⟩, 0, 4⟩ = String.ofList raw ∧
      ((parseNumberLiteral ((Parser.new (scanSource doubleSeparator)).numberLiteral
          ⟨.numericLiteral, ⟨⟨0⟩, 0, 4⟩⟩).semanticText.toList).map (·.value) =
        some (binary64.round (inUnits (authoredValue raw))) ↔ ¬ IsMisread raw) := by
  let := ShortestDigits.withPower 1
  have htoken : (⟨.numericLiteral, ⟨⟨0⟩, 0, 4⟩⟩ : Token) ∈ (scanSource doubleSeparator).body := by
    decide +kernel
  exact numberLiteral_iff (Parser.new (scanSource doubleSeparator)) htoken rfl

/-- A ten with a separator behind a zero in front of it. -/
def zeroSeparator : SourceText := ⟨⟨0⟩, some "ts", "0_10".toList⟩

/-- The ten is read as eight. -/
theorem numberLiteral_zeroSeparator :
    letI := ShortestDigits.withPower 1
    ⟨.numericLiteral, ⟨⟨0⟩, 0, 4⟩⟩ ∈ (scanSource zeroSeparator).body ∧
      zeroSeparator.slice ⟨⟨0⟩, 0, 4⟩ = "0_10" ∧ authoredValue "0_10".toList = 10 ∧
      (parseNumberLiteral ((Parser.new (scanSource zeroSeparator)).numberLiteral
          ⟨.numericLiteral, ⟨⟨0⟩, 0, 4⟩⟩).semanticText.toList).map (·.value) =
        some (binary64.round (inUnits 8)) ∧
      binary64.round (inUnits 8) ≠ binary64.round (inUnits 10) := by
  let := ShortestDigits.withPower 1
  have hsemantic : ((Parser.new (scanSource zeroSeparator)).numberLiteral
      ⟨.numericLiteral, ⟨⟨0⟩, 0, 4⟩⟩).semanticText = "010" := by decide +kernel
  have hvalue : numericValue "010".toList = some (binary64.round (inUnits 8)) := by decide +kernel
  refine ⟨by decide +kernel, by decide +kernel, by decide +kernel, ?_, by decide +kernel⟩
  rw [hsemantic, parseNumberLiteral, Option.map_map]
  simp only [Function.comp_def, Option.map_id']
  exact hvalue

end

end Tsz.Syntax
