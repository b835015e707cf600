import Tsz.Project.Jsonc.Text
import Tsz.Syntax.Quoting
import Tsz.Syntax.Scanner.Dispatch

/-!
# Scanning JSON with comments

Configurations are scanned as sources. The tokens are the lexemes, where they stand.

## Main definitions

* `tokensAt` — the tokens of lexemes from an offset on.
* `IsSpaced` — lexemes that the text behind each of them does not go on with.

## Main results

* `scanTokens_pieces` — the scanner finds the lexemes of a text.
* `body_document` — the tokens of a configuration.
-/

namespace Tsz.Jsonc

open Tsz.Syntax Decimals

/-- The source a configuration is scanned as. -/
def jsoncSource (text : List Char) : SourceText := ⟨⟨0⟩, none, text⟩

def tokensAt : Nat → List Piece → List Token
  | _, [] => []
  | offset, piece :: pieces =>
    let start := offset + utf8Length piece.gap.text
    let stop := start + utf8Length piece.lexeme.text
    ⟨piece.lexeme.kind, ⟨⟨0⟩, start, stop⟩⟩ :: tokensAt stop pieces

/-! ## Gaps -/

section

variable {source : SourceText}

theorem skipTrivia_nil (fuel : Nat) (s : Scanner source) :
    Scanner.skipTrivia fuel s [] = (s, []) := by
  cases fuel with
  | zero => rfl
  | succ fuel => simp [Scanner.skipTrivia]

theorem skipTrivia_whitespace {c : Char} (hc : isTriviaWhitespace c = true) {rest : List Char}
    (hrest : rest.head? ≠ some '#') (fuel : Nat) (s : Scanner source) :
    Scanner.skipTrivia (fuel + 1) s (c :: rest) = Scanner.skipTrivia (fuel + 1) s rest := by
  have hhash : c ≠ '#' := by
    rintro rfl
    cases hc
  have hshebang : rest.take 2 ≠ ['#', '!'] := by
    intro h
    cases rest with
    | nil => cases h
    | cons d rest => simp_all
  rw [Scanner.skipTrivia, Scanner.skipTrivia]
  simp [hhash, hshebang, hc]

theorem skipTrivia_line {body : List Char} (rest : List Char)
    (hbody : ∀ d ∈ body, isLineBreak d = false)
    (hrest : ∀ c, rest.head? = some c → isLineBreak c = true) (fuel : Nat)
    (s : Scanner source) :
    ∃ s' : Scanner source,
      Scanner.skipTrivia (fuel + 1) s ('/' :: '/' :: (body ++ rest)) =
        Scanner.skipTrivia fuel s' rest := by
  have hskip : Scanner.skipLineBody ('/' :: '/' :: (body ++ rest)) = rest := by
    have hdrop : rest.dropWhile (fun c => !isLineBreak c) = rest := by
      cases rest with
      | nil => rfl
      | cons c rest => rw [List.dropWhile_cons_of_neg (by simp [hrest c rfl])]
    rw [Scanner.skipLineBody, List.drop_succ_cons, List.drop_succ_cons, List.drop_zero,
      List.dropWhile_append_of_pos (by simpa using hbody), hdrop]
  refine ⟨s.comment (source.spanBetween ('/' :: '/' :: (body ++ rest)) rest) false, ?_⟩
  have hspace : isTriviaWhitespace '/' = false := rfl
  rw [Scanner.skipTrivia]
  simp [hspace, hskip, List.dropWhile_cons_of_neg]

theorem afterBlockComment_append {body : List Char} (rest : List Char)
    (hbody : ¬ ['*', '/'] <:+: body ++ ['*']) :
    Scanner.afterBlockComment (body ++ '*' :: '/' :: rest) = some rest := by
  induction body with
  | nil => rfl
  | cons c body ih =>
    have hrest : ¬ ['*', '/'] <:+: body ++ ['*'] := fun h =>
      hbody (h.trans (List.suffix_cons _ _).isInfix)
    rw [List.cons_append, Scanner.afterBlockComment.eq_2, ih hrest]
    rintro rest' rfl heq
    refine hbody (List.IsPrefix.isInfix ?_)
    cases body with
    | nil => simp at heq
    | cons d body =>
      obtain ⟨rfl, -⟩ := List.cons.inj heq
      exact ⟨body ++ ['*'], by simp⟩

theorem skipTrivia_block {body : List Char} (rest : List Char)
    (hbody : ¬ ['*', '/'] <:+: body ++ ['*']) (fuel : Nat) (s : Scanner source) :
    ∃ s' : Scanner source,
      Scanner.skipTrivia (fuel + 1) s ('/' :: '*' :: (body ++ '*' :: '/' :: rest)) =
        Scanner.skipTrivia fuel s' rest := by
  have hspace : isTriviaWhitespace '/' = false := rfl
  have hafter := afterBlockComment_append rest hbody
  refine ⟨(s.blockComment ('/' :: '*' :: (body ++ '*' :: '/' :: rest))).1, ?_⟩
  rw [Scanner.skipTrivia]
  simp [hspace, Scanner.blockComment, hafter, List.dropWhile_cons_of_neg]

theorem IsGap.head_ne {gap rest : List Char} (h : IsGap gap) (hrest : rest.head? ≠ some '#') :
    (gap ++ rest).head? ≠ some '#' := by
  cases h with
  | nil => exact hrest
  | whitespace hc _ =>
    intro hhead
    obtain rfl := Option.some.inj hhead
    cases hc
  | line _ _ _ => simp
  | block _ _ => simp

/-- A gap is skipped, with no more fuel than it has characters. -/
theorem skipTrivia_gap {gap : List Char} (rest : List Char) (h : IsGap gap)
    (hrest : rest.head? ≠ some '#') {fuel : Nat} (hfuel : gap.length ≤ fuel) (s : Scanner source) :
    ∃ (s' : Scanner source) (fuel' : Nat), fuel ≤ gap.length + fuel' ∧
      Scanner.skipTrivia fuel s (gap ++ rest) = Scanner.skipTrivia fuel' s' rest := by
  induction h generalizing fuel s with
  | nil => exact ⟨s, fuel, by simp, rfl⟩
  | @whitespace c gap hc h ih =>
    obtain ⟨fuel, rfl⟩ : ∃ n, fuel = n + 1 := ⟨fuel - 1, by simp at hfuel; omega⟩
    obtain ⟨s', fuel', hle, hskip⟩ := ih (show gap.length ≤ fuel + 1 by simp at hfuel; omega) s
    refine ⟨s', fuel', by simp; omega, ?_⟩
    rw [List.cons_append, skipTrivia_whitespace hc (h.head_ne hrest), hskip]
  | @line body gap c hbody hc h ih =>
    obtain ⟨fuel, rfl⟩ : ∃ n, fuel = n + 1 := ⟨fuel - 1, by simp at hfuel; omega⟩
    have hspace : isTriviaWhitespace c = true := by
      unfold isTriviaWhitespace
      split
      · next hascii =>
        simp only [isLineBreak, Bool.or_eq_true, beq_iff_eq] at hc
        rcases hc with ((rfl | rfl) | rfl) | rfl
        · rfl
        · rfl
        · cases hascii
        · cases hascii
      · rw [hc, Bool.or_true]
    obtain ⟨s₁, hline⟩ := skipTrivia_line (c :: (gap ++ rest)) hbody
      (fun d hd => by obtain rfl := Option.some.inj hd; exact hc) fuel s
    obtain ⟨fuel, rfl⟩ : ∃ n, fuel = n + 1 := ⟨fuel - 1, by simp at hfuel; omega⟩
    obtain ⟨s', fuel', hle, hskip⟩ := ih (show gap.length ≤ fuel + 1 by simp at hfuel; omega) s₁
    refine ⟨s', fuel', by simp; omega, ?_⟩
    rw [List.cons_append, List.cons_append, List.append_assoc, List.cons_append, hline,
      skipTrivia_whitespace hspace (h.head_ne hrest), hskip]
  | @block body gap hbody h ih =>
    obtain ⟨fuel, rfl⟩ : ∃ n, fuel = n + 1 := ⟨fuel - 1, by simp at hfuel; omega⟩
    obtain ⟨s₁, hblock⟩ := skipTrivia_block (gap ++ rest) hbody fuel s
    obtain ⟨s', fuel', hle, hskip⟩ := ih (show gap.length ≤ fuel by simp at hfuel; omega) s₁
    refine ⟨s', fuel', by simp; omega, ?_⟩
    rw [List.cons_append, List.cons_append, List.append_assoc, List.cons_append, List.cons_append,
      hblock, hskip]

/-- Nothing is scanned behind the value. -/
theorem skipTrivia_end {text : List Char} (h : IsEnd text) (s : Scanner source) :
    (Scanner.skipTrivia text.length s text).2 = [] := by
  cases h with
  | gap h =>
    obtain ⟨s', fuel', -, hskip⟩ := skipTrivia_gap [] h (by simp) (Nat.le_refl _) s
    rw [List.append_nil] at hskip
    rw [hskip, skipTrivia_nil]
  | @line gap body h hbody =>
    obtain ⟨s₁, fuel', hle, hskip⟩ := skipTrivia_gap ('/' :: '/' :: body) h (by simp)
      (show gap.length ≤ (gap ++ '/' :: '/' :: body).length by simp) s
    obtain ⟨fuel', rfl⟩ : ∃ n, fuel' = n + 1 := ⟨fuel' - 1, by simp at hle; omega⟩
    obtain ⟨s₂, hline⟩ := skipTrivia_line [] hbody (by simp) fuel' s₁
    rw [List.append_nil] at hline
    rw [hskip, hline, skipTrivia_nil]

end

/-! ## Lexemes -/

/-- A text that starts like what stands behind a value. -/
def IsDelimited (rest : List Char) : Prop :=
  ∀ c, rest.head? = some c → isTriviaWhitespace c = true ∨ c ∈ ['/', ',', ']', '\x7d']

/-- The text does not go on with the lexeme in front of it. -/
def Lexeme.EndsBefore (rest : List Char) : Lexeme → Prop
  | mark .minus => ∃ c, rest.head? = some c ∧ c.isDigit = true
  | word _ | number _ _ => IsDelimited rest
  | _ => True

theorem probeString_body {body : List Char} (h : IsStringBody body) (rest : List Char) :
    (probeString '"' (body ++ '"' :: rest)).body = body ∧
      (probeString '"' (body ++ '"' :: rest)).terminated = true := by
  induction h with
  | nil =>
    rw [List.nil_append, probeString_quote (.inl rfl)]
    exact ⟨rfl, rfl⟩
  | @character c body hcontrol hquote hescape h ih =>
    have hne {d : Char} (hd : d < ' ') : c ≠ d := by
      rintro rfl
      exact absurd hcontrol (not_le.mpr hd)
    rw [List.cons_append,
      probeString_character ⟨hescape, hquote, hne (by decide), hne (by decide)⟩]
    exact ⟨congrArg (c :: ·) ih.1, ih.2⟩
  | @escape c body hc h ih =>
    have hne : c ≠ '\r' := by
      rintro rfl
      simp at hc
    rw [List.cons_append, List.cons_append, probeString_escape '"' (fun h => hne h.1)]
    exact ⟨congrArg ('\\' :: c :: ·) ih.1, ih.2⟩
  | @unicode digits body hlength hdigits h ih =>
    rw [List.cons_append, List.cons_append, List.append_assoc,
      probeString_escape '"' (fun h => by simp at h),
      probeString_parts (.inl rfl) (fun c hc => .inl (hdigits c hc))]
    exact ⟨congrArg (fun body => '\\' :: 'u' :: (digits ++ body)) ih.1, ih.2⟩

theorem isAscii_of_isAlphanum {c : Char} (h : c.isAlphanum = true) : isAscii c = true := by
  change ((c.isUpper || c.isLower) || c.isDigit) = true at h
  rw [Bool.or_eq_true, Bool.or_eq_true] at h
  have hle {d : Char} (h : c.val ≤ d.val) (hd : d.toNat < 0x80) : isAscii c = true :=
    decide_eq_true (Nat.lt_of_le_of_lt (UInt32.le_iff_toNat_le.mp h) hd)
  rcases h with (h | h) | h
  · exact hle (of_decide_eq_true h).2 (by decide)
  · exact hle (of_decide_eq_true (Bool.and_eq_true_iff.mp h).2) (by decide)
  · exact hle (of_decide_eq_true (Bool.and_eq_true_iff.mp h).2) (by decide)

section

variable [UnicodeIdent]

/-- No whitespace is a part of an identifier, as in Unicode. -/
def SeparatesWords : Prop :=
  ∀ c, isTriviaWhitespace c = true → isIdentifierPartCharacter c = false

theorem isIdentifierPartCharacter_delimiter (hident : SeparatesWords) {rest : List Char}
    (h : IsDelimited rest) {c : Char} (hc : rest.head? = some c) :
    isIdentifierPartCharacter c = false ∧ c ≠ '\\' := by
  rcases h c hc with hspace | hmem
  · refine ⟨hident c hspace, ?_⟩
    rintro rfl
    cases hspace
  · simp only [List.mem_cons, List.not_mem_nil, or_false] at hmem
    rcases hmem with rfl | rfl | rfl | rfl <;> exact ⟨rfl, by decide⟩

theorem identifierPartLength_word (hident : SeparatesWords) {word rest : List Char}
    (hword : ∀ c ∈ word, isIdentifierPartCharacter c = true ∧ c ≠ '\\') (h : IsDelimited rest)
    {fuel : Nat} (hfuel : word.length < fuel) :
    identifierPartLength fuel (word ++ rest) = word.length := by
  have hescape {c : Char} {text : List Char} (hc : c ≠ '\\') :
      identifierEscapeAt (c :: text) = none := by
    unfold identifierEscapeAt
    split
    · next heq => exact absurd (List.cons.inj heq).1 hc
    · rfl
  induction word generalizing fuel with
  | nil =>
    obtain ⟨fuel, rfl⟩ : ∃ n, fuel = n + 1 := ⟨fuel - 1, by simp at hfuel; omega⟩
    cases rest with
    | nil => rfl
    | cons c rest =>
      obtain ⟨hpart, hc⟩ := isIdentifierPartCharacter_delimiter hident h (c := c) rfl
      simp [identifierPartLength, hescape hc, hpart]
  | cons c word ih =>
    obtain ⟨fuel, rfl⟩ : ∃ n, fuel = n + 1 := ⟨fuel - 1, by simp at hfuel; omega⟩
    obtain ⟨hc, hword⟩ := List.forall_mem_cons.mp hword
    have ih := ih hword (show word.length < fuel by simp at hfuel; omega)
    rw [List.cons_append, identifierPartLength, hescape hc.2]
    simp [hc.1, ih, Nat.add_comm]

variable [NumberFormat] {source : SourceText}

theorem scanToken_mark {m : Mark} {rest : List Char} (h : (Lexeme.mark m).EndsBefore rest)
    {s : Scanner source} (hdepths : s.templateExpressionDepths = []) :
    s.scanToken m.char rest = ⟨m.kind, 0, s⟩ := by
  have hstart : startsIdentifier (m.char :: rest) = false := by
    cases m <;>
      simp [Mark.char, startsIdentifier, isIdentifierStartCharacter, isAscii, identifierEscapeAt]
  have hminus : m = .minus → ['-'].isPrefixOf rest = false ∧ ['='].isPrefixOf rest = false := by
    rintro rfl
    obtain ⟨c, hc, hdigit⟩ := h
    cases rest with
    | nil => cases hc
    | cons d rest =>
      obtain rfl := Option.some.inj hc
      have hne {e : Char} (he : e.isDigit = false) : (e == d) = false := by
        rw [beq_eq_false_iff_ne]
        rintro rfl
        rw [he] at hdigit
        cases hdigit
      simp [List.isPrefixOf, hne (e := '-') rfl, hne (e := '=') rfl]
  unfold Scanner.scanToken
  cases m <;>
    simp_all [Mark.char, Mark.kind, Scanner.scanPunctuator, Scanner.startsQuestionDot,
      Scanner.punctuators, Char.isDigit]

theorem scanToken_word (hident : SeparatesWords) (w : Word) {rest : List Char}
    (h : IsDelimited rest) {s : Scanner source} (hdepths : s.templateExpressionDepths = []) :
    ∃ c cs, w.text = c :: cs ∧ (s.scanToken c (cs ++ rest)).kind = w.kind ∧
      (s.scanToken c (cs ++ rest)).length = cs.length ∧
      (s.scanToken c (cs ++ rest)).scanner.templateExpressionDepths = [] := by
  obtain ⟨c, cs, htext⟩ : ∃ c cs, w.text = c :: cs := by cases w <;> exact ⟨_, _, rfl⟩
  have hword : ∀ d ∈ c :: cs, isIdentifierPartCharacter d = true ∧ d ≠ '\\' := by
    rw [← htext]
    cases w <;> simp [Word.text, isIdentifierPartCharacter, isAscii]
  have hplain : c ≠ '\x7d' ∧ isIdentifierStartCharacter c = true ∧
      (c :: cs).contains '\\' = false ∧
      TokenKind.fromKeyword (String.ofList (c :: cs)) = w.kind := by
    cases w <;> cases htext <;> exact ⟨by decide, rfl, rfl, rfl⟩
  obtain ⟨hbrace, hstart, hescape, hkind⟩ := hplain
  have hlength : identifierLength (c :: cs ++ rest) = (c :: cs).length := by
    have hnone : identifierEscapeAt (c :: (cs ++ rest)) = none := by
      unfold identifierEscapeAt
      split
      · next heq => exact absurd (List.cons.inj heq).1 (hword c List.mem_cons_self).2
      · rfl
    rw [List.cons_append, identifierLength, hnone]
    simp only [Option.map_none, Option.getD_none, List.drop_succ_cons, List.drop_zero]
    have hfuel : cs.length < (c :: (cs ++ rest)).length := by
      rw [List.length_cons, List.length_append]
      omega
    rw [identifierPartLength_word hident (List.forall_mem_cons.mp hword).2 h hfuel]
    simp [Nat.add_comm]
  have htoken : s.scanToken c (cs ++ rest) =
      s.scanIdentifier (c :: cs ++ rest) (c :: cs).length false := by
    have hstarts : startsIdentifier (c :: (cs ++ rest)) = true := by
      simp [startsIdentifier, hstart]
    rw [scanToken_identifier s hbrace hstarts, ← List.cons_append, hlength]
  have hdepths' := congrArg Prod.snd
    (s.nesting_scanIdentifier (c :: cs ++ rest) (c :: cs).length false)
  refine ⟨c, cs, htext, ?_, ?_, ?_⟩
  · rw [htoken, Scanner.scanIdentifier]
    simp only [List.take_left, hescape]
    exact hkind
  · rw [htoken]
    rfl
  · rw [htoken]
    exact hdepths'.trans hdepths

theorem scanToken_digits (hident : SeparatesWords) {digits : List Char}
    (hnumber : IsNumber digits) {rest : List Char} (h : IsDelimited rest)
    (hsuffix : digits ++ rest <:+ source.text)
    {s : Scanner source} (hdepths : s.templateExpressionDepths = []) :
    ∃ c cs, digits = c :: cs ∧ c.isDigit = true ∧
      (s.scanToken c (cs ++ rest)).kind = .numericLiteral ∧
      (s.scanToken c (cs ++ rest)).length = cs.length ∧
      (s.scanToken c (cs ++ rest)).scanner.templateExpressionDepths = [] := by
  obtain ⟨hspelling, c, cs, rfl, hdigit⟩ := hnumber.isSpelling
  have hends : EndsSpelling (c :: cs) rest := by
    intro d hd
    rcases h d hd with hspace | hmem
    · obtain ⟨hpart, -⟩ := isIdentifierPartCharacter_delimiter hident h hd
      have halpha : d.isAlphanum = false := by
        rw [Bool.eq_false_iff]
        intro halpha
        rw [isIdentifierPartCharacter, if_pos (isAscii_of_isAlphanum halpha), halpha] at hpart
        cases hpart
      refine ⟨halpha, ?_, ?_⟩ <;> rintro rfl <;> cases hspace
    · simp only [List.mem_cons, List.not_mem_nil, or_false] at hmem
      rcases hmem with rfl | rfl | rfl | rfl <;> exact ⟨rfl, by decide, nofun⟩
  have hscan := scanNumericLiteral_spelling hspelling ⟨hsuffix, rfl⟩ hends s.previousToken
  have hn : (rest.head? == some 'n') = false := beq_eq_false_iff_ne.mpr (hends.head_ne rfl)
  refine ⟨c, cs, rfl, hdigit, ?_⟩
  rw [scanToken_number s (.inl hdigit), Scanner.scanNumber, ← List.cons_append, hscan]
  simp [plainNumericToken, hn, hdepths]

theorem scanToken_string (str : JsonString) (rest : List Char) {s : Scanner source}
    (hdepths : s.templateExpressionDepths = []) :
    (s.scanToken '"' (str.body ++ ['"'] ++ rest)).kind = .stringLiteral ∧
      (s.scanToken '"' (str.body ++ ['"'] ++ rest)).length = (str.body ++ ['"']).length ∧
      (s.scanToken '"' (str.body ++ ['"'] ++ rest)).scanner.templateExpressionDepths = [] := by
  have hprobe := probeString_body str.isBody rest
  have hscan (start : Nat) :
      (scanString source start '"' (str.body ++ ['"'] ++ rest)).body = str.body ∧
        (scanString source start '"' (str.body ++ ['"'] ++ rest)).terminated = true := by
    rw [List.append_assoc, List.singleton_append]
    unfold scanString
    dsimp only
    split
    · exact hprobe
    · exact hprobe
  obtain ⟨hbody, hterminated⟩ := hscan (source.offsetOf ('"' :: (str.body ++ ['"'] ++ rest)))
  rw [scanToken_quote]
  refine ⟨rfl, ?_, hdepths⟩
  simp only [Scanner.scanStringToken, List.tail_cons, hbody, hterminated, if_true]
  simp

/-- A lexeme is scanned as one token. -/
theorem scanToken_lexeme (hident : SeparatesWords) (lexeme : Lexeme) {rest : List Char}
    (h : lexeme.EndsBefore rest) (hsuffix : lexeme.text ++ rest <:+ source.text)
    {s : Scanner source} (hdepths : s.templateExpressionDepths = []) :
    ∃ c cs, lexeme.text = c :: cs ∧ (isTriviaWhitespace c = false ∧ c ≠ '/' ∧ c ≠ '#') ∧
      (s.scanToken c (cs ++ rest)).kind = lexeme.kind ∧
      (s.scanToken c (cs ++ rest)).length = cs.length ∧
      (s.scanToken c (cs ++ rest)).scanner.templateExpressionDepths = [] := by
  cases lexeme with
  | mark m =>
    have htoken := scanToken_mark h hdepths
    refine ⟨m.char, [], rfl, by cases m <;> decide, ?_⟩
    rw [List.nil_append, htoken]
    exact ⟨rfl, rfl, hdepths⟩
  | word w =>
    obtain ⟨c, cs, htext, hscan⟩ := scanToken_word hident w h hdepths
    refine ⟨c, cs, htext, ?_, hscan⟩
    cases w <;> cases htext <;> decide
  | number digits hnumber =>
    obtain ⟨c, cs, rfl, hdigit, hscan⟩ := scanToken_digits hident hnumber h hsuffix hdepths
    refine ⟨c, cs, rfl, ?_, hscan⟩
    obtain ⟨n, hn, rfl⟩ := exists_digitChar hdigit
    have hall : ∀ n < 10, isTriviaWhitespace (Nat.digitChar n) = false ∧
        Nat.digitChar n ≠ '/' ∧ Nat.digitChar n ≠ '#' := by decide
    exact hall n hn
  | string str =>
    exact ⟨'"', str.body ++ ['"'], rfl, by decide, scanToken_string str rest hdepths⟩

/-! ## Runs -/

omit [UnicodeIdent] [NumberFormat] in
theorem isAt_append {offset : Nat} {front rest : List Char}
    (h : source.IsAt offset (front ++ rest)) : source.IsAt (offset + utf8Length front) rest := by
  obtain ⟨⟨before, hbefore⟩, hoffset⟩ := h
  have hrest : source.text = (before ++ front) ++ rest := by rw [← hbefore, List.append_assoc]
  refine ⟨⟨before ++ front, hrest.symm⟩, ?_⟩
  rw [SourceText.offsetOf_append hrest, hoffset, SourceText.offsetOf_append hbefore.symm,
    utf8Length_append]

/-- The lexemes end where the text says, up to what stands behind them. -/
def IsSpaced (after : List Char) : List Piece → Prop
  | [] => True
  | piece :: pieces =>
    piece.lexeme.EndsBefore (render pieces ++ after) ∧ IsSpaced after pieces

theorem scanTokens_pieces (hident : SeparatesWords) (hid : source.id = ⟨0⟩) {after : List Char}
    (hafter : IsEnd after) {pieces : List Piece} (h : IsSpaced after pieces) {fuel : Nat}
    {s : Scanner source} (hdepths : s.templateExpressionDepths = []) {offset : Nat}
    (hat : source.IsAt offset (render pieces ++ after))
    (hfuel : (render pieces ++ after).length ≤ fuel) :
    (Scanner.scanTokens fuel s (render pieces ++ after)).1.output.body =
      s.output.body ++ tokensAt offset pieces := by
  induction pieces generalizing fuel s offset with
  | nil =>
    rw [render_nil, List.nil_append, tokensAt, List.append_nil]
    cases fuel with
    | zero => rfl
    | succ fuel =>
      have hskip := skipTrivia_end hafter s
      have hbody := Scanner.body_skipTrivia after.length s after
      rw [Scanner.scanTokens]
      split
      · next heq =>
        rw [heq] at hbody
        exact hbody
      · next heq =>
        rw [heq] at hskip
        cases hskip
  | cons piece pieces ih =>
    obtain ⟨hends, h⟩ := h
    have hrender : render (piece :: pieces) ++ after =
        piece.gap.text ++ (piece.lexeme.text ++ (render pieces ++ after)) := by simp
    rw [hrender] at hat hfuel ⊢
    have hlexeme := isAt_append hat
    have hrest := isAt_append hlexeme
    generalize hbehind : render pieces ++ after = rest at hat hfuel hends hlexeme hrest ⊢
    generalize htext : piece.gap.text ++ (piece.lexeme.text ++ rest) = text at hat hfuel ⊢
    have hbody := Scanner.body_skipTrivia text.length s text
    have hnesting := Scanner.nesting_skipTrivia text.length s text
    generalize hs₁ : (Scanner.skipTrivia text.length s text).1 = s₁ at hbody hnesting
    have hdepths₁ : s₁.templateExpressionDepths = [] :=
      (congrArg Prod.snd hnesting).trans hdepths
    obtain ⟨c, cs, hcs, ⟨hspace, hslash, hhash⟩, hkind, hlength, hdepths₂⟩ :=
      scanToken_lexeme hident piece.lexeme hends hlexeme.suffix hdepths₁
    have hskip : Scanner.skipTrivia text.length s text = (s₁, c :: (cs ++ rest)) := by
      obtain ⟨s', fuel', -, hskip⟩ := skipTrivia_gap (c :: (cs ++ rest))
        piece.gap.isGap (by simpa using hhash)
        (show piece.gap.text.length ≤ text.length by simp [← htext]) s
      rw [hcs, List.cons_append] at htext
      rw [skipTrivia_cons hspace hslash hhash, htext] at hskip
      rw [hskip] at hs₁ ⊢
      rw [← hs₁]
    obtain ⟨fuel, rfl⟩ : ∃ n, fuel = n + 1 :=
      ⟨fuel - 1, by rw [← htext, hcs] at hfuel; simp at hfuel; omega⟩
    have hafter' : (s₁.scanOne c (cs ++ rest)).2 = rest := by
      rw [Scanner.scanOne, hlength, List.drop_left]
    have hfuel' : rest.length ≤ fuel := by
      rw [← htext, hcs] at hfuel
      simp at hfuel
      omega
    have hone := s₁.body_scanOne c (cs ++ rest)
    rw [hafter', hkind, hbody] at hone
    have hspan : source.spanBetween (c :: (cs ++ rest)) rest =
        ⟨⟨0⟩, offset + utf8Length piece.gap.text,
          offset + utf8Length piece.gap.text + utf8Length piece.lexeme.text⟩ := by
      have hstart := hlexeme.offset
      rw [hcs, List.cons_append] at hstart
      rw [SourceText.spanBetween, hid, ← hstart, ← hrest.offset]
    have hdepths₃ : (s₁.scanOne c (cs ++ rest)).1.templateExpressionDepths = [] := hdepths₂
    subst hbehind
    rw [Scanner.scanTokens_of_skipTrivia hskip, hafter', ih h hdepths₃ hrest hfuel', hone, hspan,
      tokensAt]
    simp

end

/-! ## Values -/

theorem isDelimited_gap {gap : List Char} (h : IsGap gap) {rest : List Char}
    (hrest : IsDelimited rest) : IsDelimited (gap ++ rest) := by
  intro c hc
  cases h with
  | nil => exact hrest c hc
  | whitespace hspace h =>
    obtain rfl := Option.some.inj hc
    exact .inl hspace
  | line hbody hbreak h =>
    obtain rfl := Option.some.inj hc
    exact .inr (by decide)
  | block hbody h =>
    obtain rfl := Option.some.inj hc
    exact .inr (by decide)

theorem isDelimited_end {after : List Char} (h : IsEnd after) : IsDelimited after := by
  cases h with
  | gap h =>
    rw [← List.append_nil after]
    exact isDelimited_gap h nofun
  | line h hbody =>
    refine isDelimited_gap h fun c hc => ?_
    obtain rfl := Option.some.inj hc
    exact .inr (by decide)

theorem isDelimited_mark {m : Mark} (h : m.char ∈ ['/', ',', ']', '\x7d']) (rest : List Char) :
    IsDelimited (m.char :: rest) := by
  intro c hc
  obtain rfl := Option.some.inj hc
  exact .inr h

theorem isDelimited_tail {b : Bracket} (t : Tree (.tail b)) (rest : List Char) :
    IsDelimited (render t.pieces ++ rest) := by
  cases t with
  | stop gap =>
    have hmark : b.closing.char ∈ ['/', ',', ']', '\x7d'] := by cases b <;> decide
    simpa [Tree.pieces, Lexeme.text] using isDelimited_gap gap.isGap (isDelimited_mark hmark rest)
  | comma gap items =>
    have hmark : Mark.comma.char ∈ ['/', ',', ']', '\x7d'] := by decide
    simpa [Tree.pieces, Lexeme.text] using
      isDelimited_gap gap.isGap (isDelimited_mark hmark (render items.pieces ++ rest))

/-- The lexemes of a value end where they should, if the value does. -/
theorem isSpaced_append {part : Part} (t : Tree part) (more : List Piece) {after : List Char}
    (h : IsSpaced after more) (hvalue : part = .value → IsDelimited (render more ++ after)) :
    IsSpaced after (t.pieces ++ more) := by
  induction t generalizing more with
  | word gap w => exact ⟨hvalue rfl, h⟩
  | number gap n =>
    rw [Tree.pieces]
    split
    · obtain ⟨-, c, rest, hdigits, hdigit⟩ := n.isNumber.isSpelling
      refine ⟨⟨c, ?_, hdigit⟩, hvalue rfl, h⟩
      simp [Gap.spaces, Lexeme.text, hdigits]
    · exact ⟨hvalue rfl, h⟩
  | string gap s => exact ⟨trivial, h⟩
  | nested gap b items ih =>
    refine ⟨?_, ih _ h nofun⟩
    cases b <;> trivial
  | @close b gap =>
    refine ⟨?_, h⟩
    cases b <;> trivial
  | element value tail ih ihtail =>
    rw [Tree.pieces, List.append_assoc]
    refine ih _ (ihtail _ h nofun) fun _ => ?_
    rw [render_append, List.append_assoc]
    exact isDelimited_tail tail _
  | member gap key colon value tail ih ihtail =>
    rw [Tree.pieces, List.cons_append, List.cons_append, List.append_assoc]
    refine ⟨trivial, trivial, ih _ (ihtail _ h nofun) fun _ => ?_⟩
    rw [render_append, List.append_assoc]
    exact isDelimited_tail tail _
  | @stop b gap =>
    refine ⟨?_, h⟩
    cases b <;> trivial
  | comma gap items ih => exact ⟨trivial, ih _ h nofun⟩

/-- The tokens of a configuration are its lexemes. -/
theorem body_document [UnicodeIdent] [NumberFormat] (hident : SeparatesWords) (d : Document) :
    (scanSource (jsoncSource d.text)).body = tokensAt 0 d.value.pieces := by
  have hspaced := isSpaced_append d.value [] (show IsSpaced d.after [] from trivial)
    fun _ => isDelimited_end d.isEnd
  rw [List.append_nil] at hspaced
  exact scanTokens_pieces hident (show (jsoncSource d.text).id = ⟨0⟩ from rfl) d.isEnd hspaced
    rfl ⟨List.suffix_rfl, (Nat.sub_self _).symm⟩ (Nat.le_refl _)

end Tsz.Jsonc
