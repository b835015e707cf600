import Tsz.Syntax.Scanner.Templates

/-!
# Resuming the scanner

The tokens behind a place in the text depend on the text there, on the nesting of templates and on
two properties of the token in front of it.

## Main definitions

* `AlikeAt` — states from which the scanner finds the same tokens.
* `atToken` — the state of the scanner in front of a token of a source.

## Main results

* `exists_tokens_of_alike` — the same tokens follow from states that are alike.
* `exists_atToken` — every token of a source is scanned in its own state, and so are those behind it.
-/

namespace Tsz.Syntax

variable {source : SourceText}

namespace Scanner

/-! ## Runs from different states -/

/-- A slash at which a regular expression would not end. -/
def IsUnterminatedSlash (text : List Char) : Prop :=
  text.head? = some '/' ∧ (regularExpressionPattern false text.tail).2 ≠ .closed

/-- Whether a slash that starts no closed regular expression is one nevertheless. -/
def recoversRegularExpression (s : Scanner source) : Bool :=
  s.previousToken.all (·.kind == .equals)

/-- What a run of the scanner reads of the tokens in front of the text. -/
structure AlikeAt (text : List Char) (s t : Scanner source) : Prop where
  nesting : s.nesting = t.nesting
  canStartRegularExpression : s.canStartRegularExpression = t.canStartRegularExpression
  recovers : IsUnterminatedSlash text → s.recoversRegularExpression = t.recoversRegularExpression

/-- A token without its effect on the output. -/
def ScannedToken.shape (token : ScannedToken source) : TokenKind × Nat × Nat × List Nat :=
  (token.kind, token.length, token.scanner.nesting)

variable {s t : Scanner source} {text rest : List Char} {c : Char}

theorem shape_scanIdentifier (h : AlikeAt text s t) (length : Nat) (isPrivate : Bool) :
    (s.scanIdentifier text length isPrivate).shape =
      (t.scanIdentifier text length isPrivate).shape := by
  unfold ScannedToken.shape
  rw [nesting_scanIdentifier, nesting_scanIdentifier, h.nesting]
  rfl

/-- The previous token only shows in what is reported about a number. -/
theorem scanNumericLiteral_congr (source : SourceText) (start : Nat) (text : List Char) (previous previous' : Option Token)
    [NumberFormat] :
    (scanNumericLiteral source start text previous).stop =
        (scanNumericLiteral source start text previous').stop ∧
      (scanNumericLiteral source start text previous).kind =
        (scanNumericLiteral source start text previous').kind := by
  unfold scanNumericLiteral
  split
  · exact ⟨rfl, rfl⟩
  · split
    · exact ⟨rfl, rfl⟩
    · unfold scanDecimal
      dsimp only
      split_ifs
      · exact ⟨rfl, rfl⟩
      · exact ⟨rfl, rfl⟩

theorem shape_scanNumber [NumberFormat] (h : AlikeAt text s t) :
    (s.scanNumber text).shape = (t.scanNumber text).shape := by
  obtain ⟨hstop, hkind⟩ := scanNumericLiteral_congr source (source.offsetOf text) text
    s.previousToken t.previousToken
  have hs : (s.scanNumber text).scanner.nesting = s.nesting := rfl
  have ht : (t.scanNumber text).scanner.nesting = t.nesting := rfl
  unfold ScannedToken.shape
  rw [hs, ht, h.nesting]
  simp only [scanNumber, hstop, hkind]

theorem shape_scanTemplateToken (h : AlikeAt text s t) (isStart : Bool) :
    (s.scanTemplateToken text isStart).shape = (t.scanTemplateToken text isStart).shape := by
  obtain ⟨hdepth, hdepths⟩ := Prod.mk.inj h.nesting
  unfold ScannedToken.shape scanTemplateToken
  dsimp only
  split <;> cases isStart <;> simp [nesting, hdepth, hdepths, diagnose]

theorem shape_scanPunctuator (h : AlikeAt text s t) (c : Char) (rest : List Char) :
    (s.scanPunctuator text c rest).shape = (t.scanPunctuator text c rest).shape := by
  unfold ScannedToken.shape scanPunctuator
  split
  · simp [h.nesting]
  · split
    · simp [h.nesting]
    · exact congrArg _ (congrArg _ h.nesting)

theorem scanRegularExpression_congr (h : AlikeAt ('/' :: rest) s t) :
    (s.scanRegularExpression ('/' :: rest)).map ScannedToken.shape =
      (t.scanRegularExpression ('/' :: rest)).map ScannedToken.shape := by
  unfold scanRegularExpression
  dsimp only
  by_cases hclosed : (regularExpressionPattern false ('/' :: rest).tail).2 = .closed
  · rw [if_pos hclosed, if_pos hclosed]
    exact congrArg (fun nesting => some (_, _, nesting)) h.nesting
  · rw [if_neg hclosed, if_neg hclosed]
    have hrecovers := h.recovers ⟨rfl, hclosed⟩
    unfold recoversRegularExpression at hrecovers
    rw [hrecovers]
    split_ifs
    · exact congrArg (fun nesting => some (_, _, nesting)) h.nesting
    · rfl

theorem shape_scanSlash (h : AlikeAt ('/' :: rest) s t) :
    (s.scanSlash ('/' :: rest) rest).shape = (t.scanSlash ('/' :: rest) rest).shape := by
  have hregex := scanRegularExpression_congr h
  have hpunctuator := shape_scanPunctuator h '/' rest
  unfold scanSlash
  rw [h.canStartRegularExpression]
  cases t.canStartRegularExpression with
  | false => exact hpunctuator
  | true =>
    simp only [if_true]
    cases hs : s.scanRegularExpression ('/' :: rest) <;>
      cases ht : t.scanRegularExpression ('/' :: rest) <;> simp [hs, ht] at hregex ⊢
    · exact hpunctuator
    · exact hregex

variable [UnicodeIdent] [NumberFormat]

theorem shape_scanToken (h : AlikeAt (c :: rest) s t) :
    (s.scanToken c rest).shape = (t.scanToken c rest).shape := by
  obtain ⟨hdepth, hdepths⟩ := Prod.mk.inj h.nesting
  unfold scanToken
  dsimp only
  rw [hdepth, hdepths]
  split_ifs with _ _ _ _ _ _ hslash
  · exact shape_scanTemplateToken h _
  · exact shape_scanIdentifier h _ _
  · exact shape_scanNumber h
  · exact shape_scanIdentifier h _ _
  · exact congrArg (fun nesting => (_, _, nesting)) h.nesting
  · exact shape_scanTemplateToken h _
  · subst hslash
    exact shape_scanSlash h
  · exact shape_scanPunctuator h _ _

omit [UnicodeIdent] [NumberFormat] in
theorem blockComment_congr (s t : Scanner source) (text : List Char) :
    (s.blockComment text).2 = (t.blockComment text).2 := by
  unfold blockComment
  dsimp only
  split <;> rfl

omit [UnicodeIdent] [NumberFormat] in
/-- What is skipped in front of a token depends on the text only. -/
theorem skipTrivia_congr (fuel : Nat) (s t : Scanner source) (text : List Char) :
    (skipTrivia fuel s text).2 = (skipTrivia fuel t text).2 := by
  induction fuel generalizing s t text with
  | zero => rfl
  | succ fuel ih =>
    rw [skipTrivia, skipTrivia]
    dsimp only
    split_ifs
    · exact ih _ _ _
    · exact ih _ _ _
    · rw [blockComment_congr s t]
      exact ih _ _ _
    · rfl

omit [UnicodeIdent] [NumberFormat] in
theorem body_blockComment (s : Scanner source) (text : List Char) :
    (s.blockComment text).1.output.body = s.output.body := by
  unfold blockComment
  dsimp only
  split <;> rfl

omit [UnicodeIdent] [NumberFormat] in
theorem body_skipTrivia (fuel : Nat) (s : Scanner source) (text : List Char) :
    (skipTrivia fuel s text).1.output.body = s.output.body := by
  induction fuel generalizing s text with
  | zero => rfl
  | succ fuel ih =>
    rw [skipTrivia]
    dsimp only
    split_ifs
    · exact ih _ _
    · exact ih _ _
    · rw [ih, body_blockComment]
    · rfl

omit [UnicodeIdent] [NumberFormat] in
theorem previousToken_skipTrivia (fuel : Nat) (s : Scanner source) (text : List Char) :
    (skipTrivia fuel s text).1.previousToken = s.previousToken := by
  rw [previousToken, body_skipTrivia, previousToken]

/-- The text behind whitespace and comments. -/
def afterTrivia (source : SourceText) (text : List Char) : List Char :=
  (skipTrivia text.length { output := emptyOutput source } text).2

omit [UnicodeIdent] [NumberFormat] in
theorem AlikeAt.skipTrivia (h : AlikeAt text s t) (fuel fuel' : Nat) (front front' : List Char) :
    AlikeAt text (skipTrivia fuel s front).1 (skipTrivia fuel' t front').1 where
  nesting := by rw [nesting_skipTrivia, nesting_skipTrivia, h.nesting]
  canStartRegularExpression := by
    have heq := h.canStartRegularExpression
    unfold Scanner.canStartRegularExpression at heq ⊢
    rwa [previousToken_skipTrivia, previousToken_skipTrivia]
  recovers := by
    have heq := h.recovers
    unfold recoversRegularExpression at heq ⊢
    rwa [previousToken_skipTrivia, previousToken_skipTrivia]

omit [UnicodeIdent] [NumberFormat] in
theorem AlikeAt.of_previousToken (hnesting : s.nesting = t.nesting)
    (hprevious : s.previousToken = t.previousToken) : AlikeAt text s t where
  nesting := hnesting
  canStartRegularExpression := by
    rw [Scanner.canStartRegularExpression, hprevious, Scanner.canStartRegularExpression]
  recovers _ := by rw [recoversRegularExpression, hprevious, recoversRegularExpression]

/-- One token further. -/
def scanOne (s : Scanner source) (c : Char) (rest : List Char) : Scanner source × List Char :=
  let after := rest.drop (s.scanToken c rest).length
  (push (s.scanToken c rest) (s.kind_scanToken_ne c rest) (c :: rest) after, after)

theorem body_scanOne (s : Scanner source) (c : Char) (rest : List Char) :
    (s.scanOne c rest).1.output.body = s.output.body ++
      [⟨(s.scanToken c rest).kind, source.spanBetween (c :: rest) (s.scanOne c rest).2⟩] :=
  (Prod.mk.inj (s.found_push c rest _)).1

theorem nesting_scanOne (s : Scanner source) (c : Char) (rest : List Char) :
    (s.scanOne c rest).1.nesting =
      (countBrace (s.scanToken c rest).scanner.braceDepth (s.scanToken c rest).kind,
        (s.scanToken c rest).scanner.templateExpressionDepths) := rfl

/-- From states that are alike the next token is the same. -/
theorem scanOne_alike (h : AlikeAt (c :: rest) s t) :
    ∃ token, (s.scanOne c rest).1.output.body = s.output.body ++ [token] ∧
      (t.scanOne c rest).1.output.body = t.output.body ++ [token] ∧
      (s.scanOne c rest).2 = (t.scanOne c rest).2 ∧
      (s.scanOne c rest).1.nesting = (t.scanOne c rest).1.nesting := by
  obtain ⟨hkind, hlength, hdepth, hdepths⟩ :
      (s.scanToken c rest).kind = (t.scanToken c rest).kind ∧
        (s.scanToken c rest).length = (t.scanToken c rest).length ∧
        (s.scanToken c rest).scanner.braceDepth = (t.scanToken c rest).scanner.braceDepth ∧
        (s.scanToken c rest).scanner.templateExpressionDepths =
          (t.scanToken c rest).scanner.templateExpressionDepths := by
    simpa [ScannedToken.shape, nesting] using shape_scanToken h
  have hafter : (s.scanOne c rest).2 = (t.scanOne c rest).2 := by
    rw [scanOne, scanOne, hlength]
  refine ⟨_, body_scanOne s c rest, ?_, hafter, ?_⟩
  · rw [body_scanOne, hkind, hafter]
  · rw [nesting_scanOne, nesting_scanOne, hkind, hdepth, hdepths]

/-- From states that are alike the same tokens follow. -/
theorem exists_tokens_of_alike (fuel : Nat) (s t : Scanner source) (text : List Char)
    (h : AlikeAt (afterTrivia source text) s t) :
    ∃ tokens, (scanTokens fuel s text).1.output.body = s.output.body ++ tokens ∧
      (scanTokens fuel t text).1.output.body = t.output.body ++ tokens := by
  induction fuel generalizing s t text with
  | zero => exact ⟨[], by simp [scanTokens], by simp [scanTokens]⟩
  | succ fuel ih =>
    have hs : Scanner.skipTrivia text.length s text =
        ((Scanner.skipTrivia text.length s text).1, afterTrivia source text) :=
      Prod.ext rfl (skipTrivia_congr _ _ _ _)
    have ht : Scanner.skipTrivia text.length t text =
        ((Scanner.skipTrivia text.length t text).1, afterTrivia source text) :=
      Prod.ext rfl (skipTrivia_congr _ _ _ _)
    have hsbody := body_skipTrivia text.length s text
    have htbody := body_skipTrivia text.length t text
    have halike := h.skipTrivia text.length text.length text text
    generalize (Scanner.skipTrivia text.length s text).1 = s' at hs hsbody halike
    generalize (Scanner.skipTrivia text.length t text).1 = t' at ht htbody halike
    rw [scanTokens, scanTokens, hs, ht]
    cases htext : afterTrivia source text with
    | nil => exact ⟨[], by simp [hsbody], by simp [htbody]⟩
    | cons c rest =>
      rw [htext] at halike
      obtain ⟨token, hstoken, httoken, hafter, hnesting⟩ := scanOne_alike halike
      have hnext : AlikeAt (afterTrivia source (t'.scanOne c rest).2) (s'.scanOne c rest).1
          (t'.scanOne c rest).1 :=
        .of_previousToken hnesting (by rw [previousToken, hstoken, previousToken, httoken]; simp)
      obtain ⟨tokens, hstokens, httokens⟩ := ih _ _ _ hnext
      refine ⟨token :: tokens, ?_, ?_⟩
      · change (scanTokens fuel (s'.scanOne c rest).1 (s'.scanOne c rest).2).1.output.body = _
        rw [hafter, hstokens, hstoken, hsbody, List.append_assoc, List.singleton_append]
      · change (scanTokens fuel (t'.scanOne c rest).1 (t'.scanOne c rest).2).1.output.body = _
        rw [httokens, httoken, htbody, List.append_assoc, List.singleton_append]

/-! ## The state in front of a token -/

theorem scanTokens_nil (fuel : Nat) (s : Scanner source) : scanTokens fuel s [] = (s, []) := by
  cases fuel <;> rfl

theorem scanTokens_of_skipTrivia {fuel : Nat}
    (h : Scanner.skipTrivia text.length s text = (t, c :: rest)) :
    scanTokens (fuel + 1) s text = scanTokens fuel (t.scanOne c rest).1 (t.scanOne c rest).2 := by
  rw [scanTokens, h]
  rfl

theorem scanTokens_add (m n : Nat) (s : Scanner source) (text : List Char) :
    scanTokens (m + n) s text = scanTokens n (scanTokens m s text).1 (scanTokens m s text).2 := by
  induction m generalizing s text with
  | zero => rw [Nat.zero_add, scanTokens]
  | succ m ih =>
    rw [Nat.succ_add, scanTokens, scanTokens]
    split
    · rw [scanTokens_nil]
    · exact ih _ _

theorem length_scanOne_le (s : Scanner source) (c : Char) (rest : List Char) :
    (s.scanOne c rest).2.length ≤ rest.length := (List.drop_suffix _ _).length_le

/-- A run adds at most one token for each step and takes at least one character for it. -/
theorem exists_tokens_scanTokens (fuel : Nat) (s : Scanner source) (text : List Char) :
    ∃ tokens, (scanTokens fuel s text).1.output.body = s.output.body ++ tokens ∧
      tokens.length ≤ fuel ∧ (tokens.length < fuel → (scanTokens fuel s text).2 = []) ∧
      (scanTokens fuel s text).2.length ≤ text.length - fuel := by
  induction fuel generalizing s text with
  | zero => exact ⟨[], by simp [scanTokens], by simp, by simp, by simp [scanTokens]⟩
  | succ fuel ih =>
    have hbody := body_skipTrivia text.length s text
    have hlength := length_skipTrivia_le text.length s text
    rcases hrun : Scanner.skipTrivia text.length s text with ⟨s', _ | ⟨c, rest⟩⟩
    · rw [scanTokens, hrun]
      rw [hrun] at hbody
      exact ⟨[], by simpa using hbody, by simp, by simp, by simp⟩
    · rw [hrun] at hbody hlength
      rw [scanTokens_of_skipTrivia hrun]
      obtain ⟨tokens, hbody', hle, hend, hrest⟩ := ih (s'.scanOne c rest).1 (s'.scanOne c rest).2
      have hone := length_scanOne_le s' c rest
      obtain ⟨token, htoken⟩ : ∃ token,
          (s'.scanOne c rest).1.output.body = s'.output.body ++ [token] :=
        ⟨_, body_scanOne s' c rest⟩
      simp only [List.length_cons] at hlength
      refine ⟨token :: tokens, ?_, ?_, ?_, by omega⟩
      · rw [hbody', htoken, hbody, List.append_assoc, List.singleton_append]
      · simpa using hle
      · intro hlt
        exact hend (by simpa using hlt)

/-- The state in front of a token of the source, and the text that starts with the token. -/
def atToken (source : SourceText) (index : Nat) : Scanner source × List Char :=
  let (s, text) := scanTokens index { output := emptyOutput source } source.text
  Scanner.skipTrivia text.length s text

omit [UnicodeIdent] [NumberFormat] in
theorem suffix_skipTrivia (fuel : Nat) (s : Scanner source) (text : List Char)
    (htext : text <:+ source.text) : (Scanner.skipTrivia fuel s text).2 <:+ text := by
  obtain ⟨_, hskips, -⟩ := skips_skipTrivia fuel s text htext
  exact hskips.suffix

theorem suffix_scanTokens (fuel : Nat) (s : Scanner source) (text : List Char)
    (htext : text <:+ source.text) : (scanTokens fuel s text).2 <:+ text := by
  induction fuel generalizing s text with
  | zero => exact List.suffix_rfl
  | succ fuel ih =>
    have hskip := suffix_skipTrivia text.length s text htext
    rcases hrun : Scanner.skipTrivia text.length s text with ⟨s', _ | ⟨c, rest⟩⟩
    · rw [scanTokens, hrun]
      exact List.nil_suffix
    · rw [hrun] at hskip
      have hone : (s'.scanOne c rest).2 <:+ text :=
        (List.drop_suffix _ _).trans ((List.suffix_cons c rest).trans hskip)
      rw [scanTokens_of_skipTrivia hrun]
      exact (ih _ _ (hone.trans htext)).trans hone

/-- The token at an index is scanned after the tokens in front of it and before the others. -/
theorem exists_atToken {index : Nat} {token : Token}
    (h : (scanSource source).body[index]? = some token) :
    ∃ s c rest, atToken source index = (s, c :: rest) ∧ c :: rest <:+ source.text ∧
      s.output.body.length = index ∧
      token = ⟨(s.scanToken c rest).kind, source.spanBetween (c :: rest) (s.scanOne c rest).2⟩ ∧
      (scanTokens (index + 1) { output := emptyOutput source } source.text).2 =
        (s.scanOne c rest).2 ∧
      (scanTokens (s.scanOne c rest).2.length (s.scanOne c rest).1
        (s.scanOne c rest).2).1.output.body = (scanSource source).body := by
  obtain ⟨hlt, htoken⟩ := List.getElem?_eq_some_iff.mp h
  obtain ⟨tokens, hbody, hle, -, -⟩ := exists_tokens_scanTokens source.text.length
    ({ output := emptyOutput source } : Scanner source) source.text
  have hlength : (scanSource source).body.length ≤ source.text.length := by
    rw [scanSource, hbody]
    simpa [emptyOutput] using hle
  obtain ⟨more, hmore⟩ : ∃ more, source.text.length = index + (more + 1) :=
    ⟨source.text.length - index - 1, by omega⟩
  obtain ⟨front, hfront, hfrontLe, hend, hleft⟩ := exists_tokens_scanTokens index
    ({ output := emptyOutput source } : Scanner source) source.text
  have hsource : (scanSource source).body =
      (scanTokens (more + 1) (scanTokens index { output := emptyOutput source } source.text).1
        (scanTokens index { output := emptyOutput source } source.text).2).1.output.body := by
    rw [scanSource, hmore, scanTokens_add]
  have hnext := scanTokens_add index 1 ({ output := emptyOutput source } : Scanner source)
    source.text
  have hsuffix := suffix_scanTokens index ({ output := emptyOutput source } : Scanner source)
    source.text List.suffix_rfl
  unfold atToken
  generalize scanTokens index ({ output := emptyOutput source } : Scanner source) source.text =
    run at hfront hend hleft hsource hnext hsuffix ⊢
  obtain ⟨s, text⟩ := run
  dsimp only at hfront hend hleft hsource hnext hsuffix ⊢
  have hfull : front.length = index := by
    by_contra hne
    have hnil := hend (by omega)
    rw [hnil, scanTokens_nil, hfront] at hsource
    have := congrArg List.length hsource
    simp [emptyOutput] at this
    omega
  have hbodyLength : s.output.body.length = index := by simp [hfront, emptyOutput, hfull]
  have htrivia := body_skipTrivia text.length s text
  have hskip := length_skipTrivia_le text.length s text
  have hskipSuffix := suffix_skipTrivia text.length s text hsuffix
  rcases hrun : Scanner.skipTrivia text.length s text with ⟨s', _ | ⟨c, rest⟩⟩
  · rw [scanTokens, hrun] at hsource
    rw [hrun] at htrivia
    rw [hsource, htrivia] at hlt
    omega
  · rw [hrun] at htrivia hskip hskipSuffix
    rw [scanTokens_of_skipTrivia hrun] at hsource hnext
    have hone := length_scanOne_le s' c rest
    simp only [List.length_cons] at hskip
    refine ⟨s', c, rest, rfl, hskipSuffix.trans hsuffix, by rw [htrivia, hbodyLength], ?_, ?_, ?_⟩
    · obtain ⟨rest', hrest', -⟩ := exists_tokens_scanTokens more (s'.scanOne c rest).1
        (s'.scanOne c rest).2
      rw [hsource, hrest', body_scanOne, htrivia, List.append_assoc,
        List.getElem?_append_right (Nat.le_of_eq hbodyLength)] at h
      simpa [hbodyLength] using h.symm
    · rw [hnext]
      rfl
    · have hmore : (s'.scanOne c rest).2.length ≤ more := by omega
      rw [hsource, scanTokens_of_le _ (Nat.le_refl _) hmore]

end Scanner

end Tsz.Syntax
