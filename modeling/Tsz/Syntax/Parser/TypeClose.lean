import Tsz.Syntax.Parser.Unit
import Tsz.Syntax.Scanner.Rescan

/-!
# Splitting against rescanning

Where type arguments end, the parser takes one `>` off the current token and keeps what is left of
it. The scanner would go on behind that `>` with the longest token it finds, which may be longer
than what is left.

## Main definitions

* `rescan` — the tokens the scanner finds behind the first `>`s of a token.
* `Fuses` — what is left of a token is part of a longer one.

## Main results

* `eatTypeClose_rescans_iff` — the tokens the parser keeps are the rescanned ones exactly if nothing
  fuses.
-/

namespace Tsz.Syntax

open Scanner

/-! ## Spelling -/

/-- The text of a token that starts with `>`, and of the `=` a split may leave. -/
def TokenKind.closeSpelling : TokenKind → List Char
  | .greaterThan => ['>']
  | .greaterThanGreaterThan => ['>', '>']
  | .greaterThanGreaterThanGreaterThan => ['>', '>', '>']
  | .greaterThanEquals => ['>', '=']
  | .greaterThanGreaterThanEquals => ['>', '>', '=']
  | .greaterThanGreaterThanGreaterThanEquals => ['>', '>', '>', '=']
  | .equals => ['=']
  | _ => []

/-- The tokens without an `=` at the end. -/
def TokenKind.isOnlyCloses : TokenKind → Bool
  | .greaterThan | .greaterThanGreaterThan | .greaterThanGreaterThanGreaterThan => Bool.true
  | _ => Bool.false

/-- What a split leaves of the token is part of a longer token with the next character. -/
def TokenKind.fusesWith (next : Option Char) : TokenKind → Prop
  | .greaterThanEquals => next = some '=' ∨ next = some '>'
  | .greaterThanGreaterThan | .greaterThanGreaterThanGreaterThan => next = some '>'
  | _ => False

theorem TokenKind.isTypeClose_cases {kind : TokenKind} (h : kind.isTypeClose = Bool.true) :
    kind = .greaterThan ∨ kind = .greaterThanGreaterThan ∨
      kind = .greaterThanGreaterThanGreaterThan ∨ kind = .greaterThanEquals ∨
      kind = .greaterThanGreaterThanEquals ∨ kind = .greaterThanGreaterThanGreaterThanEquals := by
  cases kind <;> simp [isTypeClose] at h ⊢

/-- What is left of a token without its first `>`s. -/
def Token.afterTypeCloses : Nat → Token → Option Token
  | 0, token => some token
  | closes + 1, token =>
    token.kind.afterTypeClose.bind fun kind =>
      afterTypeCloses closes ⟨kind, { token.span with start := token.span.start + 1 }⟩

variable {source : SourceText}

namespace Scanner

/-- The state behind a `>` that is a token of its own. -/
def closeType (state : Scanner source × List Char) : Scanner source × List Char :=
  (push { kind := .greaterThan, length := 0, scanner := state.1 } (by simp) state.2 state.2.tail,
    state.2.tail)

end Scanner

section

variable [UnicodeIdent] [NumberFormat]

/-- The tokens the scanner finds behind the first `>`s of a token. -/
def rescan (source : SourceText) (index closes : Nat) : List Token :=
  let (s, text) := closeType^[closes] (atToken source index)
  (scanTokens text.length s text).1.output.body.drop (index + closes)

/-- The text right behind a token. -/
def textBehind (source : SourceText) (index : Nat) : List Char :=
  (scanTokens (index + 1) { output := emptyOutput source } source.text).2

/-- What a split leaves of a token of the kind would be part of a longer token with the text behind
it, or decides that a slash in that text starts a regular expression. -/
def Fuses (source : SourceText) (kind : TokenKind) (behind : List Char) : Prop :=
  kind.fusesWith behind.head? ∨
    kind = .greaterThanEquals ∧ IsUnterminatedSlash (afterTrivia source behind)

/-- Which characters cannot follow a token that starts with `>`. -/
def IsLongestClose (kind : TokenKind) (behind : List Char) : Prop :=
  (kind.isOnlyCloses = true → behind.head? ≠ some '=') ∧
    (kind = .greaterThan ∨ kind = .greaterThanGreaterThan → behind.head? ≠ some '>')

/-- The parser is at a token of which it has taken some `>`s; the tokens behind are the scanned
ones. -/
structure Parser.IsBehindCloses (p : Parser (scanSource source)) (closes : Nat) : Prop where
  current : ∃ token, (scanSource source).body[p.index]? = some token ∧
    token.afterTypeCloses closes = some p.current
  behind : p.body.drop (p.index + 1) = (scanSource source).body.drop (p.index + 1)

end

/-! ## Single tokens -/

theorem singleton_prefix_iff {c : Char} {text : List Char} :
    [c] <+: text ↔ text.head? = some c := by
  cases text <;> simp [eq_comm]

namespace Scanner

variable {s : Scanner source} {c : Char} {rest text behind : List Char}

section

variable [UnicodeIdent] [NumberFormat]

theorem scanToken_close (hc : c = '>' ∨ c = '=') :
    s.scanToken c rest = s.scanPunctuator (c :: rest) c rest := by
  have hstart : startsIdentifier (c :: rest) = false := by
    rcases hc with rfl | rfl <;> simp [startsIdentifier, isIdentifierStartCharacter, isAscii,
      identifierEscapeAt]
  unfold scanToken
  dsimp only
  rcases hc with rfl | rfl <;> simp [hstart]

omit [UnicodeIdent] [NumberFormat] in
/-- A token that starts with `>` is the longest one there. -/
theorem scanPunctuator_greaterThan (s : Scanner source) (text rest : List Char) :
    ∃ (kind : TokenKind) (behind : List Char), '>' :: rest = kind.closeSpelling ++ behind ∧
      s.scanPunctuator text '>' rest =
        { kind, length := kind.closeSpelling.length - 1, scanner := s } ∧
      kind.isTypeClose = true ∧ IsLongestClose kind behind := by
  have hdot : startsQuestionDot '>' rest = false := rfl
  have hprefix : ∀ suffix : List Char, suffix.isPrefixOf rest = decide (suffix <+: rest) :=
    fun suffix => by rw [Bool.eq_iff_iff, List.isPrefixOf_iff_prefix, decide_eq_true_iff]
  simp only [scanPunctuator, hdot, punctuators, List.find?_cons, hprefix]
  by_cases h₁ : ['>', '>', '='] <+: rest
  · obtain ⟨behind, hbehind⟩ := id h₁
    refine ⟨.greaterThanGreaterThanGreaterThanEquals, behind, ?_, ?_, rfl, ?_⟩
    all_goals simp [← hbehind, TokenKind.closeSpelling, IsLongestClose,
      TokenKind.isOnlyCloses]
  by_cases h₂ : ['>', '>'] <+: rest
  · obtain ⟨behind, hbehind⟩ := id h₂
    refine ⟨.greaterThanGreaterThanGreaterThan, behind, by simp [← hbehind, TokenKind.closeSpelling],
      by simp [h₁, h₂, TokenKind.closeSpelling], rfl, ?_⟩
    simp only [← hbehind, List.cons_append, List.nil_append, List.cons_prefix_cons, true_and,
      singleton_prefix_iff] at h₁
    simpa [IsLongestClose, TokenKind.isOnlyCloses] using h₁
  by_cases h₃ : ['>', '='] <+: rest
  · obtain ⟨behind, hbehind⟩ := id h₃
    refine ⟨.greaterThanGreaterThanEquals, behind, by simp [← hbehind, TokenKind.closeSpelling],
      by simp [h₁, h₂, h₃, TokenKind.closeSpelling], rfl, by
      simp [IsLongestClose, TokenKind.isOnlyCloses]⟩
  by_cases h₄ : ['>'] <+: rest
  · obtain ⟨behind, hbehind⟩ := id h₄
    refine ⟨.greaterThanGreaterThan, behind, by simp [← hbehind, TokenKind.closeSpelling],
      by simp [h₁, h₂, h₃, h₄, TokenKind.closeSpelling], rfl, ?_⟩
    simp only [← hbehind, List.cons_append, List.nil_append, List.cons_prefix_cons, true_and,
      singleton_prefix_iff] at h₂ h₃
    simpa [IsLongestClose, TokenKind.isOnlyCloses] using ⟨h₃, h₂⟩
  by_cases h₅ : ['='] <+: rest
  · obtain ⟨behind, hbehind⟩ := id h₅
    exact ⟨.greaterThanEquals, behind, by simp [← hbehind, TokenKind.closeSpelling],
      by simp [h₁, h₂, h₃, h₄, h₅, TokenKind.closeSpelling], rfl, by
      simp [IsLongestClose, TokenKind.isOnlyCloses]⟩
  refine ⟨.greaterThan, rest, rfl, by simp [h₁, h₂, h₃, h₄, h₅, TokenKind.closeSpelling], rfl, ?_⟩
  rw [singleton_prefix_iff] at h₄ h₅
  simpa [IsLongestClose, TokenKind.isOnlyCloses] using ⟨h₅, h₄⟩

omit [UnicodeIdent] [NumberFormat] in
theorem scanPunctuator_equals (s : Scanner source) (text rest : List Char) :
    ((s.scanPunctuator text '=' rest).kind = .equals ↔
        rest.head? ≠ some '=' ∧ rest.head? ≠ some '>') ∧
      ((s.scanPunctuator text '=' rest).kind = .equals →
        (s.scanPunctuator text '=' rest).length = 0 ∧
          (s.scanPunctuator text '=' rest).scanner = s) := by
  have hdot : startsQuestionDot '=' rest = false := rfl
  have hprefix : ∀ suffix : List Char, suffix.isPrefixOf rest = decide (suffix <+: rest) :=
    fun suffix => by rw [Bool.eq_iff_iff, List.isPrefixOf_iff_prefix, decide_eq_true_iff]
  simp only [scanPunctuator, hdot, punctuators, List.find?_cons, hprefix]
  have hlong : ['=', '='] <+: rest → ['='] <+: rest :=
    List.IsPrefix.trans (List.prefix_append ['='] ['='])
  have hhead : ∀ c, rest.head? = some c ↔ [c] <+: rest := fun _ => singleton_prefix_iff.symm
  simp only [ne_eq, hhead]
  by_cases h₁ : ['=', '='] <+: rest
  · simp [h₁, hlong h₁]
  by_cases h₂ : ['='] <+: rest
  · simp [h₁, h₂]
  by_cases h₃ : ['>'] <+: rest
  · simp [h₁, h₂, h₃]
  simp [h₁, h₂, h₃]

omit [UnicodeIdent] [NumberFormat] in
theorem isTypeClose_fromKeyword (text : String) :
    (TokenKind.fromKeyword text).isTypeClose = false := by
  have hname := TokenKind.isIdentifierName_fromKeyword text
  by_contra h
  obtain h | h | h | h | h | h := TokenKind.isTypeClose_cases (Bool.eq_true_of_not_eq_false h) <;>
    rw [h] at hname <;> cases hname

omit [UnicodeIdent] [NumberFormat] in
theorem isTypeClose_punctuators (hc : c ≠ '>') :
    ∀ operator ∈ punctuators c, operator.2.isTypeClose = false := by
  unfold punctuators
  split <;> simp_all [TokenKind.isTypeClose]

omit [UnicodeIdent] [NumberFormat] in
theorem isTypeClose_scanPunctuator (hc : c ≠ '>') (text rest : List Char) :
    (s.scanPunctuator text c rest).kind.isTypeClose = false := by
  unfold scanPunctuator
  split
  · rfl
  · split
    · next hfind => exact isTypeClose_punctuators hc _ (List.mem_of_find?_eq_some hfind)
    · rfl

/-- Only a `>` starts a token that starts with `>`. -/
theorem eq_of_isTypeClose (h : (s.scanToken c rest).kind.isTypeClose = true) : c = '>' := by
  by_contra hc
  rw [← Bool.not_eq_false] at h
  refine h ?_
  unfold scanToken
  dsimp only
  split_ifs with _ _ _ _ _ _ hslash
  · unfold scanTemplateToken
    dsimp only
    split <;> rfl
  · exact isTypeClose_fromKeyword _
  · simp only [scanNumber]
    split <;> rfl
  · rfl
  · rfl
  · unfold scanTemplateToken
    dsimp only
    split <;> rfl
  · unfold scanSlash
    split
    · next hregex =>
      split_ifs at hregex
      rw [s.kind_of_scanRegularExpression hregex]
      rfl
    · exact isTypeClose_scanPunctuator (by simp) _ _
  · exact isTypeClose_scanPunctuator hc _ _

/-- A token that starts with `>` leaves the state of the scanner and is the longest one. -/
theorem exists_of_isTypeClose (h : (s.scanToken c rest).kind.isTypeClose = true) :
    ∃ behind, c :: rest = (s.scanToken c rest).kind.closeSpelling ++ behind ∧
      (s.scanOne c rest).2 = behind ∧ (s.scanOne c rest).1.nesting = s.nesting ∧
      IsLongestClose (s.scanToken c rest).kind behind := by
  obtain rfl := eq_of_isTypeClose h
  obtain ⟨kind, behind, hsplit, hscan, hclose, hlongest⟩ :=
    s.scanPunctuator_greaterThan ('>' :: rest) rest
  have htoken : s.scanToken '>' rest =
      { kind, length := kind.closeSpelling.length - 1, scanner := s } :=
    (scanToken_close (.inl rfl)).trans hscan
  refine ⟨behind, ?_, ?_, ?_, ?_⟩
  · rw [htoken, hsplit]
  · change rest.drop (s.scanToken '>' rest).length = behind
    rw [htoken]
    cases kind <;> simp [TokenKind.isTypeClose] at hclose <;>
      simp [TokenKind.closeSpelling] at hsplit <;> simp [TokenKind.closeSpelling, hsplit]
  · rw [nesting_scanOne, htoken]
    cases kind <;> simp [TokenKind.isTypeClose] at hclose <;> rfl
  · rw [htoken]
    exact hlongest

omit [UnicodeIdent] [NumberFormat] in
/-- Taking `>`s off the text as tokens of their own. -/
theorem closeType_iterate (closes : Nat) (s : Scanner source) (text : List Char) :
    ∃ u, closeType^[closes] (s, List.replicate closes '>' ++ text) = (u, text) ∧
      u.output.body.length = s.output.body.length + closes ∧ u.nesting = s.nesting ∧
      (closes ≠ 0 → u.previousToken.map (·.kind) = some .greaterThan) := by
  induction closes generalizing text with
  | zero => exact ⟨s, rfl, rfl, rfl, nofun⟩
  | succ closes ih =>
    obtain ⟨u, hrun, hlength, hnesting, -⟩ := ih ('>' :: text)
    rw [List.replicate_succ', List.append_assoc, List.singleton_append,
      Function.iterate_succ_apply', hrun]
    refine ⟨_, rfl, ?_, hnesting, fun _ => ?_⟩
    · simp [push, hlength, Nat.add_assoc]
    · simp [previousToken, push]

end

end Scanner

/-! ## What a split leaves -/

theorem TokenKind.closeSpelling_of_afterTypeClose {kind left : TokenKind}
    (h : kind.afterTypeClose = some left) : kind.closeSpelling = '>' :: left.closeSpelling := by
  cases kind <;> simp [afterTypeClose] at h <;> subst h <;> rfl

/-- A token whose spelling has no `=` behind it is left of another one. -/
theorem TokenKind.isOnlyCloses_of_afterTypeClose {kind left : TokenKind}
    (h : kind.afterTypeClose = some left) (hleft : left.isOnlyCloses = Bool.true) :
    kind.isOnlyCloses = Bool.true := by
  cases kind <;> simp [afterTypeClose] at h <;> subst h <;> simp_all [isOnlyCloses]

theorem Token.of_afterTypeCloses {closes : Nat} {token left : Token}
    (h : token.afterTypeCloses closes = some left) :
    token.kind.closeSpelling = List.replicate closes '>' ++ left.kind.closeSpelling ∧
      left.span = { token.span with start := token.span.start + closes } ∧
      (left.kind.isTypeClose = true → token.kind.isTypeClose = true) ∧
      (left.kind.isOnlyCloses = true → token.kind.isOnlyCloses = true) := by
  induction closes generalizing token with
  | zero =>
    obtain rfl := Option.some.inj h
    exact ⟨rfl, rfl, id, id⟩
  | succ closes ih =>
    obtain ⟨kind, hkind, hleft⟩ := Option.bind_eq_some_iff.mp h
    obtain ⟨hspelling, hspan, -, hmem⟩ := ih hleft
    refine ⟨?_, ?_, fun _ => (TokenKind.isTypeClose_of_afterTypeClose hkind).1, fun h =>
      TokenKind.isOnlyCloses_of_afterTypeClose hkind (hmem h)⟩
    · rw [TokenKind.closeSpelling_of_afterTypeClose hkind, hspelling, List.replicate_succ,
        List.cons_append]
    · rw [hspan]
      simp [Nat.add_assoc, Nat.add_comm 1]

/-- A text starts with one longest token only. -/
theorem IsLongestClose.unique {kind kind' : TokenKind} {behind behind' : List Char}
    (h : IsLongestClose kind behind) (h' : IsLongestClose kind' behind')
    (hclose : kind.isTypeClose = true) (hclose' : kind'.isTypeClose = true)
    (hsplit : kind.closeSpelling ++ behind = kind'.closeSpelling ++ behind') :
    kind = kind' ∧ behind = behind' := by
  obtain rfl | rfl | rfl | rfl | rfl | rfl := TokenKind.isTypeClose_cases hclose <;>
    obtain rfl | rfl | rfl | rfl | rfl | rfl := TokenKind.isTypeClose_cases hclose' <;>
    simp_all [TokenKind.closeSpelling, IsLongestClose, TokenKind.isOnlyCloses]
  -- the first token is longer by the head of the text behind the second
  all_goals
    subst hsplit
    simp_all

/-- What is left of a token is the longest one there unless it fuses. -/
theorem isLongestClose_iff {kind left : TokenKind} {behind : List Char}
    (h : kind.afterTypeClose = some left) (hleft : left.isTypeClose = true)
    (hequals : kind.isOnlyCloses = true → behind.head? ≠ some '=') :
    IsLongestClose left behind ↔ ¬kind.fusesWith behind.head? := by
  obtain rfl | rfl | rfl | rfl | rfl | rfl :=
      TokenKind.isTypeClose_cases (TokenKind.isTypeClose_of_afterTypeClose h).1 <;>
    simp [TokenKind.afterTypeClose] at h <;> subst h <;>
    simp_all [TokenKind.fusesWith, IsLongestClose, TokenKind.isOnlyCloses, TokenKind.isTypeClose]

/-! ## Positions of the parser -/

section

variable [UnicodeIdent] [NumberFormat]

/-- The state `t` behind a token of the source and the state `u` behind its first `>`s, with the
text behind each. -/
structure IsSplitAt (source : SourceText) (index closes : Nat) (current : Token)
    (t u : Scanner source) (left behind : List Char) : Prop where
  rescanned : closeType^[closes + 1] (atToken source index) = (u, left ++ behind)
  spelling : current.kind.closeSpelling = '>' :: left
  suffix : left ++ behind <:+ source.text
  textBehind_eq : textBehind source index = behind
  scanned : (scanTokens behind.length t behind).1.output.body = (scanSource source).body
  length_scanned : t.output.body.length = index + 1
  length_rescanned : u.output.body.length = index + closes + 1
  nesting : t.nesting = u.nesting
  previous_scanned : ∃ token, t.previousToken = some token ∧ token.kind.isTypeClose = true
  previous_rescanned : ∃ token, u.previousToken = some token ∧ token.kind.isTypeClose = true
  ne_equals : current.kind.isOnlyCloses = true → behind.head? ≠ some '='
  span_left : { current.span with start := current.span.start + 1 } =
    source.spanBetween (left ++ behind) behind

theorem exists_isSplitAt {index closes : Nat} {token current : Token}
    (htoken : (scanSource source).body[index]? = some token)
    (hcurrent : token.afterTypeCloses closes = some current)
    (hclose : current.kind.isTypeClose = true) :
    ∃ t u left behind, IsSplitAt source index closes current t u left behind := by
  obtain ⟨s, c, rest, hat, hsuffix, hindex, rfl, hbehind, hscanned⟩ := exists_atToken htoken
  obtain ⟨hspelling, hspan, hcloses, honly⟩ := Token.of_afterTypeCloses hcurrent
  obtain ⟨behind, hsplit, hafter, hnesting, hlongest⟩ := exists_of_isTypeClose (hcloses hclose)
  obtain ⟨left, hleft⟩ : ∃ left, current.kind.closeSpelling = '>' :: left := by
    cases hkind : current.kind <;> simp [hkind, TokenKind.isTypeClose] at hclose <;>
      exact ⟨_, rfl⟩
  have htext : c :: rest = List.replicate (closes + 1) '>' ++ (left ++ behind) := by
    rw [hsplit, hspelling, hleft, List.replicate_succ']
    simp
  obtain ⟨u, hrun, hlength, hunesting, hprevious⟩ := closeType_iterate (closes + 1) s (left ++ behind)
  refine ⟨(s.scanOne c rest).1, u, left, behind, ?_⟩
  rw [hafter] at hscanned hbehind
  have hbody := body_scanOne s c rest
  obtain ⟨before, hbefore⟩ := hsuffix
  constructor
  · rw [hat, htext, hrun]
  · exact hleft
  · exact ⟨before ++ List.replicate (closes + 1) '>', by rw [← hbefore, htext]; simp⟩
  · exact hbehind
  · exact hscanned
  · rw [hbody, List.length_append, hindex]
    rfl
  · rw [hlength, hindex]
    omega
  · rw [hnesting, hunesting]
  · exact ⟨_, by simp [previousToken, hbody], hcloses hclose⟩
  · obtain ⟨token, htoken, hkind⟩ := Option.map_eq_some_iff.mp (hprevious (Nat.succ_ne_zero closes))
    exact ⟨token, htoken, by rw [hkind]; rfl⟩
  · intro h
    exact hlongest.1 (honly h)
  · have hfull : source.text = before ++ (c :: rest) := hbefore.symm
    have hfull' : source.text = (before ++ List.replicate (closes + 1) '>') ++ (left ++ behind) := by
      rw [hfull, htext]
      simp
    have hsize : utf8Length (List.replicate (closes + 1) '>') = closes + 1 := by
      rw [utf8Length_of_isAscii fun c hc => by rw [List.eq_of_mem_replicate hc]; rfl,
        List.length_replicate]
    rw [hspan]
    simp only [SourceText.spanBetween, hafter, SourceText.offsetOf_append hfull,
      SourceText.offsetOf_append hfull', utf8Length_append, hsize, Nat.add_assoc]

omit [UnicodeIdent] [NumberFormat] in
theorem skipTrivia_close {c : Char} (hc : c = '>' ∨ c = '=') (fuel : Nat) (s : Scanner source)
    (rest : List Char) : skipTrivia fuel s (c :: rest) = (s, c :: rest) := by
  cases fuel with
  | zero => rfl
  | succ fuel =>
    rw [skipTrivia]
    rcases hc with rfl | rfl <;> simp [isTriviaWhitespace, isAscii, List.dropWhile]

/-- The scanner finds what is left of a token exactly if it does not fuse. -/
theorem scanOne_left (s : Scanner source) {kind left : TokenKind} {c : Char}
    {rest behind : List Char} (h : kind.afterTypeClose = some left)
    (hsplit : left.closeSpelling ++ behind = c :: rest)
    (hequals : kind.isOnlyCloses = true → behind.head? ≠ some '=') :
    ((s.scanToken c rest).kind = left ↔ ¬kind.fusesWith behind.head?) ∧
      ((s.scanToken c rest).kind = left →
        (s.scanOne c rest).2 = behind ∧ (s.scanOne c rest).1.nesting = s.nesting) := by
  rcases (TokenKind.isTypeClose_of_afterTypeClose h).2 with hleft | rfl
  · obtain rfl : c = '>' := by
      obtain rfl | rfl | rfl | rfl | rfl | rfl := TokenKind.isTypeClose_cases hleft <;>
        simp [TokenKind.closeSpelling] at hsplit <;> exact hsplit.1.symm
    obtain ⟨kind', behind', hsplit', hscan, hclose, hlongest⟩ :=
      s.scanPunctuator_greaterThan ('>' :: rest) rest
    have htoken := (scanToken_close (.inl rfl)).trans hscan
    have hkind : (s.scanToken '>' rest).kind = kind' := congrArg _ htoken
    have hclose' : (s.scanToken '>' rest).kind.isTypeClose = true := hkind ▸ hclose
    rw [← isLongestClose_iff h hleft hequals]
    constructor
    · rw [hkind]
      constructor
      · rintro rfl
        obtain rfl := List.append_cancel_left (hsplit.trans hsplit')
        exact hlongest
      · intro hlongest'
        exact (hlongest'.unique hlongest hleft hclose (hsplit.trans hsplit')).1.symm
    · intro heq
      obtain ⟨behind'', hsplit'', hafter, hnesting, -⟩ := exists_of_isTypeClose hclose'
      rw [heq] at hsplit''
      obtain rfl := List.append_cancel_left (hsplit.trans hsplit'')
      exact ⟨hafter, hnesting⟩
  · obtain rfl : kind = .greaterThanEquals := by
      cases kind <;> simp [TokenKind.afterTypeClose] at h
      rfl
    obtain ⟨rfl, rfl⟩ : '=' = c ∧ behind = rest := by
      simpa [TokenKind.closeSpelling] using hsplit
    have htoken : s.scanToken '=' behind = s.scanPunctuator ('=' :: behind) '=' behind :=
      scanToken_close (.inr rfl)
    obtain ⟨hkind, hscanner⟩ := s.scanPunctuator_equals ('=' :: behind) behind
    rw [← htoken] at hkind hscanner
    constructor
    · simp [hkind, TokenKind.fusesWith]
    · intro heq
      obtain ⟨hlength, hstate⟩ := hscanner heq
      refine ⟨?_, ?_⟩
      · change behind.drop (s.scanToken '=' behind).length = behind
        rw [hlength, List.drop_zero]
      · rw [nesting_scanOne, heq, hstate]
        rfl

omit [UnicodeIdent] [NumberFormat] in
/-- Behind a type close a slash starts a regular expression, and so it does behind `=`. -/
theorem canStartRegularExpression_of_kind {s : Scanner source} {token : Token}
    (h : s.previousToken = some token)
    (hkind : token.kind.isTypeClose = true ∨ token.kind = .equals) :
    s.canStartRegularExpression = true := by
  have hend : tokenCanEndExpression token.kind = false := by
    rcases hkind with hkind | hkind
    · obtain h | h | h | h | h | h := TokenKind.isTypeClose_cases hkind <;> rw [h] <;> rfl
    · rw [hkind]
      rfl
  simp [canStartRegularExpression, h, hend]

omit [UnicodeIdent] [NumberFormat] in
theorem recoversRegularExpression_of_isTypeClose {s : Scanner source} {token : Token}
    (h : s.previousToken = some token) (hkind : token.kind.isTypeClose = true) :
    s.recoversRegularExpression = false := by
  rw [recoversRegularExpression, h]
  obtain h | h | h | h | h | h := TokenKind.isTypeClose_cases hkind <;> simp [h]

theorem scanToken_slash (s : Scanner source) (rest : List Char) :
    s.scanToken '/' rest = s.scanSlash ('/' :: rest) rest := by
  have hstart : startsIdentifier ('/' :: rest) = false := by
    simp [startsIdentifier, isIdentifierStartCharacter, isAscii, identifierEscapeAt]
  unfold scanToken
  simp [hstart]

omit [UnicodeIdent] [NumberFormat] in
theorem isSome_scanRegularExpression {s : Scanner source} {text : List Char}
    (hopen : (regularExpressionPattern false text.tail).2 ≠ .closed) :
    (s.scanRegularExpression text).isSome = s.recoversRegularExpression := by
  unfold scanRegularExpression
  dsimp only
  rw [if_neg hopen, recoversRegularExpression]
  split_ifs with h
  · rw [h]
    rfl
  · rw [Bool.eq_false_of_not_eq_true h]
    rfl

omit [UnicodeIdent] [NumberFormat] in
theorem kind_scanSlash_iff {s : Scanner source} {rest : List Char}
    (hstart : s.canStartRegularExpression = true)
    (hopen : (regularExpressionPattern false ('/' :: rest).tail).2 ≠ .closed) :
    (s.scanSlash ('/' :: rest) rest).kind = .regularExpressionLiteral ↔
      s.recoversRegularExpression = true := by
  have hkind : ∀ operator ∈ punctuators '/', operator.2 ≠ .regularExpressionLiteral := by
    simp [punctuators]
  have hpunctuator : (s.scanPunctuator ('/' :: rest) '/' rest).kind ≠ .regularExpressionLiteral := by
    unfold scanPunctuator
    split
    · simp
    · split
      · next hfind => exact hkind _ (List.mem_of_find?_eq_some hfind)
      · simp
  have hsome := isSome_scanRegularExpression (s := s) hopen
  unfold scanSlash
  rw [if_pos hstart, ← hsome]
  split
  · next token htoken =>
    rw [s.kind_of_scanRegularExpression htoken, htoken]
    exact iff_of_true rfl rfl
  · next hnone =>
    rw [hnone]
    exact iff_of_false hpunctuator (by simp)

/-- At a slash that starts no closed regular expression the first token tells the states apart. -/
theorem exists_token_of_isUnterminatedSlash {s : Scanner source} {behind : List Char}
    (hslash : IsUnterminatedSlash (afterTrivia source behind))
    (hstart : s.canStartRegularExpression = true) :
    ∃ token tokens, (scanTokens behind.length s behind).1.output.body =
        s.output.body ++ token :: tokens ∧
      (token.kind = .regularExpressionLiteral ↔ s.recoversRegularExpression = true) := by
  obtain ⟨hhead, hopen⟩ := hslash
  obtain ⟨rest, hrest⟩ : ∃ rest, afterTrivia source behind = '/' :: rest := by
    cases htext : afterTrivia source behind <;> simp_all
  rw [hrest] at hopen
  have hrun : skipTrivia behind.length s behind =
      ((skipTrivia behind.length s behind).1, '/' :: rest) :=
    Prod.ext rfl ((skipTrivia_congr _ _ _ _).trans hrest)
  have hprevious := previousToken_skipTrivia behind.length s behind
  have hbody := body_skipTrivia behind.length s behind
  have hlength := length_skipTrivia_le behind.length s behind
  generalize (skipTrivia behind.length s behind).1 = t at hrun hprevious hbody
  rw [hrun] at hlength
  obtain ⟨fuel, hfuel⟩ : ∃ fuel, behind.length = fuel + 1 :=
    Nat.exists_eq_add_one.mpr (Nat.lt_of_lt_of_le (by simp) hlength)
  obtain ⟨tokens, htokens, -⟩ := exists_tokens_scanTokens fuel (t.scanOne '/' rest).1
    (t.scanOne '/' rest).2
  refine ⟨⟨(t.scanToken '/' rest).kind,
    source.spanBetween ('/' :: rest) (t.scanOne '/' rest).2⟩, tokens, ?_, ?_⟩
  · rw [hfuel, scanTokens_of_skipTrivia hrun, htokens, body_scanOne, hbody, List.append_assoc]
    rfl
  · have hstart' : t.canStartRegularExpression = true := by
      rwa [canStartRegularExpression, hprevious]
    have hrecovers : t.recoversRegularExpression = s.recoversRegularExpression := by
      rw [recoversRegularExpression, hprevious, recoversRegularExpression]
    rw [scanToken_slash, ← hrecovers]
    exact kind_scanSlash_iff hstart' hopen

theorem rescan_eq {index closes : Nat} {current : Token} {t u : Scanner source}
    {left behind : List Char} (h : IsSplitAt source index closes current t u left behind) :
    rescan source index (closes + 1) =
      (scanTokens (left ++ behind).length u (left ++ behind)).1.output.body.drop
        (index + closes + 1) := by
  rw [rescan, h.rescanned]
  rfl

/-- Behind a single `>` the scanner goes on as it did. -/
theorem rescan_of_nil {index closes : Nat} {current : Token} {t u : Scanner source}
    {behind : List Char} (h : IsSplitAt source index closes current t u [] behind) :
    rescan source index (closes + 1) = (scanSource source).body.drop (index + 1) := by
  obtain ⟨token, htoken, hclose⟩ := h.previous_scanned
  obtain ⟨token', htoken', hclose'⟩ := h.previous_rescanned
  have halike : AlikeAt (afterTrivia source behind) t u :=
    ⟨h.nesting, by
      rw [canStartRegularExpression_of_kind htoken (.inl hclose),
        canStartRegularExpression_of_kind htoken' (.inl hclose')], fun _ => by
      rw [recoversRegularExpression_of_isTypeClose htoken hclose,
        recoversRegularExpression_of_isTypeClose htoken' hclose']⟩
  obtain ⟨tokens, ht, hu⟩ := exists_tokens_of_alike behind.length t u behind halike
  rw [rescan_eq h, List.nil_append, hu, ← h.scanned, ht,
    List.drop_left' h.length_rescanned, List.drop_left' h.length_scanned]

/-- What is left of a token comes back from the scanner with the tokens behind it exactly if it does
not fuse. -/
theorem rescan_of_cons {index closes : Nat} {current : Token} {t u : Scanner source}
    {left : List Char} {behind : List Char} {kind : TokenKind}
    (h : IsSplitAt source index closes current t u left behind)
    (hkind : current.kind.afterTypeClose = some kind) :
    ⟨kind, { current.span with start := current.span.start + 1 }⟩ ::
        (scanSource source).body.drop (index + 1) = rescan source index (closes + 1) ↔
      ¬Fuses source current.kind behind := by
  obtain rfl : left = kind.closeSpelling :=
    (List.cons.inj (h.spelling.symm.trans (TokenKind.closeSpelling_of_afterTypeClose hkind))).2
  obtain ⟨c, rest, hc, hsplit⟩ : ∃ c rest, (c = '>' ∨ c = '=') ∧
      kind.closeSpelling ++ behind = c :: rest := by
    rcases (TokenKind.isTypeClose_of_afterTypeClose hkind).2 with hclose | rfl
    · obtain rfl | rfl | rfl | rfl | rfl | rfl := TokenKind.isTypeClose_cases hclose <;>
        exact ⟨_, _, .inl rfl, rfl⟩
    · exact ⟨_, _, .inr rfl, rfl⟩
  obtain ⟨hfuses, hleft⟩ := scanOne_left u hkind hsplit h.ne_equals
  have hrescan := rescan_eq h
  rw [hsplit, List.length_cons, scanTokens_of_skipTrivia (skipTrivia_close hc _ u rest)] at hrescan
  have hbody := body_scanOne u c rest
  obtain ⟨tokens, ht, -⟩ := exists_tokens_scanTokens behind.length t behind
  have hscanned : (scanSource source).body.drop (index + 1) = tokens := by
    rw [← h.scanned, ht, List.drop_left' h.length_scanned]
  rw [hscanned, hrescan]
  by_cases hchars : current.kind.fusesWith behind.head?
  · -- the scanner finds a longer token
    obtain ⟨more, hmore, -⟩ := exists_tokens_scanTokens rest.length (u.scanOne c rest).1
      (u.scanOne c rest).2
    rw [hmore, hbody, List.append_assoc, List.drop_left' h.length_rescanned]
    refine iff_of_false (fun heq => ?_) fun hnot => hnot (.inl hchars)
    exact hfuses.mp (congrArg Token.kind (List.cons.inj heq).1).symm hchars
  · have hlonger := length_scanOne_le u c rest
    obtain ⟨hafter, hnesting⟩ := hleft (hfuses.mpr hchars)
    rw [hfuses.mpr hchars, hafter] at hbody
    rw [hafter] at hlonger
    rw [hafter, scanTokens_of_le _ (Nat.le_refl _) hlonger]
    generalize (u.scanOne c rest).1 = v at hbody hnesting
    have hspan := h.span_left
    rw [hsplit] at hspan
    rw [hspan]
    have hprevious : v.previousToken =
        some ⟨kind, source.spanBetween (c :: rest) behind⟩ := by simp [previousToken, hbody]
    obtain ⟨token, htoken, hclose⟩ := h.previous_scanned
    have hstart : t.canStartRegularExpression = v.canStartRegularExpression := by
      rw [canStartRegularExpression_of_kind htoken (.inl hclose),
        canStartRegularExpression_of_kind hprevious (TokenKind.isTypeClose_of_afterTypeClose hkind).2]
    have hrecovers : t.recoversRegularExpression = false :=
      recoversRegularExpression_of_isTypeClose htoken hclose
    by_cases hslash : current.kind = .greaterThanEquals ∧
        IsUnterminatedSlash (afterTrivia source behind)
    · -- only behind `=` the slash starts a regular expression
      obtain rfl : kind = .equals := by
        rw [hslash.1] at hkind
        exact (Option.some.inj hkind).symm
      refine iff_of_false (fun heq => ?_) fun hnot => hnot (.inr hslash)
      obtain ⟨next, more, ht', hnext⟩ := exists_token_of_isUnterminatedSlash hslash.2
        (canStartRegularExpression_of_kind htoken (.inl hclose))
      obtain ⟨next', more', hv, hnext'⟩ := exists_token_of_isUnterminatedSlash hslash.2
        (canStartRegularExpression_of_kind hprevious (.inr rfl))
      obtain rfl := List.append_cancel_left (ht.symm.trans ht')
      rw [hv, hbody, List.append_assoc, List.drop_left' h.length_rescanned] at heq
      obtain rfl : next = next' := (List.cons.inj (List.cons.inj heq).2).1
      have hregex := hnext'.mpr (by simp [recoversRegularExpression, hprevious])
      rw [hnext.mp hregex] at hrecovers
      cases hrecovers
    · have halike : AlikeAt (afterTrivia source behind) t v := by
        refine ⟨h.nesting.trans hnesting.symm, hstart, fun hopen => ?_⟩
        have hclose' : kind.isTypeClose = true := by
          rcases (TokenKind.isTypeClose_of_afterTypeClose hkind).2 with hclose' | rfl
          · exact hclose'
          · refine absurd ⟨?_, hopen⟩ hslash
            cases hcurrent : current.kind <;> simp [hcurrent, TokenKind.afterTypeClose] at hkind
            rfl
        rw [hrecovers, recoversRegularExpression_of_isTypeClose hprevious hclose']
      obtain ⟨tokens', ht', hv⟩ := exists_tokens_of_alike behind.length t v behind halike
      obtain rfl := List.append_cancel_left (ht.symm.trans ht')
      rw [hv, hbody, List.append_assoc, List.drop_left' h.length_rescanned]
      refine iff_of_true rfl fun hnot => ?_
      rcases hnot with hnot | hnot
      · exact hchars hnot
      · exact hslash hnot

omit [UnicodeIdent] [NumberFormat] in
theorem exists_run_bump {scanned : ScanOutput source} (p : Parser scanned) :
    ∃ ledger, bump.run p = .done p.current ⟨p.toCursor.forward, ledger⟩ := ⟨_, rfl⟩

omit [UnicodeIdent] [NumberFormat] in
theorem run_eatTypeClose {scanned : ScanOutput source} (p : Parser scanned) {kind : TokenKind}
    (h : p.kind.afterTypeClose = some kind) :
    eatTypeClose.run p = .done true (p.splitTypeClose kind h) := by
  change (if p.kind = .greaterThan then _ else _) = _
  rw [if_neg fun hkind => by rw [hkind] at h; cases h]
  split
  · next kind' hkind' =>
    obtain rfl : kind = kind' := Option.some.inj (h.symm.trans hkind')
    rfl
  · next hnone => exact absurd (h.symm.trans hnone) (by simp)

omit [UnicodeIdent] [NumberFormat] in
theorem drop_splitTypeClose {scanned : ScanOutput source} (p : Parser scanned) {kind : TokenKind}
    (h : p.kind.afterTypeClose = some kind) :
    (p.splitTypeClose kind h).body.drop p.index =
      ⟨kind, { p.current.span with start := p.current.span.start + 1 }⟩ ::
        p.body.drop (p.index + 1) := by
  have hne : p.kind ≠ .endOfFile := by
    intro hend
    rw [hend] at h
    cases h
  have hlt : p.index < p.body.length := by
    rw [p.splits.length_eq]
    exact p.toCursor.lt_of_kind_ne hne
  have hbody : (p.splitTypeClose kind h).body =
    p.body.set p.index ⟨kind, { p.current.span with start := p.current.span.start + 1 }⟩ := rfl
  rw [hbody, List.drop_set, if_neg (Nat.lt_irrefl _), Nat.sub_self,
    List.drop_eq_getElem_cons hlt, List.set_cons_zero]

/-- The parser keeps the tokens that the scanner finds behind the `>` exactly if what is left of the
token does not fuse with the text behind it. -/
theorem eatTypeClose_rescans_iff {p : Parser (scanSource source)} {closes : Nat}
    (h : p.IsBehindCloses closes) (hclose : p.kind.isTypeClose = true) :
    ∃ q, eatTypeClose.run p = .done true q ∧
      (q.body.drop q.index = rescan source p.index (closes + 1) ↔
        ¬Fuses source p.kind (textBehind source p.index)) := by
  obtain ⟨token, htoken, hcurrent⟩ := h.current
  obtain ⟨t, u, left, behind, hsplit⟩ := exists_isSplitAt htoken hcurrent hclose
  rw [hsplit.textBehind_eq]
  by_cases hkind : p.kind = .greaterThan
  · obtain ⟨ledger, hbump⟩ := exists_run_bump p
    refine ⟨⟨p.toCursor.forward, ledger⟩, ?_, iff_of_true ?_ ?_⟩
    · change (if p.kind = .greaterThan then _ else _) = _
      rw [if_pos hkind, hbump]
      rfl
    · obtain rfl : left = [] := by
        have hspelling := hsplit.spelling
        rw [show p.current.kind = .greaterThan from hkind] at hspelling
        exact (List.cons.inj hspelling).2.symm
      have hforward : p.toCursor.forward = { p.toCursor with index := p.index + 1 } :=
        if_neg (by rw [hkind]; simp)
      rw [rescan_of_nil hsplit, ← h.behind]
      simp only [hforward]
    · rw [hkind]
      rintro (hfuses | ⟨hkind, -⟩)
      · exact hfuses
      · cases hkind
  · obtain ⟨kind, hafter⟩ : ∃ kind, p.kind.afterTypeClose = some kind := by
      obtain h | h | h | h | h | h := TokenKind.isTypeClose_cases hclose
      · exact absurd h hkind
      all_goals exact ⟨_, by rw [h]; rfl⟩
    refine ⟨p.splitTypeClose kind hafter, run_eatTypeClose p hafter, ?_⟩
    · have hcons := rescan_of_cons hsplit hafter
      rwa [← h.behind, ← drop_splitTypeClose p hafter] at hcons

end

/-! ## A type close in front of an arrow -/

section

local instance : UnicodeIdent := asciiIdent

local instance : NumberFormat := spelledNumbers

/-- An arrow function whose return type ends right in front of the arrow. -/
def arrowReturn : SourceText := ⟨⟨0⟩, some "ts", "let f=():A<B>=>0".toList⟩

/-- The parser at the token `>=`. -/
def atReturnClose : Parser (scanSource arrowReturn) :=
  { Parser.new (scanSource arrowReturn) with index := 9 }

theorem body_arrowReturn : (scanSource arrowReturn).body[9]? =
    some ⟨.greaterThanEquals, ⟨⟨0⟩, 12, 14⟩⟩ := by
  decide +kernel

theorem current_atReturnClose : atReturnClose.current = ⟨.greaterThanEquals, ⟨⟨0⟩, 12, 14⟩⟩ := by
  change ((scanSource arrowReturn).body[9]?).getD arrowReturn.endToken = _
  rw [body_arrowReturn, Option.getD_some]

theorem kind_atReturnClose : atReturnClose.kind = .greaterThanEquals :=
  congrArg Token.kind current_atReturnClose

theorem isBehindCloses_atReturnClose : atReturnClose.IsBehindCloses 0 where
  current := ⟨_, body_arrowReturn, congrArg some current_atReturnClose.symm⟩
  behind := rfl

theorem eatTypeClose_rescans_iff_atReturnClose :
    atReturnClose.IsBehindCloses 0 ∧ atReturnClose.kind.isTypeClose = true ∧
      ∃ q, eatTypeClose.run atReturnClose = .done true q ∧
        (q.body.drop q.index = rescan arrowReturn 9 1 ↔
          ¬Fuses arrowReturn atReturnClose.kind (textBehind arrowReturn 9)) := by
  have hclose : atReturnClose.kind.isTypeClose = true := by
    rw [kind_atReturnClose]
    rfl
  exact ⟨isBehindCloses_atReturnClose, hclose,
    eatTypeClose_rescans_iff isBehindCloses_atReturnClose hclose⟩

/-- The parser finds `=` and `>` behind the return type, the scanner the arrow. -/
theorem not_rescans_arrowReturn :
    atReturnClose.IsBehindCloses 0 ∧ atReturnClose.kind.isTypeClose = true ∧
      ∃ q, eatTypeClose.run atReturnClose = .done true q ∧
        (q.body.drop q.index).map (·.kind) = [.equals, .greaterThan, .numericLiteral] ∧
        (rescan arrowReturn 9 1).map (·.kind) = [.fatArrow, .numericLiteral] := by
  have hclose : atReturnClose.kind.isTypeClose = true := by
    rw [kind_atReturnClose]
    rfl
  have hafter : atReturnClose.kind.afterTypeClose = some .equals := by
    rw [kind_atReturnClose]
    rfl
  refine ⟨isBehindCloses_atReturnClose, hclose, atReturnClose.splitTypeClose .equals hafter,
    run_eatTypeClose atReturnClose hafter, ?_, by decide +kernel⟩
  change ((atReturnClose.splitTypeClose .equals hafter).body.drop atReturnClose.index).map _ = _
  rw [drop_splitTypeClose, List.map_cons]
  have htail : ((scanSource arrowReturn).body.drop 10).map (·.kind) =
      [.greaterThan, .numericLiteral] := by decide +kernel
  exact congrArg (.equals :: ·) htail

end

end Tsz.Syntax
