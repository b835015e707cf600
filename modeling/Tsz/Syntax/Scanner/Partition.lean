import Mathlib.Data.List.Pairwise
import Mathlib.Data.List.TakeWhile
import Tsz.Syntax.Scanner

/-!
# The tokens partition the text

The text of a source is its tokens, one behind the other, with what is skipped between them:
whitespace, a first line that starts with `#!`, and comments.

## Main definitions

* `Skips` — the text between two tokens, with the comments in it.
* `Tokenizes` — a text as tokens and skipped text by turns.
* `TokenPartition` — what the tokens of a source are as spans of its text.
-/

namespace Tsz.Syntax

variable {source : SourceText} {text rest after tail : List Char} {c : Char} {offset : Nat}

/-! ## Offsets -/

theorem utf8Length_append (xs ys : List Char) :
    utf8Length (xs ++ ys) = utf8Length xs + utf8Length ys := by
  induction xs with
  | nil => simp [utf8Length]
  | cons c xs ih =>
    simp only [List.cons_append, utf8Length, ih]
    omega

theorem utf8Length_mono (h : rest <:+ text) : utf8Length rest ≤ utf8Length text := by
  obtain ⟨before, rfl⟩ := h
  rw [utf8Length_append]
  exact Nat.le_add_left _ _

namespace SourceText

theorem offsetOf_append {before : List Char} (h : source.text = before ++ rest) :
    source.offsetOf rest = utf8Length before := by
  rw [offsetOf, length, h, utf8Length_append, Nat.add_sub_cancel]

theorem offsetOf_nil (source : SourceText) : source.offsetOf [] = source.length :=
  Nat.sub_zero _

theorem offsetOf_anti (source : SourceText) (h : rest <:+ text) :
    source.offsetOf text ≤ source.offsetOf rest :=
  Nat.sub_le_sub_left (utf8Length_mono h) _

theorem offsetOf_cons (h : c :: rest <:+ source.text) :
    source.offsetOf (c :: rest) + c.utf8Size = source.offsetOf rest := by
  obtain ⟨before, h⟩ := h
  have hrest : source.text = (before ++ [c]) ++ rest := by simp [← h]
  rw [offsetOf_append h.symm, offsetOf_append hrest, utf8Length_append]
  rfl

theorem eq_text_of_offsetOf_eq_zero (h : text <:+ source.text) (hzero : source.offsetOf text = 0) :
    text = source.text := by
  obtain ⟨before, h⟩ := h
  rw [offsetOf_append h.symm] at hzero
  cases before with
  | nil => simpa using h
  | cons c before =>
    have hpos := c.utf8Size_pos
    simp only [utf8Length] at hzero
    omega

/-! ## Spans of a text -/

/-- An offset between two characters, or at an end of the text. -/
def IsBoundary (source : SourceText) (offset : Nat) : Prop :=
  ∃ before after, source.text = before ++ after ∧ offset = utf8Length before

/-- The character `c` starts at the offset. -/
def HasCharAt (source : SourceText) (offset : Nat) (c : Char) : Prop :=
  ∃ before after, source.text = before ++ c :: after ∧ offset = utf8Length before

/-- A span of whole characters of the text. -/
structure IsSpan (source : SourceText) (span : Span) : Prop where
  file : span.file = source.id
  start : source.IsBoundary span.start
  stop : source.IsBoundary span.stop
  le : span.start ≤ span.stop

theorem isBoundary_offsetOf (h : text <:+ source.text) :
    source.IsBoundary (source.offsetOf text) := by
  obtain ⟨before, h⟩ := h
  exact ⟨before, text, h.symm, offsetOf_append h.symm⟩

theorem isSpan_spanBetween (h : text <:+ source.text) (hrest : rest <:+ text) :
    source.IsSpan (source.spanBetween text rest) where
  file := rfl
  start := isBoundary_offsetOf h
  stop := isBoundary_offsetOf (hrest.trans h)
  le := source.offsetOf_anti hrest

end SourceText

/-- All bytes of the character at the offset are in the span. -/
def Covers (span : Span) (offset : Nat) (c : Char) : Prop :=
  span.start ≤ offset ∧ offset + c.utf8Size ≤ span.stop

/-- No byte of the character at the offset is in the span. -/
def Apart (span : Span) (offset : Nat) (c : Char) : Prop :=
  span.stop ≤ offset ∨ offset + c.utf8Size ≤ span.start

theorem Covers.not_apart {span : Span} (h : Covers span offset c) : ¬Apart span offset c := by
  have hpos := c.utf8Size_pos
  simp only [Covers, Apart] at h ⊢
  omega

/-- A character of the text is in the part in front of the rest, or in the rest. -/
theorem covers_or_suffix (htext : text <:+ source.text) (hrest : rest <:+ text)
    (htail : c :: tail <:+ text) :
    Covers (source.spanBetween text rest) (source.offsetOf (c :: tail)) c ∨
      c :: tail <:+ rest := by
  rcases List.suffix_or_suffix_of_suffix htail hrest with h | h
  · exact .inr h
  · rcases List.suffix_cons_iff.mp h with rfl | h
    · exact .inr List.suffix_rfl
    · refine .inl ⟨source.offsetOf_anti htail, ?_⟩
      rw [SourceText.offsetOf_cons (htail.trans htext)]
      exact source.offsetOf_anti h

/-! ## Trivia -/

/-- The line a script can start with. -/
def IsShebang (line : List Char) : Prop :=
  ∃ body, line = '#' :: '!' :: body ∧ ∀ c ∈ body, !isLineBreak c

/-- A comment, with the text behind it: up to the end of a line, up to the first `*/`, or without
one up to the end of the text. -/
inductive IsComment : (comment rest : List Char) → Prop
  | line {body : List Char} (rest : List Char) (h : ∀ c ∈ body, !isLineBreak c) :
    IsComment ('/' :: '/' :: body) rest
  | block {body : List Char} (rest : List Char) (h : ¬['*', '/'] <:+: body ++ ['*']) :
    IsComment ('/' :: '*' :: (body ++ ['*', '/'])) rest
  | unterminated {body : List Char} (h : ¬['*', '/'] <:+: body) :
    IsComment ('/' :: '*' :: body) []

/-- The span of a comment of the text. -/
def SourceText.IsCommentSpan (source : SourceText) (span : Span) : Prop :=
  ∃ before comment after, source.text = before ++ comment ++ after ∧ IsComment comment after ∧
    span = ⟨source.id, utf8Length before, utf8Length (before ++ comment)⟩

/-- A character between tokens: whitespace with its line breaks and the byte order mark, a
character of the first line of a script, or one of a recorded comment. -/
inductive SourceText.IsTrivia (source : SourceText) (comments : List CommentTrivia) (offset : Nat)
    (c : Char) : Prop
  | whitespace (h : isTriviaWhitespace c)
  | shebang {line rest : List Char} (h : source.text = line ++ rest) (hline : IsShebang line)
    (hoffset : offset + c.utf8Size ≤ utf8Length line)
  | comment {comment : CommentTrivia} (h : comment ∈ comments)
    (hcovers : Covers comment.span offset c)

theorem SourceText.IsTrivia.mono {comments comments' : List CommentTrivia}
    (h : source.IsTrivia comments offset c) (hsubset : comments ⊆ comments') :
    source.IsTrivia comments' offset c := by
  cases h with
  | whitespace h => exact .whitespace h
  | shebang h hline hoffset => exact .shebang h hline hoffset
  | comment h hcovers => exact .comment (hsubset h) hcovers

/-- The text up to `after` is skipped, with these comments in it. -/
inductive Skips (source : SourceText) (after : List Char) :
    (text : List Char) → List CommentTrivia → Prop
  | nothing : Skips source after after []
  | whitespace {text : List Char} {comments : List CommentTrivia} {c : Char}
    (h : isTriviaWhitespace c) (hskips : Skips source after text comments) :
    Skips source after (c :: text) comments
  | shebang {line rest : List Char} {comments : List CommentTrivia}
    (h : source.text = line ++ rest) (hline : IsShebang line)
    (hskips : Skips source after rest comments) : Skips source after (line ++ rest) comments
  | comment {comment rest : List Char} {comments : List CommentTrivia} (jsdoc : Bool)
    (h : IsComment comment rest) (hskips : Skips source after rest comments) :
    Skips source after (comment ++ rest)
      (⟨source.spanBetween (comment ++ rest) rest, jsdoc⟩ :: comments)

namespace Skips

variable {comments : List CommentTrivia}

theorem suffix (h : Skips source after text comments) : after <:+ text := by
  induction h with
  | nothing => exact List.suffix_rfl
  | whitespace _ _ ih => exact ih.trans (List.suffix_cons _ _)
  | shebang _ _ _ ih => exact ih.trans (List.suffix_append _ _)
  | comment _ _ _ ih => exact ih.trans (List.suffix_append _ _)

/-- A character of the text is trivia in front of what is not skipped, or it is in that. -/
theorem isTrivia_or_suffix (h : Skips source after text comments) (htext : text <:+ source.text)
    (htail : c :: tail <:+ text) :
    source.IsTrivia comments (source.offsetOf (c :: tail)) c ∧
        source.offsetOf (c :: tail) + c.utf8Size ≤ source.offsetOf after ∨
      c :: tail <:+ after := by
  induction h with
  | nothing => exact .inr htail
  | @whitespace text comments d hd hskips ih =>
    rcases List.suffix_cons_iff.mp htail with heq | htail
    · obtain ⟨rfl, rfl⟩ := List.cons.inj heq
      refine .inl ⟨.whitespace hd, ?_⟩
      rw [SourceText.offsetOf_cons htext]
      exact source.offsetOf_anti hskips.suffix
    · exact ih ((List.suffix_cons _ _).trans htext) htail
  | @shebang line rest comments heq hline hskips ih =>
    have hrest : rest <:+ line ++ rest := List.suffix_append _ _
    rcases covers_or_suffix htext hrest htail with hcovers | htail
    · refine .inl ⟨.shebang heq hline ?_,
        Nat.le_trans hcovers.2 (source.offsetOf_anti hskips.suffix)⟩
      rw [← SourceText.offsetOf_append heq]
      exact hcovers.2
    · exact ih (hrest.trans htext) htail
  | @comment body rest comments jsdoc hbody hskips ih =>
    have hrest : rest <:+ body ++ rest := List.suffix_append _ _
    rcases covers_or_suffix htext hrest htail with hcovers | htail
    · exact .inl ⟨.comment List.mem_cons_self hcovers,
        Nat.le_trans hcovers.2 (source.offsetOf_anti hskips.suffix)⟩
    · rcases ih (hrest.trans htext) htail with ⟨htrivia, hle⟩ | htail
      · exact .inl ⟨htrivia.mono (List.subset_cons_self _ _), hle⟩
      · exact .inr htail

/-- The comments of skipped text are comments of the source. -/
theorem isCommentSpan (h : Skips source after text comments) (htext : text <:+ source.text) :
    ∀ comment ∈ comments, source.IsCommentSpan comment.span := by
  induction h with
  | nothing => simp
  | whitespace _ _ ih => exact ih ((List.suffix_cons _ _).trans htext)
  | shebang _ _ _ ih => exact ih ((List.suffix_append _ _).trans htext)
  | @comment body rest comments jsdoc hbody hskips ih =>
    refine List.forall_mem_cons.mpr ⟨?_, ih ((List.suffix_append _ _).trans htext)⟩
    obtain ⟨before, hbefore⟩ := htext
    have hrest : source.text = (before ++ body) ++ rest := by simp [← hbefore]
    refine ⟨before, body, rest, hrest, hbody, ?_⟩
    simp only [SourceText.spanBetween]
    rw [SourceText.offsetOf_append hbefore.symm, SourceText.offsetOf_append hrest]

theorem of_dropWhile :
    ∀ {text : List Char}, Skips source after (text.dropWhile isTriviaWhitespace) comments →
      Skips source after text comments
  | [], h => h
  | c :: text, h => by
    rw [List.dropWhile_cons] at h
    split at h
    · next hc => exact .whitespace hc (of_dropWhile h)
    · exact h

end Skips

/-! ## Tokens -/

/-- A text as tokens, each behind some skipped text. -/
inductive Tokenizes (source : SourceText) :
    (text : List Char) → List Token → List CommentTrivia → Prop
  | done {text : List Char} {comments : List CommentTrivia} (h : Skips source [] text comments) :
    Tokenizes source text [] comments
  | token {text rest after : List Char} {c : Char} {skipped comments : List CommentTrivia}
    {tokens : List Token} {kind : TokenKind} (hkind : kind ≠ .endOfFile)
    (hskips : Skips source (c :: rest) text skipped) (hafter : after <:+ rest)
    (h : Tokenizes source after tokens comments) :
    Tokenizes source text (⟨kind, source.spanBetween (c :: rest) after⟩ :: tokens)
      (skipped ++ comments)

namespace Tokenizes

variable {tokens : List Token} {comments : List CommentTrivia}

/-- A token is a span of the text that is not empty. -/
theorem isSpan (h : Tokenizes source text tokens comments) (htext : text <:+ source.text) :
    ∀ t ∈ tokens, t.kind ≠ .endOfFile ∧ source.IsSpan t.span ∧ t.span.start < t.span.stop ∧
      source.offsetOf text ≤ t.span.start := by
  induction h with
  | done _ => simp
  | @token text rest after c skipped comments tokens kind hkind hskips hafter h ih =>
    have hstart := hskips.suffix.trans htext
    have hrest := (List.suffix_cons c rest).trans hstart
    have hle := source.offsetOf_anti hskips.suffix
    have hlt : source.offsetOf (c :: rest) < source.offsetOf rest := by
      have hpos := c.utf8Size_pos
      have hcons := SourceText.offsetOf_cons hstart
      omega
    have hafter' := source.offsetOf_anti hafter
    refine List.forall_mem_cons.mpr
      ⟨⟨hkind, ?_, Nat.lt_of_lt_of_le hlt hafter', hle⟩, fun t ht => ?_⟩
    · exact SourceText.isSpan_spanBetween hstart (hafter.trans (List.suffix_cons _ _))
    · obtain ⟨hkind', hspan, hne, hbound⟩ := ih (hafter.trans hrest) t ht
      exact ⟨hkind', hspan, hne, by omega⟩

/-- The tokens are in the order of the text. -/
theorem pairwise (h : Tokenizes source text tokens comments) (htext : text <:+ source.text) :
    tokens.Pairwise fun t u => t.span.stop ≤ u.span.start := by
  induction h with
  | done _ => exact .nil
  | token hkind hskips hafter h ih =>
    have hrest := hafter.trans ((List.suffix_cons _ _).trans (hskips.suffix.trans htext))
    exact .cons (fun u hu => (h.isSpan hrest u hu).2.2.2) (ih hrest)

theorem isCommentSpan (h : Tokenizes source text tokens comments) (htext : text <:+ source.text) :
    ∀ comment ∈ comments, source.IsCommentSpan comment.span := by
  induction h with
  | done hskips => exact hskips.isCommentSpan htext
  | token hkind hskips hafter h ih =>
    have hrest := hafter.trans ((List.suffix_cons _ _).trans (hskips.suffix.trans htext))
    intro comment hcomment
    rcases List.mem_append.mp hcomment with hcomment | hcomment
    · exact hskips.isCommentSpan htext comment hcomment
    · exact ih hrest comment hcomment

/-- A character is in a token, or it is trivia and apart from all tokens. -/
theorem covered (h : Tokenizes source text tokens comments) (htext : text <:+ source.text)
    (htail : c :: tail <:+ text) :
    (∃ t ∈ tokens, Covers t.span (source.offsetOf (c :: tail)) c) ∨
      (∀ t ∈ tokens, Apart t.span (source.offsetOf (c :: tail)) c) ∧
        source.IsTrivia comments (source.offsetOf (c :: tail)) c := by
  induction h with
  | done hskips =>
    rcases hskips.isTrivia_or_suffix htext htail with ⟨htrivia, -⟩ | h
    · exact .inr ⟨by simp, htrivia⟩
    · simp at h
  | @token text rest after d skipped comments tokens kind hkind hskips hafter h ih =>
    have hstart := hskips.suffix.trans htext
    have hafter' := hafter.trans (List.suffix_cons d rest)
    have hrest := hafter'.trans hstart
    rcases hskips.isTrivia_or_suffix htext htail with ⟨htrivia, hle⟩ | htail'
    · refine .inr ⟨List.forall_mem_cons.mpr ⟨.inr hle, fun t ht => .inr ?_⟩,
        htrivia.mono (List.subset_append_left _ _)⟩
      have hbound := (h.isSpan hrest t ht).2.2.2
      have hanti := source.offsetOf_anti hafter'
      omega
    · rcases covers_or_suffix hstart hafter' htail' with hcovers | htail'
      · exact .inl ⟨_, List.mem_cons_self, hcovers⟩
      · rcases ih hrest htail' with ⟨t, ht, hcovers⟩ | ⟨hapart, htrivia⟩
        · exact .inl ⟨t, List.mem_cons_of_mem _ ht, hcovers⟩
        · refine .inr ⟨List.forall_mem_cons.mpr ⟨.inl ?_, hapart⟩,
            htrivia.mono (List.subset_append_right _ _)⟩
          exact source.offsetOf_anti htail'

end Tokenizes

/-! ## Numbers -/

/-- Between the offsets stand ASCII characters, and the rest follows them. -/
def Spells (start : Nat) (text : List Char) (stop : Nat) (rest : List Char) : Prop :=
  ∃ front, text = front ++ rest ∧ (∀ c ∈ front, isAscii c) ∧ stop = start + front.length

namespace Spells

variable {start stop stop' : Nat} {rest' : List Char}

theorem refl (start : Nat) (text : List Char) : Spells start text start text :=
  ⟨[], rfl, by simp, rfl⟩

theorem trans (h : Spells start text stop rest) (h' : Spells stop rest stop' rest') :
    Spells start text stop' rest' := by
  obtain ⟨front, rfl, hascii, rfl⟩ := h
  obtain ⟨front', rfl, hascii', rfl⟩ := h'
  refine ⟨front ++ front', by simp, fun c hc => ?_, by simp [Nat.add_assoc]⟩
  exact (List.mem_append.mp hc).elim (hascii c) (hascii' c)

theorem cons (hc : isAscii c) (h : Spells (start + 1) text stop rest) :
    Spells start (c :: text) stop rest :=
  trans ⟨[c], rfl, by simpa using hc, rfl⟩ h

theorem one (hc : isAscii c) : Spells start (c :: text) (start + 1) text := (refl _ _).cons hc

end Spells

theorem isAscii_of_hexValue {digit : Nat} (h : hexValue c = some digit) : isAscii c := by
  have hbound : c.toNat < 0x80 := by
    unfold hexValue at h
    split_ifs at h with hdigit hlower hupper
    · have : c.toNat ≤ '9'.toNat := hdigit.2
      exact Nat.lt_of_le_of_lt this (by decide)
    · have : c.toNat ≤ 'f'.toNat := hlower.2
      exact Nat.lt_of_le_of_lt this (by decide)
    · have : c.toNat ≤ 'F'.toNat := hupper.2
      exact Nat.lt_of_le_of_lt this (by decide)
  exact decide_eq_true hbound

theorem spells_consumeDigitsFrom (radix : Nat) (digitBefore : Bool) :
    ∀ (previous : Char) (text : List Char) (run : DigitRun), run.rest = text →
      Spells run.stop text (consumeDigitsFrom radix digitBefore previous text run).stop
        (consumeDigitsFrom radix digitBefore previous text run).rest
  | _, [], run, h => by
    rw [consumeDigitsFrom, h]
    exact .refl _ _
  | previous, c :: text, run, h => by
    rw [consumeDigitsFrom]
    split_ifs with hseparator hdigit
    · subst hseparator
      exact .cons (by decide) (spells_consumeDigitsFrom radix digitBefore _ text _ rfl)
    · obtain ⟨digit, hvalue, -⟩ := (Option.any_eq_true _ _).mp hdigit
      exact .cons (isAscii_of_hexValue hvalue)
        (spells_consumeDigitsFrom radix digitBefore _ text _ rfl)
    · rw [h]
      exact .refl _ _

theorem spells_consumeDigits (radix : Nat) (digitBefore : Bool) (start : Nat) (text : List Char) :
    Spells start text (consumeDigits radix digitBefore start text).stop
      (consumeDigits radix digitBefore start text).rest := by
  have h := spells_consumeDigitsFrom radix digitBefore '0' text { stop := start, rest := text } rfl
  unfold consumeDigits
  dsimp only
  split <;> exact h

theorem bounds_of_isDigit (h : c.isDigit) : '0' ≤ c ∧ c ≤ '9' := by
  obtain ⟨hlower, hupper⟩ := Bool.and_eq_true_iff.mp h
  exact ⟨of_decide_eq_true hlower, of_decide_eq_true hupper⟩

theorem isAscii_of_isDigit (h : c.isDigit) : isAscii c := by
  have hle : c.toNat ≤ '9'.toNat := (bounds_of_isDigit h).2
  exact decide_eq_true (Nat.lt_of_le_of_lt hle (by decide))

theorem isRadixDigit_of_isDigit (h : c.isDigit) : isRadixDigit 10 c := by
  have hdigit := bounds_of_isDigit h
  have hle : c.toNat ≤ '9'.toNat := hdigit.2
  have hlt : c.toNat - '0'.toNat < 10 := by
    have : '9'.toNat = '0'.toNat + 9 := rfl
    omega
  simpa [isRadixDigit, hexValue, hdigit] using hlt

/-- The digits behind the first one of a number. -/
theorem spells_decimalInteger (start : Nat) (rest : List Char) (hc : c.isDigit) :
    Spells (start + 1) rest (decimalInteger start (c :: rest)).stop
      (decimalInteger start (c :: rest)).rest := by
  unfold decimalInteger
  split
  · next rest' heq =>
    obtain ⟨-, rfl⟩ := List.cons.inj heq
    dsimp only
    split
    · exact spells_consumeDigits _ _ _ _
    · refine ⟨rest.takeWhile Char.isDigit, ?_, fun d hd => ?_, rfl⟩
      · exact (List.prefix_iff_eq_append.mp (List.takeWhile_prefix _)).symm
      · exact isAscii_of_isDigit (List.mem_takeWhile_imp hd)
  · have hne : c ≠ '_' := fun h => by simp [h] at hc
    have hfirst := spells_consumeDigitsFrom 10 false c rest
      (DigitRun.digit { stop := start, rest := c :: rest } rest) rfl
    have hrun := consumeDigitsFrom.eq_2 10 false '0' { stop := start, rest := c :: rest } c rest
    rw [if_neg hne, if_pos (isRadixDigit_of_isDigit hc)] at hrun
    unfold consumeDigits
    dsimp only
    rw [hrun]
    split <;> exact hfirst

/-- A number that starts at the offset can end at the other one. -/
def CanEnd (start : Nat) (text : List Char) (stop : Nat) : Prop :=
  ∃ rest, Spells start text stop rest

section

variable {base start stop stop' : Nat}

theorem Spells.suffix (h : Spells base text stop rest) (hn : rest.head? == some 'n') :
    CanEnd base text (stop + 1) := by
  cases rest with
  | nil => simp at hn
  | cons c rest =>
    obtain rfl : c = 'n' := by simpa using hn
    exact ⟨rest, h.trans (.one (by decide))⟩

theorem CanEnd.ite {p : Prop} [Decidable p] (h : p → CanEnd base text stop)
    (h' : ¬p → CanEnd base text stop') : CanEnd base text (if p then stop else stop') := by
  split
  · next hp => exact h hp
  · next hp => exact h' hp

theorem spells_decimalExponent {head : DecimalHead} {run : DigitRun}
    (h : decimalExponent head = some run) : Spells head.stop head.rest run.stop run.rest := by
  unfold decimalExponent at h
  split at h
  · next c rest heq =>
    split at h
    · next he =>
      rw [heq]
      have hc : isAscii c := by rcases he with rfl | rfl <;> decide
      obtain rfl := Option.some.inj h
      refine .cons hc ?_
      cases rest with
      | nil => exact spells_consumeDigits _ _ _ _
      | cons d rest =>
        cases hsign : d == '+' || d == '-' with
        | false =>
          simp only [List.head?_cons, Option.any_some, hsign, Bool.false_eq_true, if_false]
          exact spells_consumeDigits _ _ _ _
        | true =>
          have hd : isAscii d := by
            rcases Bool.or_eq_true_iff.mp hsign with hd | hd <;> rw [eq_of_beq hd] <;> decide
          simp only [List.head?_cons, Option.any_some, hsign, if_true, List.tail_cons]
          exact .cons hd (spells_consumeDigits _ _ _ _)
    · simp at h
  · simp at h

theorem exists_of_radixOfPrefix {radix : Nat} (h : radixOfPrefix (c :: text) = some radix) :
    ∃ d rest, text = d :: rest ∧ isAscii d := by
  unfold radixOfPrefix at h
  split at h
  · next d rest heq =>
    refine ⟨d, rest, (List.cons.inj heq).2, ?_⟩
    split_ifs at h with hx hb ho
    · rcases hx with rfl | rfl <;> decide
    · rcases hb with rfl | rfl <;> decide
    · rcases ho with rfl | rfl <;> decide
  · simp at h

variable [NumberFormat]

theorem canEnd_plainNumericToken (h : Spells base text stop rest) (sawSeparator radix : Bool) :
    CanEnd base text (plainNumericToken source start stop rest sawSeparator radix).stop :=
  .ite h.suffix fun _ => ⟨rest, h⟩

theorem canEnd_finishDecimalNumeric {head : DecimalHead}
    (h : Spells base text head.stop head.rest) :
    CanEnd base text (finishDecimalNumeric source head).stop := by
  obtain ⟨stop, rest, hstop, hrest, hend⟩ : ∃ stop rest,
      ((decimalExponent head).map (·.stop)).getD head.stop = stop ∧
      ((decimalExponent head).map (·.rest)).getD head.rest = rest ∧
      Spells base text stop rest := by
    cases hexponent : decimalExponent head with
    | none => exact ⟨_, _, rfl, rfl, h⟩
    | some run => exact ⟨_, _, rfl, rfl, h.trans (spells_decimalExponent hexponent)⟩
  simp only [finishDecimalNumeric, hstop, hrest, apply_ite ScannedNumericToken.stop,
    recoveredNumericToken, ite_self]
  refine .ite (fun _ => canEnd_plainNumericToken hend _ _) fun _ =>
    .ite (fun hsuffix => hend.suffix ?_) fun _ => ⟨rest, hend⟩
  simp only [Bool.or_eq_true, Bool.and_eq_true] at hsuffix
  rcases hsuffix with ⟨-, hsuffix⟩ | ⟨⟨-, hsuffix⟩, -⟩ <;> exact hsuffix

theorem canEnd_scanPrefixedNumeric {radix : Nat} (hc : isAscii c) :
    CanEnd (start + 1) (c :: rest) (scanPrefixedNumeric source start radix rest).stop := by
  have hrun := spells_consumeDigits radix false (start + 2) rest
  have hplain : CanEnd (start + 1) (c :: rest) (plainNumericToken source start _ _ _ true).stop :=
    canEnd_plainNumericToken (hrun.cons hc)
      (consumeDigits radix false (start + 2) rest).sawSeparator true
  simpa only [scanPrefixedNumeric, apply_ite ScannedNumericToken.stop, recoveredNumericToken,
    ite_self] using hplain

theorem canEnd_scanDecimal (hc : c.isDigit) (previousToken : Option Token) :
    CanEnd (start + 1) rest (scanDecimal source start (c :: rest) previousToken).stop := by
  have hrun := spells_decimalInteger start rest hc
  unfold scanDecimal
  dsimp only
  split
  · exact ⟨_, hrun⟩
  · split
    · next fraction hfraction =>
      rw [hfraction] at hrun
      refine canEnd_finishDecimalNumeric (hrun.trans ?_)
      exact .cons (by decide) (spells_consumeDigits _ _ _ _)
    · exact canEnd_finishDecimalNumeric hrun

/-- A number is ASCII from its first character to its end. -/
theorem canEnd_scanNumericLiteral (hc : c.isDigit ∨ c = '.') (previousToken : Option Token) :
    CanEnd (start + 1) rest (scanNumericLiteral source start (c :: rest) previousToken).stop := by
  unfold scanNumericLiteral
  split
  · next heq =>
    obtain ⟨-, rfl⟩ := List.cons.inj heq
    exact canEnd_finishDecimalNumeric (spells_consumeDigits _ _ _ _)
  · next hdot =>
    split
    · next radix hradix =>
      obtain ⟨d, rest, rfl, hd⟩ := exists_of_radixOfPrefix hradix
      exact canEnd_scanPrefixedNumeric hd
    · refine canEnd_scanDecimal (hc.resolve_right fun h => hdot rest (by rw [h])) _

end

/-! ## The scanner -/

theorem eq_cons_cons_of_take {a b : Char} (h : text.take 2 = [a, b]) :
    text = a :: b :: text.drop 2 := by
  calc
    text = text.take 2 ++ text.drop 2 := (List.take_append_drop 2 text).symm
    _ = a :: b :: text.drop 2 := by rw [h]; rfl

theorem exists_of_skipLineBody {a b : Char} (h : text.take 2 = [a, b]) :
    ∃ body, text = a :: b :: body ++ Scanner.skipLineBody text ∧ ∀ c ∈ body, !isLineBreak c := by
  refine ⟨(text.drop 2).takeWhile fun c => !isLineBreak c, ?_, fun c hc => ?_⟩
  · rw [Scanner.skipLineBody, List.cons_append, List.cons_append,
      List.takeWhile_append_dropWhile]
    exact eq_cons_cons_of_take h
  · have hnot := List.mem_takeWhile_imp (p := fun c => !isLineBreak c) hc
    exact hnot

theorem exists_of_afterBlockComment {text rest : List Char}
    (h : Scanner.afterBlockComment text = some rest) :
    ∃ body, text = body ++ ['*', '/'] ++ rest ∧ ¬['*', '/'] <:+: body ++ ['*'] := by
  fun_induction Scanner.afterBlockComment text with
  | case1 rest' =>
    obtain rfl := Option.some.inj h
    exact ⟨[], rfl, by decide⟩
  | case2 c text hc ih =>
    obtain ⟨body, rfl, hbody⟩ := ih h
    refine ⟨c :: body, rfl, fun hinfix => ?_⟩
    rcases List.infix_cons_iff.mp hinfix with hfirst | hinfix
    · obtain ⟨rfl, hslash⟩ := List.cons_prefix_cons.mp hfirst
      cases body with
      | nil => simp at hslash
      | cons d body =>
        obtain ⟨rfl, -⟩ := List.cons_prefix_cons.mp hslash
        exact hc _ rfl rfl
    · exact hbody hinfix
  | case3 => simp at h

theorem not_infix_of_afterBlockComment {text : List Char}
    (h : Scanner.afterBlockComment text = none) : ¬['*', '/'] <:+: text := by
  fun_induction Scanner.afterBlockComment text with
  | case1 => simp at h
  | case2 c text hc ih =>
    intro hinfix
    rcases List.infix_cons_iff.mp hinfix with hfirst | hinfix
    · obtain ⟨rfl, hslash⟩ := List.cons_prefix_cons.mp hfirst
      cases text with
      | nil => simp at hslash
      | cons d text =>
        obtain ⟨rfl, -⟩ := List.cons_prefix_cons.mp hslash
        exact hc _ rfl rfl
    · exact ih h hinfix
  | case3 => simp

namespace Scanner

/-- The tokens and comments of the output. -/
def found (s : Scanner source) : List Token × List CommentTrivia :=
  (s.output.body, s.output.comments)

variable (s : Scanner source)

theorem found_scanIdentifier (text : List Char) (length : Nat) (isPrivate : Bool) :
    (s.scanIdentifier text length isPrivate).scanner.found = s.found := by
  unfold scanIdentifier diagnoseIdentifierAfterNumber
  dsimp only
  split <;> rfl

theorem found_scanTemplateToken (text : List Char) (isStart : Bool) :
    (s.scanTemplateToken text isStart).scanner.found = s.found := by
  unfold scanTemplateToken
  dsimp only
  cases isStart <;> split <;> rfl

theorem found_scanPunctuator (text : List Char) (c : Char) (rest : List Char) :
    (s.scanPunctuator text c rest).scanner.found = s.found := by
  unfold scanPunctuator
  split
  · rfl
  · split <;> rfl

theorem found_of_scanRegularExpression {token : ScannedToken source}
    (h : s.scanRegularExpression text = some token) : token.scanner.found = s.found := by
  unfold scanRegularExpression at h
  dsimp only at h
  split_ifs at h <;> obtain rfl := Option.some.inj h <;> rfl

theorem found_scanSlash (text rest : List Char) :
    (s.scanSlash text rest).scanner.found = s.found := by
  unfold scanSlash
  split
  · next token h =>
    split_ifs at h
    exact s.found_of_scanRegularExpression h
  · exact s.found_scanPunctuator _ _ _

section

variable [UnicodeIdent] [NumberFormat]

theorem found_scanToken (c : Char) (rest : List Char) :
    (s.scanToken c rest).scanner.found = s.found := by
  unfold scanToken
  dsimp only
  split_ifs
  · exact s.found_scanTemplateToken _ _
  · exact s.found_scanIdentifier _ _ _
  · rfl
  · exact s.found_scanIdentifier _ _ _
  · rfl
  · exact s.found_scanTemplateToken _ _
  · exact s.found_scanSlash _ _
  · exact s.found_scanPunctuator _ _ _

end

theorem utf8Size_of_isAscii (h : isAscii c) : c.utf8Size = 1 :=
  Char.utf8Size_eq_one_iff.mpr (Nat.le_of_lt_succ (of_decide_eq_true h))

theorem utf8Length_of_isAscii {front : List Char} (h : ∀ c ∈ front, isAscii c) :
    utf8Length front = front.length := by
  induction front with
  | nil => rfl
  | cons c front ih =>
    obtain ⟨hc, hfront⟩ := List.forall_mem_cons.mp h
    rw [utf8Length, utf8Size_of_isAscii hc, ih hfront, List.length_cons, Nat.add_comm]

/-- The token of a number ends where the number does. -/
theorem offsetOf_scanNumber [NumberFormat] (hc : c.isDigit ∨ c = '.')
    (htext : c :: rest <:+ source.text) :
    source.offsetOf (rest.drop (s.scanNumber (c :: rest)).length) =
      (scanNumericLiteral source (source.offsetOf (c :: rest)) (c :: rest)
        s.previousToken).stop := by
  obtain ⟨rest', front, hfront, hascii, hstop⟩ : CanEnd (source.offsetOf (c :: rest) + 1) rest
      (scanNumericLiteral source (source.offsetOf (c :: rest)) (c :: rest)
        s.previousToken).stop :=
    canEnd_scanNumericLiteral hc s.previousToken
  have hlength : (s.scanNumber (c :: rest)).length = front.length := by
    simp only [scanNumber, hstop]
    omega
  have hc' : isAscii c := by
    rcases hc with hc | rfl
    · exact isAscii_of_isDigit hc
    · decide
  have hsize := utf8Size_of_isAscii hc'
  obtain ⟨before, hbefore⟩ := htext
  have hsplit : source.text = (before ++ c :: front) ++ rest' := by simp [← hbefore, hfront]
  rw [hlength, hstop, hfront, List.drop_left, SourceText.offsetOf_append hsplit,
    SourceText.offsetOf_append (hfront ▸ hbefore.symm), utf8Length_append, utf8Length, hsize,
    utf8Length_of_isAscii hascii, Nat.add_assoc]

theorem found_comment (span : Span) (jsdoc : Bool) :
    (s.comment span jsdoc).found = (s.found.1, s.found.2 ++ [⟨span, jsdoc⟩]) := rfl

theorem found_push [UnicodeIdent] [NumberFormat] (c : Char) (rest after : List Char) :
    (push (s.scanToken c rest) (s.kind_scanToken_ne c rest) (c :: rest) after).found =
      (s.found.1 ++ [⟨(s.scanToken c rest).kind, source.spanBetween (c :: rest) after⟩],
        s.found.2) := by
  rw [← s.found_scanToken c rest]
  rfl

/-- A block comment at the start of the text is recorded. -/
theorem exists_of_blockComment (h : text.take 2 = ['/', '*']) :
    ∃ (comment rest : List Char) (jsdoc : Bool) (t : Scanner source), text = comment ++ rest ∧
      IsComment comment rest ∧ t.found = s.found ∧
      s.blockComment text = (t.comment (source.spanBetween text rest) jsdoc, rest) := by
  have htext := eq_cons_cons_of_take h
  unfold blockComment
  dsimp only
  cases hafter : afterBlockComment (text.drop 2) with
  | some rest =>
    obtain ⟨body, hbody, hinfix⟩ := exists_of_afterBlockComment hafter
    refine ⟨_, rest, _, s, ?_, .block rest hinfix, rfl, rfl⟩
    rw [htext, hbody]
    rfl
  | none =>
    refine ⟨_, [], _, s.diagnose _ _ _, ?_, .unterminated (not_infix_of_afterBlockComment hafter),
      rfl, rfl⟩
    rw [List.append_nil]
    exact htext

/-- What is skipped in front of a token. -/
theorem skips_skipTrivia (fuel : Nat) (s : Scanner source) (text : List Char)
    (htext : text <:+ source.text) :
    ∃ comments, Skips source (skipTrivia fuel s text).2 text comments ∧
      (skipTrivia fuel s text).1.found = (s.found.1, s.found.2 ++ comments) := by
  induction fuel generalizing s text with
  | zero => exact ⟨[], .nothing, by simp [skipTrivia]⟩
  | succ fuel ih =>
    have hdrop := List.dropWhile_suffix (l := text) isTriviaWhitespace
    rw [skipTrivia]
    dsimp only
    split_ifs with hshebang hline hblock
    · obtain ⟨body, hbody, hbreaks⟩ := exists_of_skipLineBody hshebang.2
      have hstart := SourceText.eq_text_of_offsetOf_eq_zero htext hshebang.1
      have hrest : skipLineBody text <:+ text := ⟨_, hbody.symm⟩
      obtain ⟨comments, hskips, hfound⟩ := ih s _ (hrest.trans htext)
      have hskips' := Skips.shebang (hstart.symm.trans hbody) ⟨body, rfl, hbreaks⟩ hskips
      rw [← hbody] at hskips'
      exact ⟨comments, hskips', hfound⟩
    · obtain ⟨body, hbody, hbreaks⟩ := exists_of_skipLineBody hline
      have hrest : skipLineBody (text.dropWhile isTriviaWhitespace) <:+ text :=
        List.IsSuffix.trans ⟨_, hbody.symm⟩ hdrop
      obtain ⟨comments, hskips, hfound⟩ := ih (s.comment _ false) _ (hrest.trans htext)
      have hskips' := Skips.comment false (.line _ hbreaks) hskips
      rw [← hbody] at hskips'
      exact ⟨_, .of_dropWhile hskips', by simp [hfound, found_comment]⟩
    · obtain ⟨comment, rest, jsdoc, t, hsplit, hcomment, ht, hrun⟩ :=
        s.exists_of_blockComment hblock
      have hrest : rest <:+ text := List.IsSuffix.trans ⟨_, hsplit.symm⟩ hdrop
      rw [hrun]
      obtain ⟨comments, hskips, hfound⟩ := ih (t.comment _ jsdoc) _ (hrest.trans htext)
      have hskips' := Skips.comment jsdoc hcomment hskips
      rw [← hsplit] at hskips'
      exact ⟨_, .of_dropWhile hskips', by simp [hfound, found_comment, ht]⟩
    · exact ⟨[], .of_dropWhile .nothing, by simp⟩

/-- Fuel for every character is enough to skip all trivia. -/
theorem skipTrivia_of_le {fuel fuel' : Nat} (s : Scanner source) {text : List Char}
    (h : text.length ≤ fuel) (hle : fuel ≤ fuel') :
    skipTrivia fuel' s text = skipTrivia fuel s text := by
  induction fuel generalizing fuel' s text with
  | zero =>
    obtain rfl := List.eq_nil_of_length_eq_zero (Nat.le_zero.mp h)
    cases fuel' <;> simp [skipTrivia]
  | succ fuel ih =>
    obtain ⟨fuel', rfl⟩ := Nat.exists_eq_add_one.mpr (Nat.lt_of_lt_of_le fuel.succ_pos hle)
    have hdrop := (List.dropWhile_suffix (l := text) isTriviaWhitespace).length_le
    have hline {text' : List Char} {a b : Char} (htake : text'.take 2 = [a, b])
        (hle' : text'.length ≤ text.length) : (skipLineBody text').length ≤ fuel := by
      obtain ⟨body, hbody, -⟩ := exists_of_skipLineBody htake
      have := congrArg List.length hbody
      simp at this
      omega
    rw [skipTrivia, skipTrivia]
    dsimp only
    split_ifs with hshebang hcomment hblock
    · exact ih _ (hline hshebang.2 (Nat.le_refl _)) (by omega)
    · exact ih _ (hline hcomment hdrop) (by omega)
    · obtain ⟨comment, rest, jsdoc, t, hsplit, hcomment, -, hrun⟩ :=
        s.exists_of_blockComment hblock
      have hlength := congrArg List.length hsplit
      have hpos : 0 < comment.length := by cases hcomment <;> simp
      rw [hrun]
      refine ih _ ?_ (by omega)
      simp at hlength
      dsimp only
      omega
    · rfl

section

variable [UnicodeIdent] [NumberFormat]

theorem scanTokens_of_le {fuel fuel' : Nat} (s : Scanner source) {text : List Char}
    (h : text.length ≤ fuel) (hle : fuel ≤ fuel') :
    scanTokens fuel' s text = scanTokens fuel s text := by
  induction fuel generalizing fuel' s text with
  | zero =>
    obtain rfl := List.eq_nil_of_length_eq_zero (Nat.le_zero.mp h)
    cases fuel' <;> simp [scanTokens, skipTrivia]
  | succ fuel ih =>
    obtain ⟨fuel', rfl⟩ := Nat.exists_eq_add_one.mpr (Nat.lt_of_lt_of_le fuel.succ_pos hle)
    have hskip := length_skipTrivia_le text.length s text
    rw [scanTokens, scanTokens]
    split
    · rfl
    · next t c rest hrun =>
      rw [hrun] at hskip
      have hdrop := (List.drop_suffix (t.scanToken c rest).length rest).length_le
      simp only [List.length_cons] at hskip
      exact ih _ (by omega) (by omega)

/-- The tokens and comments that a run of the scanner adds. -/
theorem tokenizes_scanTokens (fuel : Nat) (s : Scanner source) (text : List Char)
    (h : text.length ≤ fuel) (htext : text <:+ source.text) :
    ∃ tokens comments, Tokenizes source text tokens comments ∧
      (scanTokens fuel s text).1.found = (s.found.1 ++ tokens, s.found.2 ++ comments) := by
  induction fuel generalizing s text with
  | zero =>
    obtain rfl := List.eq_nil_of_length_eq_zero (Nat.le_zero.mp h)
    exact ⟨[], [], .done .nothing, by simp [scanTokens]⟩
  | succ fuel ih =>
    obtain ⟨skipped, hskips, hfound⟩ := skips_skipTrivia text.length s text htext
    have hle := length_skipTrivia_le text.length s text
    rw [scanTokens]
    split
    · next t hrun =>
      rw [hrun] at hskips hfound
      exact ⟨[], skipped, .done hskips, by simpa using hfound⟩
    · next t c rest hrun =>
      rw [hrun] at hskips hfound hle
      have hafter := List.drop_suffix (t.scanToken c rest).length rest
      have hrest := hafter.trans ((List.suffix_cons c rest).trans hskips.suffix)
      have hlength := hafter.length_le
      simp only [List.length_cons] at hle
      obtain ⟨tokens, comments, htokens, hfound'⟩ :=
        ih (push (t.scanToken c rest) (t.kind_scanToken_ne c rest) (c :: rest) _) _ (by omega)
          (hrest.trans htext)
      refine ⟨_, _, .token (t.kind_scanToken_ne c rest) hskips hafter htokens, ?_⟩
      rw [hfound', found_push, hfound]
      simp

end

end Scanner

/-! ## The partition -/

/-- Tokens and comments as they lie in the text: every character is in one token or in none, and
one in none is trivia. -/
structure TokenPartition (source : SourceText) (tokens : List Token)
    (comments : List CommentTrivia) : Prop where
  endsWith : ∃ body, tokens = body ++ [source.endToken] ∧
    ∀ t ∈ body, t.kind ≠ .endOfFile ∧ t.span.start < t.span.stop
  isSpan : ∀ t ∈ tokens, source.IsSpan t.span
  ordered : tokens.Pairwise fun t u => t.span.stop ≤ u.span.start
  isCommentSpan : ∀ comment ∈ comments, source.IsCommentSpan comment.span
  covered : ∀ offset c, source.HasCharAt offset c →
    (∃! t, t ∈ tokens ∧ Covers t.span offset c) ∨
      (∀ t ∈ tokens, Apart t.span offset c) ∧ source.IsTrivia comments offset c

theorem isSpan_endToken (source : SourceText) : source.IsSpan source.endToken.span where
  file := rfl
  start := ⟨source.text, [], by simp, rfl⟩
  stop := ⟨source.text, [], by simp, rfl⟩
  le := Nat.le_refl _

/-- No two tokens in order cover one character. -/
theorem eq_of_covers {tokens : List Token}
    (h : tokens.Pairwise fun t u => t.span.stop ≤ u.span.start) {t u : Token} (ht : t ∈ tokens)
    (hu : u ∈ tokens) (htcovers : Covers t.span offset c) (hucovers : Covers u.span offset c) :
    t = u := by
  have hpos := c.utf8Size_pos
  have hapart : tokens.Pairwise fun t u =>
      Covers t.span offset c → Covers u.span offset c → t = u := by
    refine h.imp fun hle ht hu => ?_
    simp only [Covers] at ht hu
    omega
  exact hapart.forall_of_forall_of_flip (fun _ _ _ _ => rfl)
    (hapart.imp fun h hu ht => (h ht hu).symm) ht hu htcovers hucovers

theorem SourceText.IsBoundary.le_length (h : source.IsBoundary offset) :
    offset ≤ source.length := by
  obtain ⟨before, after, htext, rfl⟩ := h
  rw [length, htext, utf8Length_append]
  exact Nat.le_add_right _ _

theorem Tokenizes.partition {tokens : List Token} {comments : List CommentTrivia}
    (h : Tokenizes source source.text tokens comments) :
    TokenPartition source (tokens ++ [source.endToken]) comments := by
  have hspans := h.isSpan List.suffix_rfl
  have hordered : (tokens ++ [source.endToken]).Pairwise fun t u => t.span.stop ≤ u.span.start := by
    refine List.pairwise_append.mpr ⟨h.pairwise List.suffix_rfl, List.pairwise_singleton _ _, ?_⟩
    intro t ht u hu
    obtain rfl := List.mem_singleton.mp hu
    exact (hspans t ht).2.1.stop.le_length
  refine ⟨⟨tokens, rfl, fun t ht => ⟨(hspans t ht).1, (hspans t ht).2.2.1⟩⟩, fun t ht => ?_,
    hordered, h.isCommentSpan List.suffix_rfl, ?_⟩
  · rcases List.mem_append.mp ht with ht | ht
    · exact (hspans t ht).2.1
    · obtain rfl := List.mem_singleton.mp ht
      exact isSpan_endToken source
  · rintro offset c ⟨before, after, htext, rfl⟩
    have htail : c :: after <:+ source.text := ⟨before, htext.symm⟩
    have hcovered := h.covered List.suffix_rfl htail
    rw [SourceText.offsetOf_append htext] at hcovered
    rcases hcovered with ⟨t, ht, hcovers⟩ | ⟨hapart, htrivia⟩
    · have hmem := List.mem_append_left [source.endToken] ht
      exact .inl ⟨t, ⟨hmem, hcovers⟩,
        fun u hu => eq_of_covers hordered hu.1 hmem hu.2 hcovers⟩
    · refine .inr ⟨fun t ht => ?_, htrivia⟩
      rcases List.mem_append.mp ht with ht | ht
      · exact hapart t ht
      · obtain rfl := List.mem_singleton.mp ht
        have hcons := SourceText.offsetOf_cons htail
        rw [SourceText.offsetOf_append htext] at hcons
        right
        rw [hcons]
        exact source.offsetOf_le after

end Tsz.Syntax
