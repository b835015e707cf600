import Mathlib.Data.List.TakeWhile
import Tsz.Syntax.Scanner

/-!
# Regular expression tokens

## Main definitions

* `IsRegularExpressionToken` — a pattern between slashes with the longest run of flags behind it.

## Main results

* `scanRegularExpression_iff` — what the scanner finds at a slash.
-/

namespace Tsz.Syntax

/-! ## Patterns -/

/-- Whether the next character of a pattern is escaped, and whether it is in a character class. -/
structure PatternMode where
  escaped : Bool
  inCharacterClass : Bool
deriving DecidableEq

def PatternMode.step (mode : PatternMode) (c : Char) : PatternMode :=
  if mode.escaped then { mode with escaped := false }
  else if c = '\\' then { mode with escaped := true }
  else if c = '[' then { mode with inCharacterClass := true }
  else if c = ']' then { mode with inCharacterClass := false }
  else mode

/-- The mode behind a part of a pattern. -/
def PatternMode.behind (mode : PatternMode) (front : List Char) : PatternMode :=
  front.foldl step mode

namespace PatternMode

def outside : PatternMode := ⟨false, false⟩

variable {mode : PatternMode} {front : List Char} {c : Char}

@[simp] theorem behind_nil : mode.behind [] = mode := rfl

@[simp] theorem behind_cons : mode.behind (c :: front) = (mode.step c).behind front := rfl

theorem step_escaped (inside : Bool) : step ⟨true, inside⟩ c = ⟨false, inside⟩ := rfl

theorem step_backslash (inside : Bool) : step ⟨false, inside⟩ '\\' = ⟨true, inside⟩ := rfl

theorem step_of_ne (inside : Bool) (hc : c ≠ '\\') :
    step ⟨false, inside⟩ c =
      ⟨false, if c = '[' then true else if c = ']' then false else inside⟩ := by
  simp only [step, if_neg hc, Bool.false_eq_true, if_false]
  split_ifs <;> rfl

end PatternMode

/-- A pattern in front of the slash that ends it: every other slash is escaped or in a character
class. -/
structure IsPattern (mode : PatternMode) (body : List Char) : Prop where
  closed : mode.behind body = .outside
  slash : ∀ front back, body = front ++ '/' :: back → mode.behind front ≠ .outside
  line : ∀ c ∈ body, isLineBreak c = false

namespace IsPattern

variable {mode : PatternMode} {body : List Char} {c : Char}

theorem nil : IsPattern .outside [] := ⟨rfl, by simp, by simp⟩

theorem cons (h : IsPattern (mode.step c) body) (hslash : c = '/' → mode ≠ .outside)
    (hline : isLineBreak c = false) : IsPattern mode (c :: body) where
  closed := h.closed
  slash := by
    intro front back hbody
    cases front with
    | nil => exact hslash (List.cons.inj hbody).1
    | cons d front =>
      obtain ⟨rfl, rfl⟩ := List.cons.inj hbody
      exact h.slash front back rfl
  line := by
    intro d hd
    rcases List.mem_cons.mp hd with rfl | hd
    · exact hline
    · exact h.line d hd

/-- Only one pattern ends at a slash of a text. -/
theorem unique {body' rest rest' : List Char} (h : IsPattern mode body)
    (h' : IsPattern mode body') (heq : body ++ '/' :: rest = body' ++ '/' :: rest') :
    body = body' ∧ rest = rest' := by
  rcases List.append_eq_append_iff.mp heq with ⟨back, hbody, hrest⟩ | ⟨back, hbody, hrest⟩
  · cases back with
    | nil => simp_all
    | cons d back =>
      obtain ⟨rfl, -⟩ := List.cons.inj hrest
      exact absurd h.closed (h'.slash body back hbody)
  · cases back with
    | nil => simp_all
    | cons d back =>
      obtain ⟨rfl, -⟩ := List.cons.inj hrest
      exact absurd h'.closed (h.slash body' back hbody)

end IsPattern

namespace Scanner

theorem regularExpressionPattern_closed {inside : Bool} {text : List Char}
    (h : (regularExpressionPattern inside text).2 = .closed) :
    ∃ body rest, text = body ++ '/' :: rest ∧
      body.length = (regularExpressionPattern inside text).1 ∧ IsPattern ⟨false, inside⟩ body := by
  fun_induction regularExpressionPattern inside text with
  | case1 | case2 => simp at h
  | case3 => simp at h
  | case4 inside d text hline length stop hrest ih =>
    obtain ⟨body, rest, rfl, hlength, hbody⟩ := ih (by simpa [hrest] using h)
    refine ⟨'\\' :: d :: body, rest, rfl, by simp [hlength, hrest], ?_⟩
    exact .cons (.cons hbody (by simp [PatternMode.step, PatternMode.outside])
      (by simpa using hline)) (by simp) rfl
  | case5 => simp at h
  | case6 inside c text _ _ hline hc =>
    obtain ⟨rfl, hinside⟩ := hc
    obtain rfl : inside = false := by simpa using hinside
    exact ⟨[], text, rfl, rfl, .nil⟩
  | case7 inside c text hescape hescape' hline hc inside' length stop hrest ih =>
    obtain ⟨body, rest, rfl, hlength, hbody⟩ := ih (by simpa [hrest] using h)
    have hbackslash : c ≠ '\\' := by
      intro h'
      obtain ⟨d, rest', hcons⟩ := List.exists_cons_of_ne_nil (List.append_ne_nil_of_right_ne_nil
        body (List.cons_ne_nil '/' rest))
      exact hescape' d rest' h' hcons
    refine ⟨c :: body, rest, rfl, by simp [hlength, hrest], .cons ?_ ?_ (by simpa using hline)⟩
    · rw [PatternMode.step_of_ne _ hbackslash]
      exact hbody
    · intro h' hmode
      have hinside : inside = false := (PatternMode.mk.inj hmode).2
      exact hc ⟨h', by simp [hinside]⟩

/-- A pattern that does not end goes on to the end of its line. -/
theorem isLineBreak_take {inside : Bool} {text : List Char} :
    ∀ c ∈ text.take (regularExpressionPattern inside text).1, isLineBreak c = false := by
  have hbackslash : isLineBreak '\\' = false := rfl
  fun_induction regularExpressionPattern inside text <;> simp_all

/-! ## Flags -/

section

variable [UnicodeIdent] {c : Char}

theorem isRegularExpressionFlag_iff :
    isRegularExpressionFlag c ↔ isIdentifierPartCharacter c ∨ isAscii c = false := by
  unfold isRegularExpressionFlag isIdentifierPartCharacter
  cases isAscii c <;> grind

theorem takeWhile_flag_eq_iff (text : List Char) :
    text.takeWhile isRegularExpressionFlag = text.takeWhile isIdentifierPartCharacter ↔
      ∀ c, (text.dropWhile isIdentifierPartCharacter).head? = some c → isAscii c := by
  induction text with
  | nil => simp
  | cons c text ih =>
    by_cases hident : isIdentifierPartCharacter c
    · have hflag := isRegularExpressionFlag_iff.mpr (.inl hident)
      simp [hident, hflag, ih]
    · have hflag : isRegularExpressionFlag c = !isAscii c := by
        rw [Bool.eq_iff_iff, isRegularExpressionFlag_iff]
        simp [hident]
      cases hascii : isAscii c <;> simp [hident, hflag, hascii]

/-- The spaces and line breaks but for a range of spaces. -/
def spaces : List Char :=
  [' ', '\t', '\x0b', '\x0c', '\u0085', '\u00a0', '\u1680', '\u202f', '\u205f', '\u3000', '\ufeff',
    '\n', '\r', '\u2028', '\u2029']

omit [UnicodeIdent] in
theorem space_cases (h : isSingleLineWhitespace c ∨ isLineBreak c) :
    c ∈ spaces ∨ 0x2000 ≤ c.toNat ∧ c.toNat ≤ 0x200b := by
  simp only [isSingleLineWhitespace, isLineBreak, Bool.or_eq_true, Bool.and_eq_true,
    decide_eq_true_eq, beq_iff_eq, List.contains_iff_mem] at h
  simp only [spaces, List.mem_cons, List.not_mem_nil, or_false] at h ⊢
  grind

/-- What the character classes say of spaces and line breaks: they continue no identifier. -/
def SpacesEndIdentifiers : Prop :=
  ∀ c, isSingleLineWhitespace c ∨ isLineBreak c → UnicodeIdent.isXidContinue c = false

theorem not_space_of_identifierPart (hident : SpacesEndIdentifiers)
    (h : isIdentifierPartCharacter c) :
    isSingleLineWhitespace c = false ∧ isLineBreak c = false := by
  rw [← Bool.not_eq_true, ← Bool.not_eq_true, ← not_or]
  intro hspace
  have hlibrary := hident c hspace
  have hadditions : containsCode partAdditions c = false := by
    rcases space_cases hspace with hmem | hrange
    · have hspaces : spaces.all fun d => !containsCode partAdditions d := by decide
      simpa using List.all_eq_true.mp hspaces c hmem
    · simp only [containsCode, partAdditions, List.any_cons, List.any_nil]
      grind
  have hascii : isAscii c → (c.isAlphanum || c == '_' || c == '$') = false := by
    intro ha
    rcases space_cases hspace with hmem | hrange
    · have hspaces : spaces.all fun d =>
          !(isAscii d && (d.isAlphanum || d == '_' || d == '$')) := by
        decide
      have hnone := List.all_eq_true.mp hspaces c hmem
      rwa [ha, Bool.true_and, Bool.not_eq_true'] at hnone
    · have ha : c.toNat < 0x80 := of_decide_eq_true ha
      omega
  unfold isIdentifierPartCharacter at h
  split at h
  · rename_i ha
    simp [hascii ha] at h
  · simp [hlibrary, hadditions] at h

/-- The token of a regular expression: a pattern between slashes and the longest run of characters
of identifiers, in one line and without spaces behind the pattern. -/
def IsRegularExpressionToken (text token : List Char) : Prop :=
  ∃ body flags rest, token = '/' :: (body ++ '/' :: flags) ∧ text = token ++ rest ∧
    IsPattern .outside body ∧ flags = (flags ++ rest).takeWhile isIdentifierPartCharacter ∧
    (∀ c ∈ token, isLineBreak c = false) ∧ ∀ c ∈ flags, isSingleLineWhitespace c = false

/-- What follows the slash that ends the pattern at the start of a text. -/
def behindPattern (text : List Char) : List Char :=
  text.drop ((regularExpressionPattern false text).1 + 1)

/-- The characters of identifiers behind a closing slash are followed by an ASCII character, if by
any. -/
def FlagsEndInAscii (text : List Char) : Prop :=
  ∀ c, ((behindPattern text).dropWhile isIdentifierPartCharacter).head? = some c → isAscii c

variable {source : SourceText} {s : Scanner source} {text : List Char}

omit [UnicodeIdent] in
theorem exists_token_of_closed (h : (regularExpressionPattern false text).2 = .closed) :
    ∃ body rest token, text = body ++ '/' :: rest ∧ IsPattern .outside body ∧
      behindPattern text = rest ∧ s.scanRegularExpression ('/' :: text) = some token ∧
      token.kind = .regularExpressionLiteral ∧
      ('/' :: text).take (token.length + 1) =
        '/' :: (body ++ '/' :: rest.takeWhile isRegularExpressionFlag) := by
  obtain ⟨body, rest, htext, hlength, hbody⟩ := regularExpressionPattern_closed h
  have hbehind : behindPattern text = rest := by
    rw [behindPattern, ← hlength, htext]
    simp
  obtain ⟨token, htoken, hcount⟩ : ∃ token, s.scanRegularExpression ('/' :: text) = some token ∧
      token.length =
        body.length + 1 + ((behindPattern text).takeWhile isRegularExpressionFlag).length := by
    rw [hlength, behindPattern, ← List.drop_drop]
    simp only [scanRegularExpression, List.tail_cons, h, if_true]
    exact ⟨_, rfl, rfl⟩
  refine ⟨body, rest, token, htext, hbody, hbehind, htoken,
    s.kind_of_scanRegularExpression htoken, ?_⟩
  have hsplit : text = (body ++ '/' :: rest.takeWhile isRegularExpressionFlag) ++
      rest.dropWhile isRegularExpressionFlag := by
    rw [htext, List.append_assoc, List.cons_append, List.takeWhile_append_dropWhile]
  rw [List.take_succ_cons, hcount, hbehind, hsplit, List.take_left' (by simp; omega)]

theorem isRegularExpressionToken_iff (hident : SpacesEndIdentifiers) {body rest : List Char}
    (hbody : IsPattern .outside body) :
    IsRegularExpressionToken ('/' :: (body ++ '/' :: rest))
        ('/' :: (body ++ '/' :: rest.takeWhile isRegularExpressionFlag)) ↔
      ∀ c, (rest.dropWhile isIdentifierPartCharacter).head? = some c → isAscii c := by
  rw [← takeWhile_flag_eq_iff]
  constructor
  · rintro ⟨body', flags, behind, htoken, htext, hbody', hflags, -⟩
    obtain ⟨rfl, rfl⟩ := hbody.unique hbody' (List.cons.inj htoken).2
    have hrest : rest = rest.takeWhile isRegularExpressionFlag ++ behind := by simpa using htext
    exact hflags.trans (congrArg _ hrest.symm)
  · intro hflags
    refine ⟨body, rest.takeWhile isRegularExpressionFlag, rest.dropWhile isRegularExpressionFlag,
      rfl, by simp, hbody, by simpa using hflags, ?_, ?_⟩
    · have hflag : ∀ c ∈ rest.takeWhile isRegularExpressionFlag, isLineBreak c = false := by
        intro c hc
        rw [hflags] at hc
        exact (not_space_of_identifierPart hident (List.mem_takeWhile_imp hc)).2
      intro c hc
      simp only [List.mem_cons, List.mem_append] at hc
      rcases hc with rfl | hc | rfl | hc
      · rfl
      · exact hbody.line c hc
      · rfl
      · exact hflag c hc
    · intro c hc
      rw [hflags] at hc
      exact (not_space_of_identifierPart hident (List.mem_takeWhile_imp hc)).1

omit [UnicodeIdent] in
theorem scanRegularExpression_open (h : (regularExpressionPattern false text).2 ≠ .closed) :
    s.scanRegularExpression ('/' :: text) = none ∧
        s.scanSlash ('/' :: text) text = s.scanPunctuator ('/' :: text) '/' text ∨
      ∃ token diagnostic literal, s.scanRegularExpression ('/' :: text) = some token ∧
        (∀ c ∈ ('/' :: text).take (token.length + 1), isLineBreak c = false) ∧
        literal.literal.terminated = false ∧
        token.scanner.braceDepth = s.braceDepth ∧
        token.scanner.templateExpressionDepths = s.templateExpressionDepths ∧
        token.scanner.output =
          { s.output with
            diagnostics := s.output.diagnostics ++ [diagnostic]
            regularExpressionLiterals := s.output.regularExpressionLiterals ++ [literal] } := by
  by_cases hrecovers : s.previousToken.all (·.kind == .equals)
  · right
    let rest := text.drop (regularExpressionPattern false text).1
    let diagnostic : Diagnostic :=
      ⟨source.spanBetween ('/' :: text) rest, "Unterminated regular expression literal.", 1161⟩
    let literal := source.regularExpressionLiteral ('/' :: text) rest rest rest false
      ((regularExpressionPattern false text).2 == .lineBreak)
    have hscan : ∃ token, s.scanRegularExpression ('/' :: text) = some token ∧
        token.length = (regularExpressionPattern false text).1 ∧
        token.scanner.braceDepth = s.braceDepth ∧
        token.scanner.templateExpressionDepths = s.templateExpressionDepths ∧
        token.scanner.output =
          { s.output with
            diagnostics := s.output.diagnostics ++ [diagnostic]
            regularExpressionLiterals := s.output.regularExpressionLiterals ++ [literal] } := by
      simp only [scanRegularExpression, List.tail_cons, h, if_false, hrecovers, if_true]
      exact ⟨_, rfl, rfl, rfl, rfl, rfl⟩
    obtain ⟨token, htoken, hlength, hstate⟩ := hscan
    refine ⟨token, diagnostic, literal, htoken, ?_, rfl, hstate⟩
    rw [hlength]
    intro c hc
    rcases List.mem_cons.mp hc with rfl | hc
    · rfl
    · exact isLineBreak_take c hc
  · left
    have hnone : s.scanRegularExpression ('/' :: text) = none := by
      simp only [scanRegularExpression, List.tail_cons, h, if_false, hrecovers]
      simp
    exact ⟨hnone, by simp [scanSlash, hnone]⟩

/-- A terminated regular expression is scanned as such a token if and only if the characters of
identifiers behind its closing slash are not followed by a character that is not ASCII. One that
does not end leaves the scanner in its line, with nothing but a report of it in its state. -/
theorem scanRegularExpression_iff (hident : SpacesEndIdentifiers) (s : Scanner source)
    (text : List Char) :
    ((regularExpressionPattern false text).2 = .closed →
        ∃ token, s.scanRegularExpression ('/' :: text) = some token ∧
          token.kind = .regularExpressionLiteral ∧
          (IsRegularExpressionToken ('/' :: text) (('/' :: text).take (token.length + 1)) ↔
            FlagsEndInAscii text)) ∧
      ((regularExpressionPattern false text).2 ≠ .closed →
        s.scanRegularExpression ('/' :: text) = none ∧
            s.scanSlash ('/' :: text) text = s.scanPunctuator ('/' :: text) '/' text ∨
          ∃ token diagnostic literal, s.scanRegularExpression ('/' :: text) = some token ∧
            (∀ c ∈ ('/' :: text).take (token.length + 1), isLineBreak c = false) ∧
            literal.literal.terminated = false ∧
            token.scanner.braceDepth = s.braceDepth ∧
            token.scanner.templateExpressionDepths = s.templateExpressionDepths ∧
            token.scanner.output =
              { s.output with
                diagnostics := s.output.diagnostics ++ [diagnostic]
                regularExpressionLiterals :=
                  s.output.regularExpressionLiterals ++ [literal] }) := by
  refine ⟨fun hclosed => ?_, scanRegularExpression_open⟩
  obtain ⟨body, rest, token, rfl, hbody, hbehind, htoken, hkind, htake⟩ :=
    exists_token_of_closed hclosed
  refine ⟨token, htoken, hkind, ?_⟩
  rw [htake, FlagsEndInAscii, hbehind]
  exact isRegularExpressionToken_iff hident hbody

end

section

local instance asciiRegularExpressions : UnicodeIdent := asciiIdent

theorem spacesEndIdentifiers_ascii : SpacesEndIdentifiers := fun _ _ => rfl

def flaggedPattern : SourceText := ⟨⟨0⟩, none, "/a/g;".toList⟩

def atFlaggedPattern : Scanner flaggedPattern := { output := emptyOutput flaggedPattern }

theorem isRegularExpressionToken_flaggedPattern :
    IsRegularExpressionToken "/a/g;".toList "/a/g".toList := by
  obtain ⟨token, htoken, -, hiff⟩ :=
    (scanRegularExpression_iff spacesEndIdentifiers_ascii atFlaggedPattern "a/g;".toList).1
      (by decide)
  have hlength : (atFlaggedPattern.scanRegularExpression ('/' :: "a/g;".toList)).map
      (·.length) = some 3 := by
    decide +kernel
  have hend : FlagsEndInAscii "a/g;".toList := by
    intro c hc
    obtain rfl : ';' = c := Option.some.inj hc
    rfl
  rw [htoken] at hlength
  have hthree : token.length = 3 := Option.some.inj hlength
  have htoken := hiff.mpr hend
  rw [hthree] at htoken
  exact htoken

def separatedPattern : SourceText := ⟨⟨0⟩, none, "/a/\u2028".toList⟩

def atSeparatedPattern : Scanner separatedPattern := { output := emptyOutput separatedPattern }

/-- A line separator behind the closing slash is scanned as a flag. -/
theorem not_isRegularExpressionToken_separatedPattern :
    (atSeparatedPattern.scanRegularExpression "/a/\u2028".toList).map (·.length) = some 3 ∧
      ¬ IsRegularExpressionToken "/a/\u2028".toList ("/a/\u2028".toList.take 4) := by
  refine ⟨by decide +kernel, ?_⟩
  rintro ⟨body, flags, rest, -, -, -, -, hline, -⟩
  exact absurd (hline '\u2028' (by decide)) (by decide)

end

end Scanner

end Tsz.Syntax
