import Tsz.Syntax.Descendants
import Tsz.Syntax.Numbers.Spellings
import Tsz.Syntax.Scanner.Dispatch

/-!
# Members of numbers

What the printer writes for a property of a number, and what the scanner finds in it.

## Main definitions

* `writeMemberAccess` — a property access whose object is a number.
* `RescansAs` — a text that is scanned as a number, a dot and a name.

## Main results

* `writeMemberObject_rescans_iff` — the numbers whose properties are scanned again.
-/

namespace Tsz.Syntax.NumberLiteral

/-- The spelling for JavaScript that the scanner has kept. -/
def emitText (number : NumberLiteral) (preserveSeparators : Bool) : String :=
  match number with
  | .plain raw => raw
  | .separated literal => if preserveSeparators then literal.raw else literal.canonical
  | .recovery literal => literal.emitText

/-- Only a number with separators can need a second dot, and none behind a radix. -/
def needsPropertyAccessExtraDot (number : NumberLiteral) (preserveSeparators : Bool) : Bool :=
  match number with
  | .separated literal =>
    !literal.withRadixSpecifier &&
      !(number.emitText preserveSeparators).toList.any fun c => ['.', 'e', 'E'].contains c
  | _ => false

end Tsz.Syntax.NumberLiteral

namespace Tsz.Emit

open Tsz.Syntax Rounding Rounding.Format Decimals

/-! ## What is written -/

/-- What the printer reads of its file and its state. Nothing is skipped around the dot. -/
structure NumberPrinter where
  source : SourceText
  preserveNumericSeparators : Bool
  emittingDeclaration : Bool
  /-- The text of an expression that is no number, by the precedence around it. -/
  writeOther : Expression → Nat → List Char

def precPostfix : Nat := 13

namespace NumberPrinter

variable (p : NumberPrinter)

def numberText (number : NumberLiteral) : String :=
  number.emitText (p.preserveNumericSeparators && !p.emittingDeclaration)

/-- Assertions are not written, nor parentheses that only hold one. A number needs none. -/
def writeExpression (expression : Expression) (parentPrecedence : Nat) : List Char :=
  let expression := (erasedAssertionExpression expression).getD expression
  match expression.kind with
  | .literal (.number number) => (p.numberText number).toList
  | _ => p.writeOther expression parentPrecedence

def hasDotAt (offset : Nat) : Bool := ((dropBytes offset p.source.text).bind List.head?) == some '.'

def writeMemberObject (object : Expression) : List Char :=
  p.writeExpression object precPostfix ++
    match erasedExpressionSeparatedNumber object with
    | some literal =>
      if (NumberLiteral.separated literal).needsPropertyAccessExtraDot
          p.preserveNumericSeparators && p.hasDotAt object.span.stop then ['.']
      else []
    | none => []

def writeMemberAccess (object : Expression) (name : List Char) : List Char :=
  p.writeMemberObject object ++ '.' :: name

/-- A second dot is written behind the number. -/
def WritesExtraDot (object : Expression) (number : NumberLiteral) : Prop :=
  number.needsPropertyAccessExtraDot p.preserveNumericSeparators = true ∧
    p.hasDotAt object.span.stop = true

end NumberPrinter

/-! ## What is scanned -/

/-- The text of one identifier, with escapes or without. -/
structure IsIdentifierText [UnicodeIdent] (name : List Char) : Prop where
  starts : startsIdentifier name = true
  length : identifierLength name = name.length
  noTrivia : ∀ c, name.head? = some c → isTriviaWhitespace c = false

def memberSource (text : List Char) : SourceText := ⟨⟨0⟩, some "js", text⟩

/-- The object of a property access is scanned as a number with a value, and then the dot and the
name are. -/
structure RescansAs [UnicodeIdent] [NumberFormat] (object name : List Char)
    (value : Option Nat) : Prop where
  tokens : ∃ kind : TokenKind, kind.isIdentifierName = true ∧
    (scanSource (memberSource (object ++ '.' :: name))).body =
      [⟨.numericLiteral, ⟨⟨0⟩, 0, utf8Length object⟩⟩,
        ⟨.dot, ⟨⟨0⟩, utf8Length object, utf8Length object + 1⟩⟩,
        ⟨kind, ⟨⟨0⟩, utf8Length object + 1, utf8Length object + 1 + utf8Length name⟩⟩]
  value : numericValue (withoutSeparatorChars
    ((scanSource (memberSource (object ++ '.' :: name))).numberLiteral
      ⟨⟨0⟩, 0, utf8Length object⟩).semanticText.toList) = value

section

variable {source : SourceText}

variable [UnicodeIdent]

theorem IsIdentifierText.exists_cons {name : List Char} (h : IsIdentifierText name) :
    ∃ c rest, name = c :: rest ∧ isTriviaWhitespace c = false ∧ c.isDigit = false ∧ c ≠ '.' ∧
      c ≠ '/' ∧ c ≠ '#' ∧ c ≠ '\x7d' := by
  obtain ⟨c, rest, rfl⟩ : ∃ c rest, name = c :: rest := by
    cases name with
    | nil => cases h.starts
    | cons c rest => exact ⟨c, rest, rfl⟩
  have hne {d : Char} (hstart : isIdentifierStartCharacter d = false) (hd : d ≠ '\\') : c ≠ d := by
    rintro rfl
    have hescape : identifierEscapeAt (c :: rest) = none := by
      unfold identifierEscapeAt
      split
      · next heq => exact absurd (List.cons.inj heq).1 hd
      · rfl
    have hstarts := h.starts
    rw [startsIdentifier, hescape, List.head?_cons, Option.any_some, hstart] at hstarts
    cases hstarts
  refine ⟨c, rest, rfl, h.noTrivia c rfl, ?_, hne rfl (by decide), hne rfl (by decide),
    hne rfl (by decide), hne rfl (by decide)⟩
  rw [Bool.eq_false_iff]
  intro hdigit
  have hstarts := h.starts
  rw [not_startsIdentifier (.inl hdigit)] at hstarts
  cases hstarts

variable [NumberFormat]

theorem scanToken_dot (s : Scanner source) {c : Char} {rest : List Char}
    (hdigit : c.isDigit = false) (hdot : c ≠ '.') : s.scanToken '.' (c :: rest) = ⟨.dot, 0, s⟩ := by
  have hstart := not_startsIdentifier (.inr rfl) (c :: rest)
  have hprefix : (['.', '.'].isPrefixOf (c :: rest)) = false := by
    rw [List.isPrefixOf_cons_cons, beq_eq_false_iff_ne.mpr hdot.symm]
    rfl
  unfold Scanner.scanToken
  simp [hstart, hdigit, Scanner.scanPunctuator, Scanner.startsQuestionDot, Scanner.punctuators,
    hprefix]

/-- A number, a dot and a name are three tokens. -/
theorem body_memberSource {object name : List Char} (hname : IsIdentifierText name) {c : Char}
    {more : List Char} (hobject : object = c :: more)
    (hnumber : c.isDigit = true ∨ c = '.' ∧ ∃ d rest, d.isDigit = true ∧ more = d :: rest)
    (hascii : ∀ d ∈ object, isAscii d)
    (hkind : (scanNumericLiteral (memberSource (object ++ '.' :: name)) 0
      (object ++ '.' :: name) none).kind = .numericLiteral)
    (hstop : (scanNumericLiteral (memberSource (object ++ '.' :: name)) 0
      (object ++ '.' :: name) none).stop = object.length) :
    ∃ kind : TokenKind, kind.isIdentifierName = true ∧
      (scanSource (memberSource (object ++ '.' :: name))).body =
        [⟨.numericLiteral, ⟨⟨0⟩, 0, utf8Length object⟩⟩,
          ⟨.dot, ⟨⟨0⟩, utf8Length object, utf8Length object + 1⟩⟩,
          ⟨kind, ⟨⟨0⟩, utf8Length object + 1, utf8Length object + 1 + utf8Length name⟩⟩] := by
  obtain ⟨d, ds, rfl, hspace, hdigit, hdot, hslash, hhash, hbrace⟩ := hname.exists_cons
  subst hobject
  generalize hsource : memberSource (c :: more ++ '.' :: d :: ds) = source at hkind hstop
  have htext : source.text = c :: (more ++ '.' :: d :: ds) := by rw [← hsource]; rfl
  have hid : source.id = ⟨0⟩ := by rw [← hsource]; rfl
  have hobject := Scanner.utf8Length_of_isAscii hascii
  have hstart : source.offsetOf (c :: (more ++ '.' :: d :: ds)) = 0 := by
    rw [← htext]
    exact Nat.sub_self _
  have hoffsetDot : source.offsetOf ('.' :: d :: ds) = utf8Length (c :: more) :=
    SourceText.offsetOf_append (by rw [htext]; rfl)
  have hoffsetName : source.offsetOf (d :: ds) = utf8Length (c :: more) + 1 := by
    have htext' : source.text = (c :: more ++ ['.']) ++ d :: ds := by rw [htext]; simp
    rw [SourceText.offsetOf_append htext', utf8Length_append]
    rfl
  have hoffsetEnd : source.offsetOf [] = utf8Length (c :: more) + 1 + utf8Length (d :: ds) := by
    have htext' : source.text = (c :: more ++ ['.'] ++ d :: ds) ++ [] := by rw [htext]; simp
    rw [SourceText.offsetOf_append htext', utf8Length_append, utf8Length_append]
    rfl
  let s₀ : Scanner source := { output := emptyOutput source }
  have hfuel : source.text.length = more.length + ds.length + 3 := by
    rw [htext]
    simp
    omega
  have hspace' : isTriviaWhitespace c = false ∧ c ≠ '/' ∧ c ≠ '#' := by
    rcases hnumber with hdigit | ⟨rfl, -⟩
    · obtain ⟨n, hn, rfl⟩ := exists_digitChar hdigit
      have hall : ∀ n < 10, isTriviaWhitespace (Nat.digitChar n) = false ∧
          Nat.digitChar n ≠ '/' ∧ Nat.digitChar n ≠ '#' := by decide
      exact hall n hn
    · decide
  have hnumber' : c.isDigit = true ∨
      c = '.' ∧ (more ++ '.' :: d :: ds).head?.any Char.isDigit = true := by
    refine hnumber.imp_right fun ⟨hc, e, rest, he, hmore⟩ => ⟨hc, ?_⟩
    rw [hmore]
    exact he
  have hnumberToken : (s₀.scanToken c (more ++ '.' :: d :: ds)).kind = .numericLiteral ∧
      (s₀.scanToken c (more ++ '.' :: d :: ds)).length = more.length := by
    rw [scanToken_number s₀ hnumber', Scanner.scanNumber]
    simp only [hstart]
    have hprevious : s₀.previousToken = none := rfl
    have happend : c :: (more ++ '.' :: d :: ds) = c :: more ++ '.' :: d :: ds := rfl
    rw [hprevious, happend, hkind, hstop]
    exact ⟨rfl, by simp⟩
  have hafter : (s₀.scanOne c (more ++ '.' :: d :: ds)).2 = '.' :: d :: ds := by
    rw [Scanner.scanOne, hnumberToken.2, List.drop_left]
  have hbody := s₀.body_scanOne c (more ++ '.' :: d :: ds)
  rw [hafter, hnumberToken.1] at hbody
  generalize hs₁ : (s₀.scanOne c (more ++ '.' :: d :: ds)).1 = s₁ at hbody
  have hdotToken : s₁.scanToken '.' (d :: ds) = ⟨.dot, 0, s₁⟩ := scanToken_dot s₁ hdigit hdot
  have hdotKind : (s₁.scanToken '.' (d :: ds)).kind = .dot := by rw [hdotToken]
  have hafterDot : (s₁.scanOne '.' (d :: ds)).2 = d :: ds := by
    have hlength : (s₁.scanToken '.' (d :: ds)).length = 0 := by rw [hdotToken]
    rw [Scanner.scanOne, hlength]
    rfl
  have hbodyDot := s₁.body_scanOne '.' (d :: ds)
  rw [hafterDot, hdotKind] at hbodyDot
  generalize hs₂ : (s₁.scanOne '.' (d :: ds)).1 = s₂ at hbodyDot
  have hnameToken := scanToken_identifier s₂ hbrace hname.starts
  have hafterName : (s₂.scanOne d ds).2 = [] := by
    have hlength : (s₂.scanToken d ds).length = ds.length := by
      rw [hnameToken]
      simp [Scanner.scanIdentifier, hname.length]
    rw [Scanner.scanOne, hlength, List.drop_length]
  have hbodyName := s₂.body_scanOne d ds
  rw [hafterName] at hbodyName
  refine ⟨(s₂.scanToken d ds).kind, ?_, ?_⟩
  · rw [hnameToken]
    exact TokenKind.isIdentifierName_fromKeyword _
  have hscan : (scanSource source).body = (s₂.scanOne d ds).1.output.body := by
    rw [scanSource, hfuel, htext,
      Scanner.scanTokens_of_skipTrivia (skipTrivia_cons hspace'.1 hspace'.2.1 hspace'.2.2 _ s₀ _),
      hafter, hs₁,
      Scanner.scanTokens_of_skipTrivia (skipTrivia_cons rfl (by decide) (by decide) _ s₁ _),
      hafterDot, hs₂, Scanner.scanTokens_of_skipTrivia (skipTrivia_cons hspace hslash hhash _ s₂ _),
      hafterName, Scanner.scanTokens_nil]
  rw [hscan, hbodyName, hbodyDot, hbody]
  simp only [SourceText.spanBetween, hstart, hoffsetDot, hoffsetName, hoffsetEnd, hid]
  rfl

/-! ## Spellings in front of a dot -/

omit [UnicodeIdent] [NumberFormat] in
theorem ends_dot {spelling : List Char} (h : EndsAtDot spelling) (rest : List Char) :
    EndsSpelling spelling ('.' :: rest) := by
  intro c hc
  obtain rfl := Option.some.inj hc
  exact ⟨rfl, by decide, fun _ => h⟩

/-- The first token of a text that is scanned again is a scanned number. -/
theorem RescansAs.isScannedNumber {object name : List Char} {value : Option Nat}
    (h : RescansAs object name value) :
    IsScannedNumber (memberSource (object ++ '.' :: name)) ⟨⟨0⟩, 0, utf8Length object⟩
      ((scanSource (memberSource (object ++ '.' :: name))).numberLiteral
        ⟨⟨0⟩, 0, utf8Length object⟩) := by
  obtain ⟨kind, -, hbody⟩ := h.tokens
  have hmem : (⟨.numericLiteral, ⟨⟨0⟩, 0, utf8Length object⟩⟩ : Token) ∈
      (scanSource (memberSource (object ++ '.' :: name))).body := by
    rw [hbody]
    exact List.mem_cons_self
  exact (numbersRead_scanSource _).scanned _ hmem rfl

omit [UnicodeIdent] [NumberFormat] in
theorem isAt_memberSource (text : List Char) : (memberSource text).IsAt 0 text :=
  ⟨List.suffix_rfl, (Nat.sub_self _).symm⟩

/-- A spelling that ends at a dot is scanned again. -/
theorem rescansAs_of_endsAtDot {object name : List Char} (h : IsSpelling object)
    (hends : EndsAtDot object) (hname : IsIdentifierText name) :
    RescansAs object name (numericValue (withoutSeparatorChars object)) := by
  have hat := isAt_memberSource (object ++ '.' :: name)
  have hscan := scanNumericLiteral_spelling h hat (ends_dot hends name) none
  obtain ⟨c, more, hobject, hnumber⟩ := h.exists_cons
  have htokens := body_memberSource hname hobject hnumber h.isAscii (by rw [hscan]; rfl)
    (by rw [hscan]; simp [plainNumericToken])
  refine ⟨htokens, ?_⟩
  obtain ⟨kind, -, hbody⟩ := htokens
  have hmem : (⟨.numericLiteral, ⟨⟨0⟩, 0, utf8Length object⟩⟩ : Token) ∈
      (scanSource (memberSource (object ++ '.' :: name))).body := by
    rw [hbody]
    exact List.mem_cons_self
  have hread := numbersRead_scanSource (memberSource (object ++ '.' :: name))
  have hscanned := hread.scanned _ hmem rfl
  obtain ⟨-, hliteral⟩ := numberLiteral_of_isScannedNumber hscanned h hat (ends_dot hends name)
  have hsource : (Scanner.scanTokens (memberSource (object ++ '.' :: name)).text.length
      { output := emptyOutput _ } (memberSource (object ++ '.' :: name)).text).1.output =
        scanSource (memberSource (object ++ '.' :: name)) := rfl
  rw [hsource] at hliteral
  rw [hliteral, semanticText_ofSpelling, String.toList_ofList]

/-- Behind an integer the dot is taken for a point. -/
theorem not_rescansAs_integer {object name : List Char} {value : Option Nat}
    (h : object = ['0'] ∨ IsSeparated 10 object ∧ object.head? ≠ some '0')
    (hascii : ∀ c ∈ object, isAscii c) : ¬ RescansAs object name value := by
  intro hrescans
  obtain ⟨text, previousToken, -, hat, -, hspan, -⟩ := hrescans.isScannedNumber
  obtain rfl := (isAt_memberSource (object ++ '.' :: name)).unique hat
  have hlt := lt_stop_integer_dot h hat previousToken
  have hstop := congrArg Span.stop hspan
  dsimp only at hstop hlt
  rw [← hstop, Scanner.utf8Length_of_isAscii hascii] at hlt
  omega

/-- A second dot behind a spelling that ends at a dot is no part of the number. -/
theorem not_rescansAs_extraDot {spelling name : List Char} {value : Option Nat}
    (h : IsSpelling spelling) (hends : EndsAtDot spelling) :
    ¬ RescansAs (spelling ++ ['.']) name value := by
  intro hrescans
  have hat := isAt_memberSource (spelling ++ ['.'] ++ '.' :: name)
  have hscanned := hrescans.isScannedNumber
  have htext : spelling ++ ['.'] ++ '.' :: name = spelling ++ '.' :: '.' :: name := by simp
  generalize hsource : memberSource (spelling ++ ['.'] ++ '.' :: name) = source at hat hscanned
  rw [htext] at hat
  obtain ⟨hstop, -⟩ := numberLiteral_of_isScannedNumber hscanned h hat (ends_dot hends _)
  simp only [utf8Length_append, Scanner.utf8Length_of_isAscii h.isAscii] at hstop
  have hdot : utf8Length ['.'] = 1 := rfl
  omega

/-- Infinity is no number token. -/
theorem not_rescansAs_infinity {behind name : List Char} {value : Option Nat} :
    ¬ RescansAs ("Infinity".toList ++ behind) name value := by
  intro hrescans
  obtain ⟨text, previousToken, ⟨c, rest, hc, hcases⟩, hat, -⟩ := hrescans.isScannedNumber
  have htext := (isAt_memberSource ("Infinity".toList ++ behind ++ '.' :: name)).unique hat
  obtain ⟨tail, htail⟩ : ∃ tail, "Infinity".toList ++ behind ++ '.' :: name = 'I' :: tail :=
    ⟨_, rfl⟩
  rw [← htext, htail] at hcases
  rcases hcases with heq | heq
  · obtain ⟨rfl, -⟩ := List.cons.inj heq
    cases hc
  · cases (List.cons.inj heq).1

end

/-! ## Numbers whose properties are scanned again -/

section

/-- The canonical text of a number with separators is that of its value. -/
@[reducible] def displayedNumbers [ShortestDigits] : NumberFormat where
  display raw := (parseNumberLiteral raw.toList).map fun number => String.ofList number.display

attribute [local instance] displayedNumbers

variable [UnicodeIdent] [ShortestDigits] (p : NumberPrinter) {raw : List Char}

omit [UnicodeIdent] in
/-- The text of a value is Infinity, or a spelling of it. -/
theorem javascriptNumberToString_cases {bits : Nat} (hle : bits ≤ binary64.infinity) :
    javascriptNumberToString false bits = "Infinity".toList ∨
      IsSpelling (javascriptNumberToString false bits) ∧
        numericValue (withoutSeparatorChars (javascriptNumberToString false bits)) = some bits := by
  rcases Nat.eq_zero_or_pos bits with rfl | hpos
  · have hzero : javascriptNumberToString false 0 = ['0'] := rfl
    have hspelling : IsSpelling (['0'] ++ ([] ++ [])) :=
      .decimal ⟨nofun, .inr (.inl rfl), .inl rfl, .inl rfl⟩
    have hvalue : numericValue (withoutSeparatorChars ['0']) = some 0 := by decide +kernel
    rw [hzero]
    exact .inr ⟨hspelling, hvalue⟩
  · rcases hle.eq_or_lt with rfl | hlt
    · left
      rw [javascriptNumberToString, if_neg hpos.ne', if_pos rfl]
    · right
      rw [javascriptNumberToString_false hpos hlt.ne]
      refine ⟨isSpelling_numberToString _, ?_⟩
      rw [withoutSeparatorChars, filter_numberToString, numericValue_numberToString,
        isRounded_shortest hpos hlt]

omit [UnicodeIdent] in
/-- What is written of a number is Infinity, or a spelling with its value. -/
theorem numberText_cases (h : IsSpelling raw) :
    (p.numberText (.ofSpelling raw)).toList = "Infinity".toList ∨
      IsSpelling (p.numberText (.ofSpelling raw)).toList ∧
        numericValue (withoutSeparatorChars (p.numberText (.ofSpelling raw)).toList) =
          numericValue (withoutSeparatorChars raw) := by
  obtain ⟨bits, hle, hvalue⟩ := h.exists_numericValue
  have hdisplay : NumberFormat.display (String.ofList raw) =
      some (String.ofList (javascriptNumberToString false bits)) := by
    change (parseNumberLiteral (String.ofList raw).toList).map _ = _
    have hparse : numericValue (raw.filter (· ≠ '_')) = some bits := hvalue
    rw [String.toList_ofList, parseNumberLiteral, hparse]
    rfl
  have hraw : IsSpelling (String.ofList raw).toList ∧
      numericValue (withoutSeparatorChars (String.ofList raw).toList) =
        numericValue (withoutSeparatorChars raw) := by
    rw [String.toList_ofList]
    exact ⟨h, rfl⟩
  unfold NumberPrinter.numberText NumberLiteral.ofSpelling
  simp only [hdisplay, Option.map_some]
  split_ifs with hseparated
  · cases hpreserve : p.preserveNumericSeparators && !p.emittingDeclaration with
    | true => exact .inr hraw
    | false =>
      have hcanonical := javascriptNumberToString_cases hle
      rw [← hvalue] at hcanonical
      simpa only [NumberLiteral.ofScanned, NumberLiteral.emitText, Bool.false_eq_true, if_false,
        String.toList_ofList] using hcanonical
  · exact .inr hraw

omit [UnicodeIdent] [ShortestDigits] in
theorem writeMemberObject_eq {object : Expression} {number : NumberLiteral}
    (hobject : ((erasedAssertionExpression object).getD object).kind = .literal (.number number)) :
    p.WritesExtraDot object number ∧
        p.writeMemberObject object = (p.numberText number).toList ++ ['.'] ∨
      ¬ p.WritesExtraDot object number ∧
        p.writeMemberObject object = (p.numberText number).toList := by
  have hwrite : p.writeExpression object precPostfix = (p.numberText number).toList := by
    simp only [NumberPrinter.writeExpression, hobject]
  rw [NumberPrinter.writeMemberObject, hwrite, erasedExpressionSeparatedNumber, hobject,
    NumberPrinter.WritesExtraDot]
  cases number with
  | plain raw => exact .inr ⟨fun h => Bool.false_ne_true h.1, List.append_nil _⟩
  | recovery literal => exact .inr ⟨fun h => Bool.false_ne_true h.1, List.append_nil _⟩
  | separated literal =>
    dsimp only
    split_ifs with hextra
    · exact .inl ⟨Bool.and_eq_true_iff.mp hextra, rfl⟩
    · exact .inr ⟨fun h => hextra (Bool.and_eq_true_iff.mpr h), List.append_nil _⟩

/-- A property of a number is scanned again just if the number is not written as Infinity and a
second dot is written exactly where the dot of the property would be taken for a point. -/
theorem writeMemberObject_rescans_iff {object : Expression} {name : List Char}
    (h : IsSpelling raw) (hname : IsIdentifierText name)
    (hobject : ((erasedAssertionExpression object).getD object).kind =
      .literal (.number (.ofSpelling raw))) :
    RescansAs (p.writeMemberObject object) name (numericValue (withoutSeparatorChars raw)) ↔
      p.numberText (.ofSpelling raw) ≠ "Infinity" ∧
        (p.WritesExtraDot object (.ofSpelling raw) ↔
          ¬ EndsAtDot (p.numberText (.ofSpelling raw)).toList) := by
  have hcases := numberText_cases p h
  have hwrites := writeMemberObject_eq p hobject
  generalize p.numberText (.ofSpelling raw) = text at hcases hwrites ⊢
  by_cases hinfinity : text = "Infinity"
  · refine iff_of_false ?_ fun hboth => hboth.1 hinfinity
    rw [hinfinity] at hwrites
    rcases hwrites with ⟨-, hwrites⟩ | ⟨-, hwrites⟩
    · rw [hwrites]
      exact not_rescansAs_infinity
    · rw [hwrites, ← List.append_nil "Infinity".toList]
      exact not_rescansAs_infinity
  · obtain ⟨hspelling, hvalue⟩ := hcases.resolve_left fun heq =>
      hinfinity (String.toList_inj.mp heq)
    rw [← hvalue]
    by_cases hends : EndsAtDot text.toList
    · rcases hwrites with ⟨hextra, hwrites⟩ | ⟨hextra, hwrites⟩
      · rw [hwrites]
        exact iff_of_false (not_rescansAs_extraDot hspelling hends) fun hboth =>
          hboth.2.mp hextra hends
      · rw [hwrites]
        exact iff_of_true (rescansAs_of_endsAtDot hspelling hends hname)
          ⟨hinfinity, iff_of_false hextra (not_not_intro hends)⟩
    · have hinteger := hspelling.integer_of_not_endsAtDot hends
      rcases hwrites with ⟨hextra, hwrites⟩ | ⟨hextra, hwrites⟩
      · rw [hwrites, ← numericValue_integer_dot hinteger]
        exact iff_of_true (rescansAs_of_endsAtDot (isSpelling_integer_dot hinteger)
          (.inr ⟨'.', by simp, .inl rfl⟩) hname) ⟨hinfinity, iff_of_true hextra hends⟩
      · rw [hwrites]
        exact iff_of_false (not_rescansAs_integer hinteger hspelling.isAscii) fun hboth =>
          hextra (hboth.2.mpr hends)

end

section

local instance asciiNames : UnicodeIdent := asciiIdent

attribute [local instance] displayedNumbers

theorem isIdentifierText_a : IsIdentifierText ['a'] where
  starts := rfl
  length := rfl
  noTrivia c hc := by
    obtain rfl := Option.some.inj hc
    rfl

/-- A printer of a source that does not keep separators. -/
def plainPrinter (text : List Char) : NumberPrinter where
  source := ⟨⟨0⟩, some "ts", text⟩
  preserveNumericSeparators := false
  emittingDeclaration := false
  writeOther _ _ := []

/-- A number at the start of a source. -/
def numberAt (raw : List Char) [NumberFormat] : Expression where
  id := ⟨0⟩
  span := ⟨⟨0⟩, 0, raw.length⟩
  kind := .literal (.number (.ofSpelling raw))

theorem ofSpelling_thousand {raw : List Char} (hseparated : raw.contains '_' = true)
    (hvalue : numericValue (raw.filter (· ≠ '_')) =
      some (binary64.round (inUnits (10 ^ (3 : Int))))) :
    letI := ShortestDigits.withPower 3
    NumberLiteral.ofSpelling raw =
      .separated ⟨String.ofList raw, "1000", (prefixedNumeric raw).isSome⟩ := by
  let := ShortestDigits.withPower 3
  have hround : 0 < binary64.round (inUnits (10 ^ (3 : Int))) ∧
      binary64.round (inUnits (10 ^ (3 : Int))) ≠ binary64.infinity := by decide +kernel
  have hdisplay : NumberFormat.display (String.ofList raw) = some "1000" := by
    change (parseNumberLiteral (String.ofList raw).toList).map _ = _
    rw [String.toList_ofList, parseNumberLiteral, hvalue, Option.map_some, Option.map_some,
      javascriptNumberToString_false hround.1 hround.2, ShortestDigits.shortest_withPower]
    decide
  unfold NumberLiteral.ofSpelling
  simp only [hseparated, if_true, hdisplay, Option.map_some]
  rfl

theorem isInteger_thousand : "1000".toList = ['0'] ∨
    IsSeparated 10 "1000".toList ∧ "1000".toList.head? ≠ some '0' :=
  .inr ⟨.next rfl (.next rfl (.next rfl (.digit rfl))), by decide⟩

/-- With a second dot behind its point a thousand is scanned again. -/
theorem rescansAs_thousand_dot :
    letI := ShortestDigits.withPower 3
    RescansAs ((plainPrinter "1_000..a".toList).writeMemberObject (numberAt "1_000.".toList)) ['a']
      (numericValue (withoutSeparatorChars "1_000.".toList)) := by
  let := ShortestDigits.withPower 3
  have hspelling : IsSpelling (['1', '_', '0', '0', '0'] ++ (['.'] ++ [])) :=
    .decimal ⟨nofun,
      .inr (.inr ⟨.separator rfl (.next rfl (.next rfl (.digit rfl))), by decide⟩),
      .inr ⟨[], .inl rfl, rfl⟩, .inl rfl⟩
  have hliteral : NumberLiteral.ofSpelling "1_000.".toList = .separated ⟨"1_000.", "1000", false⟩ :=
    ofSpelling_thousand rfl (by decide +kernel)
  refine (writeMemberObject_rescans_iff (plainPrinter "1_000..a".toList) hspelling
    isIdentifierText_a rfl).mpr ?_
  change (plainPrinter "1_000..a".toList).numberText (.ofSpelling "1_000.".toList) ≠ "Infinity" ∧
    ((plainPrinter "1_000..a".toList).WritesExtraDot (numberAt "1_000.".toList)
      (.ofSpelling "1_000.".toList) ↔ ¬ EndsAtDot
        ((plainPrinter "1_000..a".toList).numberText (.ofSpelling "1_000.".toList)).toList)
  rw [hliteral]
  exact ⟨by decide, iff_of_true ⟨by decide, by decide⟩ (not_endsAtDot_integer isInteger_thousand)⟩

/-- Behind a radix no second dot is written. -/
theorem not_rescansAs_thousand_radix :
    letI := ShortestDigits.withPower 3
    IsSpelling "0x3_e8".toList ∧
      (plainPrinter "0x3_e8.a".toList).writeMemberAccess (numberAt "0x3_e8".toList) ['a'] =
        "1000.a".toList ∧
      ¬ RescansAs ((plainPrinter "0x3_e8.a".toList).writeMemberObject (numberAt "0x3_e8".toList))
        ['a'] (numericValue (withoutSeparatorChars "0x3_e8".toList)) := by
  let := ShortestDigits.withPower 3
  have hliteral : NumberLiteral.ofSpelling "0x3_e8".toList = .separated ⟨"0x3_e8", "1000", true⟩ :=
    ofSpelling_thousand rfl (by decide +kernel)
  have hwrites : (plainPrinter "0x3_e8.a".toList).writeMemberObject (numberAt "0x3_e8".toList) =
      "1000".toList := by
    have hobject : ((erasedAssertionExpression (numberAt "0x3_e8".toList)).getD
        (numberAt "0x3_e8".toList)).kind =
          .literal (.number (.ofSpelling "0x3_e8".toList)) := rfl
    obtain ⟨hextra, -⟩ | ⟨-, hwrites⟩ := writeMemberObject_eq
      (plainPrinter "0x3_e8.a".toList) hobject
    · rw [NumberPrinter.WritesExtraDot, hliteral] at hextra
      exact absurd hextra.1 (by decide)
    · rw [hwrites, hliteral]
      rfl
  refine ⟨.prefixed rfl (.separator rfl (.next rfl (.digit rfl))), ?_, ?_⟩
  · rw [NumberPrinter.writeMemberAccess, hwrites]
    rfl
  · rw [hwrites]
    exact not_rescansAs_integer isInteger_thousand (List.all_eq_true.mp (by decide))

end

end Tsz.Emit
