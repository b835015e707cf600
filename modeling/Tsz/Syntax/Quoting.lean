import Tsz.Syntax.Scanner.Rescan
import Tsz.Syntax.Scanner.Strings
import Tsz.Syntax.SourceUnit

/-!
# Quoting

A string in double quotes, with the characters escaped that may not stand in a literal.

## Main results

* `scanSource_quoteString` — a quoted string scans as one string token with that value.
-/

namespace Tsz.Syntax

def shortEscapes : List (Char × Char) :=
  [('\x08', 'b'), ('\t', 't'), ('\n', 'n'), ('\x0b', 'v'), ('\x0c', 'f'), ('\r', 'r'),
    ('\\', '\\'), ('"', '"')]

def upperHexDigit (digit : Nat) : Char :=
  if digit < 10 then Char.ofNat ('0'.toNat + digit) else Char.ofNat ('A'.toNat + digit - 10)

/-- Four hexadecimal digits. -/
def upperHex (value : Nat) : List Char :=
  [upperHexDigit (value / 4096 % 16), upperHexDigit (value / 256 % 16),
    upperHexDigit (value / 16 % 16), upperHexDigit (value % 16)]

/-- A character in a string, given the one behind it. -/
def quoteCharacter (c : Char) (next : Option Char) : List Char :=
  if c = '\x00' then if next.any Char.isDigit then ['\\', 'x', '0', '0'] else ['\\', '0']
  else
    match shortEscapes.lookup c with
    | some escaped => ['\\', escaped]
    | none =>
      if c ≤ '\x1f' ∨ c ∈ ['\u0085', '\u2028', '\u2029'] then '\\' :: 'u' :: upperHex c.toNat
      else [c]

def quoteCharacters : List Char → List Char
  | [] => []
  | c :: rest => quoteCharacter c rest.head? ++ quoteCharacters rest

def quoteString (value : String) : String :=
  String.ofList ('"' :: quoteCharacters value.toList ++ ['"'])

/-! ## Characters -/

theorem hexValue_upperHexDigit : ∀ digit < 16, hexValue (upperHexDigit digit) = some digit := by
  decide

theorem fixedHex_upperHex {value : Nat} (h : value < 65536) (offset : Nat) (rest : List Char) :
    fixedHex 4 0 offset (upperHex value ++ rest) = (some value, offset + 4, rest) := by
  simp only [upperHex, List.cons_append, List.nil_append, fixedHex,
    hexValue_upperHexDigit _ (Nat.mod_lt _ (by decide : 0 < 16))]
  congr 2
  omega

/-- How a quoted character is written: as it is, or as an escape that stands for it. -/
inductive Quoted (c : Char) (rest : List Char) : List Char → Prop
  | plain (h : IsStringCharacter '"' c) : Quoted c rest [c]
  | escaped {d : Char} {digits : List Char} (hd : d ≠ '\r')
      (hdigits : ∀ e ∈ digits, isHexDigit e)
      (hu : ¬ (d = 'u' ∧ digits = []))
      (hdecode : ∀ offset, ∃ next,
        decodeEscapeBody offset (d :: digits ++ rest) = (.codePoint c.toNat, next, rest)) :
      Quoted c rest ('\\' :: d :: digits)

theorem decodeEscapeBody_hex {value : Nat} (h : value < 65536) (offset : Nat) (rest : List Char) :
    decodeEscapeBody offset ('u' :: upperHex value ++ rest) =
      (.codePoint value, offset + 5, rest) := by
  have hbrace : upperHexDigit (value / 4096 % 16) ≠ '\x7b' := by
    have hdigit := hexValue_upperHexDigit (value / 4096 % 16) (Nat.mod_lt _ (by decide))
    intro hc
    rw [hc] at hdigit
    exact absurd hdigit (by simp [hexValue])
  have hescape : decodeEscapeBody offset ('u' :: upperHex value ++ rest) =
      fixedHexEscape 4 (offset + 1) (upperHex value ++ rest) := by
    have hcons : upperHex value ++ rest =
        upperHexDigit (value / 4096 % 16) :: ((upperHex value).tail ++ rest) := rfl
    rw [List.cons_append, hcons, decodeEscapeBody.eq_4 offset 'u' _ (by simp)
      (fun rest' _ hrest => hbrace (List.cons.inj hrest).1)]
    rfl
  rw [hescape, fixedHexEscape, fixedHex_upperHex h]

theorem isHexDigit_upperHex (value : Nat) : ∀ e ∈ upperHex value, isHexDigit e := by
  have hdigit (n : Nat) : isHexDigit (upperHexDigit (n % 16)) := by
    rw [isHexDigit, hexValue_upperHexDigit _ (Nat.mod_lt _ (by decide))]
    rfl
  intro e he
  simp only [upperHex, List.mem_cons, List.not_mem_nil, or_false] at he
  rcases he with rfl | rfl | rfl | rfl <;> exact hdigit _

theorem quoted_shortEscape {c d : Char} (h : shortEscapes.lookup c = some d) (rest : List Char) :
    Quoted c rest ['\\', d] := by
  have hmem : (c, d) ∈ shortEscapes := by
    obtain ⟨front, back, hlist, -⟩ := List.lookup_eq_some_iff.mp h
    simp [hlist]
  simp only [shortEscapes, List.mem_cons, Prod.mk.injEq, List.not_mem_nil, or_false] at hmem
  rcases hmem with ⟨rfl, rfl⟩ | ⟨rfl, rfl⟩ | ⟨rfl, rfl⟩ | ⟨rfl, rfl⟩ | ⟨rfl, rfl⟩ | ⟨rfl, rfl⟩ |
    ⟨rfl, rfl⟩ | ⟨rfl, rfl⟩ <;>
  exact .escaped (by decide) (by simp) (by simp) fun offset => ⟨_, rfl⟩

theorem quoted_quoteCharacter (c : Char) (next : Option Char) (rest : List Char)
    (hnext : rest.head?.any Char.isDigit → next.any Char.isDigit) :
    Quoted c rest (quoteCharacter c next) := by
  unfold quoteCharacter
  by_cases hzero : c = '\x00'
  · subst hzero
    rw [if_pos rfl]
    by_cases hdigit : next.any Char.isDigit
    · rw [if_pos hdigit]
      exact .escaped (by decide) (List.all_eq_true.mp (by decide)) (by decide)
        fun offset => ⟨_, rfl⟩
    · rw [if_neg hdigit]
      have hrest : rest.head?.any Char.isDigit = false := by simpa using mt hnext hdigit
      refine .escaped (by decide) (by simp) (by decide) fun offset => ⟨offset + 1, ?_⟩
      rw [List.singleton_append, decodeEscapeBody.eq_4 offset '0' rest (by simp) (by simp),
        if_neg (by decide), if_pos (by simp [hrest])]
      rfl
  rw [if_neg hzero]
  cases hlookup : shortEscapes.lookup c with
  | some escaped => exact quoted_shortEscape hlookup rest
  | none =>
    dsimp only
    split
    · rename_i hcontrol
      have hvalue : c.toNat < 65536 := by
        rcases hcontrol with hle | hmem
        · have hle : c.toNat ≤ '\x1f'.toNat := hle
          exact lt_of_le_of_lt hle (by decide)
        · simp only [List.mem_cons, List.not_mem_nil, or_false] at hmem
          rcases hmem with rfl | rfl | rfl <;> decide
      exact .escaped (by decide) (isHexDigit_upperHex _) (by simp [upperHex])
        fun offset => ⟨_, decodeEscapeBody_hex hvalue offset rest⟩
    · refine .plain ⟨?_, ?_, ?_, ?_⟩ <;> rintro rfl <;> simp [shortEscapes] at hlookup

/-! ## Strings -/

theorem head?_quoteCharacter (c : Char) (next : Option Char) :
    ∃ d rest, quoteCharacter c next = d :: rest ∧ (d = '\\' ∨ d = c) := by
  unfold quoteCharacter
  split
  · split <;> exact ⟨'\\', _, rfl, .inl rfl⟩
  · split
    · exact ⟨'\\', _, rfl, .inl rfl⟩
    · split
      · exact ⟨'\\', _, rfl, .inl rfl⟩
      · exact ⟨c, [], rfl, .inr rfl⟩

theorem isDigit_head?_quoteCharacters (value : List Char)
    (h : (quoteCharacters value).head?.any Char.isDigit) : value.head?.any Char.isDigit := by
  cases value with
  | nil => simp [quoteCharacters] at h
  | cons c value =>
    obtain ⟨d, rest, hcharacter, rfl | rfl⟩ := head?_quoteCharacter c value.head?
    · simp [quoteCharacters, hcharacter] at h
    · simpa [quoteCharacters, hcharacter] using h

theorem quoted_cons (c : Char) (value : List Char) :
    Quoted c (quoteCharacters value) (quoteCharacter c value.head?) :=
  quoted_quoteCharacter c value.head? _ (isDigit_head?_quoteCharacters value)

theorem probeString_quoteCharacters (value rest : List Char) :
    probeString '"' (quoteCharacters value ++ '"' :: rest) = ⟨quoteCharacters value, true, false⟩ := by
  induction value with
  | nil => exact probeString_quote (.inl rfl)
  | cons c value ih =>
    have hquoted := quoted_cons c value
    rw [quoteCharacters, List.append_assoc]
    generalize quoteCharacter c value.head? = spelled at hquoted
    cases hquoted with
    | plain h =>
      rw [List.singleton_append, probeString_character h, ih]
      rfl
    | @escaped d digits hd hdigits hu hdecode =>
      have hbrace : (d == 'u' && (digits ++ (quoteCharacters value ++ '"' :: rest)).head? ==
          some '\x7b') = false := by
        cases digits with
        | nil => simp [show d ≠ 'u' from fun h => hu ⟨h, rfl⟩]
        | cons e digits =>
          have he : e ≠ '\x7b' := by
            rintro rfl
            exact absurd (hdigits _ List.mem_cons_self) (by decide)
          simp [he]
      rw [List.cons_append, List.cons_append, probeString_escape '"' (fun h => hd h.1), hbrace,
        probeString_parts (.inl rfl) fun e he => .inl (hdigits e he), StringProbe.push_push, ih]
      rfl

theorem cookString_quoteCharacters (value : List Char) {fuel : Nat}
    (hfuel : (quoteCharacters value).length ≤ fuel) :
    cookString fuel (quoteCharacters value) = some (value.flatMap charUnits) := by
  induction value generalizing fuel with
  | nil => cases fuel <;> rfl
  | cons c value ih =>
    have hquoted := quoted_cons c value
    rw [quoteCharacters] at hfuel ⊢
    generalize quoteCharacter c value.head? = spelled at hquoted hfuel
    obtain ⟨fuel, rfl⟩ : ∃ n, fuel = n + 1 := by
      cases hquoted <;> exact ⟨fuel - 1, by simp at hfuel; omega⟩
    have hrest : cookString fuel (quoteCharacters value) = some (value.flatMap charUnits) := by
      refine ih ?_
      cases hquoted <;> simp at hfuel <;> omega
    cases hquoted with
    | plain h => simp [cookString, h.1, hrest]
    | escaped hd hdigits hu hdecode =>
      obtain ⟨next, hnext⟩ := hdecode 1
      rw [List.cons_append, cookString, if_pos rfl, decodeAuthoredEscape, List.tail_cons, hnext]
      simp [AuthoredEscape.units, hrest, charUnits]

theorem stringEscapeDiagnostics_character (source : SourceText) {c : Char} (h : c ≠ '\\')
    (fuel offset : Nat) (rest : List Char) :
    stringEscapeDiagnostics source (fuel + 1) offset (c :: rest) =
      stringEscapeDiagnostics source fuel (offset + c.utf8Size) rest :=
  if_neg h

/-- An escape that stands for a character is not reported. -/
theorem stringEscapeDiagnostics_escape (source : SourceText) {rest after : List Char}
    {offset next code : Nat}
    (h : decodeAuthoredEscape offset ('\\' :: rest) = (.codePoint code, next, after)) (fuel : Nat) :
    stringEscapeDiagnostics source (fuel + 1) offset ('\\' :: rest) =
      stringEscapeDiagnostics source fuel next after := by
  refine (if_pos rfl :
    stringEscapeDiagnostics source (fuel + 1) offset ('\\' :: rest) = _).trans ?_
  rw [h]
  rfl

theorem stringEscapeDiagnostics_quoteCharacters (source : SourceText) (value : List Char)
    (fuel offset : Nat) :
    stringEscapeDiagnostics source fuel offset (quoteCharacters value) = [] := by
  induction value generalizing fuel offset with
  | nil => cases fuel <;> rfl
  | cons c value ih =>
    have hquoted := quoted_cons c value
    rw [quoteCharacters]
    generalize quoteCharacter c value.head? = spelled at hquoted
    cases fuel with
    | zero => rfl
    | succ fuel =>
      cases hquoted with
      | plain h =>
        rw [List.singleton_append, stringEscapeDiagnostics_character source h.1, ih]
      | escaped hd hdigits hu hdecode =>
        obtain ⟨next, hnext⟩ := hdecode (offset + 1)
        rw [List.cons_append, stringEscapeDiagnostics_escape source hnext, ih]

theorem encodeUtf16_ofList (value : List Char) :
    encodeUtf16 (String.ofList value) = value.flatMap charUnits := by
  unfold encodeUtf16 charUnits codePointUnits
  simp [Nat.lt_succ_iff]

/-- A quoted string in front of any text is read as a terminated string with its value. -/
theorem scanString_quoteString (source : SourceText) (start : Nat) (value rest : List Char) :
    scanString source start '"' (quoteCharacters value ++ '"' :: rest) =
      { body := quoteCharacters value
        terminated := true
        diagnostics := []
        extendedLiteral := none
        cooked := some ⟨encodeUtf16 (String.ofList value)⟩ } := by
  unfold scanString
  rw [probeString_quoteCharacters]
  simp [stringEscapeDiagnostics_quoteCharacters, cookString_quoteCharacters value (Nat.le_refl _),
    encodeUtf16_ofList]

section

variable {source : SourceText} [UnicodeIdent] [NumberFormat]

omit [UnicodeIdent] [NumberFormat] in
theorem skipTrivia_quote (fuel : Nat) (s : Scanner source) (rest : List Char) :
    Scanner.skipTrivia fuel s ('"' :: rest) = (s, '"' :: rest) := by
  cases fuel with
  | zero => rfl
  | succ fuel => simp [Scanner.skipTrivia, isTriviaWhitespace, isAscii, List.dropWhile]

theorem scanToken_quote (s : Scanner source) (rest : List Char) :
    s.scanToken '"' rest = s.scanStringToken ('"' :: rest) '"' := by
  have hstart : startsIdentifier ('"' :: rest) = false := by
    simp [startsIdentifier, isIdentifierStartCharacter, isAscii, identifierEscapeAt]
  unfold Scanner.scanToken
  simp [hstart]

end

theorem toList_quoteString (value : String) :
    (quoteString value).toList = '"' :: (quoteCharacters value.toList ++ ['"']) := by
  simp [quoteString]

/-- A quoted string is one terminated string token, and the value of that token is the string. -/
theorem scanSource_quoteString [UnicodeIdent] [NumberFormat] (id : FileId)
    (extension : Option String) (value : String) :
    let source : SourceText := ⟨id, extension, (quoteString value).toList⟩
    let span : Span := ⟨id, 0, source.length⟩
    (scanSource source).tokens = [⟨.stringLiteral, span⟩, source.endToken] ∧
      (scanSource source).diagnostics = [] ∧
      (scanSource source).stringLiterals = [] ∧
      (scanSource source).cookedStringLiterals.map (fun literal => (literal.span, literal.cooked)) =
        [(span, ⟨encodeUtf16 value⟩)] := by
  intro source span
  let rest := quoteCharacters value.toList ++ ['"']
  let s : Scanner source := { output := emptyOutput source }
  have htext : source.text = '"' :: rest := toList_quoteString value
  have hstart : source.offsetOf ('"' :: rest) = 0 := by
    rw [← htext]
    exact Nat.sub_self _
  have hspan : source.spanBetween ('"' :: rest) [] = span := by
    rw [SourceText.spanBetween, hstart, SourceText.offsetOf_nil]
  -- the token takes the whole text
  have htoken : scanString source (source.offsetOf ('"' :: rest)) '"' rest = _ :=
    scanString_quoteString source _ value.toList []
  have hlength : (s.scanToken '"' rest).length = rest.length := by
    rw [scanToken_quote]
    simp only [Scanner.scanStringToken, List.tail_cons, htoken]
    simp [rest]
  have hafter : (s.scanOne '"' rest).2 = [] := by
    simp [Scanner.scanOne, hlength]
  have hscan : scanSource source = (s.scanOne '"' rest).1.output := by
    unfold scanSource
    rw [htext, List.length_cons, Scanner.scanTokens_of_skipTrivia (skipTrivia_quote _ s rest),
      hafter, Scanner.scanTokens_nil]
  rw [hscan]
  refine ⟨?_, ?_, ?_, ?_⟩
  · rw [ScanOutput.tokens, Scanner.body_scanOne, hafter, hspan, scanToken_quote]
    rfl
  · change (s.scanToken '"' rest).scanner.output.diagnostics = []
    rw [scanToken_quote]
    simp only [Scanner.scanStringToken, List.tail_cons, htoken]
    rfl
  · change (s.scanToken '"' rest).scanner.output.stringLiterals = []
    rw [scanToken_quote]
    simp only [Scanner.scanStringToken, List.tail_cons, htoken]
    rfl
  · change (s.scanToken '"' rest).scanner.output.cookedStringLiterals.map _ = _
    rw [scanToken_quote]
    simp only [Scanner.scanStringToken, List.tail_cons, htoken]
    simpa [s, emptyOutput, rest] using hspan

end Tsz.Syntax
