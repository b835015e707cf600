import Tsz.Project.Jsonc.Normalize
import Tsz.Project.Jsonc.Serde

/-!
# Documents of configurations

The value of a configuration, and where its options and its references stand in the text, which is
found by a walk over the tokens.

## Main definitions

* `TokenWalk` — what the walk remembers.
* `ConfigSourceSpans.fromTokens` — the places that are found.
* `parseJsonc` — the document of a text.

## Main results

* `parseJsonc_document` — comments, whitespace and commas at the ends of lists are not read.
-/

namespace Tsz.Jsonc

open Tsz.Syntax
open Tsz.Project (Name)
open Tsz.Project.Config (Json TextRange ConfigOptionOccurrence JsoncDocument)

section

variable [SerdeJson]

structure ConfigSourceSpans where
  compilerOptions : List ConfigOptionOccurrence := []
  compilerOptionsKey : Option TextRange := none
  references : List TextRange := []

structure TokenWalk where
  spans : ConfigSourceSpans := {}
  objectDepth : Nat := 0
  arrayDepth : Nat := 0
  optionsSeen : Bool := false
  referencesSeen : Bool := false
  inOptions : Bool := false
  inReferences : Bool := false
  referenceStart : Option Nat := none

/-- The value in the normalized text from a token on, and its place. -/
def configValue (normalized : List Char) (token : Token) : Option (Json × TextRange) :=
  let start := token.span.start
  ((dropBytes start normalized).bind SerdeJson.nextValue).map fun (value, length) =>
    (value, (start, length))

def jsonTokenString (text : List Char) (token : Token) : Option Name :=
  if token.kind = .stringLiteral then
    SerdeJson.parseString ((jsoncSource text).sliceChars token.span)
  else none

namespace TokenWalk

variable (walk : TokenWalk)

/-- The key of an option. -/
def optionKey (normalized : List Char) (token : Token) (name : Name) (value : Option Token) :
    TokenWalk :=
  match value.bind (configValue normalized) with
  | some (value, range) =>
    let occurrence : ConfigOptionOccurrence :=
      ⟨name, value, ⟨(token.span.start, token.span.stop - token.span.start), some range⟩⟩
    { walk with
      spans :=
        { walk.spans with compilerOptions := walk.spans.compilerOptions ++ [occurrence] } }
  | none => walk

/-- A key of the configuration. -/
def configKey (token : Token) (name : Name) (value : Option Token) : TokenWalk :=
  let key :=
    if name = "compilerOptions".toList then
      walk.spans.compilerOptionsKey.or
        (some (token.span.start, token.span.stop - token.span.start))
    else walk.spans.compilerOptionsKey
  let walk : TokenWalk :=
    { walk with spans := { walk.spans with compilerOptionsKey := key } }
  let valueKind : Option TokenKind := value.map (·.kind)
  if !walk.optionsSeen ∧ name = "compilerOptions".toList ∧ valueKind = some .leftBrace then
    { walk with optionsSeen := true, inOptions := true }
  else if !walk.referencesSeen ∧ name = "references".toList ∧ valueKind = some .leftBracket then
    { walk with referencesSeen := true, inReferences := true }
  else walk

/-- A token, given those behind it. -/
def step (text normalized : List Char) (token : Token) (behind : List Token) : TokenWalk :=
  match token.kind with
  | .leftBrace =>
    { walk with
      referenceStart :=
        if walk.inReferences ∧ walk.objectDepth = 1 ∧ walk.arrayDepth = 1 then
          some token.span.start
        else walk.referenceStart
      objectDepth := walk.objectDepth + 1 }
  | .rightBrace =>
    let closesReference := walk.inReferences ∧ walk.objectDepth = 2 ∧ walk.arrayDepth = 1
    let reference := if closesReference then walk.referenceStart else none
    { walk with
      spans :=
        { walk.spans with
          references := walk.spans.references ++
            (reference.map fun start => (start, token.span.stop - start)).toList }
      referenceStart := if closesReference then none else walk.referenceStart
      inOptions := walk.inOptions && !(walk.objectDepth == 2 && walk.arrayDepth == 0)
      objectDepth := walk.objectDepth - 1 }
  | .leftBracket => { walk with arrayDepth := walk.arrayDepth + 1 }
  | .rightBracket =>
    { walk with
      inReferences := walk.inReferences && !(walk.objectDepth == 1 && walk.arrayDepth == 1)
      arrayDepth := walk.arrayDepth - 1 }
  | .stringLiteral =>
    if behind.head?.any (·.kind == .colon) then
      match jsonTokenString text token with
      | some name =>
        let value := behind.tail.head?
        if walk.inOptions ∧ walk.objectDepth = 2 ∧ walk.arrayDepth = 0 then
          walk.optionKey normalized token name value
        else if walk.objectDepth = 1 ∧ walk.arrayDepth = 0 then walk.configKey token name value
        else walk
      | none => walk
    else walk
  | _ => walk

def run (text normalized : List Char) : TokenWalk → List Token → TokenWalk
  | walk, [] => walk
  | walk, token :: tokens => run text normalized (walk.step text normalized token tokens) tokens

end TokenWalk

def ConfigSourceSpans.fromTokens (text normalized : List Char) (tokens : List Token) :
    ConfigSourceSpans :=
  (TokenWalk.run text normalized {} tokens).spans

variable [UnicodeIdent] [NumberFormat]

/-- The document of a text, if the text is read. The outer option is empty where the normalized
bytes are no text. -/
def parseJsonc (text : List Char) : Option (Option JsoncDocument) :=
  let tokens := (scanSource (jsoncSource text)).tokens
  (normalizeJsonc text tokens).map fun normalized =>
    (SerdeJson.parse (normalized.dropWhile (· == '\ufeff'))).map fun value =>
      let spans := ConfigSourceSpans.fromTokens text normalized tokens
      { value
        compilerOptions := spans.compilerOptions
        compilerOptionsKey := spans.compilerOptionsKey
        references := spans.references }

/-! ## What is read -/

omit [UnicodeIdent] [NumberFormat] in
/-- Spaces between the lexemes of JSON are not read. -/
def SerdeJson.IgnoresSpaces : Prop :=
  ∀ {value : Tree .value}, value.IsJson → ∀ n,
    SerdeJson.parse (value.text ++ List.replicate n ' ') =
      SerdeJson.parse (value.regap fun _ => 0).text

omit [UnicodeIdent] [NumberFormat] in
theorem SerdeJson.IsLawful.ignoresSpaces (h : SerdeJson.IsLawful) : SerdeJson.IgnoresSpaces := by
  intro value hvalue n
  have hplain := h.parse (Tree.isJson_regap (fun _ => 0) value) 0
  rw [List.replicate_zero, List.append_nil] at hplain
  rw [h.parse hvalue, hplain, readWithin_regap]

/-- The value of the document without whitespace, comments and commas at the ends of lists. -/
def Document.undecorated (d : Document) : List Char := (d.value.regap fun _ => 0).text

omit [SerdeJson] [UnicodeIdent] [NumberFormat] in
/-- A value does not start with a byte order mark. -/
theorem dropWhile_byteOrderMark {value : Tree .value} (h : value.IsJson) (rest : List Char) :
    (value.text ++ rest).dropWhile (· == '\ufeff') = value.text ++ rest := by
  obtain ⟨n, c, cs, htext, hascii, -⟩ := exists_spaces_value h
  have hc : c ≠ '\ufeff' := by
    rintro rfl
    cases hascii
  rw [htext]
  cases n with
  | zero => exact List.dropWhile_cons_of_neg (by simpa using hc)
  | succ n => exact List.dropWhile_cons_of_neg (by decide)

/-- A configuration is read as its value without comments, whitespace and commas at the ends of
lists. The text that is read is as long as the configuration and has its tokens at their places. -/
theorem parseJsonc_document (hident : SeparatesWords) (hserde : SerdeJson.IgnoresSpaces)
    (d : Document) :
    ∃ normalized,
      normalizeJsonc d.text (scanSource (jsoncSource d.text)).tokens = some normalized ∧
        KeepsTokens d.text normalized ∧
        (parseJsonc d.text).map (·.map (·.value)) = some (SerdeJson.parse d.undecorated) := by
  have hnormal := normalizeJsonc_document hident d
  refine ⟨_, hnormal, keepsTokens_regap hident d, ?_⟩
  have hjson := Tree.isJson_regap id d.value
  have hparse : SerdeJson.parse ((d.regap id).text.dropWhile (· == '\ufeff')) =
      SerdeJson.parse d.undecorated := by
    have htext : (d.regap id).text =
        (d.value.regap id).text ++ List.replicate (utf8Length d.after) ' ' := rfl
    rw [htext, dropWhile_byteOrderMark hjson, hserde hjson, Tree.regap_regap]
    rfl
  rw [parseJsonc, hnormal]
  simp only [Option.map_some, hparse]
  cases SerdeJson.parse d.undecorated <;> rfl

omit [SerdeJson] [UnicodeIdent] [NumberFormat] in
/-- The whitespace of Unicode is none of the characters the scanner adds to identifiers. -/
theorem separatesWords_ascii : @SeparatesWords asciiIdent := by
  intro c hc
  have hadditions : isAscii c = false → containsCode partAdditions c = false := by
    intro hascii
    rw [isTriviaWhitespace, hascii] at hc
    simp only [Bool.false_eq_true, if_false, isSingleLineWhitespace, isLineBreak,
      Bool.or_eq_true, Bool.and_eq_true, beq_iff_eq, decide_eq_true_eq,
      List.contains_iff_mem, List.mem_cons, List.not_mem_nil, or_false] at hc
    rcases hc with (hc | ⟨hlower, hupper⟩) | hc
    · rcases hc with rfl | rfl | rfl | rfl | rfl | rfl | rfl | rfl | rfl | rfl | rfl <;> rfl
    · simp only [containsCode, partAdditions, List.any_cons, List.any_nil, Bool.or_false,
        Bool.or_eq_false_iff, Bool.and_eq_false_iff, decide_eq_false_iff_not]
      omega
    · rcases hc with ((rfl | rfl) | rfl) | rfl <;> rfl
  unfold isIdentifierPartCharacter
  split
  · next hascii =>
    rw [isTriviaWhitespace, if_pos hascii] at hc
    simp only [List.contains_iff_mem, List.mem_cons, List.not_mem_nil, or_false] at hc
    rcases hc with rfl | rfl | rfl | rfl | rfl <;> rfl
  · next hascii =>
    rw [hadditions (by simpa using hascii)]
    exact Bool.and_false _

end

/-! ## A configuration -/

section

local instance plainJson : SerdeJson := plainSerde

local instance configurationIdent : UnicodeIdent := asciiIdent

local instance configurationFormat : NumberFormat := spelledNumbers

/-- A list of a string, with comments and commas at its end and in front of it. -/
def commentedDocument : Document where
  value :=
    .nested ⟨_, @IsGap.line [' ', 'c'] [] '\n' (by simp [isLineBreak]) rfl .nil⟩ .object
      (.member (.spaces 0) ⟨['a'], .character (by decide) (by decide) (by decide) .nil⟩ (.spaces 0)
        (.nested (.spaces 1) .array
          (.element
            (.string (.spaces 0)
              ⟨['/', ',', ']'], .character (by decide) (by decide) (by decide)
                (.character (by decide) (by decide) (by decide)
                  (.character (by decide) (by decide) (by decide) .nil))⟩)
            (.comma (.spaces 0) (.close ⟨_, @IsGap.block ['c'] [] (by decide) .nil⟩))))
        (.comma (.spaces 0) (.close (.spaces 0))))
  after := ['\n']
  isEnd := .gap (.whitespace rfl .nil)

theorem parseJsonc_commentedDocument :
    commentedDocument.text = "// c\n\x7b\"a\": [\"/,]\",/*c*/],\x7d\n".toList ∧
      commentedDocument.undecorated = "\x7b\"a\":[\"/,]\"]\x7d".toList ∧
      ∃ normalized, normalizeJsonc commentedDocument.text
          (scanSource (jsoncSource commentedDocument.text)).tokens = some normalized ∧
        KeepsTokens commentedDocument.text normalized ∧
        (parseJsonc commentedDocument.text).map (·.map (·.value)) =
          some (SerdeJson.parse commentedDocument.undecorated) :=
  ⟨by decide, by decide,
    parseJsonc_document separatesWords_ascii isLawful_plainSerde.ignoresSpaces commentedDocument⟩

end

end Tsz.Jsonc
