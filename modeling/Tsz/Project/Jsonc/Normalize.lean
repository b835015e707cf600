import Tsz.Project.Jsonc.Scan
import Tsz.Syntax.Coordinates

/-!
# Normalization of configurations

A configuration is read as JSON after its tokens have been copied into a buffer of spaces, and the
commas in front of closing brackets have been overwritten again.

## Main definitions

* `normalizeJsonc` — the text that is read as JSON.
* `withoutTrailingCommas` — the tokens that text keeps.

## Main results

* `normalizeJsonc_document` — the normalized text is the same value with spaces for its gaps.
* `keepsTokens_regap` — it has the same tokens at the same places.
-/

namespace Tsz.Jsonc

open Tsz.Syntax

/-! ## Buffers -/

/-- The byte `b' '`. -/
def spaceByte : UInt8 := 0x20

def utf8Bytes (text : List Char) : List UInt8 := text.flatMap String.utf8EncodeChar

/-- A buffer with other bytes from an offset on. -/
def overwrite (buffer : List UInt8) (start : Nat) (content : List UInt8) : List UInt8 :=
  buffer.take start ++ (content ++ buffer.drop (start + content.length))

/-- The buffer with a token of the text in it. -/
def copyToken (bytes buffer : List UInt8) (token : Token) : List UInt8 :=
  overwrite buffer token.span.start
    ((bytes.drop token.span.start).take (token.span.stop - token.span.start))

def isTrailingComma (token next : Token) : Bool :=
  token.kind == .comma && [.rightBrace, .rightBracket].contains next.kind

def blankComma (buffer : List UInt8) (pair : Token × Token) : List UInt8 :=
  if isTrailingComma pair.1 pair.2 then
    overwrite buffer pair.1.span.start
      (List.replicate (pair.1.span.stop - pair.1.span.start) spaceByte)
  else buffer

def normalizedBytes (text : List Char) (tokens : List Token) : List UInt8 :=
  let bytes := utf8Bytes text
  let normalized := tokens.foldl (copyToken bytes) (List.replicate bytes.length spaceByte)
  (tokens.zip tokens.tail).foldl blankComma normalized

/-- The normalized text, if its bytes are one. -/
def normalizeJsonc (text : List Char) (tokens : List Token) : Option (List Char) :=
  (normalizedBytes text tokens).toByteArray.utf8Decode?.map Array.toList

@[simp] theorem utf8Bytes_append (front back : List Char) :
    utf8Bytes (front ++ back) = utf8Bytes front ++ utf8Bytes back := List.flatMap_append

@[simp] theorem length_utf8Bytes (text : List Char) :
    (utf8Bytes text).length = utf8Length text := by
  induction text with
  | nil => rfl
  | cons c text ih =>
    rw [← List.singleton_append, utf8Bytes_append, List.length_append, ih, List.singleton_append,
      utf8Length]
    simp [utf8Bytes]

theorem utf8Bytes_spaces (n : Nat) :
    utf8Bytes (List.replicate n ' ') = List.replicate n spaceByte := by
  induction n with
  | zero => rfl
  | succ n ih =>
    rw [List.replicate_succ, ← List.singleton_append, utf8Bytes_append, ih, List.replicate_succ]
    rfl

theorem overwrite_append {front old : List UInt8} {content : List UInt8} (rest : List UInt8)
    (h : content.length = old.length) :
    overwrite (front ++ (old ++ rest)) front.length content = front ++ (content ++ rest) := by
  rw [overwrite, h, List.take_left, ← List.append_assoc front old, ← List.length_append,
    List.drop_left]

/-- The bytes of a text are decoded again. -/
theorem decode_utf8Bytes (text : List Char) :
    (utf8Bytes text).toByteArray.utf8Decode?.map Array.toList = some text := by
  have hencode : (utf8Bytes text).toByteArray = text.utf8Encode := rfl
  rw [hencode, List.utf8Decode?_utf8Encode]
  rfl

/-! ## Lexemes in a buffer -/

/-- The lexemes with spaces in front of them. -/
def blankGaps (pieces : List Piece) : List Char :=
  pieces.flatMap fun piece =>
    List.replicate (utf8Length piece.gap.text) ' ' ++ piece.lexeme.text

def Piece.isTrailing (piece : Piece) (pieces : List Piece) : Bool :=
  piece.lexeme.kind == .comma &&
    pieces.head?.any fun next => [.rightBrace, .rightBracket].contains next.lexeme.kind

/-- The lexemes with spaces in front of them and for the commas in front of closing brackets. -/
def normalText : List Piece → List Char
  | [] => []
  | piece :: pieces =>
    List.replicate (utf8Length piece.gap.text) ' ' ++
      ((if piece.isTrailing pieces then List.replicate (utf8Length piece.lexeme.text) ' '
        else piece.lexeme.text) ++ normalText pieces)

theorem slice_append {front middle : List UInt8} (rest : List UInt8) {start stop : Nat}
    (hstart : start = front.length) (hstop : stop = start + middle.length) :
    ((front ++ (middle ++ rest)).drop start).take (stop - start) = middle := by
  rw [hstart, List.drop_left, hstop, hstart, Nat.add_sub_cancel_left, List.take_left]

/-- Every token is copied to its place. -/
theorem foldl_copyToken {bytes front done : List UInt8} (pieces : List Piece) (after : List Char)
    (hbytes : bytes = front ++ utf8Bytes (render pieces ++ after)) {offset : Nat}
    (hfront : offset = front.length) (hdone : offset = done.length) :
    (tokensAt offset pieces).foldl (copyToken bytes)
        (done ++ List.replicate (utf8Length (render pieces ++ after)) spaceByte) =
      done ++ (utf8Bytes (blankGaps pieces) ++
        List.replicate (utf8Length after) spaceByte) := by
  induction pieces generalizing front done offset with
  | nil => rfl
  | cons piece pieces ih =>
    let gap := piece.gap.text
    let lexeme := piece.lexeme.text
    let rest := render pieces ++ after
    have hsplit : bytes = (front ++ utf8Bytes gap) ++ (utf8Bytes lexeme ++ utf8Bytes rest) := by
      simp [hbytes, gap, lexeme, rest]
    have hcopy : copyToken bytes
        (done ++ List.replicate (utf8Length (render (piece :: pieces) ++ after)) spaceByte)
        ⟨piece.lexeme.kind, ⟨⟨0⟩, offset + utf8Length gap,
          offset + utf8Length gap + utf8Length lexeme⟩⟩ =
        (done ++ (List.replicate (utf8Length gap) spaceByte ++ utf8Bytes lexeme)) ++
          List.replicate (utf8Length rest) spaceByte := by
      have hbuffer :
          done ++ List.replicate (utf8Length (render (piece :: pieces) ++ after)) spaceByte =
          (done ++ List.replicate (utf8Length gap) spaceByte) ++
            (List.replicate (utf8Length lexeme) spaceByte ++
              List.replicate (utf8Length rest) spaceByte) := by
        have hrender : render (piece :: pieces) ++ after = gap ++ (lexeme ++ rest) := by
          simp [gap, lexeme, rest]
        rw [hrender, utf8Length_append, utf8Length_append, List.replicate_add, List.replicate_add,
          List.append_assoc]
      have hstart : offset + utf8Length gap =
          (done ++ List.replicate (utf8Length gap) spaceByte).length := by simp [hdone]
      rw [copyToken, hsplit, slice_append _ (by simp [hfront]) (by simp), hbuffer, hstart,
        overwrite_append _ (by simp)]
      simp
    have hbytes' : bytes = (front ++ utf8Bytes gap ++ utf8Bytes lexeme) ++ utf8Bytes rest := by
      simp [hsplit]
    have hdone' : offset + utf8Length gap + utf8Length lexeme =
        (done ++ (List.replicate (utf8Length gap) spaceByte ++ utf8Bytes lexeme)).length := by
      simp [hdone, Nat.add_assoc]
    rw [tokensAt, List.foldl_cons, hcopy, ih hbytes' (by simp [hfront, Nat.add_assoc]) hdone']
    simp [blankGaps, utf8Bytes_spaces, gap, lexeme]

/-- The token behind a lexeme says whether the lexeme is a comma at the end of a list. -/
theorem exists_next (piece : Piece) (pieces : List Piece) (offset start stop : Nat) {last : Token}
    (hlast : last.kind = .endOfFile) :
    ∃ next tokens, tokensAt offset pieces ++ [last] = next :: tokens ∧
      isTrailingComma ⟨piece.lexeme.kind, ⟨⟨0⟩, start, stop⟩⟩ next = piece.isTrailing pieces := by
  cases pieces with
  | nil => exact ⟨last, [], rfl, by simp [isTrailingComma, Piece.isTrailing, hlast]⟩
  | cons next pieces => exact ⟨_, _, rfl, rfl⟩

/-- The commas at the ends of lists are overwritten. -/
theorem foldl_blankComma {done : List UInt8} (pieces : List Piece) (rest : List UInt8)
    {last : Token} (hlast : last.kind = .endOfFile) {offset : Nat} (hdone : offset = done.length) :
    ((tokensAt offset pieces ++ [last]).zip (tokensAt offset pieces ++ [last]).tail).foldl
        blankComma (done ++ (utf8Bytes (blankGaps pieces) ++ rest)) =
      done ++ (utf8Bytes (normalText pieces) ++ rest) := by
  induction pieces generalizing done offset with
  | nil => rfl
  | cons piece pieces ih =>
    let gap := utf8Length piece.gap.text
    let length := utf8Length piece.lexeme.text
    let lexeme := if piece.isTrailing pieces then List.replicate length ' ' else piece.lexeme.text
    have hlexeme : utf8Length lexeme = length := by
      simp only [lexeme]
      split
      · rw [← length_utf8Bytes, utf8Bytes_spaces, List.length_replicate]
      · rfl
    obtain ⟨next, tokens, hnext, htrailing⟩ :=
      exists_next piece pieces (offset + gap + length) (offset + gap) (offset + gap + length) hlast
    have hblank : blankComma (done ++ (utf8Bytes (blankGaps (piece :: pieces)) ++ rest))
        (⟨piece.lexeme.kind, ⟨⟨0⟩, offset + gap, offset + gap + length⟩⟩, next) =
        (done ++ (List.replicate gap spaceByte ++ utf8Bytes lexeme)) ++
          (utf8Bytes (blankGaps pieces) ++ rest) := by
      have hbuffer : done ++ (utf8Bytes (blankGaps (piece :: pieces)) ++ rest) =
          (done ++ List.replicate gap spaceByte) ++
            (utf8Bytes piece.lexeme.text ++ (utf8Bytes (blankGaps pieces) ++ rest)) := by
        simp [blankGaps, utf8Bytes_spaces, gap]
      have hstart : offset + gap = (done ++ List.replicate gap spaceByte).length := by simp [hdone]
      rw [blankComma, hbuffer, htrailing]
      simp only [lexeme]
      split
      · rw [hstart, overwrite_append _ (by simp [length]), utf8Bytes_spaces,
          Nat.add_sub_cancel_left, List.append_assoc, List.append_assoc, List.append_assoc]
      · simp
    have hdone' : offset + gap + length =
        (done ++ (List.replicate gap spaceByte ++ utf8Bytes lexeme)).length := by
      simp [hdone, hlexeme, Nat.add_assoc]
    have hih := ih hdone'
    rw [hnext, List.tail_cons] at hih
    rw [tokensAt, List.cons_append, List.tail_cons, hnext, List.zip_cons_cons, List.foldl_cons,
      hblank, hih]
    simp [normalText, utf8Bytes_spaces, gap, lexeme, length]

/-! ## Values with spaces -/

/-- The lexeme does not end a list. -/
def Lexeme.IsInner (lexeme : Lexeme) : Prop :=
  lexeme.kind ≠ .comma ∧ [TokenKind.rightBrace, .rightBracket].contains lexeme.kind = false ∧
    lexeme.kind ≠ .colon

theorem isInner_number {digits : List Char} (h : IsNumber digits) :
    (Lexeme.number digits h).IsInner := ⟨nofun, rfl, nofun⟩

theorem isInner_string (s : JsonString) : (Lexeme.string s).IsInner := ⟨nofun, rfl, nofun⟩

theorem isInner_word (w : Word) : (Lexeme.word w).IsInner := by
  cases w <;> exact ⟨nofun, rfl, nofun⟩

theorem isInner_opening (b : Bracket) : (Lexeme.mark b.opening).IsInner := by
  cases b <;> exact ⟨nofun, rfl, nofun⟩

theorem isInner_minus : (Lexeme.mark .minus).IsInner := ⟨nofun, rfl, nofun⟩

/-- A value starts with a lexeme that separates and ends nothing. -/
theorem exists_cons_value (t : Tree .value) :
    ∃ gap lexeme pieces, t.pieces = ⟨gap, lexeme⟩ :: pieces ∧ lexeme.IsInner := by
  cases t with
  | word gap w => exact ⟨_, _, _, rfl, isInner_word w⟩
  | number gap n =>
    rw [Tree.pieces]
    split
    · exact ⟨_, _, _, rfl, isInner_minus⟩
    · exact ⟨_, _, _, rfl, isInner_number _⟩
  | string gap s => exact ⟨_, _, _, rfl, isInner_string s⟩
  | nested gap b items => exact ⟨_, _, _, rfl, isInner_opening b⟩

/-- A comma in front of an entry is kept. -/
theorem isTrailing_comma {b : Bracket} {items : Tree (.items b)} (h : ∀ gap, items ≠ .close gap)
    (gap : Gap) (more : List Piece) :
    Piece.isTrailing ⟨gap, .mark .comma⟩ (items.pieces ++ more) = false := by
  cases items with
  | close gap' => exact absurd rfl (h gap')
  | element value tail =>
    obtain ⟨gap', lexeme, pieces, hpieces, -, hkind, -⟩ := exists_cons_value value
    rw [Tree.pieces, hpieces]
    simpa [Piece.isTrailing] using fun _ => hkind
  | member gap' key colon value tail => rfl

theorem isTrailing_close {b : Bracket} (gap gap' : Gap) (more : List Piece) :
    Piece.isTrailing ⟨gap, .mark .comma⟩ (⟨gap', .mark b.closing⟩ :: more) = true := by
  cases b <;> rfl

theorem normalText_of_ne {lexeme : Lexeme} (h : lexeme.kind ≠ .comma) (gap : Gap)
    (more : List Piece) :
    normalText (⟨gap, lexeme⟩ :: more) =
      List.replicate (utf8Length gap.text) ' ' ++ (lexeme.text ++ normalText more) := by
  have htrailing : Piece.isTrailing ⟨gap, lexeme⟩ more = false := by simp [Piece.isTrailing, h]
  rw [normalText, htrailing]
  rfl

theorem kind_closing_ne (b : Bracket) : (Lexeme.mark b.closing).kind ≠ .comma := by
  cases b <;> decide

/-- The commas at the ends of the lists of a value are blank, and so are the gaps. -/
theorem normalText_append {part : Part} (t : Tree part) (more : List Piece) :
    normalText (t.pieces ++ more) = render (t.regap id).pieces ++ normalText more := by
  induction t generalizing more with
  | word gap w =>
    rw [Tree.pieces, List.singleton_append, normalText_of_ne (isInner_word w).1]
    simp [Tree.regap, Tree.pieces, Gap.spaces]
  | number gap n =>
    rw [Tree.pieces, Tree.regap, Tree.pieces]
    split
    · rw [List.cons_append, List.singleton_append, normalText_of_ne isInner_minus.1,
        normalText_of_ne (isInner_number _).1]
      simp [Gap.spaces, utf8Length]
    · rw [List.singleton_append, normalText_of_ne (isInner_number _).1]
      simp [Gap.spaces]
  | string gap s =>
    rw [Tree.pieces, List.singleton_append, normalText_of_ne (isInner_string s).1]
    simp [Tree.regap, Tree.pieces, Gap.spaces]
  | nested gap b items ih =>
    rw [Tree.pieces, List.cons_append, normalText_of_ne (isInner_opening b).1, ih]
    simp [Tree.regap, Tree.pieces, Gap.spaces]
  | @close b gap =>
    rw [Tree.pieces, List.singleton_append, normalText_of_ne (kind_closing_ne b)]
    simp [Tree.regap, Tree.pieces, Gap.spaces]
  | element value tail ih ihtail =>
    rw [Tree.pieces, List.append_assoc, ih, ihtail, Tree.regap, Tree.pieces, render_append,
      List.append_assoc]
  | member gap key colon value tail ih ihtail =>
    rw [Tree.pieces, List.cons_append, List.cons_append, List.append_assoc,
      normalText_of_ne (isInner_string key).1, normalText_of_ne (by decide), ih, ihtail]
    simp [Tree.regap, Tree.pieces, Gap.spaces]
  | @stop b gap =>
    rw [Tree.pieces, List.singleton_append, normalText_of_ne (kind_closing_ne b)]
    simp [Tree.regap, Tree.pieces, Gap.spaces]
  | @comma b gap items ih =>
    by_cases h : ∃ gap, items = .close gap
    · obtain ⟨gap', rfl⟩ := h
      have hcomma : utf8Length (Lexeme.mark Mark.comma).text = 1 := rfl
      rw [Tree.pieces, Tree.pieces, List.cons_append, List.singleton_append, normalText,
        normalText_of_ne (kind_closing_ne b)]
      simp only [isTrailing_close, if_true, hcomma, Tree.regap, Tree.joined, Tree.pieces,
        Gap.spaces, id, List.replicate_add]
      simp
    · have hne := not_exists.mp h
      rw [Tree.pieces, List.cons_append, normalText, ih, Tree.regap, Tree.joined_of_ne id hne,
        Tree.pieces]
      simp [isTrailing_comma hne, Gap.spaces]

theorem copyToken_empty (bytes buffer : List UInt8) {token : Token}
    (h : token.span.start = token.span.stop) : copyToken bytes buffer token = buffer := by
  rw [copyToken, h, Nat.sub_self, List.take_zero, overwrite]
  exact List.take_append_drop _ _

/-- The normalized text is the same value with spaces for its gaps. -/
theorem normalizeJsonc_document [UnicodeIdent] [NumberFormat] (hident : SeparatesWords)
    (d : Document) :
    normalizeJsonc d.text (scanSource (jsoncSource d.text)).tokens = some (d.regap id).text := by
  let last := (jsoncSource d.text).endToken
  have htokens : (scanSource (jsoncSource d.text)).tokens =
      tokensAt 0 d.value.pieces ++ [last] := by
    rw [ScanOutput.tokens, body_document hident]
  have hbytes : utf8Bytes d.text = [] ++ utf8Bytes (render d.value.pieces ++ d.after) := rfl
  have hempty : 0 = ([] : List UInt8).length := rfl
  have hcopy := foldl_copyToken d.value.pieces d.after hbytes hempty hempty
  have hblank := foldl_blankComma d.value.pieces (List.replicate (utf8Length d.after) spaceByte)
    (show last.kind = .endOfFile from rfl) hempty
  have hnormal := normalText_append d.value []
  rw [List.append_nil, normalText, List.append_nil] at hnormal
  have hnormalized : normalizedBytes d.text (tokensAt 0 d.value.pieces ++ [last]) =
      utf8Bytes (d.regap id).text := by
    rw [normalizedBytes, List.foldl_append, List.foldl_cons, List.foldl_nil,
      copyToken_empty _ _ rfl, length_utf8Bytes]
    rw [List.nil_append, List.nil_append] at hcopy hblank
    have htext : utf8Length d.text = utf8Length (render d.value.pieces ++ d.after) := rfl
    rw [htext, hcopy, hblank, hnormal, ← utf8Bytes_spaces, ← utf8Bytes_append]
    rfl
  rw [htokens, normalizeJsonc, hnormalized, decode_utf8Bytes]

/-! ## Tokens that are kept -/

def withoutTrailingCommas : List Token → List Token
  | [] => []
  | token :: tokens =>
    if tokens.head?.any (isTrailingComma token) then withoutTrailingCommas tokens
    else token :: withoutTrailingCommas tokens

theorem any_isTrailingComma (piece : Piece) (pieces : List Piece) (offset start stop : Nat) :
    (tokensAt offset pieces).head?.any
        (isTrailingComma ⟨piece.lexeme.kind, ⟨⟨0⟩, start, stop⟩⟩) = piece.isTrailing pieces := by
  cases pieces with
  | nil => simp [tokensAt, Piece.isTrailing]
  | cons next pieces => rfl

theorem withoutTrailingCommas_cons (piece : Piece) (pieces : List Piece) (offset : Nat) :
    withoutTrailingCommas (tokensAt offset (piece :: pieces)) =
      (if piece.isTrailing pieces then []
        else [⟨piece.lexeme.kind, ⟨⟨0⟩, offset + utf8Length piece.gap.text,
          offset + utf8Length piece.gap.text + utf8Length piece.lexeme.text⟩⟩]) ++
        withoutTrailingCommas (tokensAt (offset + utf8Length piece.gap.text +
          utf8Length piece.lexeme.text) pieces) := by
  rw [tokensAt, withoutTrailingCommas, any_isTrailingComma]
  split <;> rfl

theorem withoutTrailingCommas_of_ne {lexeme : Lexeme} (h : lexeme.kind ≠ .comma) (gap : Gap)
    (more : List Piece) (offset : Nat) :
    withoutTrailingCommas (tokensAt offset (⟨gap, lexeme⟩ :: more)) =
      ⟨lexeme.kind, ⟨⟨0⟩, offset + utf8Length gap.text,
          offset + utf8Length gap.text + utf8Length lexeme.text⟩⟩ ::
        withoutTrailingCommas
          (tokensAt (offset + utf8Length gap.text + utf8Length lexeme.text) more) := by
  have htrailing : Piece.isTrailing ⟨gap, lexeme⟩ more = false := by simp [Piece.isTrailing, h]
  rw [withoutTrailingCommas_cons, htrailing]
  rfl

@[simp] theorem utf8Length_spaces (n : Nat) : utf8Length (List.replicate n ' ') = n := by
  rw [← length_utf8Bytes, utf8Bytes_spaces, List.length_replicate]

theorem tokensAt_append (front back : List Piece) (offset : Nat) :
    tokensAt offset (front ++ back) =
      tokensAt offset front ++ tokensAt (offset + utf8Length (render front)) back := by
  induction front generalizing offset with
  | nil => rfl
  | cons piece front ih =>
    rw [List.cons_append, tokensAt, tokensAt, ih, render_cons, utf8Length_append, utf8Length_append]
    simp [Nat.add_assoc]

/-- The normalized value is as long as the value. -/
theorem utf8Length_regap {part : Part} (t : Tree part) :
    utf8Length (t.regap id).text = utf8Length t.text := by
  induction t with
  | word gap w => simp [Tree.text, Tree.regap, Tree.pieces, Gap.spaces, utf8Length_append]
  | number gap n =>
    rw [Tree.text, Tree.text, Tree.regap, Tree.pieces, Tree.pieces]
    split <;> simp [Gap.spaces, utf8Length_append]
  | string gap s => simp [Tree.text, Tree.regap, Tree.pieces, Gap.spaces, utf8Length_append]
  | nested gap b items ih =>
    unfold Tree.text at ih ⊢
    simp [Tree.regap, Tree.pieces, Gap.spaces, utf8Length_append, ih]
  | close gap => simp [Tree.text, Tree.regap, Tree.pieces, Gap.spaces, utf8Length_append]
  | element value tail ih ihtail =>
    unfold Tree.text at ih ihtail ⊢
    simp [Tree.regap, Tree.pieces, utf8Length_append, ih, ihtail]
  | member gap key colon value tail ih ihtail =>
    unfold Tree.text at ih ihtail ⊢
    simp [Tree.regap, Tree.pieces, Gap.spaces, utf8Length_append, ih, ihtail]
  | stop gap => simp [Tree.text, Tree.regap, Tree.pieces, Gap.spaces, utf8Length_append]
  | comma gap items ih =>
    unfold Tree.text at ih ⊢
    by_cases h : ∃ gap, items = .close gap
    · obtain ⟨gap', rfl⟩ := h
      have hcomma : utf8Length (Lexeme.mark Mark.comma).text = 1 := rfl
      simp [Tree.regap, Tree.joined, Tree.pieces, Gap.spaces, utf8Length_append, hcomma]
      omega
    · rw [Tree.regap, Tree.joined_of_ne id (not_exists.mp h)]
      simp [Tree.pieces, Gap.spaces, utf8Length_append, ih]

/-- The tokens of the normalized value are those of the value without the commas at the ends of its
lists. -/
theorem withoutTrailingCommas_append {part : Part} (t : Tree part) (more : List Piece)
    (offset : Nat) :
    withoutTrailingCommas (tokensAt offset (t.pieces ++ more)) =
      tokensAt offset (t.regap id).pieces ++
        withoutTrailingCommas (tokensAt (offset + utf8Length t.text) more) := by
  induction t generalizing more offset with
  | word gap w =>
    rw [Tree.pieces, List.singleton_append, withoutTrailingCommas_of_ne (isInner_word w).1]
    simp [Tree.regap, Tree.pieces, Tree.text, tokensAt, Gap.spaces, utf8Length_append,
      Nat.add_assoc]
  | number gap n =>
    rw [Tree.text, Tree.pieces, Tree.regap, Tree.pieces]
    split
    · rw [List.cons_append, List.singleton_append, withoutTrailingCommas_of_ne isInner_minus.1,
        withoutTrailingCommas_of_ne (isInner_number _).1]
      simp [tokensAt, Gap.spaces, utf8Length_append, utf8Length, Nat.add_assoc]
    · rw [List.singleton_append, withoutTrailingCommas_of_ne (isInner_number _).1]
      simp [tokensAt, Gap.spaces, utf8Length_append, Nat.add_assoc]
  | string gap s =>
    rw [Tree.pieces, List.singleton_append, withoutTrailingCommas_of_ne (isInner_string s).1]
    simp [Tree.regap, Tree.pieces, Tree.text, tokensAt, Gap.spaces, utf8Length_append,
      Nat.add_assoc]
  | nested gap b items ih =>
    rw [Tree.pieces, List.cons_append, withoutTrailingCommas_of_ne (isInner_opening b).1, ih,
      Tree.regap, Tree.pieces]
    simp [Tree.pieces, Tree.text, tokensAt, Gap.spaces, utf8Length_append, Nat.add_assoc]
  | @close b gap =>
    rw [Tree.pieces, List.singleton_append, withoutTrailingCommas_of_ne (kind_closing_ne b)]
    simp [Tree.regap, Tree.pieces, Tree.text, tokensAt, Gap.spaces, utf8Length_append,
      Nat.add_assoc]
  | element value tail ih ihtail =>
    have hvalue : utf8Length (render (value.regap id).pieces) = utf8Length value.text :=
      utf8Length_regap value
    rw [Tree.pieces, List.append_assoc, ih, ihtail, Tree.regap, Tree.pieces, tokensAt_append,
      hvalue]
    simp [Tree.pieces, Tree.text, utf8Length_append, Nat.add_assoc]
  | member gap key colon value tail ih ihtail =>
    have hvalue : utf8Length (render (value.regap id).pieces) = utf8Length value.text :=
      utf8Length_regap value
    rw [Tree.pieces, List.cons_append, List.cons_append, List.append_assoc,
      withoutTrailingCommas_of_ne (isInner_string key).1, withoutTrailingCommas_of_ne (by decide),
      ih, ihtail, Tree.regap, Tree.pieces, tokensAt, tokensAt,
      tokensAt_append, hvalue]
    simp [Tree.pieces, Tree.text, Gap.spaces, utf8Length_append, Nat.add_assoc]
  | @stop b gap =>
    rw [Tree.pieces, List.singleton_append, withoutTrailingCommas_of_ne (kind_closing_ne b)]
    simp [Tree.regap, Tree.pieces, Tree.text, tokensAt, Gap.spaces, utf8Length_append,
      Nat.add_assoc]
  | @comma b gap items ih =>
    by_cases h : ∃ gap, items = .close gap
    · obtain ⟨gap', rfl⟩ := h
      have hcomma : utf8Length (Lexeme.mark Mark.comma).text = 1 := rfl
      rw [Tree.pieces, Tree.pieces, List.cons_append, List.singleton_append,
        withoutTrailingCommas_cons, isTrailing_close,
        withoutTrailingCommas_of_ne (kind_closing_ne b)]
      simp [Tree.regap, Tree.joined, Tree.pieces, Tree.text, tokensAt, Gap.spaces,
        utf8Length_append, hcomma, Nat.add_assoc]
    · have hne := not_exists.mp h
      rw [Tree.pieces, List.cons_append, withoutTrailingCommas_cons, isTrailing_comma hne, ih,
        Tree.regap, Tree.joined_of_ne id hne, Tree.pieces]
      simp [Tree.text, Tree.pieces, tokensAt, Gap.spaces, utf8Length_append, Nat.add_assoc]

theorem sliceChars_append {text front middle rest : List Char}
    (h : text = front ++ (middle ++ rest)) {span : Span} (hstart : span.start = utf8Length front)
    (hstop : span.stop = span.start + utf8Length middle) :
    (jsoncSource text).sliceChars span = middle := by
  rw [SourceText.sliceChars, hstop, Nat.add_sub_cancel_left, hstart, jsoncSource]
  simp only [h, dropBytes_append, takeBytes_append, Option.getD_some]

/-- The tokens that are kept have the same characters. -/
theorem sliceChars_normalText (front front' : List Char) (pieces : List Piece)
    (after after' : List Char) {offset : Nat} (hfront : offset = utf8Length front)
    (hfront' : offset = utf8Length front') {text text' : List Char}
    (htext : text = front ++ (render pieces ++ after))
    (htext' : text' = front' ++ (normalText pieces ++ after')) :
    ∀ token ∈ withoutTrailingCommas (tokensAt offset pieces),
      (jsoncSource text').sliceChars token.span = (jsoncSource text).sliceChars token.span := by
  induction pieces generalizing front front' offset with
  | nil => simp [tokensAt, withoutTrailingCommas]
  | cons piece pieces ih =>
    let gap := utf8Length piece.gap.text
    have hbehind : ∀ token ∈ withoutTrailingCommas
        (tokensAt (offset + gap + utf8Length piece.lexeme.text) pieces),
        (jsoncSource text').sliceChars token.span = (jsoncSource text).sliceChars token.span := by
      refine ih (front ++ (piece.gap.text ++ piece.lexeme.text))
        (front' ++ (List.replicate gap ' ' ++ if piece.isTrailing pieces then
          List.replicate (utf8Length piece.lexeme.text) ' ' else piece.lexeme.text)) ?_ ?_ ?_ ?_
      · simp [hfront, utf8Length_append, gap, Nat.add_assoc]
      · rw [utf8Length_append, utf8Length_append]
        split <;> simp [hfront', gap, Nat.add_assoc]
      · simp [htext]
      · simp [htext', normalText, gap]
    rw [withoutTrailingCommas_cons]
    intro token htoken
    rcases List.mem_append.mp htoken with htoken | htoken
    · split at htoken
      · cases htoken
      · next hkept =>
        obtain rfl := List.mem_singleton.mp htoken
        have hlexeme : text = (front ++ piece.gap.text) ++
            (piece.lexeme.text ++ (render pieces ++ after)) := by simp [htext]
        have hlexeme' : text' = (front' ++ List.replicate gap ' ') ++
            (piece.lexeme.text ++ (normalText pieces ++ after')) := by
          simp [htext', normalText, hkept, gap]
        rw [sliceChars_append hlexeme (by simp [hfront, utf8Length_append]) rfl,
          sliceChars_append hlexeme' (by simp [hfront', utf8Length_append, gap]) rfl]
    · exact hbehind token htoken

/-- A text has the tokens of another one where they stand, with the same characters. The commas at
the ends of lists are left out. -/
structure KeepsTokens [UnicodeIdent] [NumberFormat] (text normalized : List Char) : Prop where
  length : utf8Length normalized = utf8Length text
  tokens : (scanSource (jsoncSource normalized)).body =
    withoutTrailingCommas (scanSource (jsoncSource text)).body
  slices : ∀ token ∈ (scanSource (jsoncSource normalized)).body,
    (jsoncSource normalized).sliceChars token.span = (jsoncSource text).sliceChars token.span

theorem keepsTokens_regap [UnicodeIdent] [NumberFormat] (hident : SeparatesWords) (d : Document) :
    KeepsTokens d.text (d.regap id).text := by
  have htokens : (scanSource (jsoncSource (d.regap id).text)).body =
      withoutTrailingCommas (scanSource (jsoncSource d.text)).body := by
    have happend := withoutTrailingCommas_append d.value [] 0
    rw [List.append_nil, tokensAt, withoutTrailingCommas, List.append_nil] at happend
    rw [body_document hident, body_document hident, happend]
    rfl
  refine ⟨?_, htokens, ?_⟩
  · have hvalue := utf8Length_regap d.value
    simp [Document.text, Document.regap, utf8Length_append, hvalue]
  · have hnormal := normalText_append d.value []
    rw [List.append_nil, normalText, List.append_nil] at hnormal
    rw [htokens, body_document hident]
    exact sliceChars_normalText [] [] d.value.pieces d.after (d.regap id).after rfl rfl rfl
      (by rw [hnormal]; rfl)

end Tsz.Jsonc
