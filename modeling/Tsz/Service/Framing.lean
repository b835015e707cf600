import Tsz.Numeric.Decimals
import Tsz.Project.Jsonc.Normalize
import Tsz.Project.Jsonc.Serde
import Tsz.Project.ConfigLoading
import Tsz.Text

/-!
# Framed messages

A message is written behind a header that tells its length. Other header lines are not looked at.

## Main definitions

* `readFramedMessage`, `writeFramedMessage`.
* `Frame` — a message behind lines of a header.
* `plainCodec` — values as compact texts.

## Main results

* `readFramedMessage_frame` — the message of a frame is read, and nothing behind it.
-/

namespace Tsz.Service

open Decimals (number number_toDigits isDigits_toDigits)
open Tsz.Jsonc (SerdeJson plainSerde utf8Bytes utf8Bytes_append length_utf8Bytes decode_utf8Bytes)
open Tsz.Project (Name)
open Tsz.Project.Config (Json)

/-- How values are written as bytes and read, and which numbers are zero. -/
class JsonCodec where
  toVec : Json → List UInt8
  fromSlice : List UInt8 → Option Json
  isZero : Name → Bool

/-- Why reading ends; the source panics where no buffer has the capacity. -/
inductive ReadError
  | invalidUtf8 | invalidLength | missingLength | capacityOverflow | truncatedBody | invalidJson
deriving DecidableEq

/-! ## Lines -/

def lineFeed : UInt8 := 0x0a

/-- A line with its line feed, and what is behind it. -/
def readLine : List UInt8 → List UInt8 × List UInt8
  | [] => ([], [])
  | byte :: rest =>
    if byte = lineFeed then ([byte], rest) else (byte :: (readLine rest).1, (readLine rest).2)

theorem length_readLine_lt (byte : UInt8) (rest : List UInt8) :
    (readLine (byte :: rest)).2.length < (byte :: rest).length := by
  induction rest generalizing byte with
  | nil =>
    rw [readLine]
    split <;> simp [readLine]
  | cons other rest ih =>
    rw [readLine]
    split
    · simp
    · have hlt := ih other
      simp only [List.length_cons] at hlt ⊢
      omega

/-- A number of 64 bits. -/
def parseUsize (text : List Char) : Option Nat :=
  let digits := if text.head? = some '+' then text.tail else text
  if digits ≠ [] ∧ digits.all Char.isDigit ∧ number digits < 2 ^ 64 then some (number digits)
  else none

def contentLengthHeader : List Char := "Content-Length:".toList

/-- The length that is known behind a line of the header. -/
def headerLength (contentLength : Option Nat) (line : List Char) : Option (Option Nat) :=
  match (stripPrefix contentLengthHeader (trim line)).map trim with
  | some value => (parseUsize value).map some
  | none => some contentLength

/-! ## Messages -/

def readHeaders (contentLength : Option Nat) (input : List UInt8) :
    Except ReadError (Option (Option Nat × List UInt8)) :=
  match input with
  | [] => .ok none
  | byte :: more =>
    match (readLine (byte :: more)).1.toByteArray.utf8Decode?.map Array.toList with
    | none => .error .invalidUtf8
    | some line =>
      if line = ['\r', '\n'] ∨ line = ['\n'] then
        .ok (some (contentLength, (readLine (byte :: more)).2))
      else
        match headerLength contentLength line with
        | some contentLength => readHeaders contentLength (readLine (byte :: more)).2
        | none => .error .invalidLength
termination_by input.length
decreasing_by exact length_readLine_lt byte more

def readBody (length : Nat) (input : List UInt8) : Except ReadError (List UInt8 × List UInt8) :=
  if 2 ^ 63 ≤ length then .error .capacityOverflow
  else if input.length < length then .error .truncatedBody
  else .ok (input.take length, input.drop length)

variable [JsonCodec]

/-- The next message and what is behind it, unless the input ends in front of it. -/
def readFramedMessage (input : List UInt8) : Except ReadError (Option (Json × List UInt8)) := do
  match ← readHeaders none input with
  | none => .ok none
  | some (none, _) => .error .missingLength
  | some (some length, rest) =>
    let (body, rest) ← readBody length rest
    match JsonCodec.fromSlice body with
    | some message => .ok (some (message, rest))
    | none => .error .invalidJson

def writeFramedMessage (message : Json) : List UInt8 :=
  let body := JsonCodec.toVec message
  utf8Bytes ("Content-Length: ".toList ++ Nat.toDigits 10 body.length ++ "\r\n\r\n".toList) ++ body

omit [JsonCodec] in
theorem length_readHeaders {contentLength : Option Nat} {input : List UInt8}
    {known : Option Nat} {rest : List UInt8}
    (h : readHeaders contentLength input = .ok (some (known, rest))) :
    rest.length < input.length := by
  fun_induction readHeaders contentLength input with
  | case1 contentLength => cases h
  | case2 contentLength byte more hbytes => cases h
  | case3 contentLength byte more line hbytes hblank =>
    cases h
    exact length_readLine_lt byte more
  | case4 contentLength byte more line hbytes hblank known' hlength ih =>
    exact (ih h).trans (length_readLine_lt byte more)
  | case5 contentLength byte more line hbytes hblank hlength => cases h

/-- A message that is read leaves less of the input. -/
theorem length_readFramedMessage {input rest : List UInt8} {message : Json}
    (h : readFramedMessage input = .ok (some (message, rest))) : rest.length < input.length := by
  unfold readFramedMessage at h
  cases hheaders : readHeaders none input with
  | error error =>
    rw [hheaders] at h
    cases h
  | ok headers =>
    rw [hheaders] at h
    match headers, h with
    | some (some length, behind), h =>
      have hlt := length_readHeaders hheaders
      simp only [bind, Except.bind, readBody] at h
      split at h
      · cases h
      · next body hbody =>
        split_ifs at hbody
        obtain rfl := Except.ok.inj hbody
        dsimp only at h
        split at h
        · obtain ⟨rfl, rfl⟩ := Prod.mk.inj (Option.some.inj (Except.ok.inj h))
          rw [List.length_drop]
          omega
        · cases h

/-! ## Frames -/

/-- A message behind lines of a header, the last of which is empty up to a carriage return. -/
structure Frame where
  lines : List (List Char)
  carriageReturn : Bool
  body : List UInt8
  isLine : ∀ line ∈ lines, '\n' ∉ line ∧ line ≠ [] ∧ line ≠ ['\r']
  isLength : lines.foldlM (fun length line => headerLength length (line ++ ['\n'])) none =
    some (some body.length)
  bounded : body.length < 2 ^ 63

namespace Frame

def emptyLine (frame : Frame) : List Char := if frame.carriageReturn then ['\r'] else []

def bytes (frame : Frame) : List UInt8 :=
  (frame.lines ++ [frame.emptyLine]).flatMap (fun line => utf8Bytes (line ++ ['\n'])) ++ frame.body

end Frame

omit [JsonCodec] in
/-- The byte of a line feed is in no other character. -/
theorem not_mem_utf8EncodeChar {c : Char} (h : c ≠ '\n') :
    lineFeed ∉ String.utf8EncodeChar c := by
  intro hmem
  obtain ⟨i, hi, hget⟩ := List.getElem_of_mem hmem
  have hencode : [c].utf8Encode = (String.utf8EncodeChar c).toByteArray := List.utf8Encode_singleton
  have hsize : i < [c].utf8Encode.size := by
    rw [hencode]
    simpa using hi
  have hfirst : ([c].utf8Encode[i]).IsUTF8FirstByte := by
    have hbyte : [c].utf8Encode[i] = lineFeed := by
      simp only [hencode]
      simpa using hget
    rw [hbyte]
    decide
  obtain rfl : i = 0 := List.isUTF8FirstByte_getElem_utf8Encode_singleton.mp hfirst
  obtain ⟨rest, hrest⟩ : ∃ rest, String.utf8EncodeChar c = lineFeed :: rest := by
    cases hc : String.utf8EncodeChar c with
    | nil =>
      rw [hc] at hi
      cases hi
    | cons byte rest =>
      simp only [hc, List.getElem_cons_zero] at hget
      exact ⟨rest, by rw [hget]⟩
  have happend : ['\n'].utf8Encode ++ rest.toByteArray = [c].utf8Encode := by
    have hcons : lineFeed :: rest = [lineFeed] ++ rest := rfl
    rw [hencode, hrest, hcons, List.toByteArray_append]
    rfl
  have hpre := List.isPrefix_of_utf8Encode_append_eq_utf8Encode _ happend
  exact h (by simpa using hpre : '\n' = c).symm

omit [JsonCodec] in
theorem not_mem_utf8Bytes {line : List Char} (h : '\n' ∉ line) : lineFeed ∉ utf8Bytes line := by
  intro hmem
  obtain ⟨c, hc, hbyte⟩ := List.mem_flatMap.mp hmem
  exact not_mem_utf8EncodeChar (fun heq => h (heq ▸ hc)) hbyte

omit [JsonCodec] in
theorem readLine_append {front : List UInt8} (h : lineFeed ∉ front) (rest : List UInt8) :
    readLine (front ++ lineFeed :: rest) = (front ++ [lineFeed], rest) := by
  induction front with
  | nil => simp [readLine]
  | cons byte front ih =>
    obtain ⟨hbyte, hfront⟩ : lineFeed ≠ byte ∧ lineFeed ∉ front := by simpa using h
    rw [List.cons_append, readLine, if_neg (Ne.symm hbyte), ih hfront]
    rfl

omit [JsonCodec] in
theorem readLine_line {line : List Char} (h : '\n' ∉ line) (rest : List UInt8) :
    readLine (utf8Bytes (line ++ ['\n']) ++ rest) = (utf8Bytes (line ++ ['\n']), rest) := by
  have hfeed : utf8Bytes ['\n'] = [lineFeed] := rfl
  rw [utf8Bytes_append, hfeed, List.append_assoc]
  exact readLine_append (not_mem_utf8Bytes h) rest

omit [JsonCodec] in
theorem readHeaders_line {line : List Char} (h : '\n' ∉ line ∧ line ≠ [] ∧ line ≠ ['\r'])
    {contentLength known : Option Nat}
    (hlength : headerLength contentLength (line ++ ['\n']) = some known) (rest : List UInt8) :
    readHeaders contentLength (utf8Bytes (line ++ ['\n']) ++ rest) = readHeaders known rest := by
  obtain ⟨hline, hempty, hreturn⟩ := h
  have hread := readLine_line hline rest
  have hblank : ¬ (line ++ ['\n'] = ['\r', '\n'] ∨ line ++ ['\n'] = ['\n']) := by
    rintro (heq | heq)
    · exact hreturn (List.append_cancel_right (heq : line ++ ['\n'] = ['\r'] ++ ['\n']))
    · exact hempty (List.append_cancel_right (heq : line ++ ['\n'] = [] ++ ['\n']))
  obtain ⟨byte, more, hbytes⟩ : ∃ byte more,
      utf8Bytes (line ++ ['\n']) ++ rest = byte :: more := by
    refine List.exists_cons_of_ne_nil fun hnil => ?_
    rw [utf8Bytes_append] at hnil
    exact absurd (List.append_eq_nil_iff.mp (List.append_eq_nil_iff.mp hnil).1).2 (by decide)
  rw [hbytes] at hread ⊢
  rw [readHeaders, hread]
  simp only [decode_utf8Bytes, hblank, if_false, hlength]

omit [JsonCodec] in
theorem readHeaders_emptyLine {line : List Char} (h : line = ['\r'] ∨ line = [])
    (contentLength : Option Nat) (rest : List UInt8) :
    readHeaders contentLength (utf8Bytes (line ++ ['\n']) ++ rest) =
      .ok (some (contentLength, rest)) := by
  have hline : '\n' ∉ line := by rcases h with rfl | rfl <;> decide
  have hread := readLine_line hline rest
  have hblank : line ++ ['\n'] = ['\r', '\n'] ∨ line ++ ['\n'] = ['\n'] := by
    rcases h with rfl | rfl
    · exact .inl rfl
    · exact .inr rfl
  obtain ⟨byte, more, hbytes⟩ : ∃ byte more,
      utf8Bytes (line ++ ['\n']) ++ rest = byte :: more := by
    rcases h with rfl | rfl <;> exact ⟨_, _, rfl⟩
  rw [hbytes] at hread ⊢
  rw [readHeaders, hread]
  simp only [decode_utf8Bytes, hblank, if_true]

omit [JsonCodec] in
theorem readHeaders_lines {lines : List (List Char)}
    (h : ∀ line ∈ lines, '\n' ∉ line ∧ line ≠ [] ∧ line ≠ ['\r']) {contentLength known : Option Nat}
    (hlength : lines.foldlM (fun length line => headerLength length (line ++ ['\n']))
      contentLength = some known) (rest : List UInt8) :
    readHeaders contentLength (lines.flatMap (fun line => utf8Bytes (line ++ ['\n'])) ++ rest) =
      readHeaders known rest := by
  induction lines generalizing contentLength with
  | nil =>
    obtain rfl := Option.some.inj hlength
    rfl
  | cons line lines ih =>
    obtain ⟨hline, hlines⟩ := List.forall_mem_cons.mp h
    rw [List.foldlM_cons] at hlength
    obtain ⟨next, hnext, hlength⟩ := Option.bind_eq_some_iff.mp hlength
    rw [List.flatMap_cons, List.append_assoc, readHeaders_line hline hnext, ih hlines hlength]

/-- The message of a frame is read, and nothing behind it. -/
theorem readFramedMessage_frame (frame : Frame) (rest : List UInt8) :
    readFramedMessage (frame.bytes ++ rest) =
      match JsonCodec.fromSlice frame.body with
      | some message => .ok (some (message, rest))
      | none => .error .invalidJson := by
  have hempty : frame.emptyLine = ['\r'] ∨ frame.emptyLine = [] := by
    unfold Frame.emptyLine
    split
    · exact .inl rfl
    · exact .inr rfl
  have hheaders : readHeaders none (frame.bytes ++ rest) =
      .ok (some (some frame.body.length, frame.body ++ rest)) := by
    rw [Frame.bytes, List.flatMap_append, List.append_assoc, List.append_assoc,
      readHeaders_lines frame.isLine frame.isLength, List.flatMap_singleton,
      readHeaders_emptyLine hempty]
  have hbody : readBody frame.body.length (frame.body ++ rest) = .ok (frame.body, rest) := by
    have hbounded := frame.bounded
    rw [readBody, if_neg (by omega), if_neg (by simp), List.take_left, List.drop_left]
  rw [readFramedMessage, hheaders]
  simp only [bind, Except.bind, hbody]

/-! ## Written messages -/

omit [JsonCodec] in
theorem parseUsize_toDigits {n : Nat} (h : n < 2 ^ 64) :
    parseUsize (Nat.toDigits 10 n) = some n := by
  have hdigits := isDigits_toDigits n
  have hhead : (Nat.toDigits 10 n).head? ≠ some '+' := by
    intro hplus
    exact absurd (hdigits '+' (List.mem_of_head? hplus)) (by decide)
  rw [parseUsize, if_neg hhead, number_toDigits,
    if_pos ⟨Nat.toDigits_ne_nil, List.all_eq_true.mpr hdigits, h⟩]

def lengthLine (n : Nat) : List Char :=
  contentLengthHeader ++ ' ' :: (Nat.toDigits 10 n ++ ['\r'])

omit [JsonCodec] in
theorem headerLength_lengthLine {n : Nat} (h : n < 2 ^ 64) (known : Option Nat) :
    headerLength known (lengthLine n ++ ['\n']) = some (some n) := by
  have hne : Nat.toDigits 10 n ≠ [] := Nat.toDigits_ne_nil
  have hspace {c : Char} (hc : c ∈ Nat.toDigits 10 n) : isWhitespace c = false :=
    isWhitespace_of_isDigit (isDigits_toDigits n c hc)
  have hvalue : trim (' ' :: Nat.toDigits 10 n) = Nat.toDigits 10 n := by
    have happend := trim_append [' '] _ [] (by simp; rfl) (by simp) hne
      (hspace (List.head_mem hne)) (hspace (List.getLast_mem hne))
    simpa using happend
  have hline : trim (lengthLine n ++ ['\n']) =
      contentLengthHeader ++ ' ' :: Nat.toDigits 10 n := by
    have happend := trim_append [] (contentLengthHeader ++ ' ' :: Nat.toDigits 10 n) ['\r', '\n']
      (by simp) (by simp; exact ⟨rfl, rfl⟩) (by simp) rfl
      (by simpa [hne] using hspace (List.getLast_mem hne))
    simpa [lengthLine] using happend
  have hfront : (contentLengthHeader).isPrefixOf
      (contentLengthHeader ++ ' ' :: Nat.toDigits 10 n) = true := by simp
  rw [headerLength, hline, stripPrefix, if_pos hfront, List.drop_left, Option.map_some, hvalue]
  simp only [parseUsize_toDigits h, Option.map_some]

/-- A written message as a frame. -/
def writtenFrame (body : List UInt8) (h : body.length < 2 ^ 63) : Frame where
  lines := [lengthLine body.length]
  carriageReturn := true
  body
  isLine := by
    have hdigit : '\n' ∉ Nat.toDigits 10 body.length := fun hmem =>
      absurd (isDigits_toDigits _ _ hmem) (by decide)
    have hheader : '\n' ∉ contentLengthHeader := by decide
    have hne : lengthLine body.length ≠ ['\r'] := fun heq => by
      have hlength := congrArg List.length heq
      simp [lengthLine] at hlength
      omega
    simp only [List.mem_singleton, forall_eq]
    refine ⟨?_, List.append_ne_nil_of_right_ne_nil _ (List.cons_ne_nil _ _), hne⟩
    simp [lengthLine, hheader, hdigit]
  isLength := by
    rw [List.foldlM_cons, headerLength_lengthLine (by omega)]
    rfl
  bounded := h

/-- A message that is written is the one that is read. -/
theorem readFramedMessage_written {message : Json} (h : (JsonCodec.toVec message).length < 2 ^ 63)
    (hcodec : JsonCodec.fromSlice (JsonCodec.toVec message) = some message) (rest : List UInt8) :
    readFramedMessage (writeFramedMessage message ++ rest) = .ok (some (message, rest)) := by
  have hheader : "Content-Length: ".toList ++ Nat.toDigits 10 (JsonCodec.toVec message).length ++
      "\r\n\r\n".toList =
        (lengthLine (JsonCodec.toVec message).length ++ ['\n']) ++ (['\r'] ++ ['\n']) := by
    have hlength : "Content-Length: ".toList = contentLengthHeader ++ [' '] := rfl
    have hend : "\r\n\r\n".toList = ['\r', '\n', '\r', '\n'] := rfl
    simp [lengthLine, hlength, hend]
  have hframe : writeFramedMessage message = (writtenFrame (JsonCodec.toVec message) h).bytes := by
    rw [writeFramedMessage, hheader, utf8Bytes_append _ (['\r'] ++ ['\n'])]
    simp [Frame.bytes, writtenFrame, Frame.emptyLine, -utf8Bytes_append]
  rw [hframe, readFramedMessage_frame]
  change (match JsonCodec.fromSlice (JsonCodec.toVec message) with | some _ => _ | none => _) = _
  rw [hcodec]

/-! ## A codec -/

def writeCharacter (c : Char) : List Char :=
  match [('"', '"'), ('\\', '\\'), ('\x08', 'b'), ('\x0c', 'f'), ('\n', 'n'), ('\r', 'r'),
    ('\t', 't')].lookup c with
  | some escape => ['\\', escape]
  | none =>
    if c.toNat < 0x20 then "\\u00".toList ++ [(c.toNat / 16).digitChar, (c.toNat % 16).digitChar]
    else [c]

def writeString (text : Name) : List Char := '"' :: (text.flatMap writeCharacter ++ ['"'])

mutual

def writeJson : Json → List Char
  | .null => "null".toList
  | .bool value => (if value then "true" else "false").toList
  | .number text => text
  | .string text => writeString text
  | .array values => '[' :: (writeValues values).drop 1 ++ [']']
  | .object entries => '\x7b' :: (writeEntries entries).drop 1 ++ ['\x7d']

/-- Values with a comma in front of each. -/
def writeValues : List Json → List Char
  | [] => []
  | value :: values => ',' :: writeJson value ++ writeValues values

def writeEntries : List (Name × Json) → List Char
  | [] => []
  | entry :: entries => ',' :: writeEntry entry ++ writeEntries entries

def writeEntry : Name × Json → List Char
  | (name, value) => writeString name ++ ':' :: writeJson value

end

@[reducible] def plainCodec : JsonCodec where
  toVec message := utf8Bytes (writeJson message)
  fromSlice bytes :=
    (bytes.toByteArray.utf8Decode?.map Array.toList).bind (@SerdeJson.parse plainSerde)
  isZero text := text = ['0']

omit [JsonCodec] in
theorem fromSlice_writeJson {message : Json}
    (h : @SerdeJson.parse plainSerde (writeJson message) = some message) :
    @JsonCodec.fromSlice plainCodec (utf8Bytes (writeJson message)) = some message := by
  change ((utf8Bytes (writeJson message)).toByteArray.utf8Decode?.map Array.toList).bind _ = _
  rw [decode_utf8Bytes]
  exact h

end Tsz.Service
