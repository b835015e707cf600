import Tsz.Syntax.Scanner.Literals
import Tsz.Project.Jsonc.Normalize

/-!
# Texts on the disk

A file is read as UTF-8, or as UTF-16 where it starts with a byte order mark of it.

## Main results

* `decodeDiskSource_encode` — a text that was written in one of the encodings is read again.
-/

namespace Tsz.Service

open Tsz.Jsonc (utf8Bytes decode_utf8Bytes)
open Tsz.Syntax (charUnits codePointUnits)

/-- UTF-8 with replacement characters for what is no UTF-8. -/
class LossyUtf8 where
  decode : List UInt8 → List Char

def wordOfBytes (littleEndian : Bool) (first second : UInt8) : UInt16 :=
  if littleEndian then .ofNat (first.toNat + 256 * second.toNat)
  else .ofNat (256 * first.toNat + second.toNat)

/-- The words of pairs of bytes; a byte that is left over is dropped. -/
def words (littleEndian : Bool) : List UInt8 → List UInt16
  | first :: second :: rest => wordOfBytes littleEndian first second :: words littleEndian rest
  | _ => []

/-- UTF-16 with replacement characters for surrogates that form no pair. -/
def decodeUtf16Lossy : List UInt16 → List Char
  | [] => []
  | unit :: rest =>
    let high := unit.toNat
    if high < 0xd800 ∨ 0xdfff < high then Char.ofNat high :: decodeUtf16Lossy rest
    else if 0xdc00 ≤ high then '\ufffd' :: decodeUtf16Lossy rest
    else
      match rest with
      | [] => ['\ufffd']
      | next :: behind =>
        let low := next.toNat
        if 0xdc00 ≤ low ∧ low ≤ 0xdfff then
          Char.ofNat (0x10000 + (high - 0xd800) * 0x400 + (low - 0xdc00)) ::
            decodeUtf16Lossy behind
        else '\ufffd' :: decodeUtf16Lossy (next :: behind)

def decodeDiskSource [LossyUtf8] : List UInt8 → List Char
  | 0xef :: 0xbb :: 0xbf :: content => LossyUtf8.decode content
  | 0xff :: 0xfe :: content => decodeUtf16Lossy (words true content)
  | 0xfe :: 0xff :: content => decodeUtf16Lossy (words false content)
  | bytes => LossyUtf8.decode bytes

/-! ## What an editor writes -/

inductive DiskEncoding
  | utf8 | utf8WithMark
  | utf16 (littleEndian : Bool)
deriving DecidableEq

def bytesOfWord (littleEndian : Bool) (word : UInt16) : List UInt8 :=
  let low : UInt8 := .ofNat (word.toNat % 256)
  let high : UInt8 := .ofNat (word.toNat / 256)
  if littleEndian then [low, high] else [high, low]

/-- The bytes of a text in an encoding. -/
def DiskEncoding.encode : DiskEncoding → List Char → List UInt8
  | utf8, text => utf8Bytes text
  | utf8WithMark, text => utf8Bytes ('\ufeff' :: text)
  | utf16 littleEndian, text =>
    ('\ufeff' :: text).flatMap fun c => (charUnits c).flatMap (bytesOfWord littleEndian)

theorem wordOfBytes_bytesOfWord (littleEndian : Bool) (word : UInt16) (rest : List UInt8) :
    words littleEndian (bytesOfWord littleEndian word ++ rest) =
      word :: words littleEndian rest := by
  have hword := word.toNat_lt
  have hlow : word.toNat % 256 < 2 ^ 8 := Nat.mod_lt _ (by decide)
  have hhigh : word.toNat / 256 < 2 ^ 8 := by omega
  have hmod := Nat.div_add_mod word.toNat 256
  cases littleEndian with
  | true =>
    change wordOfBytes true _ _ :: _ = _
    rw [wordOfBytes, if_pos rfl, UInt8.toNat_ofNat_of_lt' hlow, UInt8.toNat_ofNat_of_lt' hhigh,
      Nat.add_comm, hmod, UInt16.ofNat_toNat]
    rfl
  | false =>
    change wordOfBytes false _ _ :: _ = _
    rw [wordOfBytes, if_neg Bool.false_ne_true, UInt8.toNat_ofNat_of_lt' hlow,
      UInt8.toNat_ofNat_of_lt' hhigh, hmod, UInt16.ofNat_toNat]
    rfl

theorem words_flatMap (littleEndian : Bool) (units : List UInt16) :
    words littleEndian (units.flatMap (bytesOfWord littleEndian)) = units := by
  induction units with
  | nil => rfl
  | cons unit units ih => rw [List.flatMap_cons, wordOfBytes_bytesOfWord, ih]

theorem decodeUtf16Lossy_charUnits (c : Char) (rest : List UInt16) :
    decodeUtf16Lossy (charUnits c ++ rest) = c :: decodeUtf16Lossy rest := by
  have hvalid : c.toNat < 0xd800 ∨ 0xdfff < c.toNat ∧ c.toNat < 0x110000 := c.valid
  have hofNat : Char.ofNat c.toNat = c := Char.ofNat_toNat c
  unfold charUnits codePointUnits
  split
  · next hsmall =>
    have hunit : (c.toNat.toUInt16).toNat = c.toNat := by
      rw [Nat.toUInt16_eq, UInt16.toNat_ofNat']
      omega
    rw [List.singleton_append, decodeUtf16Lossy.eq_def]
    dsimp only
    rw [hunit, if_pos (by omega), hofNat]
  · next hlarge =>
    have hhigh : ((0xd800 + (c.toNat - 0x10000) / 0x400).toUInt16).toNat =
        0xd800 + (c.toNat - 0x10000) / 0x400 := by
      rw [Nat.toUInt16_eq, UInt16.toNat_ofNat']
      omega
    have hlow : ((0xdc00 + (c.toNat - 0x10000) % 0x400).toUInt16).toNat =
        0xdc00 + (c.toNat - 0x10000) % 0x400 := by
      rw [Nat.toUInt16_eq, UInt16.toNat_ofNat']
      omega
    dsimp only
    rw [List.cons_append, List.singleton_append, decodeUtf16Lossy.eq_def]
    dsimp only
    rw [hhigh, hlow, if_neg (by omega), if_neg (by omega), if_pos (by omega)]
    have hvalue : 0x10000 + (0xd800 + (c.toNat - 0x10000) / 0x400 - 0xd800) * 0x400 +
        (0xdc00 + (c.toNat - 0x10000) % 0x400 - 0xdc00) = c.toNat := by omega
    rw [hvalue, hofNat]

theorem decodeUtf16Lossy_flatMap (text : List Char) :
    decodeUtf16Lossy (text.flatMap charUnits) = text := by
  induction text with
  | nil => rfl
  | cons c text ih => rw [List.flatMap_cons, decodeUtf16Lossy_charUnits, ih]

/-- What is UTF-8 is decoded as it is. -/
def LossyUtf8.IsLawful [LossyUtf8] : Prop := ∀ text, LossyUtf8.decode (utf8Bytes text) = text

/-- The first byte of a text in UTF-8 is that of a character. -/
theorem isFirstByte_utf8Bytes {text : List Char} {byte : UInt8} {rest : List UInt8}
    (h : utf8Bytes text = byte :: rest) : byte.IsUTF8FirstByte := by
  cases text with
  | nil => cases h
  | cons c text =>
    have hne : String.utf8EncodeChar c ≠ [] := String.utf8EncodeChar_ne_nil
    obtain ⟨first, more, hfirst⟩ := List.exists_cons_of_ne_nil hne
    have hencode : [c].utf8Encode = (first :: more).toByteArray := by
      rw [List.utf8Encode_singleton, hfirst]
    have hsize : 0 < [c].utf8Encode.size := by
      rw [hencode]
      simp
    have hget : [c].utf8Encode[0] = first := by simp [hencode]
    have hzero : ([c].utf8Encode[0]).IsUTF8FirstByte :=
      List.isUTF8FirstByte_getElem_utf8Encode_singleton.mpr rfl
    obtain rfl : first = byte := by
      have hcons : utf8Bytes (c :: text) = first :: (more ++ utf8Bytes text) := by
        rw [utf8Bytes, List.flatMap_cons, hfirst]
        rfl
      rw [hcons] at h
      exact (List.cons.inj h).1
    rwa [hget] at hzero

/-- The byte order mark stands at the front of no other text. -/
theorem head?_of_mark {text : List Char} {rest : List UInt8}
    (h : utf8Bytes text = 0xef :: 0xbb :: 0xbf :: rest) : text.head? = some '\ufeff' := by
  have happend : ['\ufeff'].utf8Encode ++ rest.toByteArray = text.utf8Encode := by
    have htext : text.utf8Encode = (utf8Bytes text).toByteArray := rfl
    have hcons : (0xef :: 0xbb :: 0xbf :: rest : List UInt8) = [0xef, 0xbb, 0xbf] ++ rest := rfl
    rw [htext, h, hcons, List.toByteArray_append]
    rfl
  obtain ⟨more, rfl⟩ := List.isPrefix_of_utf8Encode_append_eq_utf8Encode _ happend
  rfl

variable [LossyUtf8]

theorem decodeDiskSource_utf8 (h : LossyUtf8.IsLawful) {text : List Char}
    (hmark : text.head? ≠ some '\ufeff') : decodeDiskSource (utf8Bytes text) = text := by
  unfold decodeDiskSource
  split
  · next heq => exact absurd (head?_of_mark heq) hmark
  · next heq => exact absurd (isFirstByte_utf8Bytes heq) (by decide)
  · next heq => exact absurd (isFirstByte_utf8Bytes heq) (by decide)
  · exact h text

/-- A text that was written in one of the encodings is read again. -/
theorem decodeDiskSource_encode (h : LossyUtf8.IsLawful) (encoding : DiskEncoding)
    {text : List Char} (hmark : encoding = .utf8 → text.head? ≠ some '\ufeff') :
    decodeDiskSource (encoding.encode text) = text := by
  cases encoding with
  | utf8 => exact decodeDiskSource_utf8 h (hmark rfl)
  | utf8WithMark => exact h text
  | utf16 littleEndian =>
    have hwords : words littleEndian
        (text.flatMap fun c => (charUnits c).flatMap (bytesOfWord littleEndian)) =
          text.flatMap charUnits := by
      rw [← List.flatMap_assoc, words_flatMap]
    have hdecode := (congrArg decodeUtf16Lossy hwords).trans (decodeUtf16Lossy_flatMap text)
    cases littleEndian with
    | true => exact hdecode
    | false => exact hdecode

omit [LossyUtf8] in
@[reducible] def plainUtf8 : LossyUtf8 where
  decode bytes := (bytes.toByteArray.utf8Decode?.map Array.toList).getD []

omit [LossyUtf8] in
theorem isLawful_plainUtf8 : @LossyUtf8.IsLawful plainUtf8 := by
  intro text
  change ((utf8Bytes text).toByteArray.utf8Decode?.map Array.toList).getD [] = text
  rw [decode_utf8Bytes]
  rfl

omit [LossyUtf8] in
theorem decodeDiskSource_encode_astral :
    @decodeDiskSource plainUtf8 [0xff, 0xfe, 0x61, 0x00, 0x3d, 0xd8, 0x00, 0xde] = ['a', '😀'] ∧
      @decodeDiskSource plainUtf8 [0x61, 0xf0, 0x9f, 0x98, 0x80] = ['a', '😀'] :=
  ⟨@decodeDiskSource_encode plainUtf8 isLawful_plainUtf8 (.utf16 true) ['a', '😀']
      (fun h => by cases h),
    @decodeDiskSource_encode plainUtf8 isLawful_plainUtf8 .utf8 ['a', '😀']
      (fun _ => by decide)⟩

end Tsz.Service
