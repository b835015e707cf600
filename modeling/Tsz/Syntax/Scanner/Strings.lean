import Mathlib.Data.Char
import Tsz.Syntax.Scanner.Partition

/-!
# The values of strings

A string is read three times: a probe finds its end, its escapes are decoded, and a string with
an extended escape is scanned once more.

## Main results

* `scanExtendedString_end` — the probe and the scan of an extended string stop at the same place.
* `extended_cooked_iff` — the scan of an extended string finds the decoded value if and only if
  every escape of the string is an extended one.
-/

namespace Tsz.Syntax

/-! ## Hexadecimal digits -/

def isHexDigit (c : Char) : Bool := (hexValue c).isSome

/-- The number that digits spell behind the value of the digits in front of them. -/
def hexNumber (value : Nat) (digits : List Char) : Nat :=
  digits.foldl (fun value c => value * 16 + (hexValue c).getD 0) value

@[simp]
theorem hexNumber_cons (value : Nat) (c : Char) (digits : List Char) :
    hexNumber value (c :: digits) = hexNumber (value * 16 + (hexValue c).getD 0) digits := rfl

/-- A character that is read as part of the escape in front of it: a digit or a brace. -/
def IsEscapePart (c : Char) : Prop := isHexDigit c ∨ c = '\x7b' ∨ c = '\x7d'

theorem IsEscapePart.ne {c d : Char} (h : IsEscapePart c)
    (hd : d ∈ ['\\', '\n', '\r', '"', '\'']) : c ≠ d := by
  rintro rfl
  have hhex : isHexDigit c = false := by
    simp only [List.mem_cons, List.not_mem_nil, or_false] at hd
    rcases hd with rfl | rfl | rfl | rfl | rfl <;> decide
  rcases h with h | rfl | rfl
  · simp [hhex] at h
  · simp at hd
  · simp at hd

theorem isAscii_of_isHexDigit {c : Char} (h : isHexDigit c) : isAscii c := by
  obtain ⟨digit, hdigit⟩ := Option.isSome_iff_exists.mp h
  exact isAscii_of_hexValue hdigit

theorem IsEscapePart.isAscii {c : Char} (h : IsEscapePart c) : isAscii c := by
  rcases h with h | rfl | rfl
  · exact isAscii_of_isHexDigit h
  · rfl
  · rfl

theorem exists_digits (text : List Char) :
    ∃ digits after, text = digits ++ after ∧ (∀ c ∈ digits, isHexDigit c) ∧
      ∀ c, after.head? = some c → isHexDigit c = false := by
  refine ⟨text.takeWhile isHexDigit, text.dropWhile isHexDigit,
    List.takeWhile_append_dropWhile.symm, fun c hc => List.mem_takeWhile_imp hc, ?_⟩
  intro c hc
  simpa [hc] using List.head?_dropWhile_not isHexDigit text

theorem hexDigits_append {digits after : List Char} (hdigits : ∀ c ∈ digits, isHexDigit c)
    (hafter : ∀ c, after.head? = some c → isHexDigit c = false) (value offset : Nat) :
    hexDigits value offset (digits ++ after) =
      (hexNumber value digits, offset + digits.length, after) := by
  induction digits generalizing value offset with
  | nil =>
    cases after with
    | nil => rfl
    | cons c rest =>
      have hc : hexValue c = none := by simpa [isHexDigit] using hafter c rfl
      simp [hexDigits, hc, hexNumber]
  | cons c digits ih =>
    obtain ⟨v, hv⟩ := Option.isSome_iff_exists.mp (hdigits c List.mem_cons_self)
    have hrest : ∀ d ∈ digits, isHexDigit d := fun d hd => hdigits d (List.mem_cons_of_mem c hd)
    simp only [List.cons_append, hexDigits, hv, ih hrest, hexNumber_cons, Option.getD_some,
      List.length_cons]
    congr 2
    omega

/-! ## Escapes -/

theorem fixedHex_cases (width value offset : Nat) (rest : List Char) :
    ∃ digits after, rest = digits ++ after ∧ (∀ c ∈ digits, isHexDigit c) ∧
      (fixedHex width value offset rest).2.2 = after ∧
      ∀ v, (fixedHex width value offset rest).1 = some v → digits.length = width := by
  induction width generalizing value offset rest with
  | zero => exact ⟨[], rest, rfl, by simp, rfl, fun v _ => rfl⟩
  | succ width ih =>
    cases rest with
    | nil => exact ⟨[], [], rfl, by simp, rfl, by simp [fixedHex]⟩
    | cons c rest =>
      rw [fixedHex]
      cases hc : hexValue c with
      | none => exact ⟨[], c :: rest, rfl, by simp, rfl, by simp⟩
      | some digit =>
        obtain ⟨digits, after, rfl, hdigits, hafter, hwidth⟩ :=
          ih (value * 16 + digit) (offset + 1) rest
        refine ⟨c :: digits, after, rfl, ?_, hafter, fun v hv => by simp [hwidth v hv]⟩
        intro d hd
        rcases List.mem_cons.mp hd with rfl | hd
        · simp [isHexDigit, hc]
        · exact hdigits d hd

theorem isHexDigit_of_isOctalDigit {c : Char} (h : isOctalDigit c) : isHexDigit c := by
  simp only [isOctalDigit, decide_eq_true_eq] at h
  have h9 : c ≤ '9' := le_trans h.2 (by decide)
  simp [isHexDigit, hexValue, h.1, h9]

theorem octalDigits_cases (width value offset : Nat) (rest : List Char) :
    ∃ digits after, rest = digits ++ after ∧ (∀ c ∈ digits, isHexDigit c) ∧
      (octalDigits width value offset rest).2.2 = after ∧
      (digits = [] → (octalDigits width value offset rest).1 = value) := by
  induction width generalizing value offset rest with
  | zero => exact ⟨[], rest, rfl, by simp, by cases rest <;> rfl, fun _ => by cases rest <;> rfl⟩
  | succ width ih =>
    cases rest with
    | nil => exact ⟨[], [], rfl, by simp, rfl, fun _ => rfl⟩
    | cons c rest =>
      rw [octalDigits]
      split_ifs with hc
      · obtain ⟨digits, after, rfl, hdigits, hafter, -⟩ :=
          ih (value * 8 + (c.toNat - '0'.toNat)) (offset + 1) rest
        refine ⟨c :: digits, after, rfl, ?_, hafter, by simp⟩
        intro d hd
        rcases List.mem_cons.mp hd with rfl | hd
        · exact isHexDigit_of_isOctalDigit hc
        · exact hdigits d hd
      · exact ⟨[], c :: rest, rfl, by simp, rfl, fun _ => rfl⟩

theorem length_codePointUnits (value : Nat) :
    (codePointUnits value).length = if value ≤ 0xffff then 1 else 2 := by
  unfold codePointUnits
  split_ifs <;> rfl

theorem one_le_length_codePointUnits (value : Nat) : 1 ≤ (codePointUnits value).length := by
  rw [length_codePointUnits]
  split_ifs <;> omega

theorem length_codePointUnits_le (value : Nat) : (codePointUnits value).length ≤ 2 := by
  rw [length_codePointUnits]
  split_ifs <;> omega

def AuthoredEscape.isExtended : AuthoredEscape → Bool
  | .extendedUnicode .. => true
  | _ => false

/-- How an ordinary escape is read: what follows the character behind its backslash are digits,
and it stands for fewer code units than it is spelled with. -/
structure OrdinaryEscape (d : Char) (digits after : List Char)
    (read : AuthoredEscape × Nat × List Char) : Prop where
  isHexDigit : ∀ c ∈ digits, isHexDigit c
  rest : read.2.2 = after
  ordinary : read.1.isExtended = false
  shorter : ∀ units, read.1.units = some units →
    units.length < 1 + (charUnits d).length + digits.length

theorem one_le_length_charUnits (c : Char) : 1 ≤ (charUnits c).length :=
  one_le_length_codePointUnits _

namespace OrdinaryEscape

variable {d : Char} {rest : List Char}

theorem of_short {escape : AuthoredEscape} {next : Nat} (h : escape.isExtended = false)
    (hunits : ∀ units, escape.units = some units → units.length ≤ (charUnits d).length) :
    OrdinaryEscape d [] rest (escape, next, rest) :=
  ⟨by simp, rfl, h, fun units hu => by have := hunits units hu; simp; omega⟩

theorem codePoint {value next : Nat} (h : value ≤ 0xffff) :
    OrdinaryEscape d [] rest (.codePoint value, next, rest) := by
  refine of_short rfl ?_
  rintro _ ⟨⟩
  rw [length_codePointUnits, if_pos h]
  exact one_le_length_charUnits d

theorem self (next : Nat) : OrdinaryEscape d [] rest (.codePoint d.toNat, next, rest) := by
  refine of_short rfl ?_
  rintro _ ⟨⟩
  rfl

theorem octal {width next : Nat} (hd : d ≤ '7') :
    ∃ digits after, rest = digits ++ after ∧ OrdinaryEscape d digits after
      (match octalDigits width (d.toNat - '0'.toNat) next rest with
        | (value, next, rest) => (.legacyOctal value, next, rest)) := by
  obtain ⟨digits, after, hrest, hdigits, hafter, hvalue⟩ :=
    octalDigits_cases width (d.toNat - '0'.toNat) next rest
  rcases ho : octalDigits width (d.toNat - '0'.toNat) next rest with ⟨value, next', after'⟩
  rw [ho] at hafter hvalue
  refine ⟨digits, after, hrest, hdigits, hafter, rfl, ?_⟩
  rintro _ ⟨⟩
  have hone := one_le_length_charUnits d
  have htwo := length_codePointUnits_le value
  cases digits with
  | nil =>
    have h7 : d.toNat ≤ '7'.toNat := hd
    have hlow : value ≤ 0xffff := by
      rw [show value = _ from hvalue rfl]
      exact le_trans (Nat.sub_le _ _) (le_trans h7 (by decide))
    rw [length_codePointUnits, if_pos hlow]
    simp
    omega
  | cons c digits =>
    simp only [List.length_cons]
    omega

theorem hex {width next : Nat} (hwidth : 1 < width) :
    ∃ digits after, rest = digits ++ after ∧
      OrdinaryEscape d digits after (fixedHexEscape width next rest) := by
  obtain ⟨digits, after, rfl, hdigits, hafter, hlength⟩ := fixedHex_cases width 0 next rest
  refine ⟨digits, after, rfl, ?_⟩
  unfold fixedHexEscape
  rcases hf : fixedHex width 0 next (digits ++ after) with ⟨_ | v, next', after'⟩
  · rw [hf] at hafter
    exact ⟨hdigits, hafter, rfl, by simp [AuthoredEscape.units]⟩
  · rw [hf] at hafter hlength
    refine ⟨hdigits, hafter, rfl, ?_⟩
    rintro _ ⟨⟩
    have := length_codePointUnits_le v
    have := hlength v rfl
    have := one_le_length_charUnits d
    omega

end OrdinaryEscape

/-- The rest behind a character, read as an ordinary escape. -/
def ReadsOrdinary (d : Char) (rest : List Char) (read : AuthoredEscape × Nat × List Char) : Prop :=
  ∃ digits after, rest = digits ++ after ∧ OrdinaryEscape d digits after read

namespace ReadsOrdinary

variable {d : Char} {rest : List Char}

theorem short {read : AuthoredEscape × Nat × List Char} (h : OrdinaryEscape d [] rest read) :
    ReadsOrdinary d rest read :=
  ⟨[], rest, rfl, h⟩

theorem ite {p : Prop} [Decidable p] {read read' : AuthoredEscape × Nat × List Char}
    (h : p → ReadsOrdinary d rest read) (h' : ReadsOrdinary d rest read') :
    ReadsOrdinary d rest (if p then read else read') := by
  by_cases hp : p
  · rw [if_pos hp]
    exact h hp
  · rw [if_neg hp]
    exact h'

end ReadsOrdinary

theorem decodeEscapeBody_ordinary (offset : Nat) (d : Char) (rest : List Char)
    (hcrlf : ¬ (d = '\r' ∧ rest.head? = some '\n')) (hu : ¬ (d = 'u' ∧ rest.head? = some '\x7b')) :
    ReadsOrdinary d rest (decodeEscapeBody offset (d :: rest)) := by
  rw [decodeEscapeBody.eq_4 _ _ _ (by rintro rest' rfl rfl; simp at hcrlf)
    (by rintro rest' rfl rfl; simp at hu)]
  refine .ite (fun _ => .short (.of_short rfl (by rintro _ ⟨⟩; simp))) ?_
  refine .ite (fun _ => .short (.codePoint (by decide))) ?_
  refine .ite (fun hoctal => ?_) ?_
  · simp only [isOctalDigit, decide_eq_true_eq] at hoctal
    exact OrdinaryEscape.octal hoctal.2
  refine .ite (fun _ => .short (.of_short rfl (by rintro _ ⟨⟩; rfl))) ?_
  refine .ite (fun _ => .short (.codePoint (by decide))) ?_
  refine .ite (fun _ => .short (.codePoint (by decide))) ?_
  refine .ite (fun _ => .short (.codePoint (by decide))) ?_
  refine .ite (fun _ => .short (.codePoint (by decide))) ?_
  refine .ite (fun _ => .short (.codePoint (by decide))) ?_
  refine .ite (fun _ => .short (.codePoint (by decide))) ?_
  refine .ite (fun _ => OrdinaryEscape.hex (by decide)) ?_
  refine .ite (fun _ => OrdinaryEscape.hex (by decide)) ?_
  exact .short (.self _)

theorem decodeEscapeBody_crlf (offset : Nat) (rest : List Char) :
    decodeEscapeBody offset ('\r' :: '\n' :: rest) = (.empty, offset + 2, rest) := rfl

/-- An extended escape: its digits, up to the first character that is none. -/
theorem decodeEscapeBody_extended {digits after : List Char} (hdigits : ∀ c ∈ digits, isHexDigit c)
    (hafter : ∀ c, after.head? = some c → isHexDigit c = false) (offset : Nat) :
    decodeEscapeBody offset ('u' :: '\x7b' :: (digits ++ after)) =
      (.extendedUnicode (offset + 2) (offset + 2 + digits.length) (hexNumber 0 digits)
          (after.head? == some '\x7d'),
        offset + 2 + digits.length + if after.head? = some '\x7d' then 1 else 0,
        if after.head? = some '\x7d' then after.tail else after) := by
  rw [decodeEscapeBody.eq_3, hexDigits_append hdigits hafter]
  cases after with
  | nil => rfl
  | cons c rest =>
    by_cases hc : c = '\x7d'
    · subst hc
      rfl
    · simp [hc]

theorem length_decodeEscapeBody_le (offset : Nat) (text : List Char) :
    (decodeEscapeBody offset text).2.2.length ≤ text.length := by
  rcases text with _ | ⟨d, rest⟩
  · rfl
  by_cases hcrlf : d = '\r' ∧ rest.head? = some '\n'
  · obtain ⟨rfl, h⟩ := hcrlf
    obtain ⟨rest, rfl⟩ := List.head?_eq_some_iff.mp h
    rw [decodeEscapeBody_crlf]
    simp
    omega
  by_cases hu : d = 'u' ∧ rest.head? = some '\x7b'
  · obtain ⟨rfl, h⟩ := hu
    obtain ⟨rest, rfl⟩ := List.head?_eq_some_iff.mp h
    obtain ⟨digits, after, rfl, hdigits, hafter⟩ := exists_digits rest
    rw [decodeEscapeBody_extended hdigits hafter]
    dsimp only
    split_ifs <;> simp <;> omega
  · obtain ⟨digits, after, rfl, hread⟩ := decodeEscapeBody_ordinary offset d rest hcrlf hu
    rw [hread.rest]
    simp
    omega

/-! ## The probe -/

namespace StringProbe

variable (probe : StringProbe) (front : List Char) (extended : Bool)

@[simp] theorem body_push : (probe.push front extended).body = front ++ probe.body := rfl

@[simp] theorem terminated_push : (probe.push front extended).terminated = probe.terminated := rfl

theorem push_nil : probe.push [] false = probe := by simp [push]

theorem push_push (back : List Char) (extended' : Bool) :
    (probe.push back extended').push front extended =
      probe.push (front ++ back) (extended || extended') := by
  simp [push, Bool.or_assoc]

end StringProbe

def IsQuote (quote : Char) : Prop := quote = '"' ∨ quote = '\''

/-- A character that a string has as it is. -/
def IsStringCharacter (quote c : Char) : Prop := c ≠ '\\' ∧ c ≠ quote ∧ c ≠ '\n' ∧ c ≠ '\r'

theorem IsEscapePart.isStringCharacter {quote c : Char} (hquote : IsQuote quote)
    (h : IsEscapePart c) : IsStringCharacter quote c := by
  refine ⟨h.ne (by simp), ?_, h.ne (by simp), h.ne (by simp)⟩
  rcases hquote with rfl | rfl <;> exact h.ne (by simp)

section

variable {quote c d : Char} {text rest : List Char}

theorem probeString_character (h : IsStringCharacter quote c) :
    probeString quote (c :: rest) = (probeString quote rest).push [c] false := by
  rw [probeString.eq_5 _ _ _ (fun hc _ => h.1 hc) (fun _ hc _ => h.1 hc) fun _ _ hc _ => h.1 hc,
    if_neg h.2.1, if_neg (not_or.mpr h.2.2)]

theorem probeString_quote (hquote : IsQuote quote) :
    probeString quote (quote :: rest) = ⟨[], true, false⟩ := by
  have hne : quote ≠ '\\' := by rcases hquote with rfl | rfl <;> decide
  rw [probeString.eq_5 _ _ _ (fun hc _ => hne hc) (fun _ hc _ => hne hc) fun _ _ hc _ => hne hc,
    if_pos rfl]

theorem probeString_parts (hquote : IsQuote quote) {front : List Char}
    (h : ∀ c ∈ front, IsEscapePart c) (rest : List Char) :
    probeString quote (front ++ rest) = (probeString quote rest).push front false := by
  induction front with
  | nil => exact (StringProbe.push_nil _).symm
  | cons c front ih =>
    have hc := (h c List.mem_cons_self).isStringCharacter hquote
    rw [List.cons_append, probeString_character hc,
      ih fun d hd => h d (List.mem_cons_of_mem c hd), StringProbe.push_push]
    rfl

theorem probeString_lineBreak (quote : Char) (rest : List Char) :
    probeString quote ('\\' :: '\r' :: '\n' :: rest) =
      (probeString quote rest).push ['\\', '\r', '\n'] false := rfl

theorem probeString_escape (quote : Char) (hcrlf : ¬ (d = '\r' ∧ rest.head? = some '\n')) :
    probeString quote ('\\' :: d :: rest) =
      (probeString quote rest).push ['\\', d] (d == 'u' && rest.head? == some '\x7b') :=
  probeString.eq_4 _ _ _ (by rintro rest' rfl rfl; simp at hcrlf)

theorem probeString_extended (hquote : IsQuote quote) {digits : List Char}
    (hdigits : ∀ c ∈ digits, isHexDigit c) (after : List Char) :
    probeString quote ('\\' :: 'u' :: '\x7b' :: (digits ++ after)) =
      (probeString quote after).push ('\\' :: 'u' :: '\x7b' :: digits) true := by
  have hparts : ∀ c ∈ '\x7b' :: digits, IsEscapePart c := by
    intro c hc
    rcases List.mem_cons.mp hc with rfl | hc
    · exact .inr (.inl rfl)
    · exact .inl (hdigits c hc)
  rw [probeString_escape quote (by simp), ← List.cons_append, probeString_parts hquote hparts,
    StringProbe.push_push]
  rfl

/-- How a terminated string goes on. -/
inductive ProbeStep (quote : Char) : List Char → List Char → Prop
  | close (rest : List Char) : ProbeStep quote (quote :: rest) []
  | character {c : Char} {rest : List Char} (hc : IsStringCharacter quote c)
      (h : (probeString quote rest).terminated) :
      ProbeStep quote (c :: rest) (c :: (probeString quote rest).body)
  | lineBreak {rest : List Char} (h : (probeString quote rest).terminated) :
      ProbeStep quote ('\\' :: '\r' :: '\n' :: rest)
        ('\\' :: '\r' :: '\n' :: (probeString quote rest).body)
  | escape {d : Char} {rest : List Char} (hcrlf : ¬ (d = '\r' ∧ rest.head? = some '\n'))
      (h : (probeString quote rest).terminated) :
      ProbeStep quote ('\\' :: d :: rest) ('\\' :: d :: (probeString quote rest).body)

theorem probeStep (hquote : IsQuote quote) (h : (probeString quote text).terminated) :
    ProbeStep quote text (probeString quote text).body := by
  rcases text with _ | ⟨c, rest⟩
  · simp [probeString] at h
  by_cases hc : c = '\\'
  · subst hc
    rcases rest with _ | ⟨d, rest⟩
    · simp [probeString] at h
    by_cases hcrlf : d = '\r' ∧ rest.head? = some '\n'
    · obtain ⟨rfl, hn⟩ := hcrlf
      obtain ⟨rest, rfl⟩ := List.head?_eq_some_iff.mp hn
      exact .lineBreak h
    · rw [probeString_escape quote hcrlf] at h ⊢
      exact .escape hcrlf h
  by_cases hq : c = quote
  · subst hq
    rw [probeString_quote hquote]
    exact .close rest
  by_cases hn : c = '\n' ∨ c = '\r'
  · rw [probeString.eq_5 _ _ _ (fun h' _ => hc h') (fun _ h' _ => hc h') fun _ _ h' _ => hc h',
      if_neg hq, if_pos hn] at h
    simp at h
  · have hchar : IsStringCharacter quote c := ⟨hc, hq, not_or.mp hn⟩
    rw [probeString_character hchar] at h ⊢
    exact .character hchar h

theorem head?_of_body (hquote : IsQuote quote) (h : (probeString quote text).terminated)
    (hc : (probeString quote text).body.head? = some c) : text.head? = some c := by
  have hstep := probeStep hquote h
  generalize (probeString quote text).body = body at hstep hc
  cases hstep with
  | close => simp at hc
  | character | lineBreak | escape => exact hc

/-- The part of an escape in the body is that part of the text. -/
theorem exists_of_parts (hquote : IsQuote quote) {front after : List Char}
    (hfront : ∀ c ∈ front, IsEscapePart c) (h : (probeString quote text).terminated)
    (hbody : (probeString quote text).body = front ++ after) :
    ∃ rest, text = front ++ rest ∧ (probeString quote rest).body = after ∧
      (probeString quote rest).terminated := by
  induction front generalizing text with
  | nil => exact ⟨text, rfl, hbody, h⟩
  | cons c front ih =>
    have hc := hfront c List.mem_cons_self
    have hstep := probeStep hquote h
    rw [hbody] at hstep
    generalize hwhole : c :: front ++ after = body at hstep
    cases hstep with
    | close => simp at hwhole
    | character _ hrest =>
      obtain ⟨rfl, hbody'⟩ := List.cons.inj hwhole
      obtain ⟨rest, rfl, hafter⟩ :=
        ih (fun d hd => hfront d (List.mem_cons_of_mem _ hd)) hrest hbody'.symm
      exact ⟨rest, rfl, hafter⟩
    | lineBreak => exact absurd (List.cons.inj hwhole).1 (hc.ne (by simp))
    | escape => exact absurd (List.cons.inj hwhole).1 (hc.ne (by simp))

end

/-! ## The decoded value -/

/-- The escapes in the body of a string. Every step takes a character, so the length of the body
is fuel enough. -/
def stringEscapes : Nat → List Char → List AuthoredEscape
  | 0, _ | _ + 1, [] => []
  | fuel + 1, c :: rest =>
    if c = '\\' then
      let (escape, _, after) := decodeAuthoredEscape 0 (c :: rest)
      escape :: stringEscapes fuel after
    else stringEscapes fuel rest

/-- A body with its value, and whether all of its escapes are extended ones. -/
inductive Cooks : List Char → List UInt16 → Bool → Prop
  | nil : Cooks [] [] true
  | escape {rest : List Char} {front units : List UInt16} {extended : Bool}
      (hfront : (decodeEscapeBody 1 rest).1.units = some front)
      (h : Cooks (decodeEscapeBody 1 rest).2.2 units extended) :
      Cooks ('\\' :: rest) (front ++ units) ((decodeEscapeBody 1 rest).1.isExtended && extended)
  | character {c : Char} {rest : List Char} {units : List UInt16} {extended : Bool}
      (hc : c ≠ '\\') (h : Cooks rest units extended) :
      Cooks (c :: rest) (charUnits c ++ units) extended

theorem cooks_of_cookString {fuel : Nat} {body : List Char} {units : List UInt16}
    (hfuel : body.length ≤ fuel) (h : cookString fuel body = some units) :
    Cooks body units ((stringEscapes fuel body).all AuthoredEscape.isExtended) := by
  induction fuel generalizing body units with
  | zero =>
    obtain rfl := List.length_eq_zero_iff.mp (Nat.le_zero.mp hfuel)
    obtain rfl := Option.some.inj h
    exact .nil
  | succ fuel ih =>
    cases body with
    | nil =>
      obtain rfl := Option.some.inj h
      exact .nil
    | cons c rest =>
      rw [cookString] at h
      rw [stringEscapes]
      by_cases hc : c = '\\'
      · subst hc
        have hlength := length_decodeEscapeBody_le 1 rest
        simp only [if_pos, decodeAuthoredEscape, List.tail_cons, Nat.zero_add, Option.pure_def,
          Option.bind_eq_bind, Option.bind_eq_some_iff, Option.some.injEq] at h ⊢
        obtain ⟨front, hfront, units, hunits, rfl⟩ := h
        exact .escape hfront (ih (by simp at hfuel; omega) hunits)
      · simp only [if_neg hc, Option.pure_def, Option.bind_eq_bind, Option.bind_eq_some_iff,
          Option.some.injEq] at h ⊢
        obtain ⟨units, hunits, rfl⟩ := h
        exact .character hc (ih (by simp at hfuel; omega) hunits)

/-! ## The scan of an extended string -/

@[simp]
theorem ExtendedString.keep_nil (literal : ExtendedString) : literal.keep [] = literal := by
  simp [keep]

theorem ExtendedString.keep_keep (literal : ExtendedString) (front back : List Char) :
    (literal.keep front).keep back = literal.keep (front ++ back) := by
  simp [keep]

section

variable {source : SourceText} {quote c d : Char} {rest : List Char} {fuel offset : Nat}
  {literal : ExtendedString}

-- The equations are made here once, not by several of the proofs below at the same time.
example {text : List Char} :
    scanExtendedString source quote 0 offset text literal = (literal, offset, false) := by
  unfold scanExtendedString
  rfl

theorem scanExtendedString_quote :
    scanExtendedString source quote (fuel + 1) offset (quote :: rest) literal =
      (literal, offset + 1, true) := by
  unfold scanExtendedString
  exact if_pos rfl

theorem scanExtendedString_character (h : IsStringCharacter quote c) :
    scanExtendedString source quote (fuel + 1) offset (c :: rest) literal =
      scanExtendedString source quote fuel (offset + c.utf8Size) rest (literal.keep [c]) := by
  rw [scanExtendedString.eq_def]
  dsimp only
  rw [if_neg h.2.1, if_neg (not_or.mpr h.2.2), if_neg h.1]

theorem scanExtendedString_parts (hquote : IsQuote quote) {front : List Char}
    (h : ∀ c ∈ front, IsEscapePart c) :
    scanExtendedString source quote (fuel + front.length) offset (front ++ rest) literal =
      scanExtendedString source quote fuel (offset + front.length) rest (literal.keep front) := by
  induction front generalizing offset literal with
  | nil => simp
  | cons c front ih =>
    have hc := h c List.mem_cons_self
    rw [List.length_cons, ← Nat.add_assoc, List.cons_append,
      scanExtendedString_character (hc.isStringCharacter hquote),
      ih fun d hd => h d (List.mem_cons_of_mem c hd), ExtendedString.keep_keep,
      Scanner.utf8Size_of_isAscii hc.isAscii]
    congr 1
    omega

theorem IsQuote.ne_backslash (hquote : IsQuote quote) : '\\' ≠ quote := by
  rcases hquote with rfl | rfl <;> decide

theorem scanExtendedString_lineBreak (hquote : IsQuote quote) :
    scanExtendedString source quote (fuel + 1) offset ('\\' :: '\r' :: '\n' :: rest) literal =
      scanExtendedString source quote fuel (offset + 3) rest
        (literal.keep ['\\', '\r', '\n']) := by
  rw [scanExtendedString.eq_def]
  dsimp only
  rw [if_neg hquote.ne_backslash, if_neg (by decide), if_pos rfl]
  rfl

theorem scanExtendedString_escape (hquote : IsQuote quote)
    (hcrlf : ¬ (d = '\r' ∧ rest.head? = some '\n')) (hu : ¬ (d = 'u' ∧ rest.head? = some '\x7b')) :
    scanExtendedString source quote (fuel + 1) offset ('\\' :: d :: rest) literal =
      scanExtendedString source quote fuel (offset + 1 + d.utf8Size) rest
        (literal.keep ['\\', d]) := by
  rw [scanExtendedString.eq_def]
  dsimp only
  rw [if_neg hquote.ne_backslash, if_neg (by decide), if_pos rfl]
  split
  · simp_all
  · simp_all
  · rename_i heq
    obtain ⟨rfl, rfl⟩ := List.cons.inj heq
    rfl
  · simp_all

theorem scanExtendedString_extended (hquote : IsQuote quote) :
    scanExtendedString source quote (fuel + 1) offset ('\\' :: 'u' :: '\x7b' :: rest) literal =
      scanExtendedString source quote fuel (literal.escape source (offset + 3) rest).2.1
        (literal.escape source (offset + 3) rest).2.2
        (literal.escape source (offset + 3) rest).1 := by
  rw [scanExtendedString.eq_def]
  dsimp only
  rw [if_neg hquote.ne_backslash, if_neg (by decide), if_pos rfl]
  rfl

theorem escape_append (source : SourceText) (literal : ExtendedString) (offset : Nat)
    {digits after : List Char} (hdigits : ∀ c ∈ digits, isHexDigit c)
    (hafter : ∀ c, after.head? = some c → isHexDigit c = false) :
    (literal.escape source offset (digits ++ after)).2 =
        (offset + digits.length + if after.head? = some '\x7d' then 1 else 0,
          if after.head? = some '\x7d' then after.tail else after) ∧
      (digits ≠ [] → hexNumber 0 digits ≤ 0x10ffff → after.head? = some '\x7d' →
        (literal.escape source offset (digits ++ after)).1.cooked =
          literal.cooked ++ codePointUnits (hexNumber 0 digits)) := by
  unfold ExtendedString.escape
  rw [hexDigits_append hdigits hafter]
  constructor
  · simp
    split_ifs <;> simp
  · intro hne hvalue hclose
    have hlength : digits.length ≠ 0 := by simpa using hne
    simp [hclose, hvalue, hlength]

/-- Where a scan ends that starts at an offset. -/
def StringProbe.stop (probe : StringProbe) (offset : Nat) : Nat :=
  offset + utf8Length probe.body + if probe.terminated then 1 else 0

/-- Characters that a probe has taken move its start. -/
theorem StringProbe.stop_push (probe : StringProbe) (front : List Char) (extended : Bool)
    (offset : Nat) :
    (probe.push front extended).stop offset = probe.stop (offset + utf8Length front) := by
  simp only [stop, body_push, utf8Length_append, Nat.add_assoc]
  rfl

theorem utf8Length_digits {digits : List Char} (h : ∀ c ∈ digits, isHexDigit c) :
    utf8Length digits = digits.length :=
  Scanner.utf8Length_of_isAscii fun c hc => isAscii_of_isHexDigit (h c hc)

/-- The probe and the scan of an extended string agree on its end. -/
theorem scanExtendedString_end (hquote : IsQuote quote) (text : List Char)
    (hfuel : text.length < fuel) :
    (scanExtendedString source quote fuel offset text literal).2 =
      ((probeString quote text).stop offset, (probeString quote text).terminated) := by
  induction fuel generalizing text offset literal with
  | zero => omega
  | succ fuel ih =>
    rcases text with _ | ⟨c, rest⟩
    · simp [scanExtendedString, probeString, StringProbe.stop, utf8Length]
    simp only [List.length_cons, Nat.succ_lt_succ_iff] at hfuel
    by_cases hc : c = '\\'
    · subst hc
      rcases rest with _ | ⟨d, rest⟩
      · simp [scanExtendedString, probeString, StringProbe.stop, utf8Length,
          hquote.ne_backslash]
        rfl
      simp only [List.length_cons] at hfuel
      by_cases hcrlf : d = '\r' ∧ rest.head? = some '\n'
      · obtain ⟨rfl, hn⟩ := hcrlf
        obtain ⟨rest, rfl⟩ := List.head?_eq_some_iff.mp hn
        rw [scanExtendedString_lineBreak hquote, ih rest (by simp at hfuel; omega),
          probeString_lineBreak, StringProbe.stop_push]
        rfl
      by_cases hu : d = 'u' ∧ rest.head? = some '\x7b'
      · obtain ⟨rfl, h⟩ := hu
        obtain ⟨rest, rfl⟩ := List.head?_eq_some_iff.mp h
        obtain ⟨digits, after, rfl, hdigits, hafter⟩ := exists_digits rest
        have hescape := (escape_append source literal (offset + 3) hdigits hafter).1
        have hfront : offset + utf8Length ('\\' :: 'u' :: '\x7b' :: digits) =
            offset + 3 + digits.length := by
          rw [show '\\' :: 'u' :: '\x7b' :: digits = ['\\', 'u', '\x7b'] ++ digits from rfl,
            utf8Length_append, utf8Length_digits hdigits, ← Nat.add_assoc]
          rfl
        rw [scanExtendedString_extended hquote, hescape, probeString_extended hquote hdigits,
          StringProbe.stop_push, StringProbe.terminated_push, hfront]
        simp only [List.length_cons, List.length_append] at hfuel
        by_cases hclose : after.head? = some '\x7d'
        · obtain ⟨after, rfl⟩ := List.head?_eq_some_iff.mp hclose
          have hpart : IsEscapePart '\x7d' := .inr (.inr rfl)
          rw [if_pos hclose, if_pos hclose, List.tail_cons,
            probeString_character (hpart.isStringCharacter hquote),
            ih after (by simp at hfuel; omega), StringProbe.stop_push]
          rfl
        · rw [if_neg hclose, if_neg hclose, ih after (by omega)]
          rfl
      · rw [scanExtendedString_escape hquote hcrlf hu, ih rest (by omega),
          probeString_escape quote hcrlf, StringProbe.stop_push, Nat.add_assoc]
        rfl
    by_cases hq : c = quote
    · subst hq
      rw [scanExtendedString_quote, probeString_quote hquote]
      rfl
    by_cases hn : c = '\n' ∨ c = '\r'
    · rw [probeString.eq_5 _ _ _ (fun h _ => hc h) (fun _ h _ => hc h) fun _ _ h _ => hc h,
        if_neg hq, if_pos hn, scanExtendedString.eq_def]
      dsimp only
      rw [if_neg hq, if_pos hn]
      rfl
    · have hchar : IsStringCharacter quote c := ⟨hc, hq, not_or.mp hn⟩
      rw [scanExtendedString_character hchar, probeString_character hchar, ih rest hfuel,
        StringProbe.stop_push]
      rfl

/-- What the scan of an extended string keeps of a body, compared with the value of the body. -/
structure KeepsUnits (extended : Bool) (units kept : List UInt16) : Prop where
  same : extended → kept = units
  longer : extended = false → units.length < kept.length

namespace KeepsUnits

variable {extended : Bool} {units kept : List UInt16}

theorem length_le (h : KeepsUnits extended units kept) : units.length ≤ kept.length := by
  cases extended with
  | true => rw [h.same rfl]
  | false => exact (h.longer rfl).le

theorem append (h : KeepsUnits extended units kept) (front : List UInt16) :
    KeepsUnits extended (front ++ units) (front ++ kept) where
  same he := by rw [h.same he]
  longer he := by simpa using h.longer he

theorem append_longer (h : KeepsUnits extended units kept) {front front' : List UInt16}
    (hfront : front.length < front'.length) :
    KeepsUnits false (front ++ units) (front' ++ kept) where
  same := by simp
  longer _ := by
    have := h.length_le
    simp
    omega

end KeepsUnits

/-- What a scan adds to the value of a string. -/
def AddsValue (extended : Bool) (units : List UInt16) (literal result : ExtendedString) : Prop :=
  ∃ kept, result.cooked = literal.cooked ++ kept ∧ KeepsUnits extended units kept

namespace AddsValue

variable {extended : Bool} {units front : List UInt16} {spelling : List Char}
  {literal literal' result : ExtendedString}

theorem refl (literal : ExtendedString) : AddsValue true [] literal literal :=
  ⟨[], by simp, fun _ => rfl, by simp⟩

theorem same (h : AddsValue extended units literal' result)
    (hfront : literal'.cooked = literal.cooked ++ front) :
    AddsValue extended (front ++ units) literal result := by
  obtain ⟨kept, hkept, hkeeps⟩ := h
  exact ⟨front ++ kept, by rw [hkept, hfront, List.append_assoc], hkeeps.append front⟩

theorem longer (h : AddsValue extended units (literal.keep spelling) result)
    (hfront : front.length < (spelling.flatMap charUnits).length) :
    AddsValue false (front ++ units) literal result := by
  obtain ⟨kept, hkept, hkeeps⟩ := h
  refine ⟨spelling.flatMap charUnits ++ kept, ?_, hkeeps.append_longer hfront⟩
  rw [hkept, ExtendedString.keep, List.append_assoc]

end AddsValue

theorem length_le_flatMap_charUnits (text : List Char) :
    text.length ≤ (text.flatMap charUnits).length := by
  induction text with
  | nil => exact Nat.le_refl _
  | cons c text ih =>
    have := one_le_length_charUnits c
    simp only [List.flatMap_cons, List.length_append, List.length_cons]
    omega

/-- The scan finds the value of a terminated text with a body. -/
def FindsValue (source : SourceText) (quote : Char) (body : List Char) (extended : Bool)
    (units : List UInt16) : Prop :=
  ∀ ⦃text : List Char⦄ ⦃fuel offset : Nat⦄ ⦃literal : ExtendedString⦄,
    (probeString quote text).body = body → (probeString quote text).terminated →
    text.length < fuel →
    AddsValue extended units literal
      (scanExtendedString source quote fuel offset text literal).1

theorem addsValue_extended (hquote : IsQuote quote) {units front : List UInt16} {extended : Bool}
    (hfront : (decodeEscapeBody 1 ('u' :: (probeString quote ('\x7b' :: rest)).body)).1.units =
      some front)
    (hterminated : (probeString quote ('\x7b' :: rest)).terminated)
    (ih : FindsValue source quote
      (decodeEscapeBody 1 ('u' :: (probeString quote ('\x7b' :: rest)).body)).2.2 extended units)
    (hfuel : rest.length + 2 < fuel) :
    AddsValue
      ((decodeEscapeBody 1 ('u' :: (probeString quote ('\x7b' :: rest)).body)).1.isExtended &&
        extended)
      (front ++ units) literal
      (scanExtendedString source quote (fuel + 1) offset ('\\' :: 'u' :: '\x7b' :: rest)
        literal).1 := by
  obtain ⟨digits, after, rfl, hdigits, hafter⟩ := exists_digits rest
  have hparts : ∀ c ∈ '\x7b' :: digits, IsEscapePart c := by
    intro c hc
    rcases List.mem_cons.mp hc with rfl | hc
    · exact .inr (.inl rfl)
    · exact .inl (hdigits c hc)
  have hprobe := probeString_parts hquote hparts after
  rw [List.cons_append] at hprobe
  rw [hprobe, StringProbe.terminated_push] at hterminated
  have hafter' : ∀ c, (probeString quote after).body.head? = some c → isHexDigit c = false :=
    fun c hc => hafter c (head?_of_body hquote hterminated hc)
  rw [hprobe, StringProbe.body_push, List.cons_append,
    decodeEscapeBody_extended hdigits hafter'] at hfront ih ⊢
  simp only [AuthoredEscape.units, Option.ite_none_right_eq_some, beq_iff_eq,
    Option.some.injEq] at hfront
  obtain ⟨⟨hclose, hne, hvalue⟩, rfl⟩ := hfront
  obtain ⟨after, rfl⟩ :=
    List.head?_eq_some_iff.mp (head?_of_body hquote hterminated hclose)
  have hpart : IsEscapePart '\x7d' := .inr (.inr rfl)
  rw [probeString_character (hpart.isStringCharacter hquote)] at ih hterminated
  have hescape := escape_append source literal (offset + 3) hdigits hafter
  rw [scanExtendedString_extended hquote, hescape.1]
  refine (ih rfl hterminated ?_).same (hescape.2 ?_ hvalue rfl)
  · simp at hfuel ⊢
    omega
  · rintro rfl
    simp at hne

theorem addsValue_ordinary (hquote : IsQuote quote) {units front : List UInt16} {extended : Bool}
    (hcrlf : ¬ (d = '\r' ∧ rest.head? = some '\n')) (hu : ¬ (d = 'u' ∧ rest.head? = some '\x7b'))
    (hfront : (decodeEscapeBody 1 (d :: (probeString quote rest).body)).1.units = some front)
    (hterminated : (probeString quote rest).terminated)
    (ih : FindsValue source quote (decodeEscapeBody 1 (d :: (probeString quote rest).body)).2.2
      extended units)
    (hfuel : rest.length + 1 < fuel) :
    AddsValue
      ((decodeEscapeBody 1 (d :: (probeString quote rest).body)).1.isExtended && extended)
      (front ++ units) literal
      (scanExtendedString source quote (fuel + 1) offset ('\\' :: d :: rest) literal).1 := by
  obtain ⟨digits, after, hbody, hread⟩ :=
    decodeEscapeBody_ordinary 1 d (probeString quote rest).body
      (fun h => hcrlf ⟨h.1, head?_of_body hquote hterminated h.2⟩)
      fun h => hu ⟨h.1, head?_of_body hquote hterminated h.2⟩
  have hparts : ∀ c ∈ digits, IsEscapePart c := fun c hc => .inl (hread.isHexDigit c hc)
  obtain ⟨rest, rfl, hrest, hterm⟩ := exists_of_parts hquote hparts hterminated hbody
  rw [hread.rest] at ih
  rw [hread.ordinary, Bool.false_and, scanExtendedString_escape hquote hcrlf hu]
  obtain ⟨fuel, rfl⟩ : ∃ n, fuel = n + digits.length :=
    ⟨fuel - digits.length, by simp at hfuel; omega⟩
  rw [scanExtendedString_parts hquote hparts, ExtendedString.keep_keep]
  refine (ih hrest hterm ?_).longer ?_
  · simp at hfuel
    omega
  · have hshort := hread.shorter front hfront
    have hdigits := length_le_flatMap_charUnits digits
    have hslash : (charUnits '\\').length = 1 := rfl
    simp only [List.cons_append, List.nil_append, List.flatMap_cons, List.length_append, hslash]
    omega

theorem findsValue (hquote : IsQuote quote) {body : List Char} {units : List UInt16}
    {extended : Bool} (hcooks : Cooks body units extended) :
    FindsValue source quote body extended units := by
  induction hcooks with
  | nil =>
    intro text fuel offset literal hbody hterminated hfuel
    have hstep := probeStep hquote hterminated
    rw [hbody] at hstep
    obtain ⟨fuel, rfl⟩ : ∃ n, fuel = n + 1 := ⟨fuel - 1, by omega⟩
    cases hstep with
    | close rest =>
      rw [scanExtendedString_quote]
      exact .refl literal
  | character hc hcooks ih =>
    intro text fuel offset literal hbody hterminated hfuel
    have hstep := probeStep hquote hterminated
    rw [hbody] at hstep
    obtain ⟨fuel, rfl⟩ : ∃ n, fuel = n + 1 := ⟨fuel - 1, by omega⟩
    cases hstep with
    | character hchar hrest =>
      rw [scanExtendedString_character hchar]
      refine (ih rfl hrest (Nat.lt_of_succ_lt_succ hfuel)).same ?_
      simp [ExtendedString.keep]
    | lineBreak => exact absurd rfl hc
    | escape => exact absurd rfl hc
  | @escape rest front units extended hfront hcooks ih =>
    intro text fuel offset literal hbody hterminated hfuel
    have hstep := probeStep hquote hterminated
    rw [hbody] at hstep
    obtain ⟨fuel, rfl⟩ : ∃ n, fuel = n + 1 := ⟨fuel - 1, by omega⟩
    cases hstep with
    | character hchar => exact absurd rfl hchar.1
    | @lineBreak after hrest =>
      obtain rfl : [] = front := Option.some.inj hfront
      rw [scanExtendedString_lineBreak hquote]
      have hlength : after.length < fuel := by simp at hfuel; omega
      exact (ih rfl hrest hlength).longer (by decide)
    | @escape d after hcrlf hrest =>
      by_cases hu : d = 'u' ∧ after.head? = some '\x7b'
      · obtain ⟨rfl, hbrace⟩ := hu
        obtain ⟨after, rfl⟩ := List.head?_eq_some_iff.mp hbrace
        exact addsValue_extended hquote hfront hrest ih (by simpa using hfuel)
      · exact addsValue_ordinary hquote hcrlf hu hfront hrest ih (by simpa using hfuel)

end

/-! ## Both ways of cooking -/

section

variable {source : SourceText} {start : Nat} {quote : Char} {text : List Char}

theorem cooked_scanString :
    (scanString source start quote text).cooked =
      (if (probeString quote text).terminated then
        cookString (probeString quote text).body.length (probeString quote text).body
      else none).map (⟨·⟩) := by
  unfold scanString
  dsimp only
  split <;> rfl

theorem cooked_of_extendedLiteral {literal : ExtendedUnicodeStringLiteral}
    (h : (scanString source start quote text).extendedLiteral = some literal) :
    literal.cooked.units =
      (scanExtendedString source quote (text.length + 1) (start + 1) text {}).1.cooked := by
  unfold scanString at h
  by_cases hext : (probeString quote text).hasExtendedEscape
  · rw [if_pos hext] at h
    obtain rfl := Option.some.inj h
    rfl
  · rw [if_neg hext] at h
    simp at h

end

/-- The probe and the scan of an extended string stop at the same place, and a string whose value
is decoded has that value in the scan as well if and only if all of its escapes are extended. -/
theorem extended_cooked_iff (source : SourceText) (start : Nat) {quote : Char} (text : List Char)
    (hquote : quote = '"' ∨ quote = '\'') :
    (scanExtendedString source quote (text.length + 1) (start + 1) text {}).2 =
        ((probeString quote text).stop (start + 1), (probeString quote text).terminated) ∧
      ∀ literal value, (scanString source start quote text).extendedLiteral = some literal →
        (scanString source start quote text).cooked = some value →
        (literal.cooked = value ↔
          ∀ escape ∈
            stringEscapes (probeString quote text).body.length (probeString quote text).body,
            escape.isExtended) := by
  refine ⟨scanExtendedString_end hquote text (Nat.lt_succ_self _), ?_⟩
  intro literal value hliteral hvalue
  simp only [cooked_scanString, Option.map_eq_some_iff, Option.ite_none_right_eq_some] at hvalue
  obtain ⟨units, ⟨hterminated, hunits⟩, rfl⟩ := hvalue
  have hcooks := cooks_of_cookString (Nat.le_refl _) hunits
  obtain ⟨kept, hkept, hkeeps⟩ : AddsValue _ units {}
      (scanExtendedString source quote (text.length + 1) (start + 1) text {}).1 :=
    findsValue hquote hcooks rfl hterminated (Nat.lt_succ_self _)
  have hcooked : literal.cooked = ⟨kept⟩ := by
    cases literal
    exact congrArg Utf16String.mk ((cooked_of_extendedLiteral hliteral).trans hkept)
  rw [hcooked, Utf16String.mk.injEq, ← List.all_eq_true]
  cases hall : (stringEscapes (probeString quote text).body.length
      (probeString quote text).body).all AuthoredEscape.isExtended with
  | true =>
    rw [hall] at hkeeps
    simp [hkeeps.same rfl]
  | false =>
    rw [hall] at hkeeps
    have hlonger := hkeeps.longer rfl
    simp only [Bool.false_eq_true, iff_false]
    rintro rfl
    exact Nat.lt_irrefl _ hlonger

def bracedString : SourceText := ⟨⟨0⟩, none, "'\\u\x7b41\x7d'".toList⟩

def bracedLiteral : ExtendedUnicodeStringLiteral :=
  ⟨"'\\u\x7b41\x7d'", ⟨[0x41]⟩, true, false, true⟩

theorem extended_cooked_iff_braced :
    (scanString bracedString 0 '\'' bracedString.text.tail).cooked = some ⟨[0x41]⟩ ∧
      (bracedLiteral.cooked = ⟨[0x41]⟩ ↔
        ∀ escape ∈
          stringEscapes (probeString '\'' bracedString.text.tail).body.length
            (probeString '\'' bracedString.text.tail).body,
          escape.isExtended) :=
  ⟨by decide +kernel,
    (extended_cooked_iff bracedString 0 bracedString.text.tail (.inr rfl)).2 bracedLiteral
      ⟨[0x41]⟩ (by decide +kernel) (by decide +kernel)⟩

def mixedString : SourceText := ⟨⟨0⟩, none, "'\\n\\u\x7b41\x7d'".toList⟩

/-- A line feed in front of an extended escape keeps the spelling of its escape. -/
theorem mixedString_cooked :
    ((scanString mixedString 0 '\'' mixedString.text.tail).extendedLiteral.map
        (·.cooked.units)) = some [0x5c, 0x6e, 0x41] ∧
      (scanString mixedString 0 '\'' mixedString.text.tail).cooked = some ⟨[0x0a, 0x41]⟩ := by
  decide +kernel

end Tsz.Syntax
