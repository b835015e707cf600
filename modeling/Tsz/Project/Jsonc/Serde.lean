import Tsz.Project.ConfigLoading
import Tsz.Project.Jsonc.Text

/-!
# Reading JSON

The library that reads JSON, as far as configurations rely on it: what it makes of the syntax of a
value, and that it keeps the last one of the entries with one key.

## Main definitions

* `SerdeJson` — the functions of the library.
* `Tree.read` — the value that a piece of syntax stands for.
* `SerdeJson.IsLawful` — the library reads the value of a text.
* `plainSerde` — a reader without a limit for the depth of values.

## Main results

* `isLawful_plainSerde` — that reader reads the value of every text.
-/

namespace Tsz.Jsonc

open Tsz.Syntax
open Tsz.Project (Name)
open Tsz.Project.Config (Json)

class SerdeJson where
  /-- `from_str` for values. -/
  parse : List Char → Option Json
  /-- `from_str` for strings. -/
  parseString : List Char → Option Name
  /-- The first value of a stream, and the bytes of the text up to its end. -/
  nextValue : List Char → Option (Json × Nat)
  /-- The depth from which on values are refused. -/
  recursionLimit : Option Nat

/-! ## Values -/

def Word.value : Word → Json
  | .true => .bool Bool.true
  | .false => .bool Bool.false
  | .null => .null

def JsonNumber.text (n : JsonNumber) : List Char :=
  if n.negative then '-' :: n.digits else n.digits

def Entry : Bracket → Type
  | .array => Json
  | .object => Name × Json

/-- What a piece of syntax is read as. -/
def Reading : Part → Type
  | .value => Json
  | .items b | .tail b => List (Entry b)

/-- A later entry takes the place of the one with its key. -/
def insertEntry (entries : List (Name × Json)) (entry : Name × Json) : List (Name × Json) :=
  if entries.any (·.1 == entry.1) then
    entries.map fun other => if other.1 == entry.1 then entry else other
  else entries ++ [entry]

def ofEntries : (b : Bracket) → List (Entry b) → Json
  | .array, values => .array values
  | .object, entries => .object (entries.foldl insertEntry [])

namespace Tree

variable [SerdeJson]

def read : {part : Part} → Tree part → Option (Reading part)
  | _, word _ w => some w.value
  | _, number _ n => SerdeJson.parse n.text
  | _, string _ s => (SerdeJson.parseString s.text).map Json.string
  | _, nested _ b items => items.read.map (ofEntries b)
  | .items b, close _ => some ([] : List (Entry b))
  | _, element value tail =>
    value.read.bind fun v => tail.read.map fun vs => (v :: vs : List Json)
  | _, member _ key _ value tail =>
    (SerdeJson.parseString key.text).bind fun name =>
      value.read.bind fun v => tail.read.map fun vs => ((name, v) :: vs : List (Name × Json))
  | .tail b, stop _ => some ([] : List (Entry b))
  | _, comma _ items => items.read

omit [SerdeJson] in
def depth : {part : Part} → Tree part → Nat
  | _, word _ _ | _, number _ _ | _, string _ _ | _, close _ | _, stop _ => 0
  | _, nested _ _ items => items.depth + 1
  | _, element value tail | _, member _ _ _ value tail => max value.depth tail.depth
  | _, comma _ items => items.depth

/-- The value of a text that is not too deep. -/
def readWithin (value : Tree .value) : Option Json :=
  if SerdeJson.recursionLimit.all (value.depth < ·) then value.read else none

end Tree

/-- The library reads values, with spaces around their lexemes. A stream has something behind its
first value that cannot belong to it. -/
structure SerdeJson.IsLawful [SerdeJson] : Prop where
  parse : ∀ {value : Tree .value}, value.IsJson → ∀ n,
    SerdeJson.parse (value.text ++ List.replicate n ' ') = value.readWithin
  nextValue : ∀ {value : Tree .value}, value.IsJson →
    ∀ {rest : List Char}, (∀ c, rest.head? = some c → c ∈ [' ', ',', ']', '\x7d']) →
      SerdeJson.nextValue (value.text ++ rest) = value.readWithin.map (·, utf8Length value.text)

/-! ## Other gaps -/

section

variable [SerdeJson] {part : Part} (width : Nat → Nat)

theorem read_regap (t : Tree part) : (t.regap width).read = t.read := by
  induction t with
  | word gap w => rfl
  | number gap n => rfl
  | string gap s => rfl
  | nested gap b items ih => rw [Tree.regap, Tree.read, Tree.read, ih]
  | close gap => rfl
  | element value tail ih ihtail => rw [Tree.regap, Tree.read, Tree.read, ih, ihtail]
  | member gap key colon value tail ih ihtail => rw [Tree.regap, Tree.read, Tree.read, ih, ihtail]
  | stop gap => rfl
  | comma gap items ih =>
    by_cases h : ∃ gap, items = .close gap
    · obtain ⟨gap', rfl⟩ := h
      rfl
    · rw [Tree.regap, Tree.joined_of_ne width (not_exists.mp h), Tree.read, Tree.read, ih]

omit [SerdeJson] in
theorem depth_regap (t : Tree part) : (t.regap width).depth = t.depth := by
  induction t with
  | word gap w => rfl
  | number gap n => rfl
  | string gap s => rfl
  | nested gap b items ih => rw [Tree.regap, Tree.depth, Tree.depth, ih]
  | close gap => rfl
  | element value tail ih ihtail => rw [Tree.regap, Tree.depth, Tree.depth, ih, ihtail]
  | member gap key colon value tail ih ihtail =>
    rw [Tree.regap, Tree.depth, Tree.depth, ih, ihtail]
  | stop gap => rfl
  | comma gap items ih =>
    by_cases h : ∃ gap, items = .close gap
    · obtain ⟨gap', rfl⟩ := h
      rfl
    · rw [Tree.regap, Tree.joined_of_ne width (not_exists.mp h), Tree.depth, Tree.depth, ih]

theorem readWithin_regap (value : Tree .value) :
    (value.regap width).readWithin = value.readWithin := by
  rw [Tree.readWithin, Tree.readWithin, read_regap, depth_regap]

end

/-! ## A reader -/

/-- The escapes of a string of JSON. -/
def decodeBody : List Char → Option Name
  | [] => some []
  | '\\' :: 'u' :: a :: b :: c :: d :: rest => do
    let value := hexNumber 0 [a, b, c, d]
    if 0xd800 ≤ value ∧ value < 0xe000 then none
    else (decodeBody rest).map (Char.ofNat value :: ·)
  | '\\' :: c :: rest => do
    let d ← [('"', '"'), ('\\', '\\'), ('/', '/'), ('b', '\x08'), ('f', '\x0c'), ('n', '\n'),
      ('r', '\r'), ('t', '\t')].lookup c
    (decodeBody rest).map (d :: ·)
  | c :: rest => (decodeBody rest).map (c :: ·)

/-- The body of a string, and what follows the quote at its end. -/
def splitString : List Char → Option (List Char × List Char)
  | [] => none
  | '\\' :: c :: rest => (splitString rest).map fun (body, rest) => ('\\' :: c :: body, rest)
  | c :: rest =>
    if c = '"' then some ([], rest)
    else (splitString rest).map fun (body, rest) => (c :: body, rest)

def isNumberCharacter (c : Char) : Bool := c.isDigit || ['-', '+', '.', 'e', 'E'].contains c

def skipSpaces (text : List Char) : List Char := text.dropWhile (· == ' ')

/-- A piece of syntax at the start of a text, and what follows it. Every lexeme takes fuel. -/
def readPart : Nat → (part : Part) → List Char → Option (Reading part × List Char)
  | 0, _, _ => none
  | fuel + 1, .value, text =>
    match skipSpaces text with
    | 't' :: 'r' :: 'u' :: 'e' :: rest => some (.bool true, rest)
    | 'f' :: 'a' :: 'l' :: 's' :: 'e' :: rest => some (.bool false, rest)
    | 'n' :: 'u' :: 'l' :: 'l' :: rest => some (.null, rest)
    | '"' :: rest =>
      (splitString rest).bind fun (body, rest) =>
        (decodeBody body).map fun value => (.string value, rest)
    | '[' :: rest =>
      (readPart fuel (.items .array) rest).map fun (values, rest) =>
        (ofEntries .array values, rest)
    | '\x7b' :: rest =>
      (readPart fuel (.items .object) rest).map fun (entries, rest) =>
        (ofEntries .object entries, rest)
    | text => some (.number (text.takeWhile isNumberCharacter), text.dropWhile isNumberCharacter)
  | fuel + 1, .items .array, text =>
    match skipSpaces text with
    | ']' :: rest => some (([] : List Json), rest)
    | text =>
      (readPart fuel .value text).bind fun (value, rest) =>
        (readPart fuel (.tail .array) rest).map fun (values, rest) =>
          ((value :: values : List Json), rest)
  | fuel + 1, .items .object, text =>
    match skipSpaces text with
    | '"' :: rest =>
      (splitString rest).bind fun (body, rest) =>
        (decodeBody body).bind fun name =>
          match skipSpaces rest with
          | ':' :: rest =>
            (readPart fuel .value rest).bind fun (value, rest) =>
              (readPart fuel (.tail .object) rest).map fun (entries, rest) =>
                (((name, value) :: entries : List (Name × Json)), rest)
          | _ => none
    | '\x7d' :: rest => some (([] : List (Name × Json)), rest)
    | _ => none
  | fuel + 1, .tail b, text =>
    match skipSpaces text with
    | ',' :: rest => readPart fuel (.items b) rest
    | c :: rest => if c = b.closing.char then some (([] : List (Entry b)), rest) else none
    | [] => none

/-- A reader of JSON. -/
@[reducible] def plainSerde : SerdeJson where
  parse text :=
    (readPart (text.length + 1) .value text).bind fun (value, rest) =>
      if skipSpaces rest = [] then some value else none
  parseString text := (splitString text.tail).bind fun (body, _) => decodeBody body
  nextValue text :=
    (readPart (text.length + 1) .value text).map fun (value, rest) =>
      (value, utf8Length text - utf8Length rest)
  recursionLimit := none

/-! ### What it reads -/

-- The equations are made here once, not by several of the proofs below at the same time.
example (part : Part) (text : List Char) : readPart 0 part text = none := by
  rw [readPart]

theorem skipSpaces_spaces (n : Nat) (text : List Char) :
    skipSpaces (List.replicate n ' ' ++ text) = skipSpaces text := by
  rw [skipSpaces, List.dropWhile_append_of_pos (by simp), skipSpaces]

theorem skipSpaces_cons {c : Char} (h : c ≠ ' ') (text : List Char) :
    skipSpaces (c :: text) = c :: text := by
  rw [skipSpaces, List.dropWhile_cons_of_neg (by simpa using h)]

theorem readPart_skipSpaces (fuel : Nat) (text : List Char) :
    readPart fuel .value (skipSpaces text) = readPart fuel .value text := by
  have hidem : skipSpaces (skipSpaces text) = skipSpaces text := List.dropWhile_idempotent ..
  cases fuel with
  | zero => rfl
  | succ fuel => rw [readPart, readPart, hidem]

theorem splitString_body {body : List Char} (h : IsStringBody body) (rest : List Char) :
    splitString (body ++ '"' :: rest) = some (body, rest) := by
  have hplain {c : Char} (hc : c ≠ '\\') (hquote : c ≠ '"') (text : List Char) :
      splitString (c :: text) = (splitString text).map fun (body, rest) => (c :: body, rest) := by
    rw [splitString.eq_3 _ _ (by rintro _ _ rfl; exact absurd rfl hc), if_neg hquote]
  induction h with
  | nil => rfl
  | character hcontrol hquote hescape h ih => rw [List.cons_append, hplain hescape hquote, ih]; rfl
  | escape hc h ih => rw [List.cons_append, List.cons_append, splitString, ih]; rfl
  | @unicode digits body hlength hdigits h ih =>
    have hall : splitString (digits ++ (body ++ '"' :: rest)) = some (digits ++ body, rest) := by
      clear hlength
      induction digits with
      | nil => exact ih
      | cons c digits ihdigits =>
        obtain ⟨hc, hdigits⟩ := List.forall_mem_cons.mp hdigits
        have hne {d : Char} (hd : isHexDigit d = false) : c ≠ d := by
          rintro rfl
          rw [hd] at hc
          cases hc
        rw [List.cons_append, hplain (hne rfl) (hne rfl), ihdigits hdigits]
        rfl
    rw [List.cons_append, List.cons_append, List.append_assoc, splitString, hall]
    rfl

/-- What may stand behind a value in a stream. -/
def FollowsValue (rest : List Char) : Prop :=
  ∀ c, rest.head? = some c → c ∈ [' ', ',', ']', '\x7d']

theorem isNumberCharacter_digits {digits : List Char} (h : IsNumber digits) :
    ∀ c ∈ digits, isNumberCharacter c = true := by
  have hdigits {digits : List Char} (h : Decimals.IsDigits digits) :
      ∀ c ∈ digits, isNumberCharacter c = true := fun c hc => by
    rw [isNumberCharacter, h c hc, Bool.true_or]
  obtain ⟨hinteger, hpoint, hexponent⟩ := h
  simp only [List.forall_mem_append]
  refine ⟨?_, ?_, ?_⟩
  · rcases hinteger with rfl | ⟨-, h, -⟩
    · exact List.all_eq_true.mp (by decide)
    · exact hdigits h
  · obtain rfl | ⟨fraction, -, h, rfl⟩ := hpoint
    · simp
    · exact List.forall_mem_cons.mpr ⟨rfl, hdigits h⟩
  · obtain rfl | ⟨mark, sign, digits, hmark, hsign, -, h, rfl⟩ := hexponent
    · simp
    · refine List.forall_mem_cons.mpr ⟨by rcases hmark with rfl | rfl <;> rfl, ?_⟩
      refine List.forall_mem_append.mpr ⟨?_, hdigits h⟩
      rcases hsign with rfl | rfl | rfl <;> exact List.all_eq_true.mp (by decide)

theorem span_number {number rest : List Char} (h : ∀ c ∈ number, isNumberCharacter c = true)
    (hrest : FollowsValue rest) :
    (number ++ rest).takeWhile isNumberCharacter = number ∧
      (number ++ rest).dropWhile isNumberCharacter = rest := by
  have hstop : rest.takeWhile isNumberCharacter = [] ∧
      rest.dropWhile isNumberCharacter = rest := by
    cases rest with
    | nil => exact ⟨rfl, rfl⟩
    | cons c rest =>
      have hc : isNumberCharacter c = false := by
        have hmem := hrest c rfl
        simp only [List.mem_cons, List.not_mem_nil, or_false] at hmem
        rcases hmem with rfl | rfl | rfl | rfl <;> rfl
      rw [List.takeWhile_cons_of_neg (by simp [hc]), List.dropWhile_cons_of_neg (by simp [hc])]
      exact ⟨rfl, rfl⟩
  rw [List.takeWhile_append_of_pos h, List.dropWhile_append_of_pos h, hstop.1, hstop.2,
    List.append_nil]
  exact ⟨rfl, rfl⟩

theorem readPart_number {c : Char} {cs rest : List Char} (hc : c.isDigit = true ∨ c = '-')
    (h : ∀ d ∈ c :: cs, isNumberCharacter d = true) (hrest : FollowsValue rest) (fuel : Nat) :
    readPart (fuel + 1) .value (c :: cs ++ rest) = some (.number (c :: cs), rest) := by
  have hne {d : Char} (hd : d.isDigit = false) (hminus : d ≠ '-') : c ≠ d := by
    rintro rfl
    rcases hc with hc | hc
    · rw [hd] at hc
      cases hc
    · exact hminus hc
  have hspan := span_number h hrest
  have hskip : skipSpaces (c :: cs ++ rest) = c :: cs ++ rest :=
    skipSpaces_cons (hne rfl (by decide)) _
  rw [readPart, hskip]
  split
  all_goals first
    | (next heq => exact absurd (List.cons.inj heq).1 (hne rfl (by decide)))
    | rw [hspan.1, hspan.2]

theorem one_le_length_pieces {part : Part} (t : Tree part) : 1 ≤ t.pieces.length := by
  induction t with
  | number gap n =>
    rw [Tree.pieces]
    split <;> simp
  | element value tail ih ihtail =>
    rw [Tree.pieces, List.length_append]
    omega
  | _ => simp [Tree.pieces]

/-- A value starts with spaces and a character of ASCII that closes nothing. -/
theorem exists_spaces_value {value : Tree .value} (h : value.IsJson) :
    ∃ n c cs, value.text = List.replicate n ' ' ++ c :: cs ∧ isAscii c = true ∧ c ≠ ' ' ∧
      c ≠ ']' := by
  have hfirst (n : Nat) {lexeme : Lexeme} (pieces : List Piece) {c : Char} {cs : List Char}
      (htext : lexeme.text = c :: cs) (hc : isAscii c = true ∧ c ≠ ' ' ∧ c ≠ ']') :
      ∃ n' c cs, render (⟨.spaces n, lexeme⟩ :: pieces) = List.replicate n' ' ' ++ c :: cs ∧
        isAscii c = true ∧ c ≠ ' ' ∧ c ≠ ']' :=
    ⟨n, c, cs ++ render pieces, by simp [Gap.spaces, htext], hc⟩
  cases h with
  | word n w => cases w <;> exact hfirst n _ rfl (by decide)
  | number n m =>
    obtain ⟨-, c, cs, hdigits, hc⟩ := m.isNumber.isSpelling
    have hne {d : Char} (hd : d.isDigit = false) : c ≠ d := by
      rintro rfl
      rw [hd] at hc
      cases hc
    rw [Tree.text, Tree.pieces]
    split
    · exact hfirst n _ rfl (by decide)
    · exact hfirst n _ hdigits ⟨isAscii_of_isDigit hc, hne rfl, hne rfl⟩
  | string n s => exact hfirst n _ rfl (by decide)
  | @nested n b items h => cases b <;> exact hfirst n _ rfl (by decide)

theorem skipSpaces_value {value : Tree .value} (h : value.IsJson) (rest : List Char) :
    ∃ c cs, skipSpaces (value.text ++ rest) = c :: cs ∧ c ≠ ']' := by
  obtain ⟨n, c, cs, htext, -, hspace, hc⟩ := exists_spaces_value h
  refine ⟨c, cs ++ rest, ?_, hc⟩
  rw [htext, List.append_assoc, skipSpaces_spaces, List.cons_append, skipSpaces_cons hspace]

theorem readPart_closing (b : Bracket) (n fuel : Nat) (rest : List Char) :
    readPart (fuel + 1) (.items b) (List.replicate n ' ' ++ b.closing.char :: rest) =
      some (([] : List (Entry b)), rest) := by
  cases b <;> rw [readPart, skipSpaces_spaces] <;> rfl

theorem followsValue_tail {b : Bracket} {tail : Tree (.tail b)} (h : tail.IsJson)
    (rest : List Char) : FollowsValue (tail.text ++ rest) := by
  have hspaces (n : Nat) {c : Char} (hc : c ∈ [' ', ',', ']', '\x7d']) (rest : List Char) :
      FollowsValue (List.replicate n ' ' ++ c :: rest) := by
    intro d hd
    cases n with
    | zero =>
      obtain rfl := Option.some.inj hd
      exact hc
    | succ n =>
      obtain rfl := Option.some.inj hd
      exact List.mem_cons_self
  cases h with
  | stop n =>
    have hclosing : b.closing.char ∈ [' ', ',', ']', '\x7d'] := by cases b <;> decide
    simpa [Tree.text, Tree.pieces, Gap.spaces, Lexeme.text] using hspaces n hclosing rest
  | @comma _ n items hitems h =>
    have hcomma : Mark.comma.char ∈ [' ', ',', ']', '\x7d'] := by decide
    simpa [Tree.text, Tree.pieces, Gap.spaces, Lexeme.text] using
      hspaces n hcomma (render items.pieces ++ rest)

section

local instance plainReader : SerdeJson := plainSerde

theorem JsonNumber.exists_cons (n : JsonNumber) :
    ∃ c cs, n.text = c :: cs ∧ (c.isDigit = true ∨ c = '-') ∧
      ∀ d ∈ c :: cs, isNumberCharacter d = true := by
  obtain ⟨-, c, cs, hdigits, hc⟩ := n.isNumber.isSpelling
  have hall := isNumberCharacter_digits n.isNumber
  rw [JsonNumber.text]
  split
  · exact ⟨_, _, rfl, .inr rfl, List.forall_mem_cons.mpr ⟨rfl, hall⟩⟩
  · exact ⟨c, cs, hdigits, .inl hc, hdigits ▸ hall⟩

theorem read_number (gap : Gap) (n : JsonNumber) :
    (Tree.number gap n).read = some (.number n.text) := by
  obtain ⟨c, cs, htext, hc, hall⟩ := n.exists_cons
  have hread := readPart_number hc hall (show FollowsValue [] from nofun) (c :: cs).length
  rw [List.append_nil] at hread
  change (readPart (n.text.length + 1) .value n.text).bind _ = _
  rw [htext, hread]
  rfl

/-- The values of a document are read as they stand for. -/
theorem readPart_text {part : Part} {t : Tree part} (h : t.IsJson) {fuel : Nat}
    (hfuel : t.pieces.length ≤ fuel) {rest : List Char}
    (hrest : part = .value → FollowsValue rest) :
    readPart fuel part (t.text ++ rest) = t.read.map (·, rest) := by
  induction h generalizing fuel rest with
  | word n w =>
    obtain ⟨fuel, rfl⟩ := Nat.exists_eq_add_of_le' hfuel
    have htext : (Tree.word (.spaces n) w).text ++ rest =
        List.replicate n ' ' ++ (w.text ++ rest) := by
      simp [Tree.text, Tree.pieces, Gap.spaces, Lexeme.text]
    rw [htext, Tree.pieces, List.length_singleton, readPart, skipSpaces_spaces]
    cases w <;> rfl
  | number n m =>
    have htext : (Tree.number (.spaces n) m).text ++ rest =
        List.replicate n ' ' ++ (m.text ++ rest) := by
      rw [Tree.text, Tree.pieces, JsonNumber.text]
      split <;> simp [Gap.spaces, Lexeme.text, Mark.char]
    obtain ⟨fuel, rfl⟩ : ∃ k, fuel = k + 1 :=
      ⟨fuel - 1, by have := one_le_length_pieces (Tree.number (.spaces n) m); omega⟩
    obtain ⟨c, cs, hnumber, hc, hall⟩ := m.exists_cons
    rw [htext, ← readPart_skipSpaces, skipSpaces_spaces, readPart_skipSpaces, read_number, hnumber,
      readPart_number hc hall (hrest rfl)]
    rfl
  | string n s =>
    obtain ⟨fuel, rfl⟩ := Nat.exists_eq_add_of_le' hfuel
    have htext : (Tree.string (.spaces n) s).text ++ rest =
        List.replicate n ' ' ++ '"' :: (s.body ++ '"' :: rest) := by
      simp [Tree.text, Tree.pieces, Gap.spaces, Lexeme.text, JsonString.text]
    have hread : (Tree.string (.spaces n) s).read =
        (decodeBody s.body).map Json.string := by
      change ((splitString (s.body ++ ['"'])).bind _).map _ = _
      rw [splitString_body s.isBody]
      rfl
    rw [htext, Tree.pieces, List.length_singleton, readPart, skipSpaces_spaces, hread]
    change ((splitString (s.body ++ '"' :: rest)).bind _) = _
    rw [splitString_body s.isBody]
    change (decodeBody s.body).map _ = _
    cases decodeBody s.body <;> rfl
  | @nested n b items h ih =>
    rw [Tree.pieces, List.length_cons] at hfuel
    obtain ⟨fuel, rfl⟩ : ∃ k, fuel = k + 1 := ⟨fuel - 1, by omega⟩
    have htext : (Tree.nested (.spaces n) b items).text ++ rest =
        List.replicate n ' ' ++ b.opening.char :: (items.text ++ rest) := by
      simp [Tree.text, Tree.pieces, Gap.spaces, Lexeme.text]
    have hitems : readPart fuel (.items b) (items.text ++ rest) = items.read.map (·, rest) :=
      ih (Nat.le_of_succ_le_succ hfuel) nofun
    rw [htext, readPart, skipSpaces_spaces, Tree.read]
    cases b
    · change (readPart fuel (.items .array) (items.text ++ rest)).map _ = _
      rw [hitems]
      cases items.read <;> rfl
    · change (readPart fuel (.items .object) (items.text ++ rest)).map _ = _
      rw [hitems]
      cases items.read <;> rfl
  | @close b n =>
    obtain ⟨fuel, rfl⟩ := Nat.exists_eq_add_of_le' hfuel
    have htext : (Tree.close (.spaces n) : Tree (.items b)).text ++ rest =
        List.replicate n ' ' ++ b.closing.char :: rest := by
      simp [Tree.text, Tree.pieces, Gap.spaces, Lexeme.text]
    rw [htext]
    exact readPart_closing b n fuel rest
  | @element value tail h htail ih ihtail =>
    have hvalue := one_le_length_pieces value
    have htailLength := one_le_length_pieces tail
    rw [Tree.pieces, List.length_append] at hfuel
    obtain ⟨fuel, rfl⟩ : ∃ k, fuel = k + 1 := ⟨fuel - 1, by omega⟩
    have htext : (Tree.element value tail).text ++ rest =
        value.text ++ (tail.text ++ rest) := by
      simp [Tree.text, Tree.pieces]
    obtain ⟨c, cs, hskip, hc⟩ := skipSpaces_value h (tail.text ++ rest)
    have hread : readPart fuel .value (value.text ++ (tail.text ++ rest)) =
        value.read.map (·, tail.text ++ rest) :=
      ih (by omega) fun _ => followsValue_tail htail rest
    have hreadTail : readPart fuel (.tail .array) (tail.text ++ rest) = tail.read.map (·, rest) :=
      ihtail (by omega) nofun
    rw [← readPart_skipSpaces, hskip] at hread
    rw [htext, readPart, hskip, Tree.read]
    split
    · next heq => exact absurd (List.cons.inj heq).1 hc
    · rw [hread]
      cases value.read with
      | none => rfl
      | some v =>
        change (readPart fuel (.tail .array) (tail.text ++ rest)).map _ = _
        rw [hreadTail]
        cases tail.read <;> rfl
  | @member n m key value tail h htail ih ihtail =>
    rw [Tree.pieces, List.length_cons, List.length_cons, List.length_append] at hfuel
    obtain ⟨fuel, rfl⟩ : ∃ k, fuel = k + 1 := ⟨fuel - 1, by omega⟩
    have htext : (Tree.member (.spaces n) key (.spaces m) value tail).text ++ rest =
        List.replicate n ' ' ++ '"' :: (key.body ++ '"' :: (List.replicate m ' ' ++
          ':' :: (value.text ++ (tail.text ++ rest)))) := by
      simp [Tree.text, Tree.pieces, Gap.spaces, Lexeme.text, JsonString.text, Mark.char]
    have hread : readPart fuel .value (value.text ++ (tail.text ++ rest)) =
        value.read.map (·, tail.text ++ rest) :=
      ih (by omega) fun _ => followsValue_tail htail rest
    have hreadTail : readPart fuel (.tail .object) (tail.text ++ rest) = tail.read.map (·, rest) :=
      ihtail (by omega) nofun
    have hkey : SerdeJson.parseString key.text = decodeBody key.body := by
      change ((splitString (key.body ++ ['"'])).bind _) = _
      rw [splitString_body key.isBody]
      rfl
    rw [htext, readPart, skipSpaces_spaces, Tree.read, hkey]
    change ((splitString (key.body ++ '"' :: _)).bind _) = _
    rw [splitString_body key.isBody]
    change (decodeBody key.body).bind _ = _
    cases decodeBody key.body with
    | none => rfl
    | some name =>
      simp only [Option.bind_some, skipSpaces_spaces]
      change (readPart fuel .value (value.text ++ (tail.text ++ rest))).bind _ = _
      rw [hread]
      cases value.read with
      | none => rfl
      | some v =>
        change (readPart fuel (.tail .object) (tail.text ++ rest)).map _ = _
        rw [hreadTail]
        cases tail.read <;> rfl
  | @stop b n =>
    obtain ⟨fuel, rfl⟩ := Nat.exists_eq_add_of_le' hfuel
    have htext : (Tree.stop (.spaces n) : Tree (.tail b)).text ++ rest =
        List.replicate n ' ' ++ b.closing.char :: rest := by
      simp [Tree.text, Tree.pieces, Gap.spaces, Lexeme.text]
    rw [htext, Tree.pieces, List.length_singleton, readPart, skipSpaces_spaces]
    cases b <;> rfl
  | @comma b n items hitems h ih =>
    rw [Tree.pieces, List.length_cons] at hfuel
    obtain ⟨fuel, rfl⟩ : ∃ k, fuel = k + 1 := ⟨fuel - 1, by omega⟩
    have htext : (Tree.comma (.spaces n) items).text ++ rest =
        List.replicate n ' ' ++ ',' :: (items.text ++ rest) := by
      simp [Tree.text, Tree.pieces, Gap.spaces, Lexeme.text, Mark.char]
    have hread : readPart fuel (.items b) (items.text ++ rest) = items.read.map (·, rest) :=
      ih (Nat.le_of_succ_le_succ hfuel) nofun
    rw [htext, readPart, skipSpaces_spaces, Tree.read]
    exact hread

theorem length_le_length_render (pieces : List Piece) :
    pieces.length ≤ (render pieces).length := by
  induction pieces with
  | nil => rfl
  | cons piece pieces ih =>
    have hlexeme : 0 < piece.lexeme.text.length := by
      cases piece.lexeme with
      | mark m => exact Nat.one_pos
      | word w => cases w <;> decide
      | number digits h =>
        obtain ⟨-, c, rest, rfl, -⟩ := h.isSpelling
        exact Nat.succ_pos _
      | string s => exact Nat.succ_pos _
    rw [render_cons, List.length_append, List.length_append, List.length_cons]
    omega

theorem readPart_value {value : Tree .value} (h : value.IsJson) {rest : List Char}
    (hrest : FollowsValue rest) :
    readPart ((value.text ++ rest).length + 1) .value (value.text ++ rest) =
      value.read.map (·, rest) := by
  refine readPart_text h ?_ fun _ => hrest
  have hlength : value.pieces.length ≤ value.text.length := length_le_length_render _
  rw [List.length_append]
  omega

/-- The reader reads the value of every text. -/
theorem isLawful_plainSerde : SerdeJson.IsLawful where
  parse := by
    intro value h n
    have hrest : FollowsValue (List.replicate n ' ') := by
      intro c hc
      obtain rfl := List.eq_of_mem_replicate (List.mem_of_mem_head? hc)
      exact List.mem_cons_self
    have hskip : skipSpaces (List.replicate n ' ') = [] := by
      rw [← List.append_nil (List.replicate n ' '), skipSpaces_spaces]
      rfl
    change (readPart _ .value _).bind _ = value.read
    rw [readPart_value h hrest]
    cases value.read with
    | none => rfl
    | some v => exact if_pos hskip
  nextValue := by
    intro value h rest hrest
    change (readPart _ .value _).map _ = value.read.map _
    rw [readPart_value h hrest]
    cases value.read with
    | none => rfl
    | some v =>
      refine congrArg (fun length => some (v, length)) ?_
      rw [utf8Length_append, Nat.add_sub_cancel]

end

end Tsz.Jsonc
