import Mathlib.Algebra.Group.Nat.Defs
import Mathlib.Data.Prod.Lex
import Tsz.Syntax.Scanner.Partition

/-!
# Positions in a text

A byte offset becomes a line and a column of UTF-16 units, and back, through a table of where the
lines start in both counts.

## Main definitions

* `SourceCoordinateIndex.position`, `SourceCoordinateIndex.byteOffset`.
* `lineBreaks`, `lastLine` — the line breaks of a text, and what is behind the last of them.

## Main results

* `SourceCoordinateIndex.position_correct` — the position of an offset, its way back and its order.
-/

namespace Tsz.Syntax

/-- What a 32-bit counter counts up to. -/
def u32Max : Nat := 4294967295

def wrap (n : Nat) : Nat := n % 4294967296

def saturatingAdd (a b : Nat) : Nat := min (a + b) u32Max

def checkedSub (a b : Nat) : Option Nat := if b ≤ a then some (a - b) else none

def utf16Size (c : Char) : Nat := if c.toNat < 0x10000 then 1 else 2

def utf16Length : List Char → Nat
  | [] => 0
  | c :: cs => utf16Size c + utf16Length cs

/-- Whether a line ends behind a character; a carriage return leaves that to a line feed. -/
def endsLine (c : Char) (rest : List Char) : Bool :=
  match c with
  | '\r' => rest.head? != some '\n'
  | '\n' | '\u2028' | '\u2029' => true
  | _ => false

/-- The characters between two byte offsets. -/
def textSlice (text : List Char) (start stop : Nat) : Option (List Char) :=
  if start ≤ stop then (dropBytes start text).bind (takeBytes (stop - start)) else none

/-- Where the lines start, in bytes and in UTF-16 units. -/
structure SourceCoordinateIndex where
  lineStarts : List (Nat × Nat)

namespace SourceCoordinateIndex

def lineStartsFrom (byte utf16 : Nat) : List Char → List (Nat × Nat)
  | [] => []
  | c :: rest =>
    let utf16 := saturatingAdd utf16 (utf16Size c)
    let behind := lineStartsFrom (byte + c.utf8Size) utf16 rest
    if endsLine c rest then (wrap (byte + c.utf8Size), utf16) :: behind else behind

def new (text : List Char) : SourceCoordinateIndex := ⟨(0, 0) :: lineStartsFrom 0 0 text⟩

variable (index : SourceCoordinateIndex)

/-- The offset of a column of a line; behind its last character only where the text ends there. -/
def columnOffset (last : Bool) (target offset units : Nat) : List Char → Option Nat
  | [] => if last && units == target then some (wrap offset) else none
  | c :: rest =>
    if units = target then some (wrap offset)
    else
      let units := saturatingAdd units (utf16Size c)
      if units > target then none else columnOffset last target (offset + c.utf8Size) units rest

def byteOffset (text : List Char) (line column : Nat) : Option Nat := do
  let line ← checkedSub line 1
  let start ← index.lineStarts[line]?
  let stop :=
    match index.lineStarts[line + 1]? with
    | some next => next.1
    | none => utf8Length text
  let content ← textSlice text start.1 stop
  let target ← checkedSub column 1
  columnOffset (line + 1 == index.lineStarts.length) target start.1 0 content

/-- The starts are in order, so those up to an offset are the first ones. -/
def positionFromUtf16 (offset : Nat) : Nat × Nat :=
  let line := (index.lineStarts.takeWhile (·.2 ≤ offset)).length - 1
  let column := offset - (index.lineStarts.getD line (0, 0)).2
  (wrap (line + 1), wrap (column + 1))

/-- The UTF-16 units in front of a byte offset; `none` where the source would panic. -/
def byteToUtf16 (text : List Char) (offset : Nat) : Option Nat := do
  let offset := min offset (utf8Length text)
  let line := (index.lineStarts.takeWhile (·.1 ≤ offset)).length
  let lineStart ← index.lineStarts[line - 1]?
  let front ← textSlice text lineStart.1 offset
  some (saturatingAdd lineStart.2 (utf16Length front))

def position (text : List Char) (offset : Nat) : Option (Nat × Nat) :=
  if (dropBytes offset text).isSome then
    (index.byteToUtf16 text offset).map index.positionFromUtf16
  else none

end SourceCoordinateIndex

/-! ## Lines -/

/-- The line breaks in a text that goes on behind it. -/
def lineBreaks (after : List Char) : List Char → Nat
  | [] => 0
  | c :: rest => (if endsLine c (rest ++ after) then 1 else 0) + lineBreaks after rest

/-- What follows the last line break of a text; `line` is in front of it without a break. -/
def lastLine (after : List Char) (line : List Char) : List Char → List Char
  | [] => line
  | c :: rest => lastLine after (if endsLine c (rest ++ after) then [] else line ++ [c]) rest

/-- What is left of the line at the front of a text. -/
def restOfLine : List Char → List Char
  | [] => []
  | c :: rest => if endsLine c rest then [c] else c :: restOfLine rest

/-! ## Widths -/

theorem utf16Size_pos (c : Char) : 0 < utf16Size c := by
  unfold utf16Size
  split <;> decide

/-- No character takes more units than bytes. -/
theorem utf16Size_le (c : Char) : utf16Size c ≤ c.utf8Size := by
  have hpos := c.utf8Size_pos
  unfold utf16Size
  split_ifs with h
  · exact hpos
  · have hval : ¬ c.val.toNat < 0x10000 := h
    unfold Char.utf8Size
    simp only [UInt32.le_iff_toNat_le]
    split_ifs <;> simp_all
    omega

theorem utf16Length_append (xs ys : List Char) :
    utf16Length (xs ++ ys) = utf16Length xs + utf16Length ys := by
  induction xs with
  | nil => simp [utf16Length]
  | cons c xs ih =>
    rw [List.cons_append, utf16Length, utf16Length, ih, Nat.add_assoc]

theorem utf16Length_le (text : List Char) : utf16Length text ≤ utf8Length text := by
  induction text with
  | nil => exact le_rfl
  | cons c text ih => exact Nat.add_le_add (utf16Size_le c) ih

theorem utf16Length_pos {text : List Char} (h : text ≠ []) : 0 < utf16Length text := by
  obtain ⟨c, rest, rfl⟩ := List.exists_cons_of_ne_nil h
  have hpos := utf16Size_pos c
  rw [utf16Length]
  omega

theorem dropBytes_append (front rest : List Char) :
    dropBytes (utf8Length front) (front ++ rest) = some rest := by
  induction front with
  | nil => exact dropBytes.eq_1 rest
  | cons c front ih =>
    have hpos := c.utf8Size_pos
    obtain ⟨n, hn⟩ := Nat.exists_eq_succ_of_ne_zero (n := utf8Length (c :: front)) (by
      rw [utf8Length]
      omega)
    have hsize : n + 1 - c.utf8Size = utf8Length front := by
      rw [utf8Length] at hn
      omega
    rw [hn, List.cons_append, dropBytes, if_pos, hsize, ih]
    rw [utf8Length] at hn
    omega

theorem takeBytes_append (front rest : List Char) :
    takeBytes (utf8Length front) (front ++ rest) = some front := by
  induction front with
  | nil => exact takeBytes.eq_1 rest
  | cons c front ih =>
    have hpos := c.utf8Size_pos
    obtain ⟨n, hn⟩ := Nat.exists_eq_succ_of_ne_zero (n := utf8Length (c :: front)) (by
      rw [utf8Length]
      omega)
    have hsize : n + 1 - c.utf8Size = utf8Length front := by
      rw [utf8Length] at hn
      omega
    rw [hn, List.cons_append, takeBytes, if_pos, hsize, ih]
    · rfl
    · rw [utf8Length] at hn
      omega

theorem textSlice_append (front middle rest : List Char) :
    textSlice (front ++ (middle ++ rest)) (utf8Length front)
      (utf8Length front + utf8Length middle) = some middle := by
  rw [textSlice, if_pos (Nat.le_add_right _ _), dropBytes_append, Nat.add_sub_cancel_left]
  exact takeBytes_append middle rest

/-! ## The lines of a text in two parts -/

theorem lastLine_suffix (after line before : List Char) :
    ∃ front, line ++ before = front ++ lastLine after line before := by
  induction before generalizing line with
  | nil => exact ⟨[], by simp [lastLine]⟩
  | cons c rest ih =>
    rw [lastLine]
    split_ifs
    · obtain ⟨front, hfront⟩ := ih []
      exact ⟨line ++ c :: front, by simpa using hfront⟩
    · obtain ⟨front, hfront⟩ := ih (line ++ [c])
      exact ⟨front, by simpa using hfront⟩

theorem lineBreaks_append (after before more : List Char) :
    lineBreaks after (before ++ more) =
      lineBreaks (more ++ after) before + lineBreaks after more := by
  induction before with
  | nil => simp [lineBreaks]
  | cons c rest ih =>
    rw [List.cons_append, lineBreaks, lineBreaks, ih, List.append_assoc, Nat.add_assoc]

theorem lastLine_append (after line before more : List Char) :
    lastLine after line (before ++ more) =
      lastLine after (lastLine (more ++ after) line before) more := by
  induction before generalizing line with
  | nil => rfl
  | cons c rest ih =>
    rw [List.cons_append, lastLine, lastLine, ih, List.append_assoc]

theorem lastLine_of_lineBreaks_eq_zero {after line before : List Char}
    (h : lineBreaks after before = 0) : lastLine after line before = line ++ before := by
  induction before generalizing line with
  | nil => simp [lastLine]
  | cons c rest ih =>
    rw [lineBreaks] at h
    rw [lastLine]
    split_ifs at h ⊢
    · omega
    · rw [ih (by omega), List.append_assoc, List.singleton_append]

theorem restOfLine_prefix (text : List Char) : ∃ rest, text = restOfLine text ++ rest := by
  induction text with
  | nil => exact ⟨[], rfl⟩
  | cons c text ih =>
    rw [restOfLine]
    split_ifs
    · exact ⟨text, rfl⟩
    · obtain ⟨rest, hrest⟩ := ih
      exact ⟨rest, by rw [List.cons_append, ← hrest]⟩

namespace SourceCoordinateIndex

/-! ## The table -/

/-- The starts of the lines that begin within a text that goes on behind it. -/
def startsIn (after : List Char) (byte utf16 : Nat) : List Char → List (Nat × Nat)
  | [] => []
  | c :: rest =>
    let behind := startsIn after (byte + c.utf8Size) (utf16 + utf16Size c) rest
    if endsLine c (rest ++ after) then (byte + c.utf8Size, utf16 + utf16Size c) :: behind
    else behind

theorem lineStartsFrom_append {before after : List Char} {byte utf16 : Nat}
    (hbytes : byte + utf8Length (before ++ after) ≤ u32Max) (hunits : utf16 ≤ byte) :
    lineStartsFrom byte utf16 (before ++ after) = startsIn after byte utf16 before ++
      lineStartsFrom (byte + utf8Length before) (utf16 + utf16Length before) after := by
  induction before generalizing byte utf16 with
  | nil => rfl
  | cons c rest ih =>
    have hsize := utf16Size_le c
    rw [List.cons_append, utf8Length] at hbytes
    have hunit : saturatingAdd utf16 (utf16Size c) = utf16 + utf16Size c :=
      Nat.min_eq_left (by omega)
    have hwrap : wrap (byte + c.utf8Size) = byte + c.utf8Size :=
      Nat.mod_eq_of_lt (by unfold u32Max at hbytes; omega)
    have hrest := ih (show byte + c.utf8Size + utf8Length (rest ++ after) ≤ u32Max by omega)
      (show utf16 + utf16Size c ≤ byte + c.utf8Size by omega)
    rw [List.cons_append, lineStartsFrom, startsIn, hunit, hwrap, hrest, utf8Length, utf16Length]
    simp only [Nat.add_assoc]
    split_ifs <;> rfl

theorem length_startsIn (after : List Char) (byte utf16 : Nat) (before : List Char) :
    (startsIn after byte utf16 before).length = lineBreaks after before := by
  induction before generalizing byte utf16 with
  | nil => rfl
  | cons c rest ih =>
    rw [startsIn, lineBreaks]
    split_ifs
    · rw [List.length_cons, ih, Nat.add_comm]
    · rw [ih, Nat.zero_add]

theorem le_of_mem_startsIn {after before : List Char} {byte utf16 : Nat} {start : Nat × Nat}
    (h : start ∈ startsIn after byte utf16 before) :
    start.1 ≤ byte + utf8Length before ∧ start.2 ≤ utf16 + utf16Length before := by
  induction before generalizing byte utf16 with
  | nil => cases h
  | cons c rest ih =>
    rw [startsIn] at h
    rw [utf8Length, utf16Length]
    split_ifs at h
    · rcases List.mem_cons.mp h with rfl | h
      · constructor <;> dsimp only <;> omega
      · have hle := ih h
        omega
    · have hle := ih h
      omega

/-- The last line start is where the last line starts. -/
theorem getLast_startsIn (after line before : List Char) (start : Nat × Nat) :
    let last := (start :: startsIn after (start.1 + utf8Length line) (start.2 + utf16Length line)
      before).getLast (by simp)
    last.1 + utf8Length (lastLine after line before) =
        start.1 + utf8Length line + utf8Length before ∧
      last.2 + utf16Length (lastLine after line before) =
        start.2 + utf16Length line + utf16Length before := by
  induction before generalizing line start with
  | nil => simp [startsIn, lastLine, utf8Length, utf16Length]
  | cons c rest ih =>
    simp only [startsIn, lastLine, utf8Length, utf16Length]
    split_ifs
    · have h := ih [] (start.1 + utf8Length line + c.utf8Size,
        start.2 + utf16Length line + utf16Size c)
      simp only [utf8Length, utf16Length, Nat.add_zero] at h
      rw [List.getLast_cons (by simp)]
      omega
    · have h := ih (line ++ [c]) start
      simp only [utf8Length_append, utf16Length_append, utf8Length, utf16Length, Nat.add_zero,
        ← Nat.add_assoc] at h
      omega

theorem head?_lineStartsFrom {text : List Char} {byte utf16 : Nat}
    (hbytes : byte + utf8Length text ≤ u32Max) (hunits : utf16 ≤ byte) :
    (lineStartsFrom byte utf16 text = [] ∧ restOfLine text = text) ∨
      restOfLine text ≠ [] ∧ (lineStartsFrom byte utf16 text).head? =
        some (byte + utf8Length (restOfLine text), utf16 + utf16Length (restOfLine text)) := by
  induction text generalizing byte utf16 with
  | nil => exact .inl ⟨rfl, rfl⟩
  | cons c rest ih =>
    have hsize := utf16Size_le c
    rw [utf8Length] at hbytes
    have hunit : saturatingAdd utf16 (utf16Size c) = utf16 + utf16Size c :=
      Nat.min_eq_left (by omega)
    have hwrap : wrap (byte + c.utf8Size) = byte + c.utf8Size :=
      Nat.mod_eq_of_lt (by unfold u32Max at hbytes; omega)
    rw [lineStartsFrom, restOfLine, hunit, hwrap]
    split_ifs
    · exact .inr ⟨by simp, by simp [utf8Length, utf16Length]⟩
    · rcases ih (show byte + c.utf8Size + utf8Length rest ≤ u32Max by omega)
        (show utf16 + utf16Size c ≤ byte + c.utf8Size by omega) with ⟨hnil, hrest⟩ | ⟨-, hhead⟩
      · exact .inl ⟨hnil, by rw [hrest]⟩
      · exact .inr ⟨by simp, by rw [hhead, utf8Length, utf16Length, Nat.add_assoc, Nat.add_assoc]⟩

/-! ## Both ways through the table -/

section

variable {before after : List Char}

/-- The starts up to an offset are those in front of it, in both counts. -/
theorem lineStarts_new (hbytes : utf8Length (before ++ after) ≤ u32Max) :
    (new (before ++ after)).lineStarts = ((0, 0) :: startsIn after 0 0 before) ++
      lineStartsFrom (utf8Length before) (utf16Length before) after := by
  have hsplit := lineStartsFrom_append (show 0 + utf8Length (before ++ after) ≤ u32Max by omega)
    (le_refl 0)
  rw [Nat.zero_add, Nat.zero_add] at hsplit
  rw [new, hsplit, List.cons_append]

theorem takeWhile_append_of_head {α : Type} {p : α → Bool} {xs ys : List α}
    (hxs : ∀ x ∈ xs, p x = true) (hys : ∀ y ∈ ys.head?, p y = false) :
    (xs ++ ys).takeWhile p = xs := by
  rw [List.takeWhile_append_of_pos hxs]
  cases ys with
  | nil => simp
  | cons y ys => simp [hys y rfl]

theorem takeWhile_lineStarts (hbytes : utf8Length (before ++ after) ≤ u32Max) :
    (new (before ++ after)).lineStarts.takeWhile (·.1 ≤ utf8Length before) =
        (0, 0) :: startsIn after 0 0 before ∧
      (new (before ++ after)).lineStarts.takeWhile (·.2 ≤ utf16Length before) =
        (0, 0) :: startsIn after 0 0 before := by
  rw [lineStarts_new hbytes]
  rw [utf8Length_append] at hbytes
  have hmem : ∀ start ∈ (0, 0) :: startsIn after 0 0 before,
      start.1 ≤ utf8Length before ∧ start.2 ≤ utf16Length before := by
    intro start hstart
    rcases List.mem_cons.mp hstart with rfl | hstart
    · exact ⟨Nat.zero_le _, Nat.zero_le _⟩
    · simpa using le_of_mem_startsIn hstart
  have hhead : ∀ start ∈ (lineStartsFrom (utf8Length before) (utf16Length before) after).head?,
      utf8Length before < start.1 ∧ utf16Length before < start.2 := by
    intro start hstart
    rcases head?_lineStartsFrom hbytes (utf16Length_le before) with ⟨hnil, -⟩ | ⟨hne, hsome⟩
    · rw [hnil] at hstart
      cases hstart
    · have hunits := utf16Length_pos hne
      have hle := utf16Length_le (restOfLine after)
      rw [hsome, Option.mem_some_iff] at hstart
      subst hstart
      dsimp only
      omega
  constructor
  · exact takeWhile_append_of_head (fun start hstart => decide_eq_true (hmem start hstart).1)
      fun start hstart => decide_eq_false (by have := hhead start hstart; omega)
  · exact takeWhile_append_of_head (fun start hstart => decide_eq_true (hmem start hstart).2)
      fun start hstart => decide_eq_false (by have := hhead start hstart; omega)

/-- The line of an offset starts where its last line does. -/
theorem exists_lineStart (hbytes : utf8Length (before ++ after) ≤ u32Max) :
    ∃ front, before = front ++ lastLine after [] before ∧
      (new (before ++ after)).lineStarts[lineBreaks after before]? =
        some (utf8Length front, utf16Length front) := by
  obtain ⟨front, hfront⟩ := lastLine_suffix after [] before
  rw [List.nil_append] at hfront
  have hlast := getLast_startsIn after [] before (0, 0)
  have hbytesOf := congrArg utf8Length hfront
  have hunitsOf := congrArg utf16Length hfront
  rw [utf8Length_append] at hbytesOf
  rw [utf16Length_append] at hunitsOf
  simp only [utf8Length, utf16Length, Nat.add_zero, Nat.zero_add] at hlast
  have hstart : ((0, 0) :: startsIn after 0 0 before).getLast (by simp) =
      (utf8Length front, utf16Length front) :=
    Prod.ext (by omega) (by omega)
  refine ⟨front, hfront, ?_⟩
  rw [lineStarts_new hbytes, List.getElem?_append_left (by simp [length_startsIn]), ← hstart,
    List.getLast_eq_getElem, ← List.getElem?_eq_getElem]
  simp [length_startsIn]

theorem position_append (hbytes : utf8Length (before ++ after) ≤ u32Max) :
    (new (before ++ after)).position (before ++ after) (utf8Length before) =
      some (wrap (lineBreaks after before + 1),
        wrap (utf16Length (lastLine after [] before) + 1)) := by
  obtain ⟨hbyte, hunit⟩ := takeWhile_lineStarts hbytes
  obtain ⟨front, hfront, hstart⟩ := exists_lineStart hbytes
  have hlength : utf8Length before ≤ utf8Length (before ++ after) := by
    rw [utf8Length_append]
    omega
  have hslice : textSlice (before ++ after) (utf8Length front) (utf8Length before) =
      some (lastLine after [] before) := by
    have h := textSlice_append front (lastLine after [] before) after
    rwa [← List.append_assoc, ← utf8Length_append, ← hfront] at h
  have hunits : saturatingAdd (utf16Length front) (utf16Length (lastLine after [] before)) =
      utf16Length before := by
    have hle := utf16Length_le before
    rw [saturatingAdd, ← utf16Length_append, ← hfront]
    exact Nat.min_eq_left (by omega)
  have hcolumn : utf16Length before - utf16Length front =
      utf16Length (lastLine after [] before) := by
    have h := congrArg utf16Length hfront
    rw [utf16Length_append] at h
    omega
  have hutf16 : (new (before ++ after)).byteToUtf16 (before ++ after) (utf8Length before) =
      some (utf16Length before) := by
    rw [byteToUtf16, Nat.min_eq_left hlength]
    simp only [hbyte, List.length_cons, length_startsIn, Nat.add_sub_cancel, hstart,
      Option.bind_eq_bind, Option.bind_some, hslice, hunits]
  rw [position, dropBytes_append, Option.isSome_some, if_pos rfl, hutf16, Option.map_some,
    positionFromUtf16, hunit]
  simp only [List.length_cons, length_startsIn, Nat.add_sub_cancel, List.getD_eq_getElem?_getD,
    hstart, Option.getD_some, hcolumn]

theorem columnOffset_append {last : Bool} {target offset units : Nat} {line more : List Char}
    (htarget : target = units + utf16Length line) (hmax : target ≤ u32Max)
    (hoffset : offset + utf8Length line ≤ u32Max) (hlast : more = [] → last = true) :
    columnOffset last target offset units (line ++ more) = some (offset + utf8Length line) := by
  induction line generalizing offset units with
  | nil =>
    have hwrap : wrap offset = offset :=
      Nat.mod_eq_of_lt (by unfold u32Max at hoffset; rw [utf8Length] at hoffset; omega)
    rw [utf16Length, Nat.add_zero] at htarget
    cases more with
    | nil => simp [columnOffset, hlast rfl, htarget, hwrap, utf8Length]
    | cons c rest => simp [columnOffset, htarget, hwrap, utf8Length]
  | cons c line ih =>
    have hpos := utf16Size_pos c
    rw [utf16Length] at htarget
    rw [utf8Length] at hoffset ⊢
    have hne : units ≠ target := by omega
    have hunit : saturatingAdd units (utf16Size c) = units + utf16Size c :=
      Nat.min_eq_left (by omega)
    have hle : ¬ units + utf16Size c > target := by omega
    rw [List.cons_append, columnOffset, if_neg hne, hunit, if_neg hle,
      ih (by omega) (by omega), Nat.add_assoc]

/-- A position that is counted without overflow leads back to its offset. -/
theorem byteOffset_append (hbytes : utf8Length (before ++ after) ≤ u32Max) :
    (new (before ++ after)).byteOffset (before ++ after) (lineBreaks after before + 1)
      (utf16Length (lastLine after [] before) + 1) = some (utf8Length before) := by
  obtain ⟨front, hfront, hstart⟩ := exists_lineStart hbytes
  obtain ⟨tail, htail⟩ := restOfLine_prefix after
  have hlength := utf8Length_append before after
  have hbefore := congrArg utf8Length hfront
  rw [utf8Length_append] at hbefore
  have hcontent : textSlice (before ++ after) (utf8Length front)
      (utf8Length before + utf8Length (restOfLine after)) =
        some (lastLine after [] before ++ restOfLine after) := by
    have h := textSlice_append front (lastLine after [] before ++ restOfLine after) tail
    rwa [List.append_assoc, ← htail, ← List.append_assoc, ← hfront, utf8Length_append,
      ← Nat.add_assoc, ← hbefore] at h
  have hnext : (new (before ++ after)).lineStarts[lineBreaks after before + 1]? =
      (lineStartsFrom (utf8Length before) (utf16Length before) after).head? := by
    rw [lineStarts_new hbytes, List.getElem?_append_right (by simp [length_startsIn])]
    simp [length_startsIn, List.head?_eq_getElem?]
  have hstop : (match (new (before ++ after)).lineStarts[lineBreaks after before + 1]? with
      | some next => next.1
      | none => utf8Length (before ++ after)) = utf8Length before + utf8Length (restOfLine after) ∧
        (restOfLine after = [] →
          (lineBreaks after before + 1 == (new (before ++ after)).lineStarts.length) = true) := by
    rw [hnext]
    rcases head?_lineStartsFrom (hlength ▸ hbytes) (utf16Length_le before) with
      ⟨hnil, hrest⟩ | ⟨hne, hsome⟩
    · rw [hrest, hnil]
      refine ⟨hlength, fun _ => ?_⟩
      rw [lineStarts_new hbytes, hnil]
      simp [length_startsIn]
    · rw [hsome]
      exact ⟨rfl, fun hnil => absurd hnil hne⟩
  have hunits := utf16Length_le (lastLine after [] before)
  have hcolumn : columnOffset
      (lineBreaks after before + 1 == (new (before ++ after)).lineStarts.length)
      (utf16Length (lastLine after [] before)) (utf8Length front) 0
      (lastLine after [] before ++ restOfLine after) = some (utf8Length before) := by
    rw [hbefore]
    exact columnOffset_append (by omega) (by omega) (by omega) hstop.2
  rw [byteOffset, checkedSub, if_pos (Nat.le_add_left _ _), checkedSub,
    if_pos (Nat.le_add_left _ _)]
  simp only [Nat.add_sub_cancel, Option.bind_eq_bind, Option.bind_some, hstart, hstop.1, hcontent,
    hcolumn]

end

/-! ## Positions -/

/-- The line and the column behind a text that goes on behind it, both from 1 on. -/
def positionBehind (before after : List Char) : Nat × Nat :=
  (lineBreaks after before + 1, utf16Length (lastLine after [] before) + 1)

theorem lineBreaks_le (after before : List Char) : lineBreaks after before ≤ utf8Length before := by
  induction before with
  | nil => exact le_rfl
  | cons c rest ih =>
    have hpos := c.utf8Size_pos
    rw [lineBreaks, utf8Length]
    split_ifs <;> omega

theorem position_of_lt {before after : List Char}
    (hbytes : utf8Length (before ++ after) ≤ u32Max) (hoffset : utf8Length before < u32Max) :
    (new (before ++ after)).position (before ++ after) (utf8Length before) =
      some (positionBehind before after) := by
  have hlines := lineBreaks_le after before
  have hcolumn : utf16Length (lastLine after [] before) ≤ utf8Length before := by
    obtain ⟨front, hfront⟩ := lastLine_suffix after [] before
    have hunits := utf16Length_le (lastLine after [] before)
    have hlength := congrArg utf8Length hfront
    rw [List.nil_append, utf8Length_append] at hlength
    omega
  have hwrap {n : Nat} (hn : n ≤ utf8Length before) : wrap (n + 1) = n + 1 :=
    Nat.mod_eq_of_lt (by unfold u32Max at hoffset; omega)
  rw [position_append hbytes, hwrap hlines, hwrap hcolumn]
  rfl

/-- A longer text ends on a later line, or on the same one further right. -/
theorem positionBehind_lt {before more : List Char} (hmore : more ≠ []) (after : List Char) :
    toLex (positionBehind before (more ++ after)) <
      toLex (positionBehind (before ++ more) after) := by
  have hbreaks := lineBreaks_append after before more
  rw [Prod.Lex.toLex_lt_toLex]
  rcases Nat.eq_zero_or_pos (lineBreaks after more) with hzero | hpos
  · right
    have hline : lastLine after [] (before ++ more) =
        lastLine (more ++ after) [] before ++ more := by
      rw [lastLine_append, lastLine_of_lineBreaks_eq_zero hzero]
    have hunits := utf16Length_pos hmore
    simp only [positionBehind, hline, utf16Length_append]
    omega
  · left
    simp only [positionBehind]
    omega

/-- Behind each kind of line break a line begins. -/
theorem positionBehind_lineBreak (front after : List Char) {c : Char}
    (hc : c ∈ ['\n', '\r', '\u2028', '\u2029']) (hcrlf : c = '\r' → after.head? ≠ some '\n') :
    positionBehind (front ++ [c]) after = ((positionBehind front (c :: after)).1 + 1, 1) := by
  have hends : endsLine c after = true := by
    simp only [List.mem_cons, List.not_mem_nil, or_false] at hc
    rcases hc with rfl | rfl | rfl | rfl
    · rfl
    · simpa [endsLine] using hcrlf rfl
    · rfl
    · rfl
  rw [positionBehind, lineBreaks_append, lastLine_append]
  simp [positionBehind, lineBreaks, lastLine, hends, utf16Length]

/-- Behind a carriage return and its line feed one line more has begun. -/
theorem positionBehind_crlf (front after : List Char) :
    positionBehind (front ++ ['\r', '\n']) after =
      ((positionBehind front ('\r' :: '\n' :: after)).1 + 1, 1) := by
  have hbreaks : lineBreaks after ['\r', '\n'] = 1 := by
    simp [lineBreaks, endsLine]
  rw [positionBehind, lineBreaks_append, hbreaks, lastLine_append]
  simp [positionBehind, lastLine, endsLine, utf16Length]

/-- Every offset below the largest one has the line and the column that are counted up to it, they
lead back to it, and later offsets have later positions. -/
theorem position_correct (text before after : List Char) (htext : utf8Length text < 2 ^ 32)
    (hsplit : text = before ++ after) (hoffset : utf8Length before < 2 ^ 32 - 1) :
    (new text).position text (utf8Length before) = some (positionBehind before after) ∧
      (new text).byteOffset text (positionBehind before after).1 (positionBehind before after).2 =
        some (utf8Length before) ∧
      (∀ front c, before = front ++ [c] → c ∈ ['\n', '\r', '\u2028', '\u2029'] →
        (c = '\r' → after.head? ≠ some '\n') →
          positionBehind before after = ((positionBehind front (c :: after)).1 + 1, 1)) ∧
      (∀ front, before = front ++ ['\r', '\n'] → positionBehind before after =
        ((positionBehind front ('\r' :: '\n' :: after)).1 + 1, 1)) ∧
      ∀ longer rest : List Char, text = longer ++ rest →
        utf8Length before < utf8Length longer → utf8Length longer < 2 ^ 32 - 1 →
          ∃ position, (new text).position text (utf8Length longer) = some position ∧
            toLex (positionBehind before after) < toLex position := by
  have hbytes : utf8Length text ≤ u32Max := by
    unfold u32Max
    omega
  refine ⟨?_, ?_, ?_, ?_, ?_⟩
  · subst hsplit
    exact position_of_lt hbytes hoffset
  · subst hsplit
    exact byteOffset_append hbytes
  · rintro front c rfl hc hcrlf
    exact positionBehind_lineBreak front after hc hcrlf
  · rintro front rfl
    exact positionBehind_crlf front after
  · rintro longer rest hlonger hlt hmax
    refine ⟨positionBehind longer rest, ?_, ?_⟩
    · subst hlonger
      exact position_of_lt hbytes hmax
    · have hprefix : before <+: longer := by
        rcases List.prefix_or_prefix_of_prefix (hsplit ▸ List.prefix_append before after)
          (hlonger ▸ List.prefix_append longer rest) with hprefix | ⟨more, rfl⟩
        · exact hprefix
        · rw [utf8Length_append] at hlt
          omega
      obtain ⟨more, rfl⟩ := hprefix
      have hmore : more ≠ [] := by
        rintro rfl
        rw [List.append_nil] at hlt
        omega
      obtain rfl : after = more ++ rest := by
        rw [hsplit, List.append_assoc] at hlonger
        exact List.append_cancel_left hlonger
      exact positionBehind_lt hmore rest

theorem position_correct_crlf :
    (new "a\r\n😀b".toList).position "a\r\n😀b".toList (utf8Length "a\r\n😀".toList) =
        some (positionBehind "a\r\n😀".toList "b".toList) ∧
      positionBehind "a\r\n😀".toList "b".toList = (2, 3) := by
  refine ⟨?_, by decide +kernel⟩
  exact (position_correct "a\r\n😀b".toList "a\r\n😀".toList "b".toList (by decide +kernel)
    (by decide +kernel) (by decide +kernel)).1

theorem position_replicate {n : Nat} (h : n ≤ u32Max) :
    utf8Length (List.replicate n 'a') = n ∧
      (new (List.replicate n 'a')).position (List.replicate n 'a') n =
        some (1, wrap (n + 1)) := by
  have hlength : utf8Length (List.replicate n 'a') = n := by
    rw [Scanner.utf8Length_of_isAscii, List.length_replicate]
    intro c hc
    rw [List.eq_of_mem_replicate hc]
    decide
  have hbreaks : lineBreaks [] (List.replicate n 'a') = 0 := by
    clear hlength h
    induction n with
    | zero => rfl
    | succ n ih => simpa [List.replicate_succ, lineBreaks, endsLine] using ih
  have hunits : utf16Length (List.replicate n 'a') = n := by
    clear hlength hbreaks h
    induction n with
    | zero => rfl
    | succ n ih =>
      rw [List.replicate_succ, utf16Length, ih]
      exact Nat.add_comm _ _
  refine ⟨hlength, ?_⟩
  have hbytes : utf8Length (List.replicate n 'a' ++ []) ≤ u32Max := by
    rwa [List.append_nil, hlength]
  have hposition := position_append hbytes
  rw [List.append_nil, hlength, hbreaks, lastLine_of_lineBreaks_eq_zero hbreaks, List.nil_append,
    hunits] at hposition
  exact hposition

theorem byteOffset_column_zero (index : SourceCoordinateIndex) (text : List Char) (line : Nat) :
    index.byteOffset text line 0 = none := by
  simp [byteOffset, checkedSub]

/-- Behind a line of the largest length the column is counted past the largest number. -/
theorem position_overflow :
    utf8Length (List.replicate 4294967295 'a') < 2 ^ 32 ∧
      (new (List.replicate 4294967295 'a')).position (List.replicate 4294967295 'a') 4294967295 =
        some (1, 0) ∧
      (new (List.replicate 4294967295 'a')).byteOffset (List.replicate 4294967295 'a') 1 0 =
        none := by
  obtain ⟨hlength, hposition⟩ := position_replicate (n := 4294967295) le_rfl
  exact ⟨by rw [hlength]; decide, hposition, byteOffset_column_zero _ _ _⟩

end SourceCoordinateIndex

end Tsz.Syntax
