import Mathlib.Data.List.DropRight
import Mathlib.Tactic.IntervalCases
import Tsz.Numeric.Decimals

/-!
# Texts without their ends

What the program takes off the ends of a text.
-/

namespace Tsz

/-- The white space of Unicode. -/
def isWhitespace (c : Char) : Bool :=
  let n := c.toNat
  (0x9 ≤ n && n ≤ 0xd) || (0x2000 ≤ n && n ≤ 0x200a) ||
    [0x20, 0x85, 0xa0, 0x1680, 0x2028, 0x2029, 0x202f, 0x205f, 0x3000].contains n

def trim (text : List Char) : List Char := (text.dropWhile isWhitespace).rdropWhile isWhitespace

def stripPrefix (front text : List Char) : Option (List Char) :=
  if front.isPrefixOf text then some (text.drop front.length) else none

def stripSuffix (back text : List Char) : Option (List Char) :=
  if back.isSuffixOf text then some (text.take (text.length - back.length)) else none

theorem trim_append (front text back : List Char) (hfront : ∀ c ∈ front, isWhitespace c)
    (hback : ∀ c ∈ back, isWhitespace c) (hne : text ≠ [])
    (hhead : isWhitespace (text.head hne) = false)
    (hlast : isWhitespace (text.getLast hne) = false) :
    trim (front ++ (text ++ back)) = text := by
  have hdrop : (front ++ (text ++ back)).dropWhile isWhitespace = text ++ back := by
    rw [List.dropWhile_append_of_pos hfront]
    obtain ⟨c, rest, rfl⟩ := List.exists_cons_of_ne_nil hne
    exact List.dropWhile_cons_of_neg (by simpa using hhead)
  rw [trim, hdrop, List.rdropWhile, List.reverse_append,
    List.dropWhile_append_of_pos (by simpa using hback)]
  obtain ⟨rest, c, rfl⟩ : ∃ rest c, text = rest ++ [c] :=
    ⟨_, _, (List.dropLast_append_getLast hne).symm⟩
  have hc : ¬ isWhitespace c = true := by simpa using hlast
  rw [List.reverse_append, List.reverse_singleton, List.singleton_append,
    List.dropWhile_cons_of_neg hc, List.reverse_cons, List.reverse_reverse]

theorem isWhitespace_of_isDigit {c : Char} (h : c.isDigit = true) : isWhitespace c = false := by
  obtain ⟨d, hd, rfl⟩ := Decimals.exists_digitChar h
  interval_cases d <;> rfl

end Tsz
