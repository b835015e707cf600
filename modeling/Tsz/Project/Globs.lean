import Tsz.Lexical.Wildcards
import Tsz.Project.Discovery

/-!
# The language of a glob pattern

## Main results

* `globParts_iff_mem_patternLanguage` — the two matchers accept the names and paths that a pattern
  denotes.
-/

namespace Tsz.Project.Config

open Wildcards

/-! ## What patterns denote -/

/-- `*` stands for a run of characters and `?` for one character. -/
def charItem (c : Char) : Item Char :=
  if c = '*' then .run
  else if c = '?' then .single fun _ => True
  else .single (· = c)

def textLanguage (segment : Name) : Language Char := language (segment.map charItem)

/-- The names that a segment with wildcards denotes. A hidden name is among them only if the
segment spells its dot. -/
def segmentLanguage (segment : Name) : Language Char :=
  {name | name ∈ textLanguage segment ∧
    (name.head? = some '.' → '*' ∈ segment ∨ '?' ∈ segment → segment.head? = some '.')}

theorem mem_segmentLanguage {segment name : Name} :
    name ∈ segmentLanguage segment ↔ name ∈ textLanguage segment ∧
      (name.head? = some '.' → '*' ∈ segment ∨ '?' ∈ segment → segment.head? = some '.') :=
  Iff.rfl

/-- `**` stands for a run of names, where `names` says what other segments denote. -/
def partItem (names : Name → Language Char) (segment : Name) : Item Name :=
  if segment = ['*', '*'] then .run else .single (· ∈ names segment)

def patternLanguage (names : Name → Language Char) (pattern : List Name) : Language Name :=
  language (pattern.map (partItem names))

/-! ## The matchers -/

@[simp]
theorem matchesEnd_nil {α : Type} (accepts : List α → Bool) :
    matchesEnd accepts [] = accepts [] := rfl

@[simp]
theorem matchesEnd_cons {α : Type} (accepts : List α → Bool) (c : α) (cs : List α) :
    matchesEnd accepts (c :: cs) = (accepts (c :: cs) || matchesEnd accepts cs) := rfl

/-- The recursion of both matchers at a wildcard for runs. -/
theorem matchesEnd_iff {α : Type} (accepts : List α → Bool) (word : List α) :
    matchesEnd accepts word ↔
      accepts word ∨ ∃ a rest, word = a :: rest ∧ matchesEnd accepts rest := by
  cases word <;> simp

theorem globSegmentChars_star (rest candidate : Name) :
    globSegmentChars ('*' :: rest) candidate = matchesEnd (globSegmentChars rest) candidate := by
  simp [globSegmentChars]

theorem globSegmentChars_backtracks : Backtracks charItem globSegmentChars where
  nil word := by simp [globSegmentChars]
  single {c accepts} h pattern word := by
    have hc : c ≠ '*' := by
      rintro rfl
      simp [charItem] at h
    have haccepts : ∀ a, accepts a ↔ c = '?' ∨ a = c := by
      by_cases hq : c = '?' <;> simp_all [charItem] <;> grind
    cases word <;> simp [globSegmentChars, hc, haccepts]
  run {c} h pattern word := by
    have hc : c = '*' := by
      by_contra hc
      by_cases hq : c = '?' <;> simp_all [charItem]
    subst hc
    simp only [globSegmentChars_star]
    exact matchesEnd_iff _ word

theorem globSegmentChars_iff (segment name : Name) :
    globSegmentChars segment name ↔ name ∈ textLanguage segment :=
  globSegmentChars_backtracks.mem_language_iff segment name

theorem hasWildcard_iff (segment : Name) : hasWildcard segment ↔ '*' ∈ segment ∨ '?' ∈ segment := by
  simp only [hasWildcard, isWildcard, List.any_eq_true, Bool.or_eq_true, decide_eq_true_eq]
  grind

theorem globSegment_iff (segment name : Name) :
    globSegment segment name ↔ name ∈ segmentLanguage segment := by
  rw [mem_segmentLanguage, ← hasWildcard_iff, ← globSegmentChars_iff]
  simp only [globSegment, startsWithDot]
  grind

theorem globParts_backtracks : Backtracks (partItem segmentLanguage) globParts where
  nil word := by simp [globParts]
  single {segment accepts} h pattern word := by
    have hs : segment ≠ ['*', '*'] := by
      rintro rfl
      simp [partItem] at h
    have haccepts : ∀ name, accepts name ↔ globSegment segment name := by
      intro name
      simp only [partItem, hs, if_false, Item.single.injEq] at h
      simp [← h, globSegment_iff]
    cases word <;> simp [globParts, hs, haccepts]
  run {segment} h pattern word := by
    have hs : segment = ['*', '*'] := by
      by_contra hs
      simp [partItem, hs] at h
    subst hs
    simp only [globParts, if_true]
    exact matchesEnd_iff _ word

theorem globParts_iff_mem_patternLanguage :
    (∀ segment name, globSegment segment name = true ↔ name ∈ segmentLanguage segment) ∧
      ∀ pattern candidate,
        globParts pattern candidate = true ↔
          candidate ∈ patternLanguage segmentLanguage pattern :=
  ⟨globSegment_iff, globParts_backtracks.mem_language_iff⟩

/-- A wildcard that starts a segment does not match the dot of a hidden name. -/
theorem hidden_name_not_matched :
    [".a".toList] ∈ patternLanguage textLanguage ["*".toList] ∧
      globParts ["*".toList] [".a".toList] = false := by
  refine ⟨?_, by decide⟩
  have hname : ".a".toList ∈ textLanguage "*".toList := (globSegmentChars_iff _ _).mp (by decide)
  have hitem : partItem textLanguage "*".toList = .single (· ∈ textLanguage "*".toList) := by
    simp [partItem]
  simp only [patternLanguage, List.map_cons, List.map_nil, hitem]
  exact mem_language_single.mpr ⟨_, _, rfl, hname, by simp⟩

end Tsz.Project.Config
