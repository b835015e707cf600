import Mathlib.Computability.Language

/-!
# Wildcards

Patterns of letters and wildcards: an item of a pattern stands for one letter that it accepts, or
for any run of letters. A matcher that tries a run as empty first, and else lets it take one more
letter, decides the language of its pattern.

## Main results

* `Backtracks.mem_language_iff` — a backtracking matcher accepts exactly the words of the language
  that its pattern denotes.
-/

namespace Wildcards

variable {α ι : Type*}

inductive Item (α : Type*)
  | single (accepts : α → Prop)
  | run

def Item.language : Item α → Language α
  | .single accepts => {word | ∃ a, accepts a ∧ word = [a]}
  | .run => {_word | True}

/-- The words that fall into pieces, one for each item of the pattern. -/
def language (pattern : List (Item α)) : Language α := (pattern.map Item.language).prod

variable {accepts : α → Prop} {pattern : List (Item α)} {word : List α}

@[simp]
theorem mem_language_nil : word ∈ language ([] : List (Item α)) ↔ word = [] := by
  simp [language]

theorem mem_language_cons {item : Item α} :
    word ∈ language (item :: pattern) ↔
      ∃ front ∈ item.language, ∃ back ∈ language pattern, front ++ back = word := by
  simp only [language, List.map_cons, List.prod_cons]
  exact Language.mem_mul

theorem mem_language_single :
    word ∈ language (.single accepts :: pattern) ↔
      ∃ a rest, word = a :: rest ∧ accepts a ∧ rest ∈ language pattern := by
  rw [mem_language_cons]
  constructor
  · rintro ⟨_, ⟨a, ha, rfl⟩, back, hback, rfl⟩
    exact ⟨a, back, rfl, ha, hback⟩
  · rintro ⟨a, rest, rfl, ha, hrest⟩
    exact ⟨[a], ⟨a, ha, rfl⟩, rest, hrest, rfl⟩

theorem mem_language_run :
    word ∈ language (.run :: pattern) ↔ ∃ rest, rest <:+ word ∧ rest ∈ language pattern := by
  rw [mem_language_cons]
  constructor
  · rintro ⟨front, -, back, hback, rfl⟩
    exact ⟨back, List.suffix_append front back, hback⟩
  · rintro ⟨rest, ⟨front, rfl⟩, hrest⟩
    exact ⟨front, trivial, rest, hrest, rfl⟩

/-- A run is empty, or it takes a letter and goes on. -/
theorem mem_language_run_iff :
    word ∈ language (.run :: pattern) ↔
      word ∈ language pattern ∨ ∃ a rest, word = a :: rest ∧ rest ∈ language (.run :: pattern) := by
  simp only [mem_language_run]
  cases word with
  | nil => simp
  | cons a rest =>
    simp only [List.suffix_cons_iff, List.cons.injEq]
    constructor
    · rintro ⟨back, rfl | hback, hmem⟩
      · exact .inl hmem
      · exact .inr ⟨a, rest, ⟨rfl, rfl⟩, back, hback, hmem⟩
    · rintro (hmem | ⟨_, _, ⟨rfl, rfl⟩, back, hback, hmem⟩)
      · exact ⟨_, .inl rfl, hmem⟩
      · exact ⟨back, .inr hback, hmem⟩

/-- The equations of a matcher that backtracks over its runs. -/
structure Backtracks (item : ι → Item α) (accepted : List ι → List α → Bool) : Prop where
  nil (word : List α) : accepted [] word ↔ word = []
  single {i : ι} {accepts : α → Prop} (h : item i = .single accepts) (pattern : List ι)
    (word : List α) :
    accepted (i :: pattern) word ↔ ∃ a rest, word = a :: rest ∧ accepts a ∧ accepted pattern rest
  run {i : ι} (h : item i = .run) (pattern : List ι) (word : List α) :
    accepted (i :: pattern) word ↔
      accepted pattern word ∨ ∃ a rest, word = a :: rest ∧ accepted (i :: pattern) rest

namespace Backtracks

variable {item : ι → Item α} {accepted : List ι → List α → Bool}

theorem run_iff (hm : Backtracks item accepted) {i : ι} (h : item i = .run) {pattern : List ι}
    (ih : ∀ word, accepted pattern word ↔ word ∈ language (pattern.map item)) (word : List α) :
    accepted (i :: pattern) word ↔ word ∈ language (.run :: pattern.map item) := by
  induction word with
  | nil =>
    rw [hm.run h, ih, mem_language_run_iff]
    simp
  | cons a rest ihw =>
    rw [hm.run h, ih, mem_language_run_iff]
    simp only [List.cons.injEq]
    grind

theorem mem_language_iff (hm : Backtracks item accepted) (pattern : List ι) (word : List α) :
    accepted pattern word ↔ word ∈ language (pattern.map item) := by
  induction pattern generalizing word with
  | nil => simp [hm.nil]
  | cons i pattern ih =>
    cases h : item i with
    | single accepts => simp [hm.single h, h, mem_language_single, ih]
    | run => rw [List.map_cons, h, hm.run_iff h ih]

end Backtracks

end Wildcards
