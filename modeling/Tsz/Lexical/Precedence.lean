import Mathlib.Data.List.Basic

/-!
# Precedence

Trees over operands and operators whose table gives every operator a role: a binary one with its
precedence, one of the two parts of a conditional, or an assignment. The tree in which every
operator binds tighter than the one above it, or as tight and to its left, is determined by what
it reads as.

## Main results

* `Tree.Correct.depth_yield` — the question marks of a correct tree are matched by its colons,
  but for one in every unfinished conditional.
* `Tree.Correct.unique` — a correct tree without unfinished conditionals is the only correct one
  with its yield.
-/

namespace Precedence

inductive Role
  | binary (precedence : Nat)
  | question
  | colon
  | assign
deriving DecidableEq, Repr

inductive Piece (α β : Type*)
  | operand (a : α)
  | operator (op : β)

inductive Tree (α β : Type*)
  | operand (a : α)
  | binary (left : Tree α β) (op : β) (right : Tree α β)
  | conditional (condition : Tree α β) (question : β) (whenTrue : Tree α β) (colon : β)
      (whenFalse : Tree α β)
  /-- A conditional whose colon does not come. -/
  | unfinished (condition : Tree α β) (question : β) (whenTrue : Tree α β)
  | assignment (left : Tree α β) (op : β) (right : Tree α β)

variable {α β : Type*} (role : β → Option Role)

/-- How many conditionals are open behind so many open ones, if every colon has a conditional. -/
def depth : Nat → List (Piece α β) → Option Nat
  | n, [] => some n
  | n, .operand _ :: pieces => depth n pieces
  | n, .operator op :: pieces =>
    match role op, n with
    | some .question, n => depth (n + 1) pieces
    | some .colon, 0 => none
    | some .colon, n + 1 => depth n pieces
    | _, n => depth n pieces

/-- Operands and binary operators. -/
def Piece.IsBinary : Piece α β → Prop
  | .operand _ => True
  | .operator op => ∃ m, role op = some (.binary m)

namespace Tree

/-- The pieces of a tree in order. -/
def yield : Tree α β → List (Piece α β)
  | operand a => [.operand a]
  | binary l op r => l.yield ++ .operator op :: r.yield
  | conditional c q t colon f => c.yield ++ .operator q :: (t.yield ++ .operator colon :: f.yield)
  | unfinished c q t => c.yield ++ .operator q :: t.yield
  | assignment l op r => l.yield ++ .operator op :: r.yield

/-- The number of unfinished conditionals. -/
def gaps : Tree α β → Nat
  | operand _ => 0
  | binary l _ r => l.gaps + r.gaps
  | conditional c _ t _ f => c.gaps + t.gaps + f.gaps
  | unfinished c _ t => c.gaps + t.gaps + 1
  | assignment l _ r => l.gaps + r.gaps

/-- The operator on top is a binary one of this precedence or a tighter one, if there is any. -/
def Tight (n : Nat) : Tree α β → Prop
  | operand _ => True
  | binary _ op _ => ∃ m, role op = some (.binary m) ∧ n ≤ m
  | _ => False

/-- Every operator binds tighter than the one above it, or as tight and to its left. Conditionals
and assignments bind looser than binary operators, and to the right. -/
def Correct : Tree α β → Prop
  | operand _ => True
  | binary l op r =>
    ∃ m, role op = some (.binary m) ∧ (l.Correct ∧ l.Tight role m) ∧ r.Correct ∧
      r.Tight role (m + 1)
  | conditional c q t colon f =>
    (role q = some .question ∧ role colon = some .colon) ∧ (c.Correct ∧ c.Tight role 0) ∧
      t.Correct ∧ f.Correct
  | unfinished c q t => role q = some .question ∧ (c.Correct ∧ c.Tight role 0) ∧ t.Correct
  | assignment l op r => role op = some .assign ∧ (l.Correct ∧ l.Tight role 0) ∧ r.Correct

end Tree

variable {role}

/-- Two lists with one element singled out are one list: the elements are at one place, or the one
that comes first stands in front of the other one. -/
theorem append_cons_cases {γ : Type*} {xs ys xs' ys' : List γ} {x x' : γ}
    (h : xs ++ x :: ys = xs' ++ x' :: ys') :
    (xs = xs' ∧ x = x' ∧ ys = ys') ∨
      (∃ zs, xs' = xs ++ x :: zs ∧ ys = zs ++ x' :: ys') ∨
      ∃ zs, xs = xs' ++ x' :: zs ∧ ys' = zs ++ x :: ys := by
  rcases List.append_eq_append_iff.mp h with ⟨zs, hl, hr⟩ | ⟨zs, hl, hr⟩
  all_goals
    cases zs with
    | nil => simp_all
    | cons z zs => simp_all

/-! ## Depth -/

attribute [local simp] depth

theorem depth_append (n : Nat) (xs ys : List (Piece α β)) :
    depth role n (xs ++ ys) = (depth role n xs).bind fun m => depth role m ys := by
  induction xs generalizing n with
  | nil => rfl
  | cons x xs ih =>
    cases x with
    | operand a => exact ih n
    | operator op => cases n <;> simp only [List.cons_append, depth] <;> split <;> simp_all

theorem depth_binary {op : β} {m : Nat} (h : role op = some (.binary m)) (n : Nat)
    (pieces : List (Piece α β)) : depth role n (.operator op :: pieces) = depth role n pieces := by
  simp [h]

theorem depth_assign {op : β} (h : role op = some .assign) (n : Nat)
    (pieces : List (Piece α β)) : depth role n (.operator op :: pieces) = depth role n pieces := by
  simp [h]

theorem depth_question {op : β} (h : role op = some .question) (n : Nat)
    (pieces : List (Piece α β)) :
    depth role n (.operator op :: pieces) = depth role (n + 1) pieces := by simp [h]

theorem depth_colon {op : β} (h : role op = some .colon) (n : Nat) (pieces : List (Piece α β)) :
    depth role (n + 1) (.operator op :: pieces) = depth role n pieces := by simp [h]

theorem depth_zero_colon {op : β} (h : role op = some .colon) (pieces : List (Piece α β)) :
    depth role 0 (.operator op :: pieces) = none := by simp [h]

namespace Tree

variable {t t' : Tree α β}

theorem Tight.mono {m n : Nat} (h : t.Tight role n) (hle : m ≤ n) : t.Tight role m := by
  cases t with
  | operand a => trivial
  | binary l op r =>
    obtain ⟨k, hk, hn⟩ := h
    exact ⟨k, hk, Nat.le_trans hle hn⟩
  | _ => exact h

theorem Correct.depth_yield (h : t.Correct role) (n : Nat) :
    depth role n t.yield = some (n + t.gaps) := by
  induction t generalizing n with
  | operand a => rfl
  | binary l op r ihl ihr =>
    obtain ⟨m, hop, ⟨hl, -⟩, hr, -⟩ := h
    rw [yield, depth_append, ihl hl, Option.bind_some, depth_binary hop, ihr hr, gaps, Nat.add_assoc]
  | conditional c q t colon f ihc iht ihf =>
    obtain ⟨⟨hq, hcolon⟩, ⟨hc, -⟩, ht, hf⟩ := h
    have hopen : depth role (n + c.gaps) (.operator q :: (t.yield ++ .operator colon :: f.yield)) =
        some (n + c.gaps + t.gaps + f.gaps) := by
      have hplace : n + c.gaps + 1 + t.gaps = n + c.gaps + t.gaps + 1 := by omega
      rw [depth_question hq, depth_append, iht ht, Option.bind_some, hplace, depth_colon hcolon,
        ihf hf]
    rw [yield, depth_append, ihc hc, Option.bind_some, hopen, gaps, Nat.add_assoc, Nat.add_assoc,
      Nat.add_assoc]
  | unfinished c q t ihc iht =>
    obtain ⟨hq, ⟨hc, -⟩, ht⟩ := h
    rw [yield, depth_append, ihc hc, Option.bind_some, depth_question hq, iht ht, gaps]
    congr 1
    omega
  | assignment l op r ihl ihr =>
    obtain ⟨hop, ⟨hl, -⟩, hr⟩ := h
    rw [yield, depth_append, ihl hl, Option.bind_some, depth_assign hop, ihr hr, gaps, Nat.add_assoc]

/-! ## Binary operators -/

/-- No operator below a binary one binds looser. -/
theorem Correct.le_of_mem {n : Nat} (h : t.Correct role) (ht : t.Tight role n) {op : β}
    (hop : .operator op ∈ t.yield) : ∃ m, role op = some (.binary m) ∧ n ≤ m := by
  induction t generalizing n with
  | operand a => simp [yield] at hop
  | binary l top r ihl ihr =>
    obtain ⟨m, htop, ⟨hl, htl⟩, hr, htr⟩ := h
    obtain ⟨k, hk, hn⟩ := ht
    obtain rfl : k = m := by simpa [htop] using hk.symm
    rcases List.mem_append.mp hop with hop | hop
    · obtain ⟨j, hj, hle⟩ := ihl hl htl hop
      exact ⟨j, hj, Nat.le_trans hn hle⟩
    · rcases List.mem_cons.mp hop with hop | hop
      · obtain rfl : op = top := by simpa using hop
        exact ⟨k, htop, hn⟩
      · obtain ⟨j, hj, hle⟩ := ihr hr htr hop
        exact ⟨j, hj, by omega⟩
  | _ => exact ht.elim

theorem Correct.isBinary (h : t.Correct role) (ht : t.Tight role 0) {p : Piece α β}
    (hp : p ∈ t.yield) : p.IsBinary role := by
  cases p with
  | operand a => trivial
  | operator op =>
    obtain ⟨m, hm, -⟩ := h.le_of_mem ht hp
    exact ⟨m, hm⟩

/-- The operator on top is the last of the loosest ones. -/
theorem not_split_left {l r l' r' : Tree α β} {op op' : β} {pieces : List (Piece α β)}
    (h : (binary l op r).Correct role) (h' : (binary l' op' r').Correct role)
    (hl : l'.yield = l.yield ++ .operator op :: pieces)
    (hr : r.yield = pieces ++ .operator op' :: r'.yield) : False := by
  obtain ⟨m, hop, -, hcr, htr⟩ := h
  obtain ⟨m', hop', ⟨hcl, htl⟩, -, -⟩ := h'
  have hmem : Piece.operator op ∈ l'.yield := by simp [hl]
  have hmem' : Piece.operator op' ∈ r.yield := by simp [hr]
  obtain ⟨k, hk, hle⟩ := hcl.le_of_mem htl hmem
  obtain ⟨k', hk', hlt⟩ := hcr.le_of_mem htr hmem'
  rw [hop] at hk
  rw [hop'] at hk'
  grind

theorem Correct.gaps_eq_zero {n : Nat} (h : t.Correct role) (ht : t.Tight role n) : t.gaps = 0 := by
  induction t generalizing n with
  | operand a => rfl
  | binary l op r ihl ihr =>
    obtain ⟨m, -, ⟨hl, htl⟩, hr, htr⟩ := h
    rw [gaps, ihl hl htl, ihr hr htr]
  | _ => exact ht.elim

theorem Correct.unique_binary (h : t.Correct role) (ht : t.Tight role 0)
    (h' : t'.Correct role) (ht' : t'.Tight role 0) (hyield : t.yield = t'.yield) : t = t' := by
  induction t generalizing t' with
  | operand a =>
    cases t' with
    | operand b => simpa [yield] using hyield
    | binary l' op' r' => simp [yield, List.singleton_eq_append_iff] at hyield
    | _ => exact ht'.elim
  | binary l op r ihl ihr =>
    cases t' with
    | operand b => simp [yield, List.append_eq_singleton_iff] at hyield
    | binary l' op' r' =>
      rcases append_cons_cases hyield with ⟨hl, hop, hr⟩ | ⟨zs, hl, hr⟩ | ⟨zs, hl, hr⟩
      · obtain ⟨m, -, ⟨hcl, htl⟩, hcr, htr⟩ := h
        obtain ⟨m', -, ⟨hcl', htl'⟩, hcr', htr'⟩ := h'
        rw [ihl hcl (htl.mono m.zero_le) hcl' (htl'.mono m'.zero_le) hl,
          ihr hcr (htr.mono (Nat.zero_le _)) hcr' (htr'.mono (Nat.zero_le _)) hr,
          Piece.operator.inj hop]
      · exact (not_split_left h h' hl hr).elim
      · exact (not_split_left h' h hl hr).elim
    | _ => exact ht'.elim
  | _ => exact ht.elim

/-! ## Conditionals and assignments -/

theorem not_isBinary {op : β} {r : Role} (h : role op = some r) (hr : ∀ m, r ≠ .binary m) :
    ¬ (Piece.operator op : Piece α β).IsBinary role := by
  rintro ⟨m, hm⟩
  rw [h] at hm
  exact hr m (Option.some.inj hm)

/-- Binary trees in front of the first operator of another kind are equally long. -/
theorem Correct.split {l l' : Tree α β} {op op' : β} {pieces pieces' : List (Piece α β)}
    (h : l.Correct role) (ht : l.Tight role 0) (h' : l'.Correct role) (ht' : l'.Tight role 0)
    (hop : ¬ (Piece.operator op : Piece α β).IsBinary role)
    (hop' : ¬ (Piece.operator op' : Piece α β).IsBinary role)
    (heq : l.yield ++ .operator op :: pieces = l'.yield ++ .operator op' :: pieces') :
    l = l' ∧ op = op' ∧ pieces = pieces' := by
  rcases append_cons_cases heq with ⟨hl, hp, hpieces⟩ | ⟨zs, hl, -⟩ | ⟨zs, hl, -⟩
  · exact ⟨h.unique_binary ht h' ht' hl, Piece.operator.inj hp, hpieces⟩
  · exact absurd (h'.isBinary ht' (by simp [hl])) hop
  · exact absurd (h.isBinary ht (by simp [hl])) hop'

/-- What stands between a question mark and its colon ends in front of that colon. -/
theorem Correct.split_colon (h : t.Correct role) (h' : t'.Correct role) (hgaps : t.gaps = 0)
    (hgaps' : t'.gaps = 0) {op op' : β} {pieces pieces' : List (Piece α β)}
    (hop : role op = some .colon) (hop' : role op' = some .colon)
    (heq : t.yield ++ .operator op :: pieces = t'.yield ++ .operator op' :: pieces') :
    t.yield = t'.yield ∧ op = op' ∧ pieces = pieces' := by
  -- A colon inside of either tree would close a conditional that is not open.
  have hclosed {s s' : Tree α β} {op : β} {rest : List (Piece α β)} (hs : s.Correct role)
      (hs' : s'.Correct role) (hgs : s.gaps = 0) (hgs' : s'.gaps = 0)
      (hop : role op = some .colon) : s'.yield ≠ s.yield ++ .operator op :: rest := by
    intro hrest
    have hdepth := hs'.depth_yield 0
    rw [hrest, depth_append, hs.depth_yield, hgs, hgs', Option.bind_some,
      depth_zero_colon hop] at hdepth
    cases hdepth
  rcases append_cons_cases heq with ⟨hl, hp, hpieces⟩ | ⟨zs, hl, -⟩ | ⟨zs, hl, -⟩
  · exact ⟨hl, Piece.operator.inj hp, hpieces⟩
  · exact absurd hl (hclosed h h' hgaps hgaps' hop)
  · exact absurd hl (hclosed h' h hgaps' hgaps hop')

theorem Correct.tight_binary {l r : Tree α β} {op : β} (h : (binary l op r).Correct role) :
    (binary l op r).Tight role 0 := by
  obtain ⟨m, hop, -⟩ := h
  exact ⟨m, hop, m.zero_le⟩

/-- A binary tree reads otherwise than one with another operator. -/
theorem Correct.yield_ne (h : t.Correct role) (ht : t.Tight role 0) {op : β}
    (hop : ¬ (Piece.operator op : Piece α β).IsBinary role) {xs ys : List (Piece α β)} :
    t.yield ≠ xs ++ .operator op :: ys := by
  intro heq
  exact hop (h.isBinary ht (by simp [heq]))

theorem Correct.unique_complete (h : t.Correct role) (h' : t'.Correct role)
    (hgaps : t.gaps = 0) (hgaps' : t'.gaps = 0) (hyield : t.yield = t'.yield) : t = t' := by
  have hquestion {op : β} (hop : role op = some .question) :
      ¬ (Piece.operator op : Piece α β).IsBinary role := not_isBinary hop (by simp)
  have hassign {op : β} (hop : role op = some .assign) :
      ¬ (Piece.operator op : Piece α β).IsBinary role := not_isBinary hop (by simp)
  induction t generalizing t' with
  | operand a =>
    cases t' with
    | operand b => exact h.unique_binary trivial h' trivial hyield
    | binary l' op' r' => exact h.unique_binary trivial h' h'.tight_binary hyield
    | conditional c' q' t' colon' f' =>
      exact absurd hyield (h.yield_ne trivial (hquestion h'.1.1))
    | unfinished c' q' t' => simp [gaps] at hgaps'
    | assignment l' op' r' => exact absurd hyield (h.yield_ne trivial (hassign h'.1))
  | binary l op r =>
    cases t' with
    | operand b => exact h.unique_binary h.tight_binary h' trivial hyield
    | binary l' op' r' => exact h.unique_binary h.tight_binary h' h'.tight_binary hyield
    | conditional c' q' t' colon' f' =>
      exact absurd hyield (h.yield_ne h.tight_binary (hquestion h'.1.1))
    | unfinished c' q' t' => simp [gaps] at hgaps'
    | assignment l' op' r' => exact absurd hyield (h.yield_ne h.tight_binary (hassign h'.1))
  | conditional c q t colon f ihc iht ihf =>
    obtain ⟨⟨hq, hcolon⟩, ⟨hc, htc⟩, ht, hf⟩ := h
    cases t' with
    | operand b => exact absurd hyield.symm (h'.yield_ne trivial (hquestion hq))
    | binary l' op' r' => exact absurd hyield.symm (h'.yield_ne h'.tight_binary (hquestion hq))
    | conditional c' q' t' colon' f' =>
      obtain ⟨⟨hq', hcolon'⟩, ⟨hc', htc'⟩, ht', hf'⟩ := h'
      simp only [gaps, Nat.add_eq_zero_iff] at hgaps hgaps'
      obtain ⟨rfl, rfl, hrest⟩ :=
        hc.split htc hc' htc' (hquestion hq) (hquestion hq') hyield
      obtain ⟨htrue, rfl, hfalse⟩ :=
        ht.split_colon ht' hgaps.1.2 hgaps'.1.2 hcolon hcolon' hrest
      rw [iht ht ht' hgaps.1.2 hgaps'.1.2 htrue, ihf hf hf' hgaps.2 hgaps'.2 hfalse]
    | unfinished c' q' t' => simp [gaps] at hgaps'
    | assignment l' op' r' =>
      obtain ⟨hop', ⟨hl', htl'⟩, -⟩ := h'
      obtain ⟨-, rfl, -⟩ := hc.split htc hl' htl' (hquestion hq) (hassign hop') hyield
      simp [hq] at hop'
  | unfinished c q t => simp [gaps] at hgaps
  | assignment l op r ihl ihr =>
    obtain ⟨hop, ⟨hl, htl⟩, hr⟩ := h
    cases t' with
    | operand b => exact absurd hyield.symm (h'.yield_ne trivial (hassign hop))
    | binary l' op' r' => exact absurd hyield.symm (h'.yield_ne h'.tight_binary (hassign hop))
    | conditional c' q' t' colon' f' =>
      obtain ⟨⟨hq', -⟩, ⟨hc', htc'⟩, -, -⟩ := h'
      obtain ⟨-, rfl, -⟩ := hl.split htl hc' htc' (hassign hop) (hquestion hq') hyield
      simp [hop] at hq'
    | unfinished c' q' t' => simp [gaps] at hgaps'
    | assignment l' op' r' =>
      obtain ⟨hop', ⟨hl', htl'⟩, hr'⟩ := h'
      simp only [gaps, Nat.add_eq_zero_iff] at hgaps hgaps'
      obtain ⟨rfl, rfl, hright⟩ := hl.split htl hl' htl' (hassign hop) (hassign hop') hyield
      rw [ihr hr hr' hgaps.2 hgaps'.2 hright]

/-- The number of unfinished conditionals can be read off the yield, so one complete reading is
the only one. -/
theorem Correct.unique (h : t.Correct role) (h' : t'.Correct role)
    (hgaps : t.gaps = 0 ∨ t'.gaps = 0) (hyield : t.yield = t'.yield) : t = t' := by
  have hdepth := h.depth_yield 0
  rw [hyield, h'.depth_yield] at hdepth
  have heq : t'.gaps = t.gaps := by simpa using hdepth
  exact h.unique_complete h' (by omega) (by omega) hyield

end Tree

end Precedence
