import Mathlib.Data.List.Basic
import Mathlib.Data.Nat.Basic
import Mathlib.Order.Basic

/-!
# Lexical scoping

Two meanings of a scoping term, a program that declares names, refers to them and opens scopes.
The declarative meaning gives every reference the environment around it; a scope's declarations
are visible in all of it. The operational meaning appends scopes to a store of cells with parent
links, one walk from left to right, and looks names up once the walk is over. Both agree.
-/

namespace Lexical

universe u v w

/-- `declareOnce` keeps the first of clashing declarations. `hoist` declares a name that a
hoisting discipline moves to the nearest enclosing `body`. A scope is opened before `before` is
walked outside of it. -/
inductive Scoping (D : Type u) (R : Type v)
  | empty
  | declare (d : D)
  | declareOnce (d : D)
  | hoist (d : D)
  | refer (r : R)
  | seq (first second : Scoping D R)
  | block (before inside : Scoping D R)
  | body (before inside : Scoping D R)

namespace Scoping

variable {D : Type u} {R : Type v} {K : Type w}
variable (clash : D → D → Bool) (fits : K → D → Bool)

/-! ## Environments -/

abbrev Env (K : Type w) (D : Type u) := K → Option D

/-- The newest declaration of a frame that fits the key. -/
def newest (frame : List D) : Env K D := fun k => frame.reverse.find? (fits k)

def Env.extend (env : Env K D) (frame : List D) : Env K D := fun k =>
  (newest fits frame k).or (env k)

/-! ## Declarative meaning -/

def keepFirst (frame : List D) (d : D) : List D :=
  if frame.any (clash d) then frame else frame ++ [d]

/-- The declarations a term hoists out of its blocks, in order. -/
def hoisted : Scoping D R → List D
  | hoist d => [d]
  | seq first second => first.hoisted ++ second.hoisted
  | block before inside => before.hoisted ++ inside.hoisted
  | body before _ => before.hoisted
  | empty | declare _ | declareOnce _ | refer _ => []

/-- The frame of a scope that holds `frame` after the term declared into it directly. -/
def frame (hoists : Bool) : Scoping D R → List D → List D
  | declare d, fs => fs ++ [d]
  | declareOnce d, fs => keepFirst clash fs d
  | hoist d, fs => if hoists then fs else fs ++ [d]
  | seq first second, fs => second.frame hoists (first.frame hoists fs)
  | block before _, fs => before.frame hoists fs
  | body before _, fs => before.frame hoists fs
  | empty, fs | refer _, fs => fs

/-- The frame of the body of a function: what it hoists, then what it declares. -/
def bodyFrame (hoists : Bool) (inside : Scoping D R) : List D :=
  inside.frame clash hoists (if hoists then inside.hoisted else [])

/-- Every reference of a term with the environment it is resolved in. -/
def references (hoists : Bool) : Scoping D R → Env K D → List (R × Env K D)
  | refer r, env => [(r, env)]
  | seq first second, env => first.references hoists env ++ second.references hoists env
  | block before inside, env =>
    before.references hoists env ++
      inside.references hoists (Env.extend fits env (inside.frame clash hoists []))
  | body before inside, env =>
    before.references hoists env ++
      inside.references hoists (Env.extend fits env (inside.bodyFrame clash hoists))
  | empty, _ | declare _, _ | declareOnce _, _ | hoist _, _ => []

/-! ## Operational meaning -/

structure Cell (D : Type u) where
  parent : Option Nat
  entries : List D

/-- Cells in the order they were opened, and the references met with their scopes. -/
structure Store (D : Type u) (R : Type v) where
  cells : List (Cell D)
  pending : List (Nat × R)

namespace Store

def opened (σ : Store D R) (parent : Nat) : Store D R :=
  { σ with cells := σ.cells ++ [⟨some parent, []⟩] }

def update (σ : Store D R) (s : Nat) (f : List D → List D) : Store D R :=
  { σ with cells := σ.cells.modify s fun cell => { cell with entries := f cell.entries } }

def referred (σ : Store D R) (s : Nat) (r : R) : Store D R :=
  { σ with pending := σ.pending ++ [(s, r)] }

theorem update_id (σ : Store D R) (s : Nat) : σ.update s id = σ := by
  have h : σ.cells.modify s (fun cell => cell) = σ.cells := List.modify_id s σ.cells
  simp only [update, id_eq, h]

end Store

def exec : Scoping D R → Nat → Store D R → Store D R
  | empty, _, σ => σ
  | declare d, s, σ | hoist d, s, σ => σ.update s (· ++ [d])
  | declareOnce d, s, σ => σ.update s (keepFirst clash · d)
  | refer r, s, σ => σ.referred s r
  | seq first second, s, σ => second.exec s (first.exec s σ)
  | block before inside, s, σ | body before inside, s, σ =>
    inside.exec σ.cells.length (before.exec s (σ.opened s))

/-- The walk from a cell through its parents; `fuel` bounds the cells visited. -/
def walk (cells : List (Cell D)) : Nat → Nat → Env K D
  | 0, _ => fun _ => none
  | fuel + 1, s => fun k =>
    match cells[s]? with
    | none => none
    | some cell => (newest fits cell.entries k).or (cell.parent.bind fun p => walk cells fuel p k)

/-- The environment of a cell. -/
def look (cells : List (Cell D)) (s : Nat) : Env K D := walk fits cells (s + 1) s

/-! ## Lookups -/

/-- Every cell's parent was opened before it. -/
def Nested (cells : List (Cell D)) : Prop :=
  ∀ (s : Nat) (cell : Cell D), cells[s]? = some cell → ∀ p ∈ cell.parent, p < s

theorem walk_eq_look {cells : List (Cell D)} (nested : Nested cells) {fuel s : Nat}
    (h : s < fuel) : walk fits cells fuel s = look fits cells s := by
  induction s using Nat.strongRecOn generalizing fuel with
  | ind s ih =>
    obtain ⟨fuel, rfl⟩ := Nat.exists_eq_add_of_lt h
    funext k
    simp only [look, walk]
    cases hc : cells[s]? with
    | none => rfl
    | some cell =>
      simp only
      cases hp : cell.parent with
      | none => rfl
      | some p =>
        have hlt : p < s := nested s cell hc p (by simp [hp])
        have hleft : walk fits cells (s + fuel) p = look fits cells p := ih p hlt (by omega)
        have hright : walk fits cells s p = look fits cells p := ih p hlt hlt
        simp only [Option.bind_some, hleft, hright]

theorem look_of_cell {cells : List (Cell D)} (nested : Nested cells) {s p : Nat}
    {entries : List D} (h : cells[s]? = some ⟨some p, entries⟩) :
    look fits cells s = Env.extend fits (look fits cells p) entries := by
  have hlt : p < s := nested s _ h p (by simp)
  funext k
  rw [look, walk]
  simp only [h, Option.bind_some, Env.extend]
  rw [walk_eq_look fits nested hlt]

theorem look_of_root {cells : List (Cell D)} {s : Nat} {entries : List D}
    (h : cells[s]? = some ⟨none, entries⟩) :
    look fits cells s = Env.extend fits (fun _ => none) entries := by
  funext k
  simp [look, walk, h, Env.extend]

/-! ## What one walk changes -/

/-- What a walk in cell `s` may change: that cell's entries, by `f`, and cells opened later. -/
structure Changes (σ τ : Store D R) (s : Nat) (f : List D → List D) : Prop where
  grows : σ.cells.length ≤ τ.cells.length
  here : ∀ cell, σ.cells[s]? = some cell →
    τ.cells[s]? = some { cell with entries := f cell.entries }
  elsewhere : ∀ i < σ.cells.length, i ≠ s → τ.cells[i]? = σ.cells[i]?
  nested : Nested σ.cells → Nested τ.cells

namespace Changes

theorem refl (σ : Store D R) (s : Nat) : Changes σ σ s id where
  grows := le_rfl
  here _ h := h
  elsewhere _ _ _ := rfl
  nested h := h

theorem referred (σ : Store D R) (s : Nat) (r : R) : Changes σ (σ.referred s r) s id where
  grows := le_rfl
  here _ h := h
  elsewhere _ _ _ := rfl
  nested h := h

theorem trans {σ τ υ : Store D R} {s : Nat} {f g : List D → List D} (h : Changes σ τ s f)
    (h' : Changes τ υ s g) : Changes σ υ s (g ∘ f) where
  grows := h.grows.trans h'.grows
  here cell hc := h'.here _ (h.here cell hc)
  elsewhere i hi hne := by
    rw [h'.elsewhere i (hi.trans_le h.grows) hne, h.elsewhere i hi hne]
  nested hn := h'.nested (h.nested hn)

theorem update (σ : Store D R) (s : Nat) (f : List D → List D) :
    Changes σ (σ.update s f) s f where
  grows := by simp [Store.update]
  here cell hc := by simp [Store.update, hc]
  elsewhere i _ hne := by simp [Store.update, Ne.symm hne]
  nested hn := by
    intro i cell hc p hp
    simp only [Store.update, List.getElem?_modify] at hc
    cases hi : σ.cells[i]? with
    | none => simp [hi] at hc
    | some old =>
      have : old.parent = cell.parent := by
        simp only [hi, Option.map_eq_map, Option.map_some, Option.some.injEq] at hc
        subst hc
        split <;> rfl
      exact hn i old hi p (this ▸ hp)

theorem opened {σ : Store D R} {s : Nat} (hs : s < σ.cells.length) :
    Changes σ (σ.opened s) s id where
  grows := by simp [Store.opened]
  here cell hc := by simp [Store.opened, List.getElem?_append_left hs, hc]
  elsewhere i hi _ := by simp [Store.opened, List.getElem?_append_left hi]
  nested hn := by
    intro i cell hc p hp
    rcases Nat.lt_or_ge i σ.cells.length with hi | hi
    · exact hn i cell (by simpa [Store.opened, List.getElem?_append_left hi] using hc) p hp
    · have hlen : i < (σ.opened s).cells.length := (List.getElem?_eq_some_iff.1 hc).1
      have : i = σ.cells.length := by simp [Store.opened] at hlen; omega
      subst this
      simp [Store.opened] at hc
      subst hc
      simp at hp
      omega

/-- A walk inside a freshly opened cell changes nothing the outer cell can see. -/
theorem inside {σ τ υ : Store D R} {s : Nat} {f g : List D → List D} (h : Changes σ τ s f)
    (hs : s < σ.cells.length) (hc : σ.cells.length < τ.cells.length)
    (h' : Changes τ υ σ.cells.length g) : Changes σ υ s f where
  grows := h.grows.trans h'.grows
  here cell hcell := by
    rw [h'.elsewhere s (hs.trans_le h.grows) hs.ne, h.here cell hcell]
  elsewhere i hi hne := by
    rw [h'.elsewhere i (hi.trans hc) hi.ne, h.elsewhere i hi hne]
  nested hn := h'.nested (h.nested hn)

end Changes

theorem exec_changes (t : Scoping D R) {s : Nat} {σ : Store D R} (hs : s < σ.cells.length) :
    Changes σ (t.exec clash s σ) s (t.frame clash false) := by
  induction t generalizing s σ with
  | empty => exact .refl σ s
  | refer r => exact .referred σ s r
  | declare d => exact .update σ s _
  | declareOnce d => exact .update σ s _
  | hoist d => exact .update σ s _
  | seq first second ihf ihs =>
    have hf := ihf hs
    exact hf.trans (ihs (hs.trans_le hf.grows))
  | block before inside ihb ihi | body before inside ihb ihi =>
    have hopen := Changes.opened hs
    have hlen : σ.cells.length < (σ.opened s).cells.length := by simp [Store.opened]
    have hb := ihb (hs.trans hlen)
    have hc := hlen.trans_le hb.grows
    exact (hopen.trans hb).inside hs hc (ihi hc)

/-! ## Agreement -/

/-- The final cells keep what the walk from `σ` to `τ` opened. -/
def Final (cells : List (Cell D)) (σ τ : Store D R) : Prop :=
  ∀ i, σ.cells.length ≤ i → i < τ.cells.length → cells[i]? = τ.cells[i]?

/-- Looking the pending references up in the final cells. -/
def answers (cells : List (Cell D)) (pending : List (Nat × R)) : List (R × Env K D) :=
  pending.map fun p => (p.2, look fits cells p.1)

theorem answers_append (cells : List (Cell D)) (p q : List (Nat × R)) :
    answers fits cells (p ++ q) = answers fits cells p ++ answers fits cells q :=
  List.map_append

theorem exec_answers {cells : List (Cell D)} (nested : Nested cells) (t : Scoping D R)
    {s : Nat} {σ : Store D R} (hs : s < σ.cells.length)
    (final : Final cells σ (t.exec clash s σ)) :
    answers fits cells (t.exec clash s σ).pending =
      answers fits cells σ.pending ++ t.references clash fits false (look fits cells s) := by
  induction t generalizing s σ with
  | empty | declare d | declareOnce d | hoist d =>
    simp [exec, Store.update, references]
  | refer r => simp [exec, Store.referred, answers, references]
  | seq first second ihf ihs =>
    have hf := exec_changes clash first hs
    have hs' := hs.trans_le hf.grows
    have hsecond := exec_changes clash second hs'
    have final₁ : Final cells σ (first.exec clash s σ) := by
      intro i hi hlt
      rw [final i hi (hlt.trans_le hsecond.grows)]
      exact hsecond.elsewhere i hlt (by omega)
    have final₂ : Final cells (first.exec clash s σ) (second.exec clash s (first.exec clash s σ)) :=
      fun i hi hlt => final i (hf.grows.trans hi) hlt
    simp only [exec, references]
    rw [ihs hs' final₂, ihf hs final₁, List.append_assoc]
  | block before inside ihb ihi | body before inside ihb ihi =>
    have hlen : σ.cells.length < (σ.opened s).cells.length := by simp [Store.opened]
    have hb := exec_changes clash before (hs.trans hlen)
    have hc := hlen.trans_le hb.grows
    have hi := exec_changes clash inside hc
    have fresh : (before.exec clash s (σ.opened s)).cells[σ.cells.length]? =
        some ⟨some s, []⟩ := by
      rw [hb.elsewhere _ hlen hs.ne']
      simp [Store.opened]
    -- The cell opened here is complete once the walk inside it is over.
    have cell : cells[σ.cells.length]? = some ⟨some s, inside.frame clash false []⟩ := by
      rw [final _ le_rfl (hc.trans_le hi.grows)]
      exact hi.here _ fresh
    have final₁ : Final cells (σ.opened s) (before.exec clash s (σ.opened s)) := by
      intro i hlo hhi
      rw [final i (hlen.le.trans hlo) (hhi.trans_le hi.grows)]
      exact hi.elsewhere i hhi (by omega)
    have final₂ : Final cells (before.exec clash s (σ.opened s))
        (inside.exec clash σ.cells.length (before.exec clash s (σ.opened s))) :=
      fun i hlo hhi => final i (hc.le.trans hlo) hhi
    simp only [exec, references, bodyFrame, Bool.false_eq_true, if_false]
    rw [ihi hc final₂, ihb (hs.trans hlen) final₁, look_of_cell fits nested cell]
    simp [Store.opened, List.append_assoc]

/-- The store with a single root cell. -/
def rootStore : Store D R := ⟨[⟨none, []⟩], []⟩

theorem exec_root_nested (t : Scoping D R) : Nested (t.exec clash 0 rootStore).cells := by
  refine (exec_changes clash t (by simp [rootStore])).nested ?_
  intro i cell hcell
  rcases i with _ | i <;> simp [rootStore] at hcell
  simp [← hcell]

/-- A walk from a single root cell answers every reference as the environments do. -/
theorem exec_root_answers (t : Scoping D R) :
    answers fits (t.exec clash 0 rootStore).cells (t.exec clash 0 rootStore).pending =
      t.references clash fits false
        (Env.extend fits (fun _ => none) (t.frame clash false [])) := by
  have hs : 0 < (rootStore : Store D R).cells.length := by simp [rootStore]
  have hchanges := exec_changes clash t hs
  have root := look_of_root fits (hchanges.here ⟨none, []⟩ (by simp [rootStore]))
  rw [exec_answers clash fits (exec_root_nested clash t) t hs (fun _ _ _ => rfl), root]
  rfl

end Scoping

end Lexical
