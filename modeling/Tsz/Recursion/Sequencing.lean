import Mathlib.Data.List.Basic

/-!
# Sequencing of commands

Commands run one after the other on a state, each leaving a trace of events. A command may be
broken off, which skips the commands behind it, and it may never come to an end.

## Main results

* `sequence_append_eq_some` — a run of two sequences is broken off in the first one, or goes
  through it and on with the second one.
* `sequence_silent` — commands that change nothing leave just their events.
* `sequence_induct` — a property of outcomes kept by every command is one of their sequence.
-/

namespace Sequencing

variable {σ ε κ : Type*}

/-- What a command leaves: its events, what broke it off, and the state. -/
structure Outcome (σ ε κ : Type*) where
  events : List ε
  abrupt : Option κ
  state : σ

/-- `none` stands for a command that does not come to an end. -/
abbrev Command (σ ε κ : Type*) := σ → Option (Outcome σ ε κ)

namespace Command

def skip : Command σ ε κ := fun s => some ⟨[], none, s⟩

/-- Go on with a command behind an outcome that is not broken off. -/
def resume (second : Command σ ε κ) (first : Outcome σ ε κ) : Option (Outcome σ ε κ) :=
  match first.abrupt with
  | some _ => some first
  | none => (second first.state).map fun rest =>
      ⟨first.events ++ rest.events, rest.abrupt, rest.state⟩

def andThen (first second : Command σ ε κ) : Command σ ε κ :=
  fun s => (first s).bind (resume second)

def sequence : List (Command σ ε κ) → Command σ ε κ
  | [] => skip
  | first :: rest => andThen first (sequence rest)

@[simp] theorem sequence_nil : sequence ([] : List (Command σ ε κ)) = skip := rfl

@[simp] theorem skip_apply (s : σ) : (skip : Command σ ε κ) s = some ⟨[], none, s⟩ := rfl

theorem andThen_eq_some {first second : Command σ ε κ} {s : σ} {o : Outcome σ ε κ} :
    andThen first second s = some o ↔
      (first s = some o ∧ o.abrupt ≠ none) ∨
        ∃ m r, first s = some m ∧ m.abrupt = none ∧ second m.state = some r ∧
          o = ⟨m.events ++ r.events, r.abrupt, r.state⟩ := by
  unfold andThen resume
  cases hf : first s with
  | none => simp
  | some m =>
    obtain ⟨events, abrupt, state⟩ := m
    cases abrupt with
    | some k =>
      constructor
      · intro h
        cases h
        exact Or.inl ⟨rfl, by simp⟩
      · rintro (⟨h, -⟩ | ⟨m, r, h, hm, -⟩)
        · simpa using h
        · cases h
          cases hm
    | none =>
      simp only [Option.bind_some, Option.map_eq_some_iff]
      constructor
      · rintro ⟨r, hr, rfl⟩
        exact Or.inr ⟨_, r, rfl, rfl, hr, rfl⟩
      · rintro (⟨h, ho⟩ | ⟨m, r, h, -, hr, rfl⟩)
        · cases h
          exact absurd rfl ho
        · cases h
          exact ⟨r, hr, rfl⟩

theorem skip_andThen (second : Command σ ε κ) : andThen skip second = second := by
  funext s
  simp only [andThen, skip, resume, Option.bind_some, List.nil_append]
  cases second s <;> rfl

theorem andThen_assoc (a b c : Command σ ε κ) :
    andThen (andThen a b) c = andThen a (andThen b c) := by
  funext s
  unfold andThen resume
  cases a s with
  | none => rfl
  | some m =>
    obtain ⟨events, abrupt, state⟩ := m
    cases abrupt with
    | some k => rfl
    | none =>
      simp only [Option.bind_some]
      cases b state with
      | none => rfl
      | some n =>
        obtain ⟨events', abrupt', state'⟩ := n
        cases abrupt' with
        | some k => rfl
        | none =>
          simp only [Option.map_some, Option.bind_some, Option.map_map]
          cases c state' <;> simp

theorem sequence_append (cs ds : List (Command σ ε κ)) :
    sequence (cs ++ ds) = andThen (sequence cs) (sequence ds) := by
  induction cs with
  | nil => exact (skip_andThen _).symm
  | cons c cs ih =>
    simp only [List.cons_append, sequence]
    rw [ih, andThen_assoc]

theorem sequence_append_eq_some {cs ds : List (Command σ ε κ)} {s : σ} {o : Outcome σ ε κ} :
    sequence (cs ++ ds) s = some o ↔
      (sequence cs s = some o ∧ o.abrupt ≠ none) ∨
        ∃ m r, sequence cs s = some m ∧ m.abrupt = none ∧ sequence ds m.state = some r ∧
          o = ⟨m.events ++ r.events, r.abrupt, r.state⟩ := by
  rw [sequence_append, andThen_eq_some]

/-- Commands that change nothing leave just their events. -/
theorem sequence_silent {α : Type*} {xs : List α} {run : α → Command σ ε κ} {events : α → List ε}
    {s : σ} (h : ∀ x ∈ xs, run x s = some ⟨events x, none, s⟩) :
    sequence (xs.map run) s = some ⟨xs.flatMap events, none, s⟩ := by
  induction xs with
  | nil => rfl
  | cons x xs ih =>
    have hx := h x List.mem_cons_self
    have hxs := ih fun y hy => h y (List.mem_cons_of_mem x hy)
    simp [sequence, andThen, resume, hx, hxs]

/-- Commands with events of their own leave these, one after the other, if none is broken off. -/
theorem sequence_events {α : Type*} {xs : List α} {run : α → Command σ ε κ} {events : α → List ε}
    (h : ∀ x ∈ xs, ∀ s o, run x s = some o → o.abrupt = none → o.events = events x)
    {s : σ} {o : Outcome σ ε κ} (ho : sequence (xs.map run) s = some o)
    (hn : o.abrupt = none) : o.events = xs.flatMap events := by
  induction xs generalizing s o with
  | nil =>
    cases ho
    rfl
  | cons x xs ih =>
    obtain ⟨-, hne⟩ | ⟨m, r, hx, hm, hr, rfl⟩ := andThen_eq_some.mp ho
    · exact absurd hn hne
    · have hhead := h x List.mem_cons_self s m hx hm
      have htail := ih (fun y hy => h y (List.mem_cons_of_mem x hy)) hr hn
      simp [hhead, htail]

/-- A property of outcomes that every command keeps is one of their sequence. -/
theorem sequence_induct {cs : List (Command σ ε κ)} {P : σ → Outcome σ ε κ → Prop}
    (skips : ∀ s, P s ⟨[], none, s⟩)
    (keeps : ∀ c ∈ cs, ∀ s o, c s = some o → P s o)
    (joins : ∀ s m r, P s m → P m.state r → P s ⟨m.events ++ r.events, r.abrupt, r.state⟩)
    {s : σ} {o : Outcome σ ε κ} (h : sequence cs s = some o) : P s o := by
  induction cs generalizing s o with
  | nil =>
    cases h
    exact skips s
  | cons c cs ih =>
    obtain ⟨hc, -⟩ | ⟨m, r, hc, -, hr, rfl⟩ := andThen_eq_some.mp h
    · exact keeps c List.mem_cons_self s o hc
    · have hrest := ih (fun d hd => keeps d (List.mem_cons_of_mem c hd)) hr
      exact joins s m r (keeps c List.mem_cons_self s m hc) hrest

end Command

end Sequencing
