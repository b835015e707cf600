import Mathlib.Logic.Relation
import Mathlib.Order.WellFounded

/-!
# General recursion with open calls

A run is a tree of calls: it ends with an answer and a state, faults, or calls a procedure and
goes on with what the call returns. A family of procedure bodies gives runs their meaning, by
fuel. Nothing forces a run to end; this file has the judgement that shows when it does, and the
chains of calls that show when it does not.
-/

namespace Recursion

universe u v w x

/-- A run over states `σ` that calls procedures `c : C` with answers in `R c`. -/
inductive Run (σ : Type u) {C : Type v} (R : C → Type w) (α : Type x) :
    Type (max u v w x)
  | done (a : α) (s : σ)
  | fault
  | call (c : C) (s : σ) (next : R c → σ → Run σ R α)

namespace Run

variable {σ : Type u} {C : Type v} {R : C → Type w} {α : Type x} {β : Type x}

def bind : Run σ R α → (α → σ → Run σ R β) → Run σ R β
  | done a s, f => f a s
  | fault, _ => fault
  | call c s next, f => call c s fun r t => (next r t).bind f

@[simp] theorem bind_done (a : α) (s : σ) (f : α → σ → Run σ R β) :
    (done a s).bind f = f a s := rfl

@[simp] theorem bind_fault (f : α → σ → Run σ R β) :
    (fault : Run σ R α).bind f = fault := rfl

@[simp] theorem bind_call (c : C) (s : σ) (next : R c → σ → Run σ R α)
    (f : α → σ → Run σ R β) :
    (call c s next).bind f = call c s fun r t => (next r t).bind f := rfl

theorem bind_pure (t : Run σ R α) : t.bind done = t := by
  induction t with
  | done a s => rfl
  | fault => rfl
  | call c s next ih => simp [ih]

/-! ## Judgement -/

/-- Every call of the run is admitted and, if calls answer as `answers` says, the run ends as
`post` says. A fault satisfies every judgement. -/
def Ensures (admits : C → σ → Prop) (answers : (c : C) → σ → R c → σ → Prop)
    (post : α → σ → Prop) : Run σ R α → Prop
  | done a s => post a s
  | fault => True
  | call c s next =>
    admits c s ∧ ∀ r t, answers c s r t → (next r t).Ensures admits answers post

variable {admits admits' : C → σ → Prop} {answers answers' : (c : C) → σ → R c → σ → Prop}
  {post post' : α → σ → Prop}

theorem Ensures.mono {t : Run σ R α} (h : t.Ensures admits answers post)
    (hadmits : ∀ c s, admits c s → admits' c s)
    (hanswers : ∀ c s r s', answers' c s r s' → answers c s r s')
    (hpost : ∀ a s, post a s → post' a s) : t.Ensures admits' answers' post' := by
  induction t with
  | done a s => exact hpost a s h
  | fault => trivial
  | call c s next ih =>
    refine ⟨hadmits c s h.1, fun r t hr => ?_⟩
    exact ih r t (h.2 r t (hanswers c s r t hr))

theorem Ensures.weaken {t : Run σ R α} (h : t.Ensures admits answers post)
    (hpost : ∀ a s, post a s → post' a s) : t.Ensures admits answers post' :=
  h.mono (fun _ _ => id) (fun _ _ _ _ => id) hpost

theorem Ensures.and {t : Run σ R α} (h : t.Ensures admits answers post)
    (h' : t.Ensures admits' answers post') :
    t.Ensures (fun c s => admits c s ∧ admits' c s) answers fun a s => post a s ∧ post' a s := by
  induction t with
  | done a s => exact ⟨h, h'⟩
  | fault => trivial
  | call c s next ih =>
    exact ⟨⟨h.1, h'.1⟩, fun r t hr => ih r t (h.2 r t hr) (h'.2 r t hr)⟩

theorem Ensures.bind {t : Run σ R α} {f : α → σ → Run σ R β} {post : β → σ → Prop}
    (h : t.Ensures admits answers fun a s => (f a s).Ensures admits answers post) :
    (t.bind f).Ensures admits answers post := by
  induction t with
  | done a s => exact h
  | fault => trivial
  | call c s next ih => exact ⟨h.1, fun r t hr => ih r t (h.2 r t hr)⟩

/-- A run judged from a middle condition. -/
theorem Ensures.trans {t : Run σ R α} {f : α → σ → Run σ R β} {mid : α → σ → Prop}
    {post : β → σ → Prop} (h : t.Ensures admits answers mid)
    (hf : ∀ a s, mid a s → (f a s).Ensures admits answers post) :
    (t.bind f).Ensures admits answers post :=
  Ensures.bind (h.weaken hf)

end Run

/-! ## Meaning of a family of bodies -/

section Meaning

variable {σ : Type u} {C : Type v} {R : C → Type w} {α : Type w} {β : Type w}

/-- The result of a run with fuel for so many nested or successive calls: `none` when the fuel
does not suffice, `some none` when the run faults. -/
def eval (body : (c : C) → σ → Run σ R (R c)) :
    (n : Nat) → {α : Type w} → Run σ R α → Option (Option (α × σ))
  | _, _, .done a s => some (some (a, s))
  | _, _, .fault => some none
  | 0, _, .call _ _ _ => none
  | n + 1, _, .call c s next =>
    match eval body n (body c s) with
    | none => none
    | some none => some none
    | some (some (r, t)) => eval body n (next r t)

variable (body : (c : C) → σ → Run σ R (R c))

/-- Some amount of fuel suffices: the run comes to an end. -/
def Halts (t : Run σ R α) : Prop := ∃ n o, eval body n t = some o

def Returns (t : Run σ R α) (a : α) (s : σ) : Prop :=
  ∃ n, eval body n t = some (some (a, s))

variable {body}

theorem eval_succ {n : Nat} {t : Run σ R α} {o : Option (α × σ)}
    (h : eval body n t = some o) : eval body (n + 1) t = some o := by
  induction n generalizing α t o with
  | zero =>
    cases t with
    | done a s => exact h
    | fault => exact h
    | call c s next => simp [eval] at h
  | succ n ih =>
    cases t with
    | done a s => exact h
    | fault => exact h
    | call c s next =>
      rw [eval] at h ⊢
      cases hc : eval body n (body c s) with
      | none => simp [hc] at h
      | some r =>
        rw [ih hc]
        rw [hc] at h
        cases r with
        | none => exact h
        | some r => exact ih h

theorem eval_mono {m n : Nat} {t : Run σ R α} {o : Option (α × σ)} (hle : m ≤ n)
    (h : eval body m t = some o) : eval body n t = some o := by
  induction hle with
  | refl => exact h
  | step _ ih => exact eval_succ ih

theorem eval_unique {m n : Nat} {t : Run σ R α} {o o' : Option (α × σ)}
    (h : eval body m t = some o) (h' : eval body n t = some o') : o = o' := by
  have hm := eval_mono (Nat.le_max_left m n) h
  have hn := eval_mono (Nat.le_max_right m n) h'
  exact Option.some.inj (hm.symm.trans hn)

theorem Returns.done (a : α) (s : σ) : Returns body (.done a s) a s := ⟨0, rfl⟩

theorem Returns.call {c : C} {s t : σ} {r : R c} {next : R c → σ → Run σ R α} {a : α} {s' : σ}
    (hc : Returns body (body c s) r t) (hn : Returns body (next r t) a s') :
    Returns body (.call c s next) a s' := by
  obtain ⟨m, hm⟩ := hc
  obtain ⟨n, hn⟩ := hn
  refine ⟨max m n + 1, ?_⟩
  rw [eval, eval_mono (Nat.le_max_left m n) hm]
  exact eval_mono (Nat.le_max_right m n) hn

theorem Returns.bind {t : Run σ R α} {f : α → σ → Run σ R β} {a : α} {s : σ} {b : β} {s' : σ}
    (ht : Returns body t a s) (hf : Returns body (f a s) b s') :
    Returns body (t.bind f) b s' := by
  obtain ⟨n, hn⟩ := ht
  induction n generalizing t with
  | zero =>
    cases t with
    | done a' s'' =>
      obtain ⟨rfl, rfl⟩ : a' = a ∧ s'' = s := by simpa [eval] using hn
      exact hf
    | fault => simp [eval] at hn
    | call c u next => simp [eval] at hn
  | succ n ih =>
    cases t with
    | done a' s'' =>
      obtain ⟨rfl, rfl⟩ : a' = a ∧ s'' = s := by simpa [eval] using hn
      exact hf
    | fault => simp [eval] at hn
    | call c u next =>
      rw [eval] at hn
      cases hc : eval body n (body c u) with
      | none => simp [hc] at hn
      | some o =>
        cases o with
        | none => simp [hc] at hn
        | some o =>
          obtain ⟨r, v⟩ := o
          rw [hc] at hn
          exact Returns.call ⟨n, hc⟩ (ih hn)

theorem Halts.of_returns {t : Run σ R α} {a : α} {s : σ} (h : Returns body t a s) :
    Halts body t := h.imp fun _ hn => ⟨_, hn⟩

/-! ## Calls made by a run -/

variable (body) in
/-- The run itself, outside of its callees, makes the call. -/
inductive Asks : Run σ R α → C → σ → Prop
  | here (c : C) (s : σ) (next : R c → σ → Run σ R α) : Asks (.call c s next) c s
  | after {c : C} {s t : σ} {r : R c} {next : R c → σ → Run σ R α} {d : C} {u : σ} :
      Returns body (body c s) r t → Asks (next r t) d u → Asks (.call c s next) d u

variable (body) in
/-- A call leads to another one, through any number of nested calls. -/
def Reaches : C × σ → C × σ → Prop :=
  Relation.ReflTransGen fun x y => Asks body (body x.1 x.2) y.1 y.2

theorem Asks.bind_left {t : Run σ R α} {f : α → σ → Run σ R β} {d : C} {u : σ}
    (h : Asks body t d u) : Asks body (t.bind f) d u := by
  induction h with
  | here c s next => exact .here c s _
  | after hr _ ih => exact .after hr ih

theorem Asks.bind_right {t : Run σ R α} {f : α → σ → Run σ R β} {a : α} {s : σ} {d : C} {u : σ}
    (ht : Returns body t a s) (h : Asks body (f a s) d u) : Asks body (t.bind f) d u := by
  obtain ⟨n, hn⟩ := ht
  induction n generalizing t with
  | zero =>
    cases t with
    | done a' s' =>
      obtain ⟨rfl, rfl⟩ : a' = a ∧ s' = s := by simpa [eval] using hn
      exact h
    | fault => simp [eval] at hn
    | call c v next => simp [eval] at hn
  | succ n ih =>
    cases t with
    | done a' s' =>
      obtain ⟨rfl, rfl⟩ : a' = a ∧ s' = s := by simpa [eval] using hn
      exact h
    | fault => simp [eval] at hn
    | call c v next =>
      rw [eval] at hn
      cases hc : eval body n (body c v) with
      | none => simp [hc] at hn
      | some o =>
        cases o with
        | none => simp [hc] at hn
        | some o =>
          obtain ⟨r, v'⟩ := o
          rw [hc] at hn
          exact .after ⟨n, hc⟩ (ih hn)

/-- Whatever a run asks for within its fuel ends within less fuel. -/
theorem Asks.eval_lt {t : Run σ R α} {d : C} {u : σ} (h : Asks body t d u) {n : Nat}
    {o : Option (α × σ)} (hn : eval body n t = some o) :
    ∃ m < n, ∃ o', eval body m (body d u) = some o' := by
  induction h generalizing n o with
  | here c s next =>
    cases n with
    | zero => simp [eval] at hn
    | succ n =>
      rw [eval] at hn
      cases hc : eval body n (body c s) with
      | none => simp [hc] at hn
      | some o' => exact ⟨n, n.lt_succ_self, o', hc⟩
  | @after c s t r next d u hr _ ih =>
    cases n with
    | zero => simp [eval] at hn
    | succ n =>
      rw [eval] at hn
      cases hc : eval body n (body c s) with
      | none => simp [hc] at hn
      | some o' =>
        obtain ⟨m, hm⟩ := hr
        obtain rfl : o' = some (r, t) := eval_unique hc hm
        rw [hc] at hn
        obtain ⟨k, hk, h'⟩ := ih hn
        exact ⟨k, hk.trans n.lt_succ_self, h'⟩

theorem Halts.asks {t : Run σ R α} {d : C} {u : σ} (ht : Halts body t)
    (h : Asks body t d u) : Halts body (body d u) := by
  obtain ⟨n, o, hn⟩ := ht
  obtain ⟨m, -, o', hm⟩ := h.eval_lt hn
  exact ⟨m, o', hm⟩

theorem Halts.reaches {x y : C × σ} (hx : Halts body (body x.1 x.2))
    (h : Reaches body x y) : Halts body (body y.1 y.2) := by
  induction h with
  | refl => exact hx
  | tail _ h ih => exact ih.asks h

/-! ## Runs that never end -/

/-- A call is stuck in `S` when it leads, in one or more steps, back into `S`. -/
theorem not_halts_of_stuck {S : C → σ → Prop}
    (hS : ∀ c s, S c s → ∃ d u, Asks body (body c s) d u ∧ S d u) {c : C} {s : σ}
    (h : S c s) : ¬ Halts body (body c s) := by
  rintro ⟨n, o, hn⟩
  induction n using Nat.strongRecOn generalizing c s with
  | ind n ih =>
    obtain ⟨d, u, hask, hd⟩ := hS c s h
    obtain ⟨m, hm, o', ho⟩ := hask.eval_lt hn
    exact ih m hm hd o' ho

/-! ## Soundness of the judgement -/

variable {answers : (c : C) → σ → R c → σ → Prop}

variable (body answers) in
/-- Every body keeps the contract of its procedure when its callees do. -/
def Contracts : Prop :=
  ∀ c s, (body c s).Ensures (fun _ _ => True) answers (answers c s)

theorem Run.Ensures.sound {admits : C → σ → Prop} {post : α → σ → Prop}
    (hbody : Contracts body answers) {t : Run σ R α} (h : t.Ensures admits answers post)
    {a : α} {s : σ} (hr : Returns body t a s) : post a s := by
  obtain ⟨n, hn⟩ := hr
  induction n generalizing α t admits s with
  | zero =>
    cases t with
    | done a' s' =>
      obtain ⟨rfl, rfl⟩ : a' = a ∧ s' = s := by simpa [eval] using hn
      exact h
    | fault => simp [eval] at hn
    | call c u next => simp [eval] at hn
  | succ n ih =>
    cases t with
    | done a' s' =>
      obtain ⟨rfl, rfl⟩ : a' = a ∧ s' = s := by simpa [eval] using hn
      exact h
    | fault => simp [eval] at hn
    | call c u next =>
      rw [eval] at hn
      cases hc : eval body n (body c u) with
      | none => simp [hc] at hn
      | some o =>
        cases o with
        | none => simp [hc] at hn
        | some o =>
          obtain ⟨r, v⟩ := o
          rw [hc] at hn
          have hans : answers c u r v :=
            ih ((hbody c u).mono (fun _ _ _ => trivial) (fun _ _ _ _ => id) fun _ _ => id) hc
          exact ih (h.2 r v hans) hn

theorem Contracts.returns (hbody : Contracts body answers) {c : C} {s t : σ} {r : R c}
    (h : Returns body (body c s) r t) : answers c s r t :=
  (hbody c s).sound hbody h

/-- A call that a judged run makes is admitted. -/
theorem Run.Ensures.asks {admits : C → σ → Prop} {post : α → σ → Prop}
    (hbody : Contracts body answers) {t : Run σ R α} (h : t.Ensures admits answers post)
    {d : C} {u : σ} (ha : Asks body t d u) : admits d u := by
  induction ha with
  | here c s next => exact h.1
  | after hr _ ih => exact ih (h.2 _ _ (hbody.returns hr))

/-! ## Termination -/

/-- A run whose admitted calls all end, or lead to `S`, ends itself or leads to `S`. -/
theorem Run.Ensures.halts_or {admits : C → σ → Prop} {post : α → σ → Prop} {S : C → σ → Prop}
    (hbody : Contracts body answers) {t : Run σ R α} (h : t.Ensures admits answers post)
    (hadmits : ∀ d u, admits d u →
      Halts body (body d u) ∨ ∃ y, Reaches body (d, u) y ∧ S y.1 y.2) :
    Halts body t ∨ ∃ d u y, Asks body t d u ∧ Reaches body (d, u) y ∧ S y.1 y.2 := by
  induction t with
  | done a s => exact .inl ⟨0, _, rfl⟩
  | fault => exact .inl ⟨0, _, rfl⟩
  | call c s next ih =>
    obtain ⟨n, o, hn⟩ | ⟨y, hy, hS⟩ := hadmits c s h.1
    · cases o with
      | none => exact .inl ⟨n + 1, none, by simp [eval, hn]⟩
      | some o =>
        obtain ⟨r, v⟩ := o
        have hret : Returns body (body c s) r v := ⟨n, hn⟩
        obtain ⟨m, o, hm⟩ | ⟨d, u, y, ha, hy, hS⟩ := ih r v (h.2 r v (hbody.returns hret))
        · refine .inl ⟨max n m + 1, o, ?_⟩
          rw [eval, eval_mono (Nat.le_max_left n m) hn]
          exact eval_mono (Nat.le_max_right n m) hm
        · exact .inr ⟨d, u, y, .after hret ha, hy, hS⟩
    · exact .inr ⟨c, s, y, .here c s next, hy, hS⟩

/-- If every call outside of `S` only calls smaller ones, a call either ends or leads to `S`. -/
theorem halts_or_reaches {lt : C × σ → C × σ → Prop} (wf : WellFounded lt)
    (hbody : Contracts body answers) {S : C → σ → Prop}
    (hlt : ∀ c s, ¬ S c s →
      (body c s).Ensures (fun d u => lt (d, u) (c, s)) answers fun _ _ => True)
    (c : C) (s : σ) : Halts body (body c s) ∨ ∃ y, Reaches body (c, s) y ∧ S y.1 y.2 := by
  induction h : (c, s) using wf.induction generalizing c s with
  | h x ih =>
    subst h
    by_cases hS : S c s
    · exact .inr ⟨(c, s), .refl, hS⟩
    · obtain hh | ⟨d, u, y, ha, hy, hSy⟩ :=
        (hlt c s hS).halts_or hbody (S := S) fun d u hd => ih (d, u) hd d u rfl
      · exact .inl hh
      · exact .inr ⟨y, .head ha hy, hSy⟩

/-- A call ends exactly when it leads to none of the stuck calls. -/
theorem halts_iff {lt : C × σ → C × σ → Prop} (wf : WellFounded lt)
    (hbody : Contracts body answers) {S : C → σ → Prop}
    (hlt : ∀ c s, ¬ S c s →
      (body c s).Ensures (fun d u => lt (d, u) (c, s)) answers fun _ _ => True)
    (hS : ∀ c s, S c s → ∃ d u, Asks body (body c s) d u ∧ S d u) (c : C) (s : σ) :
    Halts body (body c s) ↔ ∀ y, Reaches body (c, s) y → ¬ S y.1 y.2 := by
  constructor
  · intro hh y hy hSy
    exact not_halts_of_stuck hS hSy (hh.reaches hy)
  · intro h
    obtain hh | ⟨y, hy, hSy⟩ := halts_or_reaches wf hbody hlt c s
    · exact hh
    · exact absurd hSy (h y hy)

/-! ## Looking for a call -/

/-- Whether the run, with so much fuel, makes a call that `hit` recognises, in any depth. -/
def leadsTo (body : (c : C) → σ → Run σ R (R c)) (hit : C → σ → Bool) :
    (n : Nat) → {α : Type w} → Run σ R α → Bool
  | 0, _, _ => false
  | _ + 1, _, .done _ _ => false
  | _ + 1, _, .fault => false
  | n + 1, _, .call c s next =>
    hit c s || leadsTo body hit n (body c s) ||
      match eval body n (body c s) with
      | some (some (r, t)) => leadsTo body hit n (next r t)
      | _ => false

theorem asks_of_leadsTo {hit : C → σ → Bool} {n : Nat} {t : Run σ R α}
    (h : leadsTo body hit n t = true) :
    ∃ d u y, Asks body t d u ∧ Reaches body (d, u) y ∧ hit y.1 y.2 = true := by
  induction n generalizing α t with
  | zero => simp [leadsTo] at h
  | succ n ih =>
    cases t with
    | done a s => simp [leadsTo] at h
    | fault => simp [leadsTo] at h
    | call c s next =>
      rw [leadsTo, Bool.or_eq_true, Bool.or_eq_true] at h
      obtain (hhit | hin) | hnext := h
      · exact ⟨c, s, (c, s), .here c s next, .refl, hhit⟩
      · obtain ⟨d, u, y, ha, hy, hh⟩ := ih hin
        exact ⟨c, s, y, .here c s next, .head ha hy, hh⟩
      · split at hnext
        · rename_i r t he
          obtain ⟨d, u, y, ha, hy, hh⟩ := ih hnext
          exact ⟨d, u, y, .after ⟨n, he⟩ ha, hy, hh⟩
        · cases hnext

theorem reaches_of_leadsTo {hit : C → σ → Bool} {n : Nat} {c : C} {s : σ}
    (h : leadsTo body hit n (body c s) = true) :
    ∃ y, Reaches body (c, s) y ∧ hit y.1 y.2 = true := by
  obtain ⟨d, u, y, ha, hy, hh⟩ := asks_of_leadsTo h
  exact ⟨y, .head ha hy, hh⟩

end Meaning

end Recursion
