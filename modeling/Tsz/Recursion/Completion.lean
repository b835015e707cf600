import Tsz.Recursion.Run

/-!
# Completion of runs

A judgement of runs that excludes faults, and the induction it is made for: a group of outer
procedures that call each other with smaller arguments, and inner procedures whose answers are
taken as they come. An outer call returns, with an answer as its contract says, unless an inner
call below it does not return.

## Main results

* `Run.Completes.returns` — a completed run returns what its condition says.
* `Run.Completes.returns_or` — it does return if all of its calls do.
* `completes_induction` — the induction over outer calls.
-/

namespace Recursion

universe u v w

variable {σ : Type u} {C : Type v} {R : C → Type w} {α β : Type w}

/-- Every call of the run is admitted and, if calls answer as `answers` says, the run returns as
`post` says. -/
def Run.Completes (admits : C → σ → Prop) (answers : (c : C) → σ → R c → σ → Prop)
    (post : α → σ → Prop) : Run σ R α → Prop
  | .done a s => post a s
  | .fault => False
  | .call c s next =>
    admits c s ∧ ∀ r t, answers c s r t → (next r t).Completes admits answers post

variable {admits : C → σ → Prop} {answers : (c : C) → σ → R c → σ → Prop} {post : α → σ → Prop}

namespace Run.Completes

theorem weaken {post' : α → σ → Prop} {t : Run σ R α} (h : t.Completes admits answers post)
    (hpost : ∀ a s, post a s → post' a s) : t.Completes admits answers post' := by
  induction t with
  | done a s => exact hpost a s h
  | fault => exact h
  | call c s next ih => exact ⟨h.1, fun r t hr => ih r t (h.2 r t hr)⟩

theorem trans {t : Run σ R α} {f : α → σ → Run σ R β} {mid : α → σ → Prop} {post : β → σ → Prop}
    (h : t.Completes admits answers mid)
    (hf : ∀ a s, mid a s → (f a s).Completes admits answers post) :
    (t.bind f).Completes admits answers post := by
  induction t with
  | done a s => exact hf a s h
  | fault => exact h.elim
  | call c s next ih => exact ⟨h.1, fun r t hr => ih r t (h.2 r t hr)⟩

end Run.Completes

variable {body : (c : C) → σ → Run σ R (R c)}

theorem Returns.of_done {a a' : α} {s s' : σ}
    (h : Returns body (.done a s : Run σ R α) a' s') : a' = a ∧ s' = s := by
  obtain ⟨n, hn⟩ := h
  cases n <;> simpa [eval, eq_comm] using hn

theorem Returns.of_call {c : C} {s s' : σ} {next : R c → σ → Run σ R α} {a : α}
    (h : Returns body (.call c s next) a s') :
    ∃ r t, Returns body (body c s) r t ∧ Returns body (next r t) a s' := by
  obtain ⟨n, hn⟩ := h
  cases n with
  | zero => simp [eval] at hn
  | succ n =>
    rw [eval] at hn
    cases hc : eval body n (body c s) with
    | none => simp [hc] at hn
    | some o =>
      cases o with
      | none => simp [hc] at hn
      | some o => exact ⟨o.1, o.2, ⟨n, hc⟩, n, by simpa [hc] using hn⟩

namespace Run.Completes

theorem returns {t : Run σ R α} (h : t.Completes admits answers post)
    (hanswers : ∀ c s, admits c s → ∀ r u, Returns body (body c s) r u → answers c s r u)
    {a : α} {s : σ} (hr : Returns body t a s) : post a s := by
  induction t with
  | done a' s' =>
    obtain ⟨rfl, rfl⟩ := hr.of_done
    exact h
  | fault => exact h.elim
  | call c u next ih =>
    obtain ⟨r, v, hc, hn⟩ := hr.of_call
    exact ih r v (h.2 r v (hanswers c u h.1 r v hc)) hn

theorem returns_or {S : C → σ → Prop} {t : Run σ R α} (h : t.Completes admits answers post)
    (hanswers : ∀ c s, admits c s → ∀ r u, Returns body (body c s) r u → answers c s r u)
    (hadmits : ∀ c s, admits c s → (∃ r u, Returns body (body c s) r u) ∨
      ∃ y, Reaches body (c, s) y ∧ S y.1 y.2) :
    (∃ a s, Returns body t a s) ∨
      ∃ c s y, Asks body t c s ∧ Reaches body (c, s) y ∧ S y.1 y.2 := by
  induction t with
  | done a s => exact .inl ⟨a, s, .done a s⟩
  | fault => exact h.elim
  | call c s next ih =>
    rcases hadmits c s h.1 with ⟨r, u, hc⟩ | ⟨y, hy, hS⟩
    · rcases ih r u (h.2 r u (hanswers c s h.1 r u hc)) with ⟨a, v, hn⟩ | ⟨d, v, y, ha, hy, hS⟩
      · exact .inl ⟨a, v, hc.call hn⟩
      · exact .inr ⟨d, v, y, .after hc ha, hy, hS⟩
    · exact .inr ⟨c, s, y, .here c s next, hy, hS⟩

end Run.Completes

/-- The induction over outer calls. Their bodies may use what smaller outer calls promise. -/
theorem completes_induction {lt : C × σ → C × σ → Prop} (wf : WellFounded lt)
    {inner outer : C → σ → Prop} {post : (c : C) → σ → R c → σ → Prop}
    (hdisjoint : ∀ c s, inner c s → ¬ outer c s)
    (hbody : ∀ c s, outer c s → (body c s).Completes
      (fun d u => inner d u ∨ outer d u ∧ lt (d, u) (c, s))
      (fun d u r t => Returns body (body d u) r t ∧ (outer d u → post d u r t)) (post c s))
    (c : C) (s : σ) (h : outer c s) :
    (∃ r t, Returns body (body c s) r t ∧ post c s r t) ∨
      ∃ d u, Reaches body (c, s) (d, u) ∧ inner d u ∧
        ¬ ∃ r t, Returns body (body d u) r t := by
  have hcall (x : C × σ) : outer x.1 x.2 →
      (∀ r t, Returns body (body x.1 x.2) r t → post x.1 x.2 r t) ∧
      ((∃ r t, Returns body (body x.1 x.2) r t) ∨
        ∃ y, Reaches body x y ∧ inner y.1 y.2 ∧ ¬ ∃ r t, Returns body (body y.1 y.2) r t) := by
    induction x using wf.induction with
    | h x ih =>
      intro hx
      have hanswers (d : C) (u : σ) (hd : inner d u ∨ outer d u ∧ lt (d, u) x) (r : R d) (t : σ)
          (hr : Returns body (body d u) r t) :
          Returns body (body d u) r t ∧ (outer d u → post d u r t) := by
        refine ⟨hr, fun houter => ?_⟩
        rcases hd with hd | ⟨-, hlt⟩
        · exact absurd houter (hdisjoint d u hd)
        · exact (ih (d, u) hlt houter).1 r t hr
      have hcompletes := hbody x.1 x.2 hx
      refine ⟨fun r t hr => hcompletes.returns hanswers hr, ?_⟩
      have hreturns := hcompletes.returns_or
        (S := fun d u => inner d u ∧ ¬ ∃ r t, Returns body (body d u) r t) hanswers ?_
      · refine hreturns.imp_right ?_
        rintro ⟨d, u, y, ha, hy, hS⟩
        exact ⟨y, .head ha hy, hS⟩
      · rintro d u (hd | ⟨houter, hlt⟩)
        · by_cases hr : ∃ r t, Returns body (body d u) r t
          · exact .inl hr
          · exact .inr ⟨(d, u), .refl, hd, hr⟩
        · exact (ih (d, u) hlt houter).2
  obtain ⟨hpost, ⟨r, t, hr⟩ | ⟨y, hy, hS⟩⟩ := hcall (c, s) h
  · exact .inl ⟨r, t, hr, hpost r t hr⟩
  · exact .inr ⟨y.1, y.2, hy, hS⟩

end Recursion
