import Mathlib.Logic.Basic

/-!
# Simulations between runs that may fail

Two computations over different states run side by side. They end the same way: both return, and
return the same, or both fail. What holds of the two states at the start, at a return and at a
failure is left open.
-/

namespace Recursion

universe u

variable {σ τ ε α β : Type u}

/-- Two runs that end the same way. -/
inductive Ends (J : σ → τ → Prop) (E : ε → σ → ε → τ → Prop) :
    Except ε α × σ → Except ε α × τ → Prop
  | ok (a : α) {s : σ} {t : τ} (h : J s t) : Ends J E (.ok a, s) (.ok a, t)
  | error {e f : ε} {s : σ} {t : τ} (h : E e s f t) : Ends J E (.error e, s) (.error f, t)

/-- From related states the two computations end the same way. -/
def Simulates (I J : σ → τ → Prop) (E : ε → σ → ε → τ → Prop) (m : ExceptT ε (StateM σ) α)
    (m' : ExceptT ε (StateM τ) α) : Prop :=
  ∀ s t, I s t → Ends J E (StateT.run (ExceptT.run m) s) (StateT.run (ExceptT.run m') t)

/-- Run to the end, change the state, and hand on the outcome. -/
def andThen (m : ExceptT ε (StateM σ) α) (f : σ → σ) : ExceptT ε (StateM σ) α :=
  ExceptT.mk do
    let result ← ExceptT.run m
    modify f
    return result

theorem run_modifyGet_bind (g : σ → β × σ) (f : β → ExceptT ε (StateM σ) α) (s : σ) :
    StateT.run (ExceptT.run (modifyGet g >>= f)) s =
      StateT.run (ExceptT.run (f (g s).1)) (g s).2 := rfl

theorem Ends.mono {J J' : σ → τ → Prop} {E E' : ε → σ → ε → τ → Prop}
    (hJ : ∀ s t, J s t → J' s t) (hE : ∀ e s f t, E e s f t → E' e s f t)
    {r : Except ε α × σ} {r' : Except ε α × τ} (h : Ends J E r r') : Ends J' E' r r' := by
  cases h with
  | ok a h => exact .ok a (hJ _ _ h)
  | error h => exact .error (hE _ _ _ _ h)

namespace Simulates

variable {I I' J J' K : σ → τ → Prop} {E E' : ε → σ → ε → τ → Prop}
  {m : ExceptT ε (StateM σ) α} {m' : ExceptT ε (StateM τ) α}

theorem mono (h : Simulates I J E m m') (hI : ∀ s t, I' s t → I s t)
    (hJ : ∀ s t, J s t → J' s t) (hE : ∀ e s f t, E e s f t → E' e s f t) :
    Simulates I' J' E' m m' :=
  fun s t hst => (h s t (hI s t hst)).mono hJ hE

theorem pure (hJ : ∀ s t, I s t → J s t) (a : α) :
    Simulates I J E (Pure.pure a) (Pure.pure a) :=
  fun s t hst => .ok a (hJ s t hst)

theorem throw {e f : ε} (hE : ∀ s t, I s t → E e s f t) :
    Simulates I J E (MonadExcept.throw e : ExceptT ε (StateM σ) α)
      (MonadExcept.throw f : ExceptT ε (StateM τ) α) :=
  fun s t hst => .error (hE s t hst)

theorem bind {f : α → ExceptT ε (StateM σ) β} {f' : α → ExceptT ε (StateM τ) β}
    (hm : Simulates I K E m m') (hf : ∀ a, Simulates K J E (f a) (f' a)) :
    Simulates I J E (m >>= f) (m' >>= f') := by
  intro s t hst
  have hends := hm s t hst
  simp only [ExceptT.run_bind, StateT.run_bind]
  generalize StateT.run (ExceptT.run m) s = run at hends ⊢
  generalize StateT.run (ExceptT.run m') t = run' at hends ⊢
  cases hends with
  | ok a h => exact hf a _ _ h
  | error h => exact .error h

theorem tryCatch {f : ε → ExceptT ε (StateM σ) α} {f' : ε → ExceptT ε (StateM τ) α}
    (hm : Simulates I J E' m m')
    (hf : ∀ e e', Simulates (fun s t => E' e s e' t) J E (f e) (f' e')) :
    Simulates I J E (MonadExcept.tryCatch m f) (MonadExcept.tryCatch m' f') := by
  intro s t hst
  have hends := hm s t hst
  simp only [ExceptT.run, MonadExcept.tryCatch, tryCatchThe, MonadExceptOf.tryCatch,
    ExceptT.tryCatch, ExceptT.mk, StateT.run_bind] at hends ⊢
  generalize StateT.run m s = run at hends ⊢
  generalize StateT.run m' t = run' at hends ⊢
  cases hends with
  | ok a h => exact .ok a h
  | error h => exact hf _ _ _ _ h

/-- A computation that starts by looking at the state. -/
theorem get_bind {f : σ → ExceptT ε (StateM σ) α} {f' : τ → ExceptT ε (StateM τ) α}
    (hf : ∀ s t, I s t → Simulates I J E (f s) (f' t)) :
    Simulates I J E (get >>= f) (get >>= f') :=
  fun s t hst => hf s t hst s t hst

/-- A computation that starts with a change of the state. -/
theorem modifyGet_bind {g : σ → β × σ} {g' : τ → β × τ} {f : β → ExceptT ε (StateM σ) α}
    {f' : β → ExceptT ε (StateM τ) α}
    (hg : ∀ s t, I s t → (g s).1 = (g' t).1 ∧ K (g s).2 (g' t).2)
    (hf : ∀ b, Simulates K J E (f b) (f' b)) :
    Simulates I J E (modifyGet g >>= f) (modifyGet g' >>= f') := by
  intro s t hst
  obtain ⟨hvalue, hK⟩ := hg s t hst
  rw [run_modifyGet_bind, run_modifyGet_bind, ← hvalue]
  exact hf _ _ _ hK

theorem modify_bind {f : σ → σ} (hf : ∀ s t, I s t → K (f s) t) (hm : Simulates K J E m m') :
    Simulates I J E (do modify f; m) m' :=
  fun s t hst => hm (f s) t (hf s t hst)

theorem andThen {f : σ → σ} (hm : Simulates I K E' m m') (hJ : ∀ s t, K s t → J (f s) t)
    (hE : ∀ e s e' t, E' e s e' t → E e (f s) e' t) :
    Simulates I J E (Recursion.andThen m f) m' := by
  intro s t hst
  have hends := hm s t hst
  change Ends J E ((StateT.run (ExceptT.run m) s).1, f (StateT.run (ExceptT.run m) s).2) _
  generalize StateT.run (ExceptT.run m) s = run at hends ⊢
  generalize StateT.run (ExceptT.run m') t = run' at hends ⊢
  cases hends with
  | ok a h => exact .ok a (hJ _ _ h)
  | error h => exact .error (hE _ _ _ _ h)

theorem ite {c : Prop} [Decidable c] {n : ExceptT ε (StateM σ) α}
    {n' : ExceptT ε (StateM τ) α} (h : c → Simulates I J E m m')
    (h' : ¬ c → Simulates I J E n n') :
    Simulates I J E (if c then m else n) (if c then m' else n') := by
  split
  next hc => exact h hc
  next hc => exact h' hc

end Simulates

end Recursion
