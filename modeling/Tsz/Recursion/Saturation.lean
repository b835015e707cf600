import Mathlib.Data.List.Perm.Subperm
import Mathlib.Data.Set.Basic

/-!
# Saturation

A list is swept for consequences again and again, with repetitions removed after each sweep, until
its length stays the same.

## Main results

* `exists_saturate` — this ends if the list lies in a closed list.
* `saturate_isClosure_iff` — when the list it ends with is the least closed one. The length
  before the first sweep counts repetitions, which may make up for what the sweep adds.
-/

namespace Saturation

variable {α : Type*}

/-- A sweep adds only what follows, and something while anything follows. -/
structure IsSweep (closed : Set α → Prop) (sweep : List α → List α) : Prop where
  subset (l : List α) : l ⊆ sweep l
  least (l : List α) (s : Set α) (hs : closed s) (hl : ∀ a ∈ l, a ∈ s) : ∀ a ∈ sweep l, a ∈ s
  fixed (l : List α) (h : sweep l ⊆ l) : closed {a | a ∈ l}

/-- Repetitions are removed and nothing else. -/
structure IsCanonical (canon : List α → List α) : Prop where
  nodup (l : List α) : (canon l).Nodup
  mem (l : List α) (a : α) : a ∈ canon l ↔ a ∈ l

structure IsClosure (closed : Set α → Prop) (l closure : List α) : Prop where
  subset : l ⊆ closure
  isClosed : closed {a | a ∈ closure}
  least (s : Set α) (hs : closed s) (hl : ∀ a ∈ l, a ∈ s) : ∀ a ∈ closure, a ∈ s

def saturate (canon sweep : List α → List α) : Nat → List α → Option (List α)
  | 0, _ => none
  | rounds + 1, l =>
    let next := canon (sweep l)
    if next.length = l.length then some next else saturate canon sweep rounds next

variable {closed : Set α → Prop} {canon sweep : List α → List α} {l result : List α}
  {rounds : Nat}

section

variable (hsweep : IsSweep closed sweep) (hcanon : IsCanonical canon)
include hsweep hcanon

theorem subset_next : l ⊆ canon (sweep l) := fun _ ha =>
  (hcanon.mem _ _).mpr (hsweep.subset l ha)

theorem next_least {s : Set α} (hs : closed s) (hl : ∀ a ∈ l, a ∈ s) :
    ∀ a ∈ canon (sweep l), a ∈ s := fun a ha =>
  hsweep.least l s hs hl a ((hcanon.mem _ _).mp ha)

/-- A sweep that leaves the length of a list without repetitions has added nothing. -/
theorem closed_of_length_eq (hl : l.Nodup) (hlength : (canon (sweep l)).length = l.length) :
    closed {a | a ∈ l} := by
  apply hsweep.fixed l
  have hsub : l.Subperm (canon (sweep l)) := hl.subperm (subset_next hsweep hcanon)
  have hperm := hsub.perm_of_length_le hlength.le
  intro a ha
  exact hperm.mem_iff.mpr ((hcanon.mem _ _).mpr ha)

theorem isClosure_of_nodup (hl : l.Nodup) (h : saturate canon sweep rounds l = some result) :
    IsClosure closed l result := by
  induction rounds generalizing l with
  | zero => cases h
  | succ rounds ih =>
    rw [saturate] at h
    split at h
    · rename_i hlength
      obtain rfl := Option.some.inj h
      have hclosed := closed_of_length_eq hsweep hcanon hl hlength
      have hsame : {a | a ∈ canon (sweep l)} = {a | a ∈ l} := by
        ext a
        exact ⟨next_least hsweep hcanon hclosed (fun _ => id) a, fun ha =>
          subset_next hsweep hcanon ha⟩
      exact ⟨subset_next hsweep hcanon, hsame ▸ hclosed, fun s hs hls =>
        next_least hsweep hcanon hs hls⟩
    · have hrest := ih (hcanon.nodup _) h
      exact ⟨List.Subset.trans (subset_next hsweep hcanon) hrest.subset, hrest.isClosed, fun s hs hls =>
        hrest.least s hs (next_least hsweep hcanon hs hls)⟩

/-- The first sweep decides: it stops the search when it adds as many elements as the list has
repetitions. -/
theorem saturate_isClosure_iff (h : saturate canon sweep rounds l = some result) :
    IsClosure closed l result ↔
      ((canon (sweep l)).length = l.length → closed {a | a ∈ sweep l}) := by
  have hsame : {a | a ∈ canon (sweep l)} = {a | a ∈ sweep l} := Set.ext fun _ => hcanon.mem _ _
  cases rounds with
  | zero => cases h
  | succ rounds =>
    rw [saturate] at h
    split at h
    · rename_i hlength
      obtain rfl := Option.some.inj h
      constructor
      · intro hclosure _
        exact hsame ▸ hclosure.isClosed
      · intro hclosed
        exact ⟨subset_next hsweep hcanon, hsame ▸ hclosed hlength, fun s hs hls =>
          next_least hsweep hcanon hs hls⟩
    · rename_i hlength
      refine ⟨fun _ hsame => absurd hsame hlength, fun _ => ?_⟩
      have hrest := isClosure_of_nodup hsweep hcanon (hcanon.nodup _) h
      exact ⟨List.Subset.trans (subset_next hsweep hcanon) hrest.subset, hrest.isClosed, fun s hs hls =>
        hrest.least s hs (next_least hsweep hcanon hs hls)⟩

theorem exists_saturate_of_nodup {carrier : List α} (hcarrier : closed {a | a ∈ carrier})
    (hl : l.Nodup) (hsub : l ⊆ carrier) (hrounds : carrier.length < rounds + l.length) :
    ∃ result, saturate canon sweep rounds l = some result := by
  induction rounds generalizing l with
  | zero =>
    have hle := (hl.subperm hsub).length_le
    omega
  | succ rounds ih =>
    rw [saturate]
    split
    · exact ⟨_, rfl⟩
    · rename_i hlength
      have hnext : canon (sweep l) ⊆ carrier := next_least hsweep hcanon hcarrier hsub
      have hlt : l.length < (canon (sweep l)).length :=
        lt_of_le_of_ne (hl.subperm (subset_next hsweep hcanon)).length_le (Ne.symm hlength)
      exact ih (hcanon.nodup _) hnext (by omega)

theorem exists_saturate {carrier : List α} (hcarrier : closed {a | a ∈ carrier})
    (hsub : l ⊆ carrier) :
    ∃ result, saturate canon sweep (carrier.length + 2) l = some result := by
  rw [saturate]
  split
  · exact ⟨_, rfl⟩
  · exact exists_saturate_of_nodup hsweep hcanon hcarrier (hcanon.nodup _)
      (next_least hsweep hcanon hcarrier hsub) (by omega)

end

/-- Sweeps one behind the other. -/
theorem IsSweep.foldl {ι : Type*} {steps : List ι} {closed : ι → Set α → Prop}
    {step : ι → List α → List α} (h : ∀ i ∈ steps, IsSweep (closed i) (step i)) :
    IsSweep (fun s => ∀ i ∈ steps, closed i s)
      (fun l => steps.foldl (fun l i => step i l) l) := by
  induction steps with
  | nil => exact ⟨fun l => List.Subset.refl l, fun _ _ _ hl => hl, fun _ _ _ hi => by cases hi⟩
  | cons i steps ih =>
    obtain ⟨hi, hrest⟩ := List.forall_mem_cons.mp h
    have hrest := ih hrest
    refine ⟨fun l => ?_, fun l s hs hl => ?_, fun l hfix => ?_⟩
    · exact List.Subset.trans (hi.subset l) (hrest.subset (step i l))
    · obtain ⟨hsi, hs⟩ := List.forall_mem_cons.mp hs
      exact hrest.least (step i l) s hs (hi.least l s hsi hl)
    · -- nothing is added on the way
      have hstep : step i l ⊆ l := List.Subset.trans (hrest.subset (step i l)) hfix
      have hsame : {a | a ∈ step i l} = {a | a ∈ l} :=
        Set.ext fun a => ⟨fun ha => hstep ha, fun ha => hi.subset l ha⟩
      refine List.forall_mem_cons.mpr ⟨hi.fixed l hstep, ?_⟩
      rw [← hsame]
      exact hrest.fixed (step i l) (List.Subset.trans hfix (hi.subset l))

end Saturation
