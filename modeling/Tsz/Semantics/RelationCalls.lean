import Tsz.Semantics.RelationSimulation

/-!
# The comparisons inside a comparison

Each comparison is recorded with its outcome and with the comparisons it asked for on the way. An
incomplete answer to one of them stays incomplete on the way up, unless it is one of several
alternatives and another one relates.

## Main definitions

* `RelationCall` — a comparison with the comparisons inside it.
* `RelationCall.ReachesIncomplete` — an incomplete answer with no related alternative above it.
-/

namespace Tsz.Semantics

open Recursion

/-- A comparison counts for the one around it, or is one of several ways to it. -/
inductive ComponentRole
  | required
  | alternative
deriving DecidableEq, Repr

inductive RelationCall
  | mk (source target : TypeId) (mode : RelationMode) (role : ComponentRole)
    (outcome : Except RelationFailure Unit) (components : List RelationCall)

namespace RelationCall

def role : RelationCall → ComponentRole
  | mk _ _ _ role _ _ => role

def outcome : RelationCall → Except RelationFailure Unit
  | mk _ _ _ _ outcome _ => outcome

def components : RelationCall → List RelationCall
  | mk _ _ _ _ _ components => components

end RelationCall

/-- Deferred, in a cycle, or beyond the limit. -/
def Incomplete : Except RelationFailure Unit → Prop
  | .ok _ => False
  | .error e => 2 ≤ e.kind.propagationRank

instance : DecidablePred Incomplete
  | .ok _ => inferInstanceAs (Decidable False)
  | .error e => inferInstanceAs (Decidable (2 ≤ e.kind.propagationRank))

/-- The surroundings, and the comparisons made so far on this level. -/
structure Recorded (σ : Type) where
  context : σ
  components : List RelationCall

namespace Relation

variable {σ : Type} (C : RelationContext σ)

def recorded : RelationContext (Recorded σ) :=
  C.through Recorded.context fun context r => { r with context }

/-- Compare on a level of its own, and add the comparison to the level around it. -/
def record (role : ComponentRole)
    (relate : TypeId → TypeId → RelationMode → RelationM (Recorded σ) Unit)
    (source target : TypeId) (mode : RelationMode) : RelationM (Recorded σ) Unit :=
  ExceptT.mk fun r =>
    let run := (relate source target mode).runFrom { r with components := [] }
    (run.1,
      { run.2 with
        components := r.components ++ [.mk source target mode role run.1 run.2.components] })

def relateActiveRecorded
    (relate : TypeId → TypeId → RelationMode → RelationM (Recorded σ) Unit) (r : Relation)
    (source target : TypeId) (mode : RelationMode) : RelationM (Recorded σ) Unit := do
  let forcedSource ← force (recorded C) r source source target
  let forcedTarget ← force (recorded C) r target source target
  if forcedSource ≠ source ∨ forcedTarget ≠ target then
    record .required relate forcedSource forcedTarget mode
  else
    let s := C.types (← get).context
    let role : ComponentRole :=
      if isChoice (s.kind source) (s.kind target) then .alternative else .required
    relateForced (recorded C) (record role relate) source target mode

def relateWithReferenceStacksRecorded
    (relate : Relation → TypeId → TypeId → RelationMode → RelationM (Recorded σ) Unit)
    (r : Relation) (source target : TypeId) (mode : RelationMode) :
    RelationM (Recorded σ) Unit := do
  let state := (← get).context
  let s := C.types state
  let sourceReference := deferredReference (s.kind source)
  let targetReference := deferredReference (s.kind target)
  let sourceExpansion := sourceReference.bind fun (declaration, arguments) =>
    r.sourceReferences.generativeExpansion s source declaration arguments
  let targetExpansion := targetReference.bind fun (declaration, arguments) =>
    r.targetReferences.generativeExpansion s target declaration arguments
  match sourceExpansion, targetExpansion with
  | some sourceExpansion, some targetExpansion =>
    if supportedExpansion C state r sourceReference targetReference sourceExpansion targetExpansion
    then pure ()
    else throw (failure source target .deferred)
  | _, _ =>
    let inner := { r with
      sourceReferences := pushReference r.sourceReferences source sourceReference
      targetReferences := pushReference r.targetReferences target targetReference }
    relateActiveRecorded C (relate inner) inner source target mode

/-- The comparison, with a record of the comparisons inside it. -/
def relateInnerRecorded :
    Nat → Relation → TypeId → TypeId → RelationMode → RelationM (Recorded σ) Unit
  | levels, r, source, target, mode => do
    if source = target then pure ()
    else
      match levels with
      | 0 => throw (failure source target .complexityLimit)
      | levels + 1 =>
        let s := C.types (← get).context
        let source := assignmentSource s target mode (s.kinds.length + 1) source
        if source = target then pure ()
        else if anyToKeysOfParameter s source target mode then pure ()
        else
          let key : RelationQueryKey := { source, target, mode }
          if key ∈ r.active then pure ()
          else
            relateWithReferenceStacksRecorded C (relateInnerRecorded levels)
              { r with active := key :: r.active } source target mode

end Relation

def relateTypesRecorded {σ : Type} (C : RelationContext σ) (source target : TypeId)
    (mode : RelationMode) (evaluationDepth : Nat) (s : σ) : RelationCall × σ :=
  let run := (Relation.relateInnerRecorded C 101 (Relation.root evaluationDepth) source target
    mode).runFrom { context := s, components := [] }
  (.mk source target mode .required run.1 run.2.components, run.2.context)

namespace RelationCall

/-- An incomplete answer at the call or inside it. On the way down to it, none of the alternatives
beside an alternative relates. -/
inductive ReachesIncomplete : RelationCall → Prop
  | here {call : RelationCall} (h : Incomplete call.outcome) : ReachesIncomplete call
  | component {call c : RelationCall} (hc : c ∈ call.components) (h : ReachesIncomplete c)
    (hbeside : c.role = .alternative → ∀ d ∈ call.components, d.outcome ≠ .ok ()) :
    ReachesIncomplete call

theorem reachesIncomplete_of_component {call : RelationCall}
    (h : ∃ c ∈ call.components, Incomplete c.outcome ∧
      ∀ d ∈ call.components, d.outcome.isOk = false) : call.ReachesIncomplete := by
  obtain ⟨c, hc, hincomplete, hnone⟩ := h
  refine .component hc (.here hincomplete) fun _ d hd hok => ?_
  simpa [hok, Except.isOk, Except.toBool] using hnone d hd

def Propagates (call : RelationCall) : Prop := call.ReachesIncomplete → Incomplete call.outcome

end RelationCall

/-- The outcome of a level accounts for the comparisons made on it. -/
def CallAnswers (outcome : Except RelationFailure Unit) (components : List RelationCall) : Prop :=
  ∀ c ∈ components, c.Propagates ∧
    (Incomplete c.outcome → Incomplete outcome ∨
      c.role = .alternative ∧ ∃ d ∈ components, d.outcome = .ok ())

theorem RelationCall.propagates_of_answers {call : RelationCall}
    (h : CallAnswers call.outcome call.components) : call.Propagates := by
  intro hreaches
  cases hreaches with
  | here h => exact h
  | component hc hreaches hbeside =>
    obtain ⟨hpropagates, hanswers⟩ := h _ hc
    rcases hanswers (hpropagates hreaches) with hincomplete | ⟨hrole, d, hd, hok⟩
    · exact hincomplete
    · exact absurd hok (hbeside hrole d hd)

namespace RecordedRelation

open Tsz.Semantics.Relation

variable {σ : Type} {C : RelationContext σ}

/-- Nothing on the level is incomplete so far. -/
def Clear (r : Recorded σ) (s : σ) : Prop :=
  r.context = s ∧ ∀ c ∈ r.components, c.Propagates ∧ ¬ Incomplete c.outcome

def Returns (r : Recorded σ) (s : σ) : Prop :=
  r.context = s ∧ CallAnswers (.ok ()) r.components

def Fails (e : RelationFailure) (r : Recorded σ) (f : RelationFailure) (s : σ) : Prop :=
  e = f ∧ r.context = s ∧ e.Unmixed ∧ CallAnswers (.error e) r.components

theorem Clear.answers {r : Recorded σ} {s : σ} (h : Clear r s)
    (outcome : Except RelationFailure Unit) : CallAnswers outcome r.components :=
  fun c hc => ⟨(h.2 c hc).1, fun hincomplete => absurd hincomplete (h.2 c hc).2⟩

theorem Clear.returns {r : Recorded σ} {s : σ} (h : Clear r s) : Returns r s :=
  ⟨h.1, h.answers _⟩

theorem Clear.fails {r : Recorded σ} {s : σ} (h : Clear r s) {e : RelationFailure}
    (he : e.Unmixed) : Fails e r e s :=
  ⟨rfl, h.1, he, h.answers _⟩

/-- A failure that is as incomplete as another accounts for the same comparisons. -/
theorem answers_of_incomplete {outcome outcome' : Except RelationFailure Unit}
    {components : List RelationCall} (h : CallAnswers outcome components)
    (houtcome : Incomplete outcome → Incomplete outcome') : CallAnswers outcome' components :=
  fun c hc => ⟨(h c hc).1, fun hincomplete => ((h c hc).2 hincomplete).imp houtcome id⟩

theorem contextSimulation : ContextSimulation (recorded C) C Clear :=
  .through (fun _ _ h => h.1) fun _ _ _ h => ⟨rfl, h.2⟩

theorem failureSimulation : FailureSimulation (Clear : Recorded σ → σ → Prop) Fails where
  thrown e r s he h := h.fails he
  wrapped := by
    rintro e r _ s ⟨rfl, hs, he, hanswers⟩ source target kind hkind
    refine ⟨rfl, hs, he.wrapped source target hkind, answers_of_incomplete hanswers fun h => ?_⟩
    simpa only [Incomplete, RelationFailure.rank_wrapped e source target hkind] using h
  deferred := by
    rintro e r _ s ⟨_, hs, _, hanswers⟩ source target
    exact ⟨rfl, hs, RelationFailure.unmixed_failure _ _ _,
      answers_of_incomplete hanswers fun _ => Nat.le_refl 2⟩

theorem runFrom_record (role : ComponentRole)
    (relate : TypeId → TypeId → RelationMode → RelationM (Recorded σ) Unit)
    (source target : TypeId) (mode : RelationMode) (r : Recorded σ) :
    (record role relate source target mode).runFrom r =
      (((relate source target mode).runFrom { r with components := [] }).1,
        { ((relate source target mode).runFrom { r with components := [] }).2 with
          components := r.components ++
            [.mk source target mode role
              ((relate source target mode).runFrom { r with components := [] }).1
              ((relate source target mode).runFrom { r with components := [] }).2.components] }) :=
  rfl

section arms

variable {relate : TypeId → TypeId → RelationMode → RelationM (Recorded σ) Unit}
  {relate' : TypeId → TypeId → RelationMode → RelationM σ Unit}
  (hrelate : ∀ source target mode, Simulates Clear Returns Fails (relate source target mode)
    (relate' source target mode))

include hrelate

theorem simulates_record (role : ComponentRole) (source target : TypeId) (mode : RelationMode) :
    Simulates Clear Clear Fails (record role relate source target mode)
      (relate' source target mode) := by
  rintro r _ ⟨rfl, hclear⟩
  have hends := hrelate source target mode { r with components := [] } r.context ⟨rfl, by simp⟩
  change Ends _ _ ((record role relate source target mode).runFrom r)
    ((relate' source target mode).runFrom r.context)
  change Ends _ _ ((relate source target mode).runFrom { r with components := [] })
    ((relate' source target mode).runFrom r.context) at hends
  rw [runFrom_record]
  generalize (relate source target mode).runFrom { r with components := [] } = run at hends ⊢
  generalize (relate' source target mode).runFrom r.context = run' at hends ⊢
  cases hends with
  | ok _ h =>
    refine .ok () ⟨h.1, fun c hc => ?_⟩
    rcases List.mem_append.mp hc with hold | hnew
    · exact hclear c hold
    · obtain rfl := List.mem_singleton.mp hnew
      exact ⟨RelationCall.propagates_of_answers h.2, id⟩
  | error h =>
    obtain ⟨rfl, hs, he, hanswers⟩ := h
    refine .error ⟨rfl, hs, he, fun c hc => ?_⟩
    rcases List.mem_append.mp hc with hold | hnew
    · exact ⟨(hclear c hold).1, fun h => absurd h (hclear c hold).2⟩
    · obtain rfl := List.mem_singleton.mp hnew
      exact ⟨RelationCall.propagates_of_answers hanswers, .inl⟩

end arms

/-! ## The choice among alternatives -/

/-- The most incomplete failure so far is the selected one. -/
theorem selectFailure_spec (sourceMembers : Bool) (member : TypeId) (e : RelationFailure)
    (selected : Option (TypeId × RelationFailure)) :
    ∃ current f, selectFailure sourceMembers member e selected = some (current, f) ∧
      e.kind.propagationRank ≤ f.kind.propagationRank ∧
      (∀ p, selected = some p → p.2.kind.propagationRank ≤ f.kind.propagationRank) ∧
      (f = e ∨ selected = some (current, f)) := by
  rcases selected with _ | ⟨current, f⟩
  · exact ⟨member, e, rfl, le_refl _, by simp, .inl rfl⟩
  · simp only [selectFailure, Bool.or_eq_true, Bool.and_eq_true, decide_eq_true_eq]
    split
    next h =>
      refine ⟨member, e, rfl, le_refl _, ?_, .inl rfl⟩
      rintro _ ⟨⟩
      dsimp only
      omega
    next h =>
      refine ⟨current, f, rfl, by omega, ?_, .inr rfl⟩
      rintro _ ⟨⟩
      exact le_refl _

/-- None of the alternatives tried so far relates, and the selected failure is as incomplete as any
of theirs. -/
def Trying (selected : Option (TypeId × RelationFailure)) (r : Recorded σ) (s : σ) : Prop :=
  r.context = s ∧ (∀ p, selected = some p → p.2.Unmixed) ∧
    ∀ c ∈ r.components, c.Propagates ∧
      (Incomplete c.outcome →
        c.role = .alternative ∧ ∃ p, selected = some p ∧ Incomplete (.error p.2))

/-- What trying the alternatives ends with. -/
def Tried (r : Recorded σ) (s : σ) : Option (Option (TypeId × RelationFailure)) → Prop
  | none => Returns r s
  | some selected => Trying selected r s

theorem Clear.trying {r : Recorded σ} {s : σ} (h : Clear r s) : Trying none r s :=
  ⟨h.1, by simp, fun c hc => ⟨(h.2 c hc).1, fun hc' => absurd hc' (h.2 c hc).2⟩⟩

theorem runFrom_attempt {τ : Type} (m : RelationM τ Unit) (s : τ) :
    (tryCatch (do m; pure (none : Option RelationFailure)) fun e => pure (some e)).runFrom s =
      match m.runFrom s with
      | (.ok _, t) => (.ok none, t)
      | (.error e, t) => (.ok (some e), t) := by
  rw [RelationM.runFrom_tryCatch, RelationM.runFrom_bind]
  rcases m.runFrom s with ⟨_ | _, _⟩ <;> rfl

theorem runFrom_tryAlternatives_cons {τ : Type}
    (relate : TypeId → TypeId → RelationMode → RelationM τ Unit) (source target : TypeId)
    (mode : RelationMode) (sourceMembers : Bool) (member : TypeId) (rest : List TypeId)
    (selected : Option (TypeId × RelationFailure)) (t : τ) :
    (tryAlternatives relate source target mode sourceMembers (member :: rest) selected).runFrom t =
      match (relate (if sourceMembers then member else source)
        (if sourceMembers then target else member) mode).runFrom t with
      | (.ok _, t) => (.ok none, t)
      | (.error e, t) =>
        (tryAlternatives relate source target mode sourceMembers rest
          (selectFailure sourceMembers member e selected)).runFrom t := by
  rw [tryAlternatives, RelationM.runFrom_bind]
  cases sourceMembers
  all_goals
    simp only [if_true, if_false, Bool.false_eq_true]
    rw [runFrom_attempt]
    rcases RelationM.runFrom _ t with ⟨_ | _, _⟩ <;> rfl

section arms

variable {relate : TypeId → TypeId → RelationMode → RelationM (Recorded σ) Unit}
  {relate' : TypeId → TypeId → RelationMode → RelationM σ Unit}
  (hrelate : ∀ source target mode, Simulates Clear Returns Fails (relate source target mode)
    (relate' source target mode))

include hrelate

/-- One alternative: it relates, or its failure is taken into account. -/
theorem ends_alternative (sourceMembers : Bool) (member source target : TypeId)
    (mode : RelationMode) {selected : Option (TypeId × RelationFailure)} {r : Recorded σ} {s : σ}
    (h : Trying selected r s) :
    Ends (fun r s => Returns r s)
      (fun e r f s => e = f ∧ Trying (selectFailure sourceMembers member e selected) r s)
      ((record .alternative relate source target mode).runFrom r)
      ((relate' source target mode).runFrom s) := by
  obtain ⟨rfl, hunmixed, htrying⟩ := h
  have hends := hrelate source target mode { r with components := [] } r.context ⟨rfl, by simp⟩
  change Ends _ _ ((relate source target mode).runFrom { r with components := [] })
    ((relate' source target mode).runFrom r.context) at hends
  rw [runFrom_record]
  generalize (relate source target mode).runFrom { r with components := [] } = run at hends ⊢
  generalize (relate' source target mode).runFrom r.context = run' at hends ⊢
  cases hends with
  | ok _ h =>
    refine .ok () ⟨h.1, fun c hc => ?_⟩
    rcases List.mem_append.mp hc with hold | hnew
    · refine ⟨(htrying c hold).1, fun hincomplete => .inr ⟨((htrying c hold).2 hincomplete).1, ?_⟩⟩
      exact ⟨_, List.mem_append_right _ (List.mem_singleton_self _), rfl⟩
    · obtain rfl := List.mem_singleton.mp hnew
      exact ⟨RelationCall.propagates_of_answers h.2, False.elim⟩
  | @error e _ _ _ h =>
    obtain ⟨rfl, hs, he, hanswers⟩ := h
    obtain ⟨current, f, hselect, hnew, hold, hchoice⟩ :=
      selectFailure_spec sourceMembers member e selected
    refine .error ⟨rfl, hs, ?_, fun c hc => ?_⟩
    · rw [hselect]
      rintro _ ⟨⟩
      rcases hchoice with rfl | hchoice
      · exact he
      · exact hunmixed _ hchoice
    · rw [hselect]
      rcases List.mem_append.mp hc with hmem | hmem
      · refine ⟨(htrying c hmem).1, fun hincomplete => ?_⟩
        obtain ⟨hrole, p, hp, hincomplete⟩ := (htrying c hmem).2 hincomplete
        exact ⟨hrole, _, rfl, le_trans hincomplete (hold p hp)⟩
      · obtain rfl := List.mem_singleton.mp hmem
        refine ⟨RelationCall.propagates_of_answers hanswers, fun hincomplete => ⟨rfl, _, rfl, ?_⟩⟩
        exact le_trans hincomplete hnew

/-- All alternatives, up to the first that relates. -/
theorem tryAlternatives_spec (sourceMembers : Bool) (source target : TypeId) (mode : RelationMode)
    (members : List TypeId) {selected : Option (TypeId × RelationFailure)} {r : Recorded σ} {s : σ}
    (h : Trying selected r s) :
    ∃ found r' s',
      (tryAlternatives (record .alternative relate) source target mode sourceMembers members
        selected).runFrom r = (.ok found, r') ∧
      (tryAlternatives relate' source target mode sourceMembers members selected).runFrom s =
        (.ok found, s') ∧
      Tried r' s' found := by
  induction members generalizing selected r s with
  | nil => exact ⟨some selected, r, s, rfl, rfl, h⟩
  | cons member rest ih =>
    have hends := ends_alternative hrelate sourceMembers member
      (if sourceMembers then member else source) (if sourceMembers then target else member) mode h
    rw [runFrom_tryAlternatives_cons, runFrom_tryAlternatives_cons]
    generalize (record .alternative relate _ _ mode).runFrom r = run at hends ⊢
    generalize (relate' _ _ mode).runFrom s = run' at hends ⊢
    cases hends with
    | ok _ h => exact ⟨none, _, _, rfl, rfl, h⟩
    | error h =>
      obtain ⟨rfl, h⟩ := h
      exact ih h

theorem simulates_relateAlternatives (source target : TypeId) (members : List TypeId)
    (mode : RelationMode) (sourceMembers : Bool) :
    Simulates Clear Returns Fails
      (relateAlternatives (record .alternative relate) source target members mode sourceMembers)
      (relateAlternatives relate' source target members mode sourceMembers) := by
  intro r s hclear
  obtain ⟨found, r', s', hrun, hrun', htried⟩ :=
    tryAlternatives_spec hrelate sourceMembers source target mode members hclear.trying
  change Ends _ _ (RelationM.runFrom _ r) (RelationM.runFrom _ s)
  unfold relateAlternatives
  rw [RelationM.runFrom_bind, RelationM.runFrom_bind, hrun, hrun']
  rcases found with _ | selected
  · exact .ok () htried
  · obtain ⟨hs, hunmixed, htrying⟩ := htried
    dsimp only
    generalize hgetD : selected.getD (if sourceMembers = true then source else target,
      failure source target .incompatible) = chosen
    have hchosen : chosen.2.Unmixed := by
      rw [← hgetD]
      rcases selected with _ | p
      · exact RelationFailure.unmixed_failure _ _ _
      · exact hunmixed p rfl
    have hanswers : CallAnswers (.error chosen.2) r'.components := by
      refine fun c hc => ⟨(htrying c hc).1, fun hincomplete => .inl ?_⟩
      obtain ⟨_, p, rfl, hp⟩ := (htrying c hc).2 hincomplete
      rwa [← hgetD]
    by_cases hrank : (sourceMembers || decide (chosen.2.kind.propagationRank > 0)) = true
    · rw [if_pos hrank, if_pos hrank]
      exact .error ⟨rfl, hs, hchosen, hanswers⟩
    · rw [if_neg hrank, if_neg hrank]
      have hzero : chosen.2.kind.propagationRank = 0 := by
        simp only [Bool.or_eq_true, decide_eq_true_eq, not_or] at hrank
        omega
      refine .error ⟨rfl, hs, ?_, answers_of_incomplete hanswers fun h => ?_⟩
      · split
        · exact hchosen.wrapped _ _ rfl
        · exact (hchosen.wrapped _ _ rfl).wrapped _ _ rfl
      · have h : 2 ≤ chosen.2.kind.propagationRank := h
        omega

theorem ends_relateForced (source target : TypeId) (mode : RelationMode) {r : Recorded σ} {s : σ}
    (h : Clear r s) :
    Ends Returns Fails
      ((relateForced (recorded C)
        (record (if isChoice ((C.types r.context).kind source) ((C.types r.context).kind target)
          then .alternative else .required) relate) source target mode).runFrom r)
      ((relateForced C relate' source target mode).runFrom s) := by
  refine RelationSimulation.relateForced failureSimulation
    (fun source target mode => (simulates_record hrelate _ source target mode))
    contextSimulation (fun _ _ h => h.returns) h ?_
  by_cases hchoice : isChoice ((C.types r.context).kind source) ((C.types r.context).kind target)
  · obtain ⟨members, sourceMembers, heq⟩ := relateKinds_of_isChoice hchoice
    rw [if_pos hchoice]
    simp only [recorded, RelationContext.through] at heq ⊢
    rw [heq, heq]
    exact simulates_relateAlternatives hrelate source target members mode sourceMembers
  · rw [if_neg hchoice]
    exact (RelationSimulation.relateKinds failureSimulation
      (fun source target mode => (simulates_record hrelate _ source target mode))
      contextSimulation fun h => absurd h hchoice).mono (fun _ _ h => h) (fun _ _ h => h.returns)
        fun _ _ _ _ h => h

theorem simulates_relateActive (r : Relation) (source target : TypeId) (mode : RelationMode) :
    Simulates Clear Returns Fails (relateActiveRecorded C relate r source target mode)
      (relateActive C relate' r source target mode) := by
  have hforce : ∀ ty, Simulates Clear Clear Fails
      (Relation.force (recorded C) r ty source target) (Relation.force C r ty source target) :=
    RelationSimulation.force failureSimulation contextSimulation r
  refine (hforce source).bind fun forcedSource => (hforce target).bind fun forcedTarget => ?_
  refine .ite (fun _ => ?_) fun _ => ?_
  · exact (simulates_record hrelate .required _ _ mode).mono (fun _ _ h => h)
      (fun _ _ h => h.returns) fun _ _ _ _ h => h
  · intro state context h
    change Ends _ _ (RelationM.runFrom _ state) (RelationM.runFrom _ context)
    rw [RelationM.runFrom_get_bind]
    exact ends_relateForced hrelate source target mode h

end arms

theorem simulates_relateWithReferenceStacks
    {relate : Relation → TypeId → TypeId → RelationMode → RelationM (Recorded σ) Unit}
    {relate' : Relation → TypeId → TypeId → RelationMode → RelationM σ Unit}
    (hrelate : ∀ r source target mode, Simulates Clear Returns Fails
      (relate r source target mode) (relate' r source target mode))
    (r : Relation) (source target : TypeId) (mode : RelationMode) :
    Simulates Clear Returns Fails
      (relateWithReferenceStacksRecorded C relate r source target mode)
      (relateWithReferenceStacks C relate' r source target mode) := by
  refine .get_bind fun state context h => ?_
  obtain rfl := h.1
  dsimp only
  generalize Option.bind (deferredReference ((C.types state.context).kind source)) _ =
    sourceExpansion
  generalize Option.bind (deferredReference ((C.types state.context).kind target)) _ =
    targetExpansion
  rcases sourceExpansion with _ | sourceExpansion
  · exact simulates_relateActive (hrelate _) _ source target mode
  · rcases targetExpansion with _ | targetExpansion
    · exact simulates_relateActive (hrelate _) _ source target mode
    · exact .ite (fun _ => .pure (fun _ _ h => h.returns) ()) fun _ =>
        RelationSimulation.throw_failure failureSimulation _

/-- Recording changes nothing, the record accounts for the outcome, and a failure is definitive or
incomplete through and through. -/
theorem simulates_relateInner (levels : Nat) (r : Relation) (source target : TypeId)
    (mode : RelationMode) :
    Simulates Clear Returns Fails (relateInnerRecorded C levels r source target mode)
      (relateInner C levels r source target mode) := by
  induction levels generalizing r source target mode with
  | zero =>
    unfold relateInnerRecorded relateInner
    exact .ite (fun _ => .pure (fun _ _ h => h.returns) ()) fun _ =>
      RelationSimulation.throw_failure failureSimulation _
  | succ levels ih =>
    unfold relateInnerRecorded relateInner
    refine .ite (fun _ => .pure (fun _ _ h => h.returns) ()) fun _ => ?_
    refine .get_bind fun state context h => ?_
    obtain rfl := h.1
    refine .ite (fun _ => .pure (fun _ _ h => h.returns) ()) fun _ => ?_
    refine .ite (fun _ => .pure (fun _ _ h => h.returns) ()) fun _ => ?_
    refine .ite (fun _ => .pure (fun _ _ h => h.returns) ()) fun _ => ?_
    exact simulates_relateWithReferenceStacks ih _ _ _ _

end RecordedRelation

/-- The record is one of the comparison itself. -/
theorem relateTypesRecorded_propagates {σ : Type} (C : RelationContext σ) (source target : TypeId)
    (mode : RelationMode) (evaluationDepth : Nat) (s : σ) :
    let run := relateTypesRecorded C source target mode evaluationDepth s
    (relateTypesAtEvaluationDepth C source target mode evaluationDepth).runFrom s =
        (run.1.outcome, run.2) ∧
      (run.1.ReachesIncomplete → Incomplete run.1.outcome) ∧
      ∀ e, run.1.outcome = .error e → e.Unmixed := by
  have hends : Ends _ _ ((Relation.relateInnerRecorded C 101 (Relation.root evaluationDepth) source
      target mode).runFrom { context := s, components := [] })
      ((relateTypesAtEvaluationDepth C source target mode evaluationDepth).runFrom s) :=
    RecordedRelation.simulates_relateInner 101 (Relation.root evaluationDepth) source target mode
      { context := s, components := [] } s ⟨rfl, by simp⟩
  simp only [relateTypesRecorded]
  generalize (Relation.relateInnerRecorded C 101 (Relation.root evaluationDepth) source target
    mode).runFrom { context := s, components := [] } = run at hends ⊢
  generalize (relateTypesAtEvaluationDepth C source target mode evaluationDepth).runFrom s =
    run' at hends ⊢
  cases hends with
  | ok _ h =>
    refine ⟨by rw [h.1]; rfl, RelationCall.propagates_of_answers h.2, ?_⟩
    rintro _ ⟨⟩
  | error h =>
    obtain ⟨rfl, rfl, he, hanswers⟩ := h
    refine ⟨rfl, RelationCall.propagates_of_answers hanswers, ?_⟩
    rintro _ ⟨⟩
    exact he

/-- Whether an array has the properties of an object type is deferred, and is passed on where the
other members of the union do not relate. -/
theorem relateTypesRecorded_propagates_deferred :
    let shape := TypeStore.new.intern
      (.object { properties := [⟨"length", TypeStore.new.builtins.number, false, false⟩] })
    let target := shape.2.union [shape.1, shape.2.builtins.string] .canonical
    let source := target.2.intern (.array target.2.builtins.number)
    Incomplete (relateTypesRecorded (inertContext true) source.1 target.1 .assignment 0
      source.2).1.outcome := by
  exact (relateTypesRecorded_propagates (inertContext true) _ _ .assignment 0 _).2.1
    (RelationCall.reachesIncomplete_of_component (by decide +kernel))

/-- An array relates to the second of these members, an empty class; it is deferred whether it
relates to the first. -/
theorem relateTypesRecorded_alternative_relates :
    let shape := TypeStore.new.intern
      (.object { properties := [⟨"length", TypeStore.new.builtins.number, false, false⟩] })
    let empty := shape.2.intern (.classInstance ⟨⟨0⟩, 0⟩ "A" [] {})
    let target := empty.2.union [shape.1, empty.1] .canonical
    let source := target.2.intern (.array target.2.builtins.number)
    let call := (relateTypesRecorded (inertContext true) source.1 target.1 .assignment 0 source.2).1
    (∃ c ∈ call.components, Incomplete c.outcome) ∧
      (∀ c ∈ call.components, Incomplete c.outcome ∨ c.outcome.isOk = true) ∧
      call.outcome.isOk = true := by
  decide +kernel

end Tsz.Semantics
