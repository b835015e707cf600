import Tsz.Semantics.RelationSimulation
import Tsz.Semantics.Widening

/-!
# The state of the relation

The pairs and references in progress as one mutable record: a comparison enters its pair and its
references before it compares the kinds and takes them out again afterwards, whatever the outcome.
-/

namespace Tsz.Semantics

open Recursion TypeStore

namespace ReferenceExpansionStack

def checkpoint (stack : ReferenceExpansionStack) : Nat := stack.frames.length

def restore (stack : ReferenceExpansionStack) (checkpoint : Nat) : ReferenceExpansionStack :=
  { stack with frames := stack.frames.take checkpoint }

end ReferenceExpansionStack

/-- The comparison under way, with the state of its surroundings. -/
structure RelationState (σ : Type) extends Relation where
  context : σ

namespace RelationState

variable {σ : Type} (C : RelationContext σ)

/-- The surroundings see their own part of the state only. -/
def within : RelationContext (RelationState σ) :=
  C.through context fun context r => { r with context }

/-- Enter a pair; the answer is whether it was new. -/
def insert (key : RelationQueryKey) (r : RelationState σ) : Bool × RelationState σ :=
  if key ∈ r.active then (false, r) else (true, { r with active := key :: r.active })

def remove (key : RelationQueryKey) (r : RelationState σ) : RelationState σ :=
  { r with active := r.active.erase key }

def pushReferences (source target : TypeId) (sourceReference targetReference :
    Option (DeclId × List TypeId)) (r : RelationState σ) : RelationState σ :=
  { r with
    sourceReferences := Relation.pushReference r.sourceReferences source sourceReference
    targetReferences := Relation.pushReference r.targetReferences target targetReference }

def restoreReferences (sourceCheckpoint targetCheckpoint : Nat) (r : RelationState σ) :
    RelationState σ :=
  { r with
    sourceReferences := r.sourceReferences.restore sourceCheckpoint
    targetReferences := r.targetReferences.restore targetCheckpoint }

def relateActive (relate : TypeId → TypeId → RelationMode → RelationM (RelationState σ) Unit)
    (source target : TypeId) (mode : RelationMode) : RelationM (RelationState σ) Unit := do
  Relation.relateActive (within C) relate (← get).toRelation source target mode

def relateWithReferenceStacks
    (relate : TypeId → TypeId → RelationMode → RelationM (RelationState σ) Unit)
    (source target : TypeId) (mode : RelationMode) : RelationM (RelationState σ) Unit := do
  let r ← get
  let s := C.types r.context
  let sourceReference := Relation.deferredReference (s.kind source)
  let targetReference := Relation.deferredReference (s.kind target)
  let sourceExpansion := sourceReference.bind fun (declaration, arguments) =>
    r.sourceReferences.generativeExpansion s source declaration arguments
  let targetExpansion := targetReference.bind fun (declaration, arguments) =>
    r.targetReferences.generativeExpansion s target declaration arguments
  match sourceExpansion, targetExpansion with
  | some sourceExpansion, some targetExpansion =>
    if Relation.supportedExpansion C r.context r.toRelation sourceReference targetReference
        sourceExpansion targetExpansion
    then pure ()
    else throw (failure source target .deferred)
  | _, _ =>
    let sourceCheckpoint := r.sourceReferences.checkpoint
    let targetCheckpoint := r.targetReferences.checkpoint
    modify (pushReferences source target sourceReference targetReference)
    andThen (relateActive C relate source target mode)
      (restoreReferences sourceCheckpoint targetCheckpoint)

def relateInner (source target : TypeId) (mode : RelationMode) (depth : Nat) :
    RelationM (RelationState σ) Unit := do
  if source = target then pure ()
  else if hdepth : depth > 100 then throw (failure source target .complexityLimit)
  else
    let s := C.types (← get).context
    let source := Relation.assignmentSource s target mode (s.kinds.length + 1) source
    if source = target then pure ()
    else if Relation.anyToKeysOfParameter s source target mode then pure ()
    else
      let key : RelationQueryKey := { source, target, mode }
      if !(← modifyGet (insert key)) then pure ()
      else
        andThen
          (relateWithReferenceStacks C (fun source target mode =>
            relateInner source target mode (depth + 1)) source target mode)
          (remove key)
termination_by 101 - depth

/-! ## The loop over assigned alternatives -/

/-- Every turn of the loop goes to an earlier type, so that it ends. -/
theorem assignmentSource_eq {s : TypeStore} (hs : ChildrenEarlier s) (target : TypeId)
    (mode : RelationMode) {source : TypeId} (hsource : s.Contains source) {steps steps' : Nat}
    (hsteps : source.index < steps) (hsteps' : source.index < steps') :
    Relation.assignmentSource s target mode steps source =
      Relation.assignmentSource s target mode steps' source := by
  induction steps generalizing source steps' with
  | zero => omega
  | succ steps ih =>
    obtain ⟨steps', rfl⟩ : ∃ n, steps' = n + 1 := ⟨steps' - 1, by omega⟩
    unfold Relation.assignmentSource
    split
    next left right hkind =>
      have hright : right.index < source.index :=
        hs source hsource right (by simp [hkind, TypeKind.children, DeferredType.children])
      have hcontains : s.Contains right := hright.trans hsource
      have hrest : Relation.assignmentSource s target .assignment steps right =
          Relation.assignmentSource s target .assignment steps' right :=
        ih hcontains (by omega) (by omega)
      rw [hrest]
    next => rfl

theorem assignmentSource_eq_of_length_lt {s : TypeStore} (hs : Reachable s) (source target : TypeId)
    (mode : RelationMode) {steps : Nat} (hsteps : s.kinds.length < steps) :
    Relation.assignmentSource s target mode steps source =
      Relation.assignmentSource s target mode (s.kinds.length + 1) source := by
  by_cases hsource : s.Contains source
  · have hlt : source.index < s.kinds.length := hsource
    exact assignmentSource_eq hs.childrenEarlier target mode hsource (by omega) (by omega)
  · have hkind : s.kind source = .error :=
      List.getD_eq_default s.kinds .error (Nat.not_lt.mp hsource)
    obtain ⟨n, rfl⟩ : ∃ n, steps = n + 1 := ⟨steps - 1, by omega⟩
    simp [Relation.assignmentSource, hkind]

/-! ## The state afterwards -/

/-- The relation is as given, and its surroundings are in the given state. -/
def Holds (r : Relation) (state : RelationState σ) (context : σ) : Prop :=
  state.toRelation = r ∧ state.context = context

/-- So it is at a failure, and the failure is the same. -/
def Fails (r : Relation) (e : RelationFailure) (state : RelationState σ) (f : RelationFailure)
    (context : σ) : Prop :=
  e = f ∧ Holds r state context

variable {C}

theorem contextSimulation (r : Relation) : ContextSimulation (within C) C (Holds r) :=
  .through (fun _ _ h => h.2) fun _ _ _ h => ⟨h.1, rfl⟩

theorem failureSimulation (r : Relation) :
    FailureSimulation (Holds r : RelationState σ → σ → Prop) (Fails r) where
  thrown _ _ _ _ h := ⟨rfl, h⟩
  wrapped := by
    rintro e state _ context ⟨rfl, h⟩ source target kind _
    exact ⟨rfl, h⟩
  deferred := by
    rintro e state _ context ⟨_, h⟩ source target
    exact ⟨rfl, h⟩

section arms

variable {relate : TypeId → TypeId → RelationMode → RelationM (RelationState σ) Unit}
  {relate' : TypeId → TypeId → RelationMode → RelationM σ Unit} {inner : Relation}
  (hrelate : ∀ source target mode, Simulates (Holds inner) (Holds inner) (Fails inner)
    (relate source target mode) (relate' source target mode))

include hrelate

theorem simulates_relateForced (source target : TypeId) (mode : RelationMode) :
    Simulates (Holds inner) (Holds inner) (Fails inner)
      (Relation.relateForced (within C) relate source target mode)
      (Relation.relateForced C relate' source target mode) := by
  have hE := failureSimulation (σ := σ) inner
  have hC := contextSimulation (C := C) inner
  refine fun _ _ h => RelationSimulation.relateForced hE hrelate hC (fun _ _ h => h) h ?_
  refine RelationSimulation.relateKinds hE hrelate hC fun _ members sourceMembers => ?_
  exact RelationSimulation.relateAlternatives hrelate (fun _ _ _ _ h => h)
    (fun _ _ _ h => ⟨rfl, h⟩) members sourceMembers

theorem simulates_relateActive (source target : TypeId) (mode : RelationMode) :
    Simulates (Holds inner) (Holds inner) (Fails inner)
      (relateActive C relate source target mode)
      (Relation.relateActive C relate' inner source target mode) := by
  have hE := failureSimulation (σ := σ) inner
  have hC := contextSimulation (C := C) inner
  intro state context h
  obtain ⟨rfl, rfl⟩ := id h
  refine Simulates.bind (RelationSimulation.force hE hC state.toRelation source) (fun _ => ?_)
    state state.context h
  refine (RelationSimulation.force hE hC state.toRelation target).bind fun _ => ?_
  exact .ite (fun _ => hrelate _ _ _) fun _ => simulates_relateForced hrelate source target mode

end arms

@[simp]
theorem restore_pushReference (stack : ReferenceExpansionStack) (reference : TypeId)
    (pushed : Option (DeclId × List TypeId)) :
    (Relation.pushReference stack reference pushed).restore stack.checkpoint = stack := by
  rcases pushed with _ | ⟨declaration, arguments⟩ <;>
    simp [Relation.pushReference, ReferenceExpansionStack.restore,
      ReferenceExpansionStack.checkpoint, ReferenceExpansionStack.push]

/-- The references are on the stacks inside only. -/
theorem simulates_pushReferences {m : RelationM (RelationState σ) Unit} {m' : RelationM σ Unit}
    (r : Relation) (source target : TypeId)
    (sourceReference targetReference : Option (DeclId × List TypeId))
    (hm : ∀ inner : Relation,
      inner = { r with
        sourceReferences := Relation.pushReference r.sourceReferences source sourceReference
        targetReferences := Relation.pushReference r.targetReferences target targetReference } →
      Simulates (Holds inner) (Holds inner) (Fails inner) m m') :
    Simulates (Holds r) (Holds r) (Fails r)
      (do
        modify (pushReferences source target sourceReference targetReference)
        andThen m
          (restoreReferences r.sourceReferences.checkpoint r.targetReferences.checkpoint))
      m' := by
  have hrestore : ∀ (state : RelationState σ) (context : σ),
      Holds { r with
        sourceReferences := Relation.pushReference r.sourceReferences source sourceReference
        targetReferences := Relation.pushReference r.targetReferences target targetReference }
        state context →
      Holds r (restoreReferences r.sourceReferences.checkpoint r.targetReferences.checkpoint state)
        context := by
    rintro ⟨_, context⟩ _ ⟨rfl, rfl⟩
    exact ⟨by simp [restoreReferences], rfl⟩
  refine .modify_bind ?_ ((hm _ rfl).andThen hrestore fun _ _ _ _ h => ⟨h.1, hrestore _ _ h.2⟩)
  rintro state _ ⟨rfl, rfl⟩
  exact ⟨rfl, rfl⟩

theorem simulates_relateWithReferenceStacks
    {relate : TypeId → TypeId → RelationMode → RelationM (RelationState σ) Unit}
    {relate' : Relation → TypeId → TypeId → RelationMode → RelationM σ Unit}
    (hrelate : ∀ r source target mode, Simulates (Holds r) (Holds r) (Fails r)
      (relate source target mode) (relate' r source target mode))
    (r : Relation) (source target : TypeId) (mode : RelationMode) :
    Simulates (Holds r) (Holds r) (Fails r)
      (relateWithReferenceStacks C relate source target mode)
      (Relation.relateWithReferenceStacks C relate' r source target mode) := by
  refine .get_bind fun state context h => ?_
  obtain ⟨rfl, rfl⟩ := h
  dsimp only
  generalize Option.bind (Relation.deferredReference ((C.types state.context).kind source)) _ =
    sourceExpansion
  generalize Option.bind (Relation.deferredReference ((C.types state.context).kind target)) _ =
    targetExpansion
  have hinner := fun inner => simulates_relateActive (C := C) (hrelate inner) source target mode
  rcases sourceExpansion with _ | sourceExpansion
  · refine simulates_pushReferences _ _ _ _ _ ?_
    rintro _ rfl
    exact hinner _
  · rcases targetExpansion with _ | targetExpansion
    · refine simulates_pushReferences _ _ _ _ _ ?_
      rintro _ rfl
      exact hinner _
    · exact .ite (fun _ => .pure (fun _ _ h => h) ()) fun _ =>
        RelationSimulation.throw_failure (failureSimulation _) _

/-- The pair is in progress inside only. -/
theorem simulates_insert {m : RelationM (RelationState σ) Unit} {m' : RelationM σ Unit}
    (r : Relation) (key : RelationQueryKey)
    (hm : ∀ inner : Relation, inner = { r with active := key :: r.active } →
      Simulates (Holds inner) (Holds inner) (Fails inner) m m') :
    Simulates (Holds r) (Holds r) (Fails r)
      (do
        let new ← modifyGet (insert key)
        if !new then pure () else andThen m (remove key))
      (if key ∈ r.active then pure () else m') := by
  rintro state _ ⟨rfl, rfl⟩
  by_cases hkey : key ∈ state.active
  · rw [if_pos hkey]
    have hinsert : insert key state = (false, state) := if_pos hkey
    rw [run_modifyGet_bind, hinsert]
    exact .ok () ⟨rfl, rfl⟩
  · rw [if_neg hkey]
    have hinsert : insert key state = (true, { state with active := key :: state.active }) :=
      if_neg hkey
    rw [run_modifyGet_bind, hinsert]
    have hremove : ∀ (inner : RelationState σ) (context : σ),
        Holds { state.toRelation with active := key :: state.active } inner context →
          Holds state.toRelation (remove key inner) context := by
      rintro ⟨_, context⟩ _ ⟨rfl, rfl⟩
      exact ⟨by simp [remove], rfl⟩
    exact (hm _ rfl).andThen hremove (fun _ _ _ _ h => ⟨h.1, hremove _ _ h.2⟩) _ _ ⟨rfl, rfl⟩

/-- A comparison leaves the relation as it was, and ends as the comparison does that is given the
relation as a value. -/
theorem simulates_relateInner (levels depth : Nat) (hlevels : 101 - depth = levels) (r : Relation)
    (source target : TypeId) (mode : RelationMode) :
    Simulates (Holds r) (Holds r) (Fails r) (relateInner C source target mode depth)
      (Relation.relateInner C levels r source target mode) := by
  induction levels generalizing depth r source target mode with
  | zero =>
    have hdepth : depth > 100 := by omega
    unfold relateInner Relation.relateInner
    refine .ite (fun _ => .pure (fun _ _ h => h) ()) fun _ => ?_
    rw [dif_pos hdepth]
    exact RelationSimulation.throw_failure (failureSimulation r) _
  | succ levels ih =>
    have hdepth : ¬ depth > 100 := by omega
    unfold relateInner Relation.relateInner
    refine .ite (fun _ => .pure (fun _ _ h => h) ()) fun _ => ?_
    rw [dif_neg hdepth]
    refine .get_bind fun state context h => ?_
    obtain ⟨rfl, rfl⟩ := h
    refine .ite (fun _ => .pure (fun _ _ h => h) ()) fun _ => ?_
    refine .ite (fun _ => .pure (fun _ _ h => h) ()) fun _ => ?_
    refine simulates_insert _ _ ?_
    rintro _ rfl
    exact simulates_relateWithReferenceStacks
      (fun r source target mode => ih (depth + 1) (by omega) r source target mode) _ _ _ _

/-- Whatever the outcome, a comparison hands the pairs and the references in progress back as it
found them. It ends: it is the comparison with as many levels as the limit leaves, and its loop
takes no more turns than there are types. -/
theorem relateInner_restores (C : RelationContext σ) (source target : TypeId) (mode : RelationMode)
    (depth : Nat) (state : RelationState σ) :
    let run := (relateInner C source target mode depth).runFrom state
    (run.2.active = state.active ∧ run.2.sourceReferences = state.sourceReferences ∧
        run.2.targetReferences = state.targetReferences) ∧
      (run.1, run.2.context) =
        (Relation.relateInner C (101 - depth) state.toRelation source target mode).runFrom
          state.context ∧
      (Reachable (C.types state.context) →
        ∀ steps, (C.types state.context).kinds.length < steps →
          Relation.assignmentSource (C.types state.context) target mode steps source =
            Relation.assignmentSource (C.types state.context) target mode
              ((C.types state.context).kinds.length + 1) source) := by
  intro run
  have hends : Ends (Holds state.toRelation) (Fails state.toRelation) run
      ((Relation.relateInner C (101 - depth) state.toRelation source target mode).runFrom
        state.context) :=
    simulates_relateInner (C := C) (101 - depth) depth rfl state.toRelation source target mode state
      state.context ⟨rfl, rfl⟩
  generalize run = outcome at hends ⊢
  generalize (Relation.relateInner C (101 - depth) state.toRelation source target mode).runFrom
    state.context = outcome' at hends ⊢
  refine ⟨?_, ?_, fun hs steps hsteps => assignmentSource_eq_of_length_lt hs source target mode hsteps⟩
  · have hrelation : outcome.2.toRelation = state.toRelation := by
      cases hends with
      | ok _ h => exact h.1
      | error h => exact h.2.1
    rw [hrelation]
    exact ⟨rfl, rfl, rfl⟩
  · cases hends with
    | ok _ h => rw [h.2]
    | error h => rw [h.1, h.2.2]

/-- A failed comparison of two primitive types in the initial store. -/
theorem relateInner_restores_new :
    let store := TypeStore.new
    let state : RelationState TypeStore := { Relation.root 0 with context := store }
    let run := (relateInner (inertContext true) store.builtins.string store.builtins.number
      .assignment 0).runFrom state
    (run.2.active = [] ∧ run.2.sourceReferences = .new .relationSource ∧
        run.2.targetReferences = .new .relationTarget) ∧
      (run.1, run.2.context) =
        (Relation.relateInner (inertContext true) 101 (Relation.root 0) store.builtins.string
          store.builtins.number .assignment).runFrom store ∧
      Relation.assignmentSource store store.builtins.number .assignment 20 store.builtins.string =
        Relation.assignmentSource store store.builtins.number .assignment
          (store.kinds.length + 1) store.builtins.string := by
  intro store state run
  obtain ⟨hrestores, hruns, hloop⟩ := relateInner_restores (inertContext true)
    store.builtins.string store.builtins.number .assignment 0 state
  exact ⟨hrestores, hruns, hloop Reachable.new 20 (by decide)⟩

end RelationState

end Tsz.Semantics
