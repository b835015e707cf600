import Mathlib.Data.List.Dedup
import Mathlib.Data.Prod.Lex
import Mathlib.Data.List.Lex
import Tsz.Recursion.Saturation
import Tsz.Sorting.StableSort
import Tsz.Source

/-!
# Capabilities of declaration groups

A declaration takes over what is not claimed for another declaration of its group, and what it
took over goes on to the other groups it belongs to.

## Main results

* `closeDeclarationGroups_iff` — the records are closed under this exactly if the first round does
  not stop the search too early.
-/

namespace Tsz.Project

open Sorting Saturation

namespace Capability

inductive Target
  | semanticCheck | declarationModel | declarationValue | requiredType | semanticDiagnostics
  | javaScript | declaration | quickInfo | typeDefinition | definition | references | highlights
  | rename | syntacticDiagnostics
deriving DecidableEq, Repr

def allTargets : List Target :=
  [.declarationModel, .declarationValue, .semanticCheck, .semanticDiagnostics, .requiredType,
    .declaration, .javaScript, .quickInfo, .typeDefinition, .definition, .references,
    .highlights, .rename]

inductive Dependency
  | semantic | functionLike | requiredType
deriving DecidableEq, Repr

inductive Scope
  | program
  | file (file : FileId)
  | node (file : FileId) (owner : NodeId)
  | span (file : FileId) (start stop : Nat)
  | dependency (file : FileId) (owner : NodeId) (kind : Dependency) (identifiers : Bool)
  | position (file : FileId) (owner : Option NodeId) (offset : Nat)
deriving DecidableEq, Repr

/-- The file of a scope, and the node it is about if it is about one. -/
def Scope.parts : Scope → Option (FileId × Option NodeId)
  | .file id => some (id, none)
  | .node id owner | .dependency id owner _ _ => some (id, some owner)
  | .position id owner _ => some (id, owner)
  | .program | .span _ _ _ => none

def scopeApplies (record requested : Scope) : Bool :=
  match record, requested with
  | .span id start stop, .position requestedFile _ offset =>
    id = requestedFile && start ≤ offset && offset ≤ stop
  | .span _ _ _, _ => record = requested
  | .program, _ | _, .program => true
  | _, _ =>
    match record.parts, requested.parts with
    | some (recordFile, recordOwner), some (requestedFile, requestedOwner) =>
      recordFile = requestedFile &&
        (recordOwner.isNone || requestedOwner.isNone || recordOwner = requestedOwner)
    | _, _ => false

variable {Reason : Type}

structure Nonclaim (Reason : Type) where
  target : Target
  scope : Scope
  reason : Reason
deriving DecidableEq

/-! ## The order of the records -/

def Scope.rank : Scope → Nat
  | .program => 0
  | .file _ => 1
  | .node _ _ => 2
  | .span _ _ _ => 3
  | .dependency _ _ _ _ => 4
  | .position _ _ _ => 5

/-- What scopes of one kind are compared by. -/
def Scope.fields : Scope → List Nat
  | .program => []
  | .file id => [id.index]
  | .node id owner => [id.index, owner.index]
  | .span id start stop => [id.index, start, stop]
  | .dependency id owner kind identifiers =>
    [id.index, owner.index, kind.ctorIdx, identifiers.toNat]
  | .position id owner offset => [id.index, (owner.map (·.index + 1)).getD 0, offset]

def Nonclaim.sortKey (nonclaim : Nonclaim Reason) : Nat ×ₗ Nat ×ₗ List Nat ×ₗ Reason :=
  toLex (nonclaim.target.ctorIdx, toLex (nonclaim.scope.rank,
    toLex (nonclaim.scope.fields, nonclaim.reason)))

/-- Sort the records and remove repeated neighbours. -/
def sortAndDedup [LinearOrder Reason] (nonclaims : List (Nonclaim Reason)) :
    List (Nonclaim Reason) :=
  (sortByKey Nonclaim.sortKey nonclaims).destutter (· ≠ ·)

/-! ## Inheritance in a group -/

/-- Every scope of a group takes over the reasons for which something applying to one of them is
not claimed. -/
def inheritGroupNonclaims (scopes : List Scope) (nonclaims : List (Nonclaim Reason))
    (source : Target) (targets : List Target) : List (Nonclaim Reason) :=
  let inherited :=
    (nonclaims.filter fun nonclaim =>
      nonclaim.target = source && scopes.any fun scope => scopeApplies nonclaim.scope scope).map
        (·.reason)
  nonclaims ++ scopes.flatMap fun scope =>
    inherited.flatMap fun reason => targets.map fun target => ⟨target, scope, reason⟩

/-- A target that is not claimed, and the targets that are not claimed with it. -/
def inheritedTargets : List (Target × List Target) :=
  (allTargets.take 5 ++ allTargets.drop 7).map (fun target => (target, [target])) ++
    [(.declarationModel, allTargets.drop 7)]

def inheritInGroup (nonclaims : List (Nonclaim Reason)) (scopes : List Scope) :
    List (Nonclaim Reason) :=
  inheritedTargets.foldl (fun nonclaims (source, targets) =>
    inheritGroupNonclaims scopes nonclaims source targets) nonclaims

/-- One round over the groups. -/
def inheritInGroups (groups : List (List Scope)) (nonclaims : List (Nonclaim Reason)) :
    List (Nonclaim Reason) :=
  groups.foldl inheritInGroup nonclaims

/-- The scopes of the declarations of each group. -/
def groupScopes (scopeForDeclaration : DeclId → Option Scope) (groups : List (List DeclId)) :
    List (List Scope) :=
  groups.map fun group => (group.filterMap scopeForDeclaration).dedup

/-- Rounds until the number of records stays the same; the first argument bounds them. -/
def closeDeclarationGroups [LinearOrder Reason] (rounds : Nat)
    (scopeForDeclaration : DeclId → Option Scope) (groups : List (List DeclId)) (nonclaims : List (Nonclaim Reason)) :
    Option (List (Nonclaim Reason)) :=
  saturate sortAndDedup (inheritInGroups (groupScopes scopeForDeclaration groups)) rounds nonclaims

/-! ## Sorting keeps the records -/

theorem toNat_injective : Function.Injective Bool.toNat := by
  rintro ⟨⟩ ⟨⟩ h <;> first | rfl | cases h

theorem Dependency.ctorIdx_injective : Function.Injective Dependency.ctorIdx :=
  Function.LeftInverse.injective Dependency.ofNat_ctorIdx

theorem Target.ctorIdx_injective : Function.Injective Target.ctorIdx :=
  Function.LeftInverse.injective Target.ofNat_ctorIdx

theorem Scope.eq_of_fields {s t : Scope} (hrank : s.rank = t.rank) (hfields : s.fields = t.fields) :
    s = t := by
  rcases s with _ | ⟨⟨i⟩⟩ | ⟨⟨i⟩, ⟨o⟩⟩ | ⟨⟨i⟩, start, stop⟩ | ⟨⟨i⟩, ⟨o⟩, kind, identifiers⟩ |
      ⟨⟨i⟩, _ | ⟨⟨o⟩⟩, offset⟩ <;>
    rcases t with _ | ⟨⟨i'⟩⟩ | ⟨⟨i'⟩, ⟨o'⟩⟩ | ⟨⟨i'⟩, start', stop'⟩ |
      ⟨⟨i'⟩, ⟨o'⟩, kind', identifiers'⟩ | ⟨⟨i'⟩, _ | ⟨⟨o'⟩⟩, offset'⟩ <;>
    simp only [Scope.rank, Nat.reduceEqDiff] at hrank <;>
    simp_all [Scope.fields, Dependency.ctorIdx_injective.eq_iff, toNat_injective.eq_iff]

theorem Nonclaim.sortKey_injective :
    Function.Injective (Nonclaim.sortKey : Nonclaim Reason → _) := by
  rintro ⟨target, scope, reason⟩ ⟨target', scope', reason'⟩ h
  simp only [Nonclaim.sortKey, EmbeddingLike.apply_eq_iff_eq, Prod.mk.injEq] at h
  obtain ⟨htarget, hrank, hfields, hreason⟩ := h
  rw [Target.ctorIdx_injective htarget, Scope.eq_of_fields hrank hfields, hreason]

theorem sortAndDedup_isCanonical [LinearOrder Reason] :
    IsCanonical (sortAndDedup : List (Nonclaim Reason) → List (Nonclaim Reason)) where
  nodup _ := nodup_destutter_of_injOn Nonclaim.sortKey_injective.injOn
  mem _ a := by rw [sortAndDedup, mem_destutter, mem_sortByKey]

/-! ## One round -/

/-- Nothing is left to take over by one group for one kind of target. -/
def ClosedUnderRule (scopes : List Scope) (rule : Target × List Target)
    (s : Set (Nonclaim Reason)) : Prop :=
  ∀ nonclaim ∈ s, nonclaim.target = rule.1 →
    (∃ scope ∈ scopes, scopeApplies nonclaim.scope scope) →
      ∀ scope ∈ scopes, ∀ target ∈ rule.2, ⟨target, scope, nonclaim.reason⟩ ∈ s

def ClosedUnderGroups (groups : List (List Scope)) (s : Set (Nonclaim Reason)) : Prop :=
  ∀ scopes ∈ groups, ∀ rule ∈ inheritedTargets, ClosedUnderRule scopes rule s

theorem mem_inheritGroupNonclaims {scopes : List Scope} {nonclaims : List (Nonclaim Reason)}
    {source : Target} {targets : List Target} {a : Nonclaim Reason} :
    a ∈ inheritGroupNonclaims scopes nonclaims source targets ↔
      a ∈ nonclaims ∨ ∃ nonclaim ∈ nonclaims, nonclaim.target = source ∧
        (∃ scope ∈ scopes, scopeApplies nonclaim.scope scope) ∧
        ∃ scope ∈ scopes, ∃ target ∈ targets, a = ⟨target, scope, nonclaim.reason⟩ := by
  simp only [inheritGroupNonclaims, List.mem_append, List.mem_flatMap, List.mem_map,
    List.mem_filter, Bool.and_eq_true, decide_eq_true_eq, List.any_eq_true]
  refine or_congr_right ⟨?_, ?_⟩
  · rintro ⟨scope, hscopes, _, ⟨nonclaim, ⟨hmem, hsource, hscope⟩, rfl⟩, target, htarget, rfl⟩
    exact ⟨nonclaim, hmem, hsource, hscope, scope, hscopes, target, htarget, rfl⟩
  · rintro ⟨nonclaim, hmem, hsource, hscope, scope, hscopes, target, htarget, rfl⟩
    exact ⟨scope, hscopes, _, ⟨nonclaim, ⟨hmem, hsource, hscope⟩, rfl⟩, target, htarget, rfl⟩

theorem isSweep_inheritGroupNonclaims (scopes : List Scope) (rule : Target × List Target) :
    IsSweep (ClosedUnderRule scopes rule)
      (fun nonclaims : List (Nonclaim Reason) =>
        inheritGroupNonclaims scopes nonclaims rule.1 rule.2) where
  subset l a ha := mem_inheritGroupNonclaims.mpr (.inl ha)
  least l s hs hl a ha := by
    rcases mem_inheritGroupNonclaims.mp ha with
      ha | ⟨nonclaim, hmem, hsource, hscope, scope, hscopes, target, htarget, rfl⟩
    · exact hl a ha
    · exact hs nonclaim (hl nonclaim hmem) hsource hscope scope hscopes target htarget
  fixed l h nonclaim hmem hsource hscope scope hscopes target htarget :=
    h (mem_inheritGroupNonclaims.mpr
      (.inr ⟨nonclaim, hmem, hsource, hscope, scope, hscopes, target, htarget, rfl⟩))

theorem isSweep_inheritInGroups (groups : List (List Scope)) :
    IsSweep (ClosedUnderGroups groups)
      (inheritInGroups groups : List (Nonclaim Reason) → List (Nonclaim Reason)) :=
  IsSweep.foldl fun scopes _ => IsSweep.foldl fun rule _ =>
    isSweep_inheritGroupNonclaims scopes rule

/-! ## All rounds -/

/-- Everything that could be taken over by any of the groups. -/
def carrier (groups : List (List Scope)) (nonclaims : List (Nonclaim Reason)) :
    List (Nonclaim Reason) :=
  nonclaims ++ groups.flatten.flatMap fun scope => nonclaims.flatMap fun nonclaim =>
    allTargets.map fun target => ⟨target, scope, nonclaim.reason⟩

theorem reason_of_mem_carrier {groups : List (List Scope)} {nonclaims : List (Nonclaim Reason)}
    {a : Nonclaim Reason} (h : a ∈ carrier groups nonclaims) :
    ∃ nonclaim ∈ nonclaims, a.reason = nonclaim.reason := by
  simp only [carrier, List.mem_append, List.mem_flatMap, List.mem_map] at h
  rcases h with h | ⟨scope, -, nonclaim, hmem, target, -, rfl⟩
  · exact ⟨a, h, rfl⟩
  · exact ⟨nonclaim, hmem, rfl⟩

theorem mem_allTargets_of_rule : ∀ rule ∈ inheritedTargets, ∀ target ∈ rule.2,
    target ∈ allTargets := by
  decide

theorem closedUnderGroups_carrier (groups : List (List Scope))
    (nonclaims : List (Nonclaim Reason)) :
    ClosedUnderGroups groups {a | a ∈ carrier groups nonclaims} := by
  intro scopes hscopes rule hrule a ha _ _ scope hscope target htarget
  obtain ⟨nonclaim, hmem, hreason⟩ := reason_of_mem_carrier ha
  have hflat : scope ∈ groups.flatten := List.mem_flatten.mpr ⟨scopes, hscopes, hscope⟩
  refine List.mem_append_right _ (List.mem_flatMap.mpr ⟨scope, hflat, List.mem_flatMap.mpr
    ⟨nonclaim, hmem,
      List.mem_map.mpr ⟨target, mem_allTargets_of_rule rule hrule target htarget, ?_⟩⟩⟩)
  rw [hreason]

variable [LinearOrder Reason]

/-- How many records of a list are repetitions. -/
def repetitions (nonclaims : List (Nonclaim Reason)) : Nat :=
  nonclaims.length - nonclaims.dedup.length

/-- How many records one round over the groups adds. -/
def additions (groups : List (List Scope)) (nonclaims : List (Nonclaim Reason)) : Nat :=
  (inheritInGroups groups nonclaims).dedup.length - nonclaims.dedup.length

theorem length_sortAndDedup (nonclaims : List (Nonclaim Reason)) :
    (sortAndDedup nonclaims).length = nonclaims.dedup.length := by
  have hcanon : IsCanonical (sortAndDedup : List (Nonclaim Reason) → List (Nonclaim Reason)) :=
    sortAndDedup_isCanonical
  refine ((List.perm_ext_iff_of_nodup (hcanon.nodup _) (List.nodup_dedup _)).mpr ?_).length_eq
  intro a
  rw [hcanon.mem, List.mem_dedup]

theorem length_eq_iff (groups : List (List Scope)) (nonclaims : List (Nonclaim Reason)) :
    (sortAndDedup (inheritInGroups groups nonclaims)).length = nonclaims.length ↔
      additions groups nonclaims = repetitions nonclaims := by
  have hle : nonclaims.dedup.length ≤ nonclaims.length := (List.dedup_sublist _).length_le
  have hround : nonclaims.dedup.length ≤ (inheritInGroups groups nonclaims).dedup.length := by
    refine ((List.nodup_dedup _).subperm fun a ha => ?_).length_le
    exact List.mem_dedup.mpr ((isSweep_inheritInGroups groups).subset _ (List.mem_dedup.mp ha))
  rw [length_sortAndDedup, additions, repetitions]
  omega

/-- The rounds end, and what they leave is closed and least unless the first round adds as many
records as the list repeats and still leaves something to take over. -/
theorem closeDeclarationGroups_iff (scopeForDeclaration : DeclId → Option Scope)
    (groups : List (List DeclId)) (nonclaims : List (Nonclaim Reason)) :
    (∃ rounds result,
      closeDeclarationGroups rounds scopeForDeclaration groups nonclaims = some result) ∧
    ∀ rounds result,
      closeDeclarationGroups rounds scopeForDeclaration groups nonclaims = some result →
        (IsClosure (ClosedUnderGroups (groupScopes scopeForDeclaration groups)) nonclaims result ↔
          (additions (groupScopes scopeForDeclaration groups) nonclaims = repetitions nonclaims →
            ClosedUnderGroups (groupScopes scopeForDeclaration groups)
              {a | a ∈ inheritInGroups (groupScopes scopeForDeclaration groups) nonclaims})) := by
  have hsweep : IsSweep (ClosedUnderGroups (groupScopes scopeForDeclaration groups))
      (inheritInGroups (groupScopes scopeForDeclaration groups) :
        List (Nonclaim Reason) → List (Nonclaim Reason)) :=
    isSweep_inheritInGroups (groupScopes scopeForDeclaration groups)
  constructor
  · obtain ⟨result, hresult⟩ := exists_saturate hsweep sortAndDedup_isCanonical
      (closedUnderGroups_carrier _ nonclaims) (List.subset_append_left _ _)
    exact ⟨_, result, hresult⟩
  · intro rounds result h
    rw [← length_eq_iff]
    exact saturate_isClosure_iff hsweep sortAndDedup_isCanonical h

/-- A scope of its own for every declaration. -/
def ownScope (declaration : DeclId) : Option Scope :=
  some (.node declaration.file ⟨declaration.index⟩)

/-- Two groups that share a member. -/
def sharedGroups : List (List DeclId) := [[⟨⟨0⟩, 0⟩, ⟨⟨0⟩, 1⟩], [⟨⟨0⟩, 1⟩, ⟨⟨0⟩, 2⟩]]

def repeatedNonclaims : List (Nonclaim Nat) :=
  [⟨.semanticCheck, .node ⟨0⟩ ⟨2⟩, 0⟩, ⟨.semanticCheck, .node ⟨0⟩ ⟨2⟩, 0⟩]

/-- The record reaches the shared member, and the repeated one hides that. -/
theorem closeDeclarationGroups_repeated :
    closeDeclarationGroups 1 ownScope sharedGroups repeatedNonclaims =
        some [⟨.semanticCheck, .node ⟨0⟩ ⟨1⟩, 0⟩, ⟨.semanticCheck, .node ⟨0⟩ ⟨2⟩, 0⟩] ∧
      ¬ IsClosure (ClosedUnderGroups (groupScopes ownScope sharedGroups)) repeatedNonclaims
        [⟨.semanticCheck, .node ⟨0⟩ ⟨1⟩, 0⟩, ⟨.semanticCheck, .node ⟨0⟩ ⟨2⟩, 0⟩] := by
  constructor
  · decide +kernel
  · intro h
    have hclosed := h.isClosed [.node ⟨0⟩ ⟨0⟩, .node ⟨0⟩ ⟨1⟩] (by decide)
      (.semanticCheck, [.semanticCheck]) (by decide)
      ⟨.semanticCheck, .node ⟨0⟩ ⟨1⟩, 0⟩ (by simp) rfl (by decide) (.node ⟨0⟩ ⟨0⟩) (by simp)
      .semanticCheck (by simp)
    simp at hclosed

theorem closeDeclarationGroups_iff_repeated :
    IsClosure (ClosedUnderGroups (groupScopes ownScope sharedGroups)) repeatedNonclaims
        [⟨.semanticCheck, .node ⟨0⟩ ⟨1⟩, 0⟩, ⟨.semanticCheck, .node ⟨0⟩ ⟨2⟩, 0⟩] ↔
      (additions (groupScopes ownScope sharedGroups) repeatedNonclaims =
          repetitions repeatedNonclaims →
        ClosedUnderGroups (groupScopes ownScope sharedGroups)
          {a | a ∈ inheritInGroups (groupScopes ownScope sharedGroups) repeatedNonclaims}) :=
  (closeDeclarationGroups_iff ownScope sharedGroups repeatedNonclaims).2 1 _ (by decide +kernel)

end Capability

end Tsz.Project
