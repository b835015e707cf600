import Tsz.Sorting.StableSort
import Tsz.Source
import Mathlib.Data.Prod.Lex
import Mathlib.Data.String.Basic
import Mathlib.Order.WithBot

/-!
# Sorting diagnostics

Diagnostics are sorted by what is published of them and by the file they come from, and of
neighbours that publish the same only the first one is kept.

## Main results

* `sortAndDeduplicate_canonical` — the list that is left is determined by what is published.
-/

namespace Tsz.Diagnostics

open Sorting

inductive DiagnosticPhase
  | config | program | both
deriving DecidableEq, Repr

inductive DiagnosticCategory
  | warning | error | suggestion | message
deriving DecidableEq, Repr

def DiagnosticCategory.rank : DiagnosticCategory → Nat
  | .warning => 0
  | .error => 1
  | .suggestion => 2
  | .message => 3

structure RelatedInformation where
  file : String
  start : Nat
  length : Nat
  messageText : String
  code : Nat
  depth : Nat
deriving DecidableEq, Repr

structure Diagnostic where
  file : String
  start : Nat
  length : Nat
  messageText : String
  category : DiagnosticCategory
  code : Nat
  relatedInformation : List RelatedInformation := []
  fileId : Option FileId := none
  phase : DiagnosticPhase := .config
  externalSource : Option String := none
deriving DecidableEq, Repr

abbrev RelatedIdentity := String ×ₗ Nat ×ₗ Nat ×ₗ String ×ₗ Nat ×ₗ Nat

/-- What is compared, field by field. -/
abbrev Identity :=
  String ×ₗ Nat ×ₗ Nat ×ₗ Nat ×ₗ String ×ₗ Nat ×ₗ List RelatedIdentity

def RelatedInformation.identity (related : RelatedInformation) : RelatedIdentity :=
  toLex (related.file, toLex (related.start, toLex (related.length,
    toLex (related.messageText, toLex (related.code, related.depth)))))

namespace Diagnostic

def identity (diagnostic : Diagnostic) : Identity :=
  toLex (diagnostic.file, toLex (diagnostic.start, toLex (diagnostic.length,
    toLex (diagnostic.code, toLex (diagnostic.messageText, toLex (diagnostic.category.rank,
      diagnostic.relatedInformation.map RelatedInformation.identity))))))

/-- No file comes in front of every file. -/
def sortKey (diagnostic : Diagnostic) : Identity ×ₗ WithBot Nat :=
  toLex (diagnostic.identity, diagnostic.fileId.map (·.index))

end Diagnostic

/-- The one of two neighbours that stays, if they publish the same. -/
def mergeDuplicateDiagnostics (left right : Diagnostic) : Option Diagnostic :=
  if left.identity = right.identity then
    some (if left.phase ≠ right.phase then { right with phase := .both } else right)
  else none

def deduplicateFrom (kept : Diagnostic) : List Diagnostic → List Diagnostic
  | [] => [kept]
  | diagnostic :: rest =>
    match mergeDuplicateDiagnostics diagnostic kept with
    | some merged => deduplicateFrom merged rest
    | none => kept :: deduplicateFrom diagnostic rest

def deduplicate : List Diagnostic → List Diagnostic
  | [] => []
  | diagnostic :: rest => deduplicateFrom diagnostic rest

def sortAndDeduplicate (diagnostics : List Diagnostic) : List Diagnostic :=
  deduplicate (sortByKey Diagnostic.sortKey diagnostics)

/-! ## Identities -/

theorem RelatedInformation.identity_injective : Function.Injective RelatedInformation.identity := by
  rintro ⟨⟩ ⟨⟩ h
  simpa [RelatedInformation.identity, and_assoc] using h

theorem DiagnosticCategory.rank_injective : Function.Injective DiagnosticCategory.rank := by
  rintro ⟨⟩ ⟨⟩ h <;> first | rfl | cases h

/-- The identity is the published fields and nothing else. -/
theorem identity_eq_iff {d e : Diagnostic} :
    d.identity = e.identity ↔ d.file = e.file ∧ d.start = e.start ∧ d.length = e.length ∧
      d.code = e.code ∧ d.messageText = e.messageText ∧ d.category = e.category ∧
      d.relatedInformation = e.relatedInformation := by
  simp [Diagnostic.identity, RelatedInformation.identity_injective.list_map.eq_iff,
    DiagnosticCategory.rank_injective.eq_iff]

/-! ## Sorting -/

theorem identity_le_of_sortKey {d e : Diagnostic} (h : d.sortKey ≤ e.sortKey) :
    d.identity ≤ e.identity :=
  Prod.Lex.monotone_fst _ _ h

theorem sortByKey_identities (diagnostics : List Diagnostic) :
    (sortByKey Diagnostic.sortKey diagnostics).Pairwise fun d e => d.identity ≤ e.identity :=
  (sortByKey_pairwise Diagnostic.sortKey diagnostics).imp identity_le_of_sortKey

theorem sortByKey_of_identities {diagnostics : List Diagnostic}
    (h : diagnostics.Pairwise fun d e => d.identity < e.identity) :
    sortByKey Diagnostic.sortKey diagnostics = diagnostics := by
  apply List.Pairwise.insertionSort_eq
  exact h.imp fun hlt => Prod.Lex.toLex_le_toLex.mpr (.inl hlt)

/-! ## Deduplication -/

theorem identity_of_merge {d kept merged : Diagnostic}
    (h : mergeDuplicateDiagnostics d kept = some merged) :
    d.identity = kept.identity ∧ merged.identity = kept.identity := by
  unfold mergeDuplicateDiagnostics at h
  split at h
  · rename_i hsame
    refine ⟨hsame, ?_⟩
    obtain rfl := Option.some.inj h
    split <;> rfl
  · cases h

theorem merge_eq_none_iff {d kept : Diagnostic} :
    mergeDuplicateDiagnostics d kept = none ↔ d.identity ≠ kept.identity := by
  simp [mergeDuplicateDiagnostics]

theorem map_identity_deduplicateFrom (kept : Diagnostic) (rest : List Diagnostic) :
    (deduplicateFrom kept rest).map (·.identity) =
      (rest.map (·.identity)).destutter' (· ≠ ·) kept.identity := by
  induction rest generalizing kept with
  | nil => rfl
  | cons d rest ih =>
    rw [deduplicateFrom, List.map_cons]
    cases hmerge : mergeDuplicateDiagnostics d kept with
    | some merged =>
      obtain ⟨hsame, hmerged⟩ := identity_of_merge hmerge
      rw [List.destutter'_cons_neg _ (by simp [hsame]), ← hmerged]
      exact ih merged
    | none =>
      have hne := merge_eq_none_iff.mp hmerge
      rw [List.destutter'_cons_pos _ hne.symm, ← ih d]
      rfl

theorem map_identity_deduplicate (diagnostics : List Diagnostic) :
    (deduplicate diagnostics).map (·.identity) =
      (diagnostics.map (·.identity)).destutter (· ≠ ·) := by
  cases diagnostics with
  | nil => rfl
  | cons d rest => exact map_identity_deduplicateFrom d rest

theorem deduplicateFrom_of_identities {kept : Diagnostic} {rest : List Diagnostic}
    (h : (kept :: rest).Pairwise fun d e => d.identity < e.identity) :
    deduplicateFrom kept rest = kept :: rest := by
  induction rest generalizing kept with
  | nil => rfl
  | cons d rest ih =>
    have hlt := (List.pairwise_cons.mp h).1 d List.mem_cons_self
    rw [deduplicateFrom, merge_eq_none_iff.mpr hlt.ne', ih h.of_cons]

theorem deduplicate_of_identities {diagnostics : List Diagnostic}
    (h : diagnostics.Pairwise fun d e => d.identity < e.identity) :
    deduplicate diagnostics = diagnostics := by
  cases diagnostics with
  | nil => rfl
  | cons d rest => exact deduplicateFrom_of_identities h

theorem destutter_strictly {κ : Type*} [LinearOrder κ] {l : List κ} (h : l.Pairwise (· ≤ ·)) :
    (l.destutter (· ≠ ·)).Pairwise (· < ·) := by
  have hle : (l.destutter (· ≠ ·)).Pairwise (· ≤ ·) := h.sublist (List.destutter_sublist _ l)
  have hnodup : (l.destutter (· ≠ ·)).Nodup := by
    rw [h.destutter_eq_dedup]
    exact List.nodup_dedup l
  exact (hle.and hnodup).imp fun h => lt_of_le_of_ne h.1 h.2

/-! ## The canonical list -/

theorem sortAndDeduplicate_strictly (diagnostics : List Diagnostic) :
    (sortAndDeduplicate diagnostics).Pairwise fun d e => d.identity < e.identity := by
  have hsorted := List.pairwise_map.mpr (sortByKey_identities diagnostics)
  have hstrict := destutter_strictly hsorted
  rw [← map_identity_deduplicate] at hstrict
  exact List.pairwise_map.mp hstrict

theorem mem_identities_sortAndDeduplicate {diagnostics : List Diagnostic} {identity : Identity} :
    identity ∈ (sortAndDeduplicate diagnostics).map (·.identity) ↔
      identity ∈ diagnostics.map (·.identity) := by
  rw [sortAndDeduplicate, map_identity_deduplicate, mem_destutter]
  exact ((sortByKey_perm Diagnostic.sortKey diagnostics).map _).mem_iff

/-- The identities that are left are listed once each and in order. So sorting again changes
nothing, and the order of the diagnostics does not matter. -/
theorem sortAndDeduplicate_canonical (diagnostics : List Diagnostic) :
    (sortAndDeduplicate diagnostics).Pairwise (fun d e => d.identity < e.identity) ∧
      (∀ identity, identity ∈ (sortAndDeduplicate diagnostics).map (·.identity) ↔
        identity ∈ diagnostics.map (·.identity)) ∧
      sortAndDeduplicate (sortAndDeduplicate diagnostics) = sortAndDeduplicate diagnostics ∧
      ∀ reordered : List Diagnostic, reordered.Perm diagnostics →
        (sortAndDeduplicate reordered).map (·.identity) =
          (sortAndDeduplicate diagnostics).map (·.identity) := by
  have hstrict := sortAndDeduplicate_strictly diagnostics
  refine ⟨hstrict, fun _ => mem_identities_sortAndDeduplicate, ?_, fun reordered hperm => ?_⟩
  · rw [sortAndDeduplicate, sortByKey_of_identities hstrict, deduplicate_of_identities hstrict]
  · have hstrict' := List.pairwise_map.mpr (sortAndDeduplicate_strictly reordered)
    refine hstrict'.eq_of_mem_iff (List.pairwise_map.mpr hstrict) fun identity => ?_
    rw [mem_identities_sortAndDeduplicate, mem_identities_sortAndDeduplicate]
    exact (hperm.map _).mem_iff

theorem sortAndDeduplicate_canonical_reordered :
    (sortAndDeduplicate [⟨"b.ts", 0, 1, "B", .error, 2, [], none, .program, none⟩,
        ⟨"a.ts", 0, 1, "A", .error, 1, [], none, .config, none⟩]).map (·.identity) =
      (sortAndDeduplicate [⟨"a.ts", 0, 1, "A", .error, 1, [], none, .config, none⟩,
        ⟨"b.ts", 0, 1, "B", .error, 2, [], none, .program, none⟩]).map (·.identity) :=
  (sortAndDeduplicate_canonical _).2.2.2 _ (.swap _ _ _)

end Tsz.Diagnostics
