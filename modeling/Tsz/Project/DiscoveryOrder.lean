import Tsz.Project.Discovery

/-!
# The order of a directory listing

The walk sorts what a directory lists, so the order of the listing is lost. Of the files found
that stand for one module, the one with the best extension is left, wherever it comes.

## Main definitions

* `IsRelisting` — the same directories, listed in another order.
* `candidates` — the files all patterns find, in the order they are found.
* `KeepsBest` — of the candidates for a module the best one is left.

## Main results

* `discoverWildcardFiles_order_free` — the files found do not depend on the listings, and the best
  candidate for each module is among them.
-/

namespace Tsz.Project

open Sorting

/-! ## Listings -/

theorem Component.eq_of_rank_text {c d : Component} (hrank : c.rank = d.rank)
    (htext : c.text = d.text) : c = d := by
  cases c <;> cases d <;> simp_all [Component.rank, Component.text]

theorem Path.orderKey_injective {path other : Path} (h : path.orderKey = other.orderKey) :
    path.components = other.components := by
  refine List.map_injective_iff.mpr ?_ h
  intro c d hcd
  rw [EmbeddingLike.apply_eq_iff_eq, Prod.mk.injEq] at hcd
  exact Component.eq_of_rank_text hcd.1 hcd.2

/-- A directory lists each path once. -/
def Host.ListsOnce (host : Host) : Prop :=
  ∀ directory entries, host.readDirectory directory = some entries →
    ∀ entry ∈ entries, ∀ other ∈ entries,
      entry.path.components = other.path.components → entry = other

/-- Every directory lists the same entries in some order. -/
def IsRelisting (readDirectory readDirectory' : Path → Option (List HostEntry)) : Prop :=
  ∀ directory, Option.Rel List.Perm (readDirectory directory) (readDirectory' directory)

namespace Config

theorem sortEntries_eq_of_perm {entries entries' : List HostEntry}
    (honce : ∀ entry ∈ entries, ∀ other ∈ entries,
      entry.path.components = other.path.components → entry = other)
    (h : entries.Perm entries') : sortEntries entries = sortEntries entries' := by
  have hperm : (sortEntries entries).Perm (sortEntries entries') :=
    (sortByKey_perm _ entries).trans (h.trans (sortByKey_perm _ entries').symm)
  refine hperm.eq_of_pairwise ?_ (sortByKey_pairwise _ entries) (sortByKey_pairwise _ entries')
  intro entry other hentry hother hle hge
  have hkey := le_antisymm hle hge
  rw [EmbeddingLike.apply_eq_iff_eq, Prod.mk.injEq] at hkey
  exact honce entry ((mem_sortByKey _).mp hentry) other
    (h.mem_iff.mpr ((mem_sortByKey _).mp hother)) (Path.orderKey_injective hkey.2)

section

variable {host : Host} {readDirectory : Path → Option (List HostEntry)}

/-- The walk does not depend on the order of the listings. -/
theorem visitDirectory_relist (honce : host.ListsOnce)
    (h : IsRelisting host.readDirectory readDirectory) (pattern : Name) (depth : Nat) :
    visitDirectory { host with readDirectory } pattern depth = visitDirectory host pattern depth := by
  induction depth with
  | zero => rfl
  | succ depth ih =>
    funext directory walk
    rw [visitDirectory, visitDirectory]
    split_ifs
    · rfl
    · have hrelist := h directory
      rcases hlist : host.readDirectory directory with _ | entries
      · rw [hlist] at hrelist
        rcases hlist' : readDirectory directory with _ | entries'
        · simp only [hlist']
        · rw [hlist'] at hrelist
          cases hrelist
      · rw [hlist] at hrelist
        rcases hlist' : readDirectory directory with _ | entries'
        · rw [hlist'] at hrelist
          cases hrelist
        · rw [hlist'] at hrelist
          obtain ⟨hperm⟩ := hrelist
          have hsort := sortEntries_eq_of_perm (honce directory entries hlist) hperm
          simp only [hlist', ← hsort, ih]

theorem discoverWildcardFiles_relist (honce : host.ListsOnce)
    (h : IsRelisting host.readDirectory readDirectory) (depth : Nat) (includes excludes : Selector)
    (allowJs : Bool) (literalFiles : List Path) :
    discoverWildcardFiles depth { host with readDirectory } includes excludes allowJs
        literalFiles =
      discoverWildcardFiles depth host includes excludes allowJs literalFiles := by
  have hpattern (literals : List (ExtensionIdentity × Nat)) :
      discoverPattern depth { host with readDirectory } includes excludes allowJs literals =
        discoverPattern depth host includes excludes allowJs literals := by
    funext found raw
    simp only [discoverPattern, visitDirectory_relist honce h]
    rfl
  simp only [discoverWildcardFiles, hpattern]

end

/-! ## Candidates -/

section

variable (depth : Nat) (host : Host) (includes excludes : Selector) (allowJs : Bool)

def isWanted (pattern : Name) (file : Path) : Bool :=
  supportedSourceFile file allowJs && globMatches pattern file host.caseSensitive &&
    !excludedBy host excludes file

/-- The files a pattern finds. -/
def patternCandidates (raw : Name) : Option (List Path) :=
  let pattern := includePattern includes.origin raw host
  match traversalBase pattern host with
  | none => some []
  | some base =>
    (visitDirectory host pattern depth base ⟨[], []⟩).map fun walk =>
      walk.files.filter (isWanted host excludes allowJs pattern)

def candidates : Option (List Path) :=
  (includes.values.mapM (patternCandidates depth host includes excludes allowJs)).map List.flatten

end

/-- Take a wanted file, if it is new. -/
def admitWanted (host : Host) (literals : List (ExtensionIdentity × Nat)) (found : Discovered)
    (file : Path) : Discovered :=
  let key := pathKey file host.caseSensitive
  if key ∈ found.seen then found
  else
    let found := { found with seen := key :: found.seen }
    match extensionIdentity file host.caseSensitive with
    | none => found
    | some (identity, priority) => admitIdentity literals found file identity priority

section

variable {depth : Nat} {host : Host} {includes excludes : Selector} {allowJs : Bool}
  {literals : List (ExtensionIdentity × Nat)}

theorem discoverPattern_eq (found : Discovered) (raw : Name) :
    discoverPattern depth host includes excludes allowJs literals found raw =
      (patternCandidates depth host includes excludes allowJs raw).map fun files =>
        files.foldl (admitWanted host literals) found := by
  have hadmit (pattern : Name) : admitFile host pattern excludes allowJs literals =
      fun found file => if isWanted host excludes allowJs pattern file then
        admitWanted host literals found file else found := by
    funext found file
    unfold admitFile isWanted admitWanted
    cases supportedSourceFile file allowJs <;> cases globMatches pattern file host.caseSensitive <;>
      cases excludedBy host excludes file <;> rfl
  simp only [discoverPattern, patternCandidates, hadmit]
  generalize includePattern includes.origin raw host = pattern
  cases traversalBase pattern host with
  | none => rfl
  | some base =>
    dsimp only
    cases visitDirectory host pattern depth base ⟨[], []⟩ with
    | none => rfl
    | some walk => simp [List.foldl_filter]

/-- The search takes the candidates one by one. -/
theorem discoverWildcardFiles_eq (literalFiles : List Path) :
    discoverWildcardFiles depth host includes excludes allowJs literalFiles =
      (candidates depth host includes excludes allowJs).map fun files =>
        ((files.foldl (admitWanted host
          (literalFiles.filterMap fun path => extensionIdentity path host.caseSensitive))
            ⟨[], [], []⟩).result.filterMap id) := by
  generalize hliterals : (literalFiles.filterMap fun path =>
    extensionIdentity path host.caseSensitive) = literals
  have hfold (values : List Name) (found : Discovered) :
      values.foldlM (discoverPattern depth host includes excludes allowJs literals) found =
        ((values.mapM (patternCandidates depth host includes excludes allowJs)).map
          List.flatten).map fun files => files.foldl (admitWanted host literals) found := by
    induction values generalizing found with
    | nil => rfl
    | cons raw values ih =>
      rw [List.foldlM_cons, discoverPattern_eq, List.mapM_cons]
      cases patternCandidates depth host includes excludes allowJs raw with
      | none => rfl
      | some files =>
        simp only [Option.map_some, Option.bind_eq_bind, Option.bind_some, ih, Option.pure_def]
        cases values.mapM (patternCandidates depth host includes excludes allowJs) with
        | none => rfl
        | some rest => simp
  simp only [discoverWildcardFiles, candidates, hliterals, hfold]
  cases includes.values.mapM (patternCandidates depth host includes excludes allowJs) <;> rfl

end

/-! ## Taking candidates -/

section

variable {host : Host} {literals : List (ExtensionIdentity × Nat)} {files : List Path}
  {found : Discovered} {file : Path} {identity : ExtensionIdentity} {priority : Nat}

/-- A literal file with a better extension stands for the module. -/
def IsBeaten (literals : List (ExtensionIdentity × Nat)) (identity : ExtensionIdentity)
    (priority : Nat) : Prop :=
  ∃ literal ∈ literals, literal.1 = identity ∧ literal.2 < priority

def standsFor (host : Host) (identity : ExtensionIdentity) (file : Path) : Bool :=
  (extensionIdentity file host.caseSensitive).map (·.1) = some identity

/-- What is found when some candidates have been taken: for each module the best of them. -/
structure TakesBest (host : Host) (literals : List (ExtensionIdentity × Nat)) (files : List Path)
    (found : Discovered) : Prop where
  seen : ∀ key, key ∈ found.seen ↔ ∃ file ∈ files, pathKey file host.caseSensitive = key
  mem : ∀ file ∈ found.result.filterMap id, file ∈ files
  covered : ∀ file ∈ files, ∀ identity priority,
    extensionIdentity file host.caseSensitive = some (identity, priority) →
      IsBeaten literals identity priority ∨
        ∃ better index, found.priorities.lookup identity = some (better, index) ∧ better ≤ priority
  unkept : ∀ identity, found.priorities.lookup identity = none →
    (found.result.filterMap id).filter (standsFor host identity) = []
  kept : ∀ identity priority index,
    found.priorities.lookup identity = some (priority, index) →
      ¬ IsBeaten literals identity priority ∧ ∃ file ∈ files,
        extensionIdentity file host.caseSensitive = some (identity, priority) ∧
          found.result[index]? = some (some file) ∧
            (found.result.filterMap id).filter (standsFor host identity) = [file]

theorem takesBest_nil : TakesBest host literals [] ⟨[], [], []⟩ where
  seen := by simp
  mem := by simp
  covered := by simp
  unkept := by simp
  kept := by simp

theorem standsFor_iff : standsFor host identity file = true ↔
    ∃ priority, extensionIdentity file host.caseSensitive = some (identity, priority) := by
  simp [standsFor]

theorem not_standsFor_of_ne {other : ExtensionIdentity}
    (h : extensionIdentity file host.caseSensitive = some (identity, priority))
    (hne : identity ≠ other) : standsFor host other file = false := by
  simp [standsFor, h, hne]

/-- A file that has nothing new to say about its module changes only what was seen. -/
theorem TakesBest.skip (h : TakesBest host literals files found) {seen : List Name}
    (hseen : ∀ key, key ∈ seen ↔ key = pathKey file host.caseSensitive ∨ key ∈ found.seen)
    (hcovered : ∀ identity priority,
      extensionIdentity file host.caseSensitive = some (identity, priority) →
        IsBeaten literals identity priority ∨
          ∃ better index, found.priorities.lookup identity = some (better, index) ∧
            better ≤ priority) :
    TakesBest host literals (files ++ [file]) { found with seen } where
  seen key := by
    rw [hseen, h.seen]
    grind
  mem other hother := List.mem_append_left _ (h.mem other hother)
  covered other hother := by
    rcases List.mem_append.mp hother with hother | hother
    · exact h.covered other hother
    · rw [List.mem_singleton.mp hother]
      exact hcovered
  unkept := h.unkept
  kept identity priority index hlookup := by
    obtain ⟨hbeaten, other, hother, hrest⟩ := h.kept identity priority index hlookup
    exact ⟨hbeaten, other, List.mem_append_left _ hother, hrest⟩

/-- A result that has lost what stood for one module, and nothing else. -/
structure Clears (host : Host) (identity : ExtensionIdentity) (result cleared : List (Option Path)) :
    Prop where
  mem : ∀ file ∈ cleared.filterMap id, file ∈ result.filterMap id
  empty : (cleared.filterMap id).filter (standsFor host identity) = []
  others : ∀ other, other ≠ identity → (cleared.filterMap id).filter (standsFor host other) =
    (result.filterMap id).filter (standsFor host other)
  index : ∀ other, other ≠ identity → ∀ (index : Nat) (file : Path),
    standsFor host other file = true → result[index]? = some (some file) →
      cleared[index]? = some (some file)

theorem clears_refl {result : List (Option Path)}
    (h : (result.filterMap id).filter (standsFor host identity) = []) :
    Clears host identity result result where
  mem _ hfile := hfile
  empty := h
  others _ _ := rfl
  index _ _ _ _ _ h := h

theorem clears_set {result : List (Option Path)} {index : Nat}
    (hidentity : extensionIdentity file host.caseSensitive = some (identity, priority))
    (hindex : result[index]? = some (some file))
    (honly : (result.filterMap id).filter (standsFor host identity) = [file]) :
    Clears host identity result (result.set index none) := by
  obtain ⟨hlt, hget⟩ := List.getElem?_eq_some_iff.mp hindex
  have hsplit : result = result.take index ++ some file :: result.drop (index + 1) := by
    rw [← hget, ← List.drop_eq_getElem_cons hlt, List.take_append_drop]
  have hresult : result.filterMap id =
      (result.take index).filterMap id ++ file :: (result.drop (index + 1)).filterMap id := by
    conv_lhs => rw [hsplit]
    simp
  have hset : (result.set index none).filterMap id =
      (result.take index).filterMap id ++ (result.drop (index + 1)).filterMap id := by
    rw [List.set_eq_take_append_cons_drop, if_pos hlt]
    simp
  have hstands : standsFor host identity file = true := standsFor_iff.mpr ⟨priority, hidentity⟩
  refine ⟨?_, ?_, ?_, ?_⟩
  · intro other hother
    rw [hset] at hother
    rw [hresult]
    grind
  · rw [hresult, List.filter_append, List.filter_cons_of_pos hstands] at honly
    rw [hset, List.filter_append]
    have hlength := congrArg List.length honly
    simp only [List.length_append, List.length_cons, List.length_nil] at hlength
    rw [List.eq_nil_of_length_eq_zero (show (List.filter _ _).length = 0 by omega),
      List.eq_nil_of_length_eq_zero (show (List.filter _ _).length = 0 by omega)]
    rfl
  · intro other hne
    have hnot := not_standsFor_of_ne hidentity hne.symm
    rw [hset, hresult, List.filter_append, List.filter_append,
      List.filter_cons_of_neg (by simp [hnot])]
  · intro other hne i otherFile hother hget'
    have hi : index ≠ i := by
      rintro rfl
      rw [hindex] at hget'
      obtain rfl : file = otherFile := by simpa using hget'
      rw [not_standsFor_of_ne hidentity hne.symm] at hother
      cases hother
    rw [List.getElem?_set_ne hi, hget']

theorem TakesBest.keep (h : TakesBest host literals files found) {seen : List Name}
    (hseen : ∀ key, key ∈ seen ↔ key = pathKey file host.caseSensitive ∨ key ∈ found.seen)
    (hidentity : extensionIdentity file host.caseSensitive = some (identity, priority))
    (hbeaten : ¬ IsBeaten literals identity priority) {cleared : List (Option Path)}
    (hclears : Clears host identity found.result cleared)
    (hbetter : ∀ other index, found.priorities.lookup identity = some (other, index) →
      priority ≤ other) :
    TakesBest host literals (files ++ [file])
      { result := cleared ++ [some file], seen
        priorities := (identity, priority, cleared.length) :: found.priorities } := by
  have hresult : (cleared ++ [some file]).filterMap id = cleared.filterMap id ++ [file] := by simp
  have hself : standsFor host identity file = true := standsFor_iff.mpr ⟨priority, hidentity⟩
  have hlookup (other : ExtensionIdentity) (hne : other ≠ identity) :
      ((identity, priority, cleared.length) :: found.priorities).lookup other =
        found.priorities.lookup other := by
    rw [List.lookup_cons, beq_false_of_ne hne]
  have hlookupSelf : ((identity, priority, cleared.length) :: found.priorities).lookup identity =
      some (priority, cleared.length) := by
    rw [List.lookup_cons, beq_self_eq_true]
  have hfilter (other : ExtensionIdentity) (hne : other ≠ identity) :
      ((cleared ++ [some file]).filterMap id).filter (standsFor host other) =
        (found.result.filterMap id).filter (standsFor host other) := by
    have hnot := not_standsFor_of_ne hidentity hne.symm
    rw [hresult, List.filter_append, hclears.others other hne]
    simp [hnot]
  refine ⟨?_, ?_, ?_, ?_, ?_⟩
  · intro key
    rw [hseen, h.seen]
    grind
  · intro other hother
    rw [hresult] at hother
    rcases List.mem_append.mp hother with hother | hother
    · exact List.mem_append_left _ (h.mem other (hclears.mem other hother))
    · exact List.mem_append_right _ hother
  · intro other hother otherIdentity otherPriority heq
    by_cases hne : otherIdentity = identity
    · subst hne
      rcases List.mem_append.mp hother with hother | hother
      · rcases h.covered other hother _ _ heq with hbeats | ⟨better, index, hbest, hle⟩
        · exact .inl hbeats
        · exact .inr ⟨priority, _, hlookupSelf, (hbetter better index hbest).trans hle⟩
      · rw [List.mem_singleton.mp hother, hidentity] at heq
        obtain ⟨-, rfl⟩ := by simpa using heq
        exact .inr ⟨priority, _, hlookupSelf, le_rfl⟩
    · rcases List.mem_append.mp hother with hother | hother
      · rw [hlookup _ hne]
        exact h.covered other hother _ _ heq
      · rw [List.mem_singleton.mp hother, hidentity] at heq
        exact absurd (by simpa using congrArg (Option.map Prod.fst) heq.symm) hne
  · intro other hnone
    have hne : other ≠ identity := by
      rintro rfl
      rw [hlookupSelf] at hnone
      cases hnone
    rw [hfilter other hne]
    exact h.unkept other (by rwa [hlookup other hne] at hnone)
  · intro other otherPriority index hsome
    by_cases hne : other = identity
    · subst hne
      rw [hlookupSelf] at hsome
      obtain ⟨rfl, rfl⟩ := by simpa using hsome
      refine ⟨hbeaten, file, by simp, hidentity, by simp, ?_⟩
      rw [hresult, List.filter_append, hclears.empty]
      simp [hself]
    · rw [hlookup other hne] at hsome
      obtain ⟨hunbeaten, kept, hkept, heq, hindex, honly⟩ := h.kept other _ _ hsome
      refine ⟨hunbeaten, kept, List.mem_append_left _ hkept, heq, ?_, ?_⟩
      · have hget := hclears.index other hne index kept (standsFor_iff.mpr ⟨_, heq⟩) hindex
        rw [List.getElem?_append_left (List.getElem?_eq_some_iff.mp hget).1, hget]
      · rw [hfilter other hne, honly]

/-- Taking one file more. -/
theorem takesBest_admitWanted (h : TakesBest host literals files found) (file : Path) :
    TakesBest host literals (files ++ [file]) (admitWanted host literals found file) := by
  dsimp only [admitWanted]
  split_ifs with hseen
  · -- another file with the same key was taken before, and speaks for the same module
    obtain ⟨other, hother, hkey⟩ := (h.seen _).mp hseen
    have hsame : extensionIdentity other host.caseSensitive =
        extensionIdentity file host.caseSensitive := congrArg stripExtension hkey
    refine h.skip (by grind) fun identity priority hidentity => ?_
    exact h.covered other hother identity priority (hsame.trans hidentity)
  · have hcons : ∀ key, key ∈ pathKey file host.caseSensitive :: found.seen ↔
        key = pathKey file host.caseSensitive ∨ key ∈ found.seen := fun key => List.mem_cons
    cases hidentity : extensionIdentity file host.caseSensitive with
    | none => exact h.skip hcons (by simp [hidentity])
    | some value =>
      obtain ⟨identity, priority⟩ := value
      have hbeaten : (literals.any fun literal =>
          literal.1 = identity && literal.2 < priority) = true ↔
            IsBeaten literals identity priority := by
        simp [IsBeaten]
      have hcovered (hskip : IsBeaten literals identity priority ∨ ∃ better index,
          found.priorities.lookup identity = some (better, index) ∧ better ≤ priority) :
            ∀ other otherPriority, extensionIdentity file host.caseSensitive =
              some (other, otherPriority) → IsBeaten literals other otherPriority ∨
                ∃ better index, found.priorities.lookup other = some (better, index) ∧
                  better ≤ otherPriority := by
        intro other otherPriority heq
        rw [hidentity] at heq
        obtain ⟨rfl, rfl⟩ := by simpa using heq
        exact hskip
      dsimp only [admitIdentity]
      split_ifs with hbeats
      · exact h.skip hcons (hcovered (.inl (hbeaten.mp hbeats)))
      · have hunbeaten : ¬ IsBeaten literals identity priority := fun hb => hbeats (hbeaten.mpr hb)
        rcases hlookup : found.priorities.lookup identity with _ | ⟨existing, index⟩
        · refine h.keep hcons hidentity hunbeaten (clears_refl (h.unkept identity hlookup)) ?_
          simp [hlookup]
        · dsimp only
          split_ifs with hle
          · exact h.skip hcons (hcovered (.inr ⟨existing, index, hlookup, hle⟩))
          · obtain ⟨-, kept, -, heq, hindex, honly⟩ := h.kept identity existing index hlookup
            refine h.keep hcons hidentity hunbeaten (clears_set heq hindex honly) ?_
            intro other otherIndex hother
            rw [hlookup, Option.some.injEq, Prod.mk.injEq] at hother
            omega

theorem takesBest_foldl (more : List Path) (h : TakesBest host literals files found) :
    TakesBest host literals (files ++ more) (more.foldl (admitWanted host literals) found) := by
  induction more generalizing files found with
  | nil => simpa using h
  | cons file more ih =>
    rw [List.foldl_cons, ← List.singleton_append, ← List.append_assoc]
    exact ih (takesBest_admitWanted h file)

end

/-- Of the candidates for a module the best one is left, unless a literal file has a better
extension. -/
def KeepsBest (host : Host) (literals : List (ExtensionIdentity × Nat)) (files found : List Path)
    (identity : ExtensionIdentity) : Prop :=
  ∀ best, (∃ file ∈ files,
      extensionIdentity file host.caseSensitive = some (identity, best)) →
    (∀ file ∈ files, ∀ priority,
      extensionIdentity file host.caseSensitive = some (identity, priority) → best ≤ priority) →
    (IsBeaten literals identity best → found.filter (standsFor host identity) = []) ∧
      (¬ IsBeaten literals identity best → ∃ file ∈ files,
        extensionIdentity file host.caseSensitive = some (identity, best) ∧
          found.filter (standsFor host identity) = [file])

theorem TakesBest.keepsBest {host : Host} {literals : List (ExtensionIdentity × Nat)}
    {files : List Path} {found : Discovered} (h : TakesBest host literals files found)
    (identity : ExtensionIdentity) :
    KeepsBest host literals files (found.result.filterMap id) identity := by
  rintro best ⟨file, hfile, hbest⟩ hleast
  rcases hlookup : found.priorities.lookup identity with _ | ⟨priority, index⟩
  · have hbeaten : IsBeaten literals identity best := by
      rcases h.covered file hfile identity best hbest with hbeaten | ⟨better, index, hsome, -⟩
      · exact hbeaten
      · rw [hlookup] at hsome
        cases hsome
    exact ⟨fun _ => h.unkept identity hlookup, fun hnot => absurd hbeaten hnot⟩
  · obtain ⟨hunbeaten, kept, hkept, heq, -, honly⟩ := h.kept identity priority index hlookup
    have hle := hleast kept hkept priority heq
    rcases h.covered file hfile identity best hbest with hbeaten | ⟨better, index', hsome, hge⟩
    · -- a literal file that beats the best one beats every one
      obtain ⟨literal, hliteral, hidentity, hlt⟩ := hbeaten
      exact absurd ⟨literal, hliteral, hidentity, hlt.trans_le hle⟩ hunbeaten
    · rw [hlookup, Option.some.injEq, Prod.mk.injEq] at hsome
      obtain rfl : priority = best := by omega
      exact ⟨fun hbeaten => absurd hbeaten hunbeaten, fun _ => ⟨kept, hkept, heq, honly⟩⟩

/-- In whatever order directories are listed the same files are found in the same order: for each
module the best of the files that the patterns find. -/
theorem discoverWildcardFiles_order_free (depth : Nat) (host : Host)
    (readDirectory : Path → Option (List HostEntry)) (includes excludes : Selector)
    (allowJs : Bool) (literalFiles : List Path) (honce : host.ListsOnce)
    (hrelist : IsRelisting host.readDirectory readDirectory) :
    discoverWildcardFiles depth { host with readDirectory } includes excludes allowJs
        literalFiles =
      discoverWildcardFiles depth host includes excludes allowJs literalFiles ∧
    ∀ found, discoverWildcardFiles depth host includes excludes allowJs literalFiles =
        some found →
      ∃ files, candidates depth host includes excludes allowJs = some files ∧
        (∀ file ∈ found, file ∈ files) ∧
        ∀ identity, KeepsBest host
          (literalFiles.filterMap fun path => extensionIdentity path host.caseSensitive) files
            found identity := by
  refine ⟨discoverWildcardFiles_relist honce hrelist depth includes excludes allowJs literalFiles,
    fun found hfound => ?_⟩
  rw [discoverWildcardFiles_eq] at hfound
  obtain ⟨files, hfiles, rfl⟩ := Option.map_eq_some_iff.mp hfound
  have hempty : TakesBest host
      (literalFiles.filterMap fun path => extensionIdentity path host.caseSensitive) []
        ⟨[], [], []⟩ := takesBest_nil
  have hbest := takesBest_foldl files hempty
  rw [List.nil_append] at hbest
  exact ⟨files, hfiles, hbest.mem, hbest.keepsBest⟩

private def listing : List HostEntry :=
  ["/p/a.d.ts", "/p/b.ts", "/p/a.ts"].map fun text => ⟨⟨text.toList⟩, true, false⟩

private def flatHost : Host where
  caseSensitive := true
  directoryExists path := path = ⟨"/p".toList⟩
  readDirectory path := if path = ⟨"/p".toList⟩ then some listing else none
  realpath path := path

private def relistedDirectory (path : Path) : Option (List HostEntry) :=
  if path = ⟨"/p".toList⟩ then some listing.reverse else none

theorem discoverWildcardFiles_order_free_flat :
    discoverWildcardFiles 2 { flatHost with readDirectory := relistedDirectory }
        ⟨⟨"/p".toList⟩, ["*".toList]⟩ ⟨⟨"/p".toList⟩, []⟩ false [] =
      discoverWildcardFiles 2 flatHost ⟨⟨"/p".toList⟩, ["*".toList]⟩ ⟨⟨"/p".toList⟩, []⟩ false [] ∧
    discoverWildcardFiles 2 flatHost ⟨⟨"/p".toList⟩, ["*".toList]⟩ ⟨⟨"/p".toList⟩, []⟩ false [] =
      some [⟨"/p/a.ts".toList⟩, ⟨"/p/b.ts".toList⟩] := by
  refine ⟨(discoverWildcardFiles_order_free 2 flatHost relistedDirectory
    ⟨⟨"/p".toList⟩, ["*".toList]⟩ ⟨⟨"/p".toList⟩, []⟩ false [] ?_ ?_).1, by decide +kernel⟩
  · intro directory entries hentries
    have hlisting : entries = listing := by
      simp only [flatHost] at hentries
      split at hentries <;> simp_all
    subst hlisting
    decide +kernel
  · intro directory
    simp only [flatHost, relistedDirectory]
    split
    · exact .some (List.reverse_perm listing).symm
    · exact .none

end Config

end Tsz.Project
