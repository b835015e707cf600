import Tsz.Recursion.Visited
import Tsz.Project.ConfigLoading

/-!
# The cache of loaded configurations

A configuration below which there is no circularity loads to the same settings wherever it is met,
so that the cache only saves work.

## Main definitions

* `Loads` — what a configuration without circularities loads to, and what is reported.

## Main results

* `loadConfig_eq_uncached` — loading with the cache gives what loading without it gives.
-/

namespace Tsz.Project.Config

open Recursion

variable {S : OptionSchema}

section

variable (reader : Reader S)

mutual

/-- A configuration loads to settings without meeting a circularity, reporting some diagnostics
and trying to read some files. -/
inductive Loads : Path → Option (MergedConfig S) → List Diagnostic → List Path → Prop
  | unreadable {path : Path} (h : readDocument reader path = none) :
    Loads path none [cannotRead path] [path]
  | config {path : Path} {text : Name} {document : JsoncDocument} {merged : MergedConfig S}
    {diagnostics : List Diagnostic} {paths : List Path}
    (h : readDocument reader path = some (text, document))
    (hbases : LoadsBases (directoryOf path) (extendsValues document) .empty merged diagnostics paths)
    (hfresh : ∀ base ∈ paths, key reader base ≠ key reader path) :
    Loads path
      (some (ownSettings (directoryOf path) document (decodeDocument reader path text document).1
        merged))
      (diagnostics ++ (decodeDocument reader path text document).2) (path :: paths)

inductive LoadsBases : Path → List Name → MergedConfig S → MergedConfig S → List Diagnostic →
    List Path → Prop
  | nil (directory : Path) (merged : MergedConfig S) : LoadsBases directory [] merged merged [] []
  | missing {directory : Path} {raw : Name} {rest : List Name} {merged merged' : MergedConfig S}
    {diagnostics : List Diagnostic} {paths : List Path} (h : extendsPath reader directory raw = none)
    (hrest : LoadsBases directory rest merged merged' diagnostics paths) :
    LoadsBases directory (raw :: rest) merged merged' (notFound raw :: diagnostics) paths
  | base {directory base : Path} {raw : Name} {rest : List Name} {merged merged' : MergedConfig S}
    {result : Option (MergedConfig S)} {diagnostics diagnostics' : List Diagnostic}
    {paths paths' : List Path} (h : extendsPath reader directory raw = some base)
    (hbase : Loads (normalizePath base) result diagnostics paths)
    (hrest : LoadsBases directory rest ((result.map merged.mergeFrom).getD merged) merged'
      diagnostics' paths') :
    LoadsBases directory (raw :: rest) merged merged' (diagnostics ++ diagnostics')
      (paths ++ paths')

end

/-- The keys of the files on a stack. -/
def stackKeys (stack : List Path) : List Name := stack.map (key reader)

theorem findIdx?_eq_none_iff {stack : List Path} {path : Path} :
    stack.findIdx? (fun item => decide (key reader item = key reader path)) = none ↔
      key reader path ∉ stackKeys reader stack := by
  simp [stackKeys, List.findIdx?_eq_none_iff]

/-- Every document has one of finitely many keys. -/
def Finite (files : List Name) : Prop :=
  ∀ path, (readDocument reader path).isSome → key reader path ∈ files

end

section

variable {reader : Reader S} {serve : List (Name × LoadedConfig S) → Name → Option (LoadedConfig S)}
  {depth : Nat} {base : Path} {stack : List Path} {isEntry : Bool} {resolver : Resolver S}

theorem loadConfigFrom_unreadable (hnew : key reader (normalizePath base) ∉ stackKeys reader stack)
    (hserve : serve resolver.cache (key reader (normalizePath base)) = none)
    (hread : readDocument reader (normalizePath base) = none) :
    loadConfigFrom reader serve (depth + 1) base stack isEntry resolver =
      some (none, (resolver.see (key reader (normalizePath base))).report
        (cannotRead (normalizePath base))) := by
  rw [loadConfigFrom]
  simp only [(findIdx?_eq_none_iff reader).mpr hnew, hserve, hread]

/-- A configuration that is neither on the stack nor served is loaded over its bases. -/
theorem loadConfigFrom_readable (hnew : key reader (normalizePath base) ∉ stackKeys reader stack)
    (hserve : serve resolver.cache (key reader (normalizePath base)) = none)
    {text : Name} {document : JsoncDocument} {merged : MergedConfig S} {basesComplete : Bool}
    {after : Resolver S}
    (hread : readDocument reader (normalizePath base) = some (text, document))
    (hbases : loadBases reader
      (fun other => loadConfigFrom reader serve depth other (stack ++ [normalizePath base]) false)
      (directoryOf (normalizePath base)) (extendsValues document) .empty true
      (resolver.see (key reader (normalizePath base))) = some (merged, basesComplete, after)) :
    loadConfigFrom reader serve (depth + 1) base stack isEntry resolver =
      some (some (finish reader (normalizePath base) isEntry text document merged basesComplete
          after).1,
        (finish reader (normalizePath base) isEntry text document merged basesComplete after).2) := by
  rw [loadConfigFrom]
  simp only [(findIdx?_eq_none_iff reader).mpr hnew, hserve, hread, hbases, Option.bind_eq_bind,
    Option.bind_some]
  rfl

theorem loadConfigFrom_served {cached : LoadedConfig S}
    (hnew : key reader (normalizePath base) ∉ stackKeys reader stack)
    (hserve : serve resolver.cache (key reader (normalizePath base)) = some cached) :
    loadConfigFrom reader serve (depth + 1) base stack isEntry resolver =
      some (some cached, resolver) := by
  rw [loadConfigFrom]
  simp only [(findIdx?_eq_none_iff reader).mpr hnew, hserve]

/-- The part of the stack from the first configuration with a key on. -/
def circleFrom (reader : Reader S) (stack : List Path) (path : Path) : List Path :=
  stack.dropWhile fun item => key reader item ≠ key reader path

/-- A configuration that is on the stack closes a circle. -/
theorem loadConfigFrom_circle (hmem : key reader (normalizePath base) ∈ stackKeys reader stack) :
    loadConfigFrom reader serve (depth + 1) base stack isEntry resolver =
      some (none, reportCircle reader resolver (circleFrom reader stack (normalizePath base))
        (normalizePath base)) := by
  rw [loadConfigFrom]
  dsimp only
  cases hfind : stack.findIdx? fun item => decide (key reader item = key reader (normalizePath base))
  with
  | none => exact absurd hmem ((findIdx?_eq_none_iff reader).mp hfind)
  | some cycleStart =>
    obtain ⟨-, rfl⟩ := List.findIdx?_eq_some_iff_findIdx_eq.mp hfind
    have hdrop : circleFrom reader stack (normalizePath base) = stack.drop (stack.findIdx
        fun item => !decide (key reader item ≠ key reader (normalizePath base))) :=
      List.dropWhile_eq_drop_findIdx_not
    simp only [ne_eq, decide_not, Bool.not_not] at hdrop
    rw [hdrop]

end

variable {reader : Reader S}

theorem unseen_push_lt {files : List Name} (hfinite : Finite reader files) {path : Path}
    {stack : List Path} (hread : (readDocument reader path).isSome)
    (hnew : key reader path ∉ stackKeys reader stack) :
    unseen files (stackKeys reader (stack ++ [path])) < unseen files (stackKeys reader stack) :=
  unseen_lt_of_mem (hfinite path hread) hnew fun other => by simp [stackKeys, or_comm]

/-! ### The end of a load -/

section

variable {resolver : Resolver S}

/-- What is done after the bases are merged and before the result may be cached. -/
def settle (reader : Reader S) (path : Path) (isEntry : Bool) (text : Name)
    (document : JsoncDocument) (resolver : Resolver S) : Resolver S :=
  let decoded := decodeDocument reader path text document
  let resolver := { resolver with diagnostics := resolver.diagnostics ++ decoded.2 }
  if isEntry then recordEntry reader path text document decoded.1 resolver else resolver

@[simp]
theorem cache_settle (path : Path) (isEntry : Bool) (text : Name) (document : JsoncDocument)
    (resolver : Resolver S) :
    (settle reader path isEntry text document resolver).cache = resolver.cache := by
  cases isEntry <;> rfl

@[simp]
theorem incompleteConfigs_settle (path : Path) (isEntry : Bool) (text : Name)
    (document : JsoncDocument) (resolver : Resolver S) :
    (settle reader path isEntry text document resolver).incompleteConfigs =
      resolver.incompleteConfigs := by
  cases isEntry <;> rfl

theorem mem_diagnostics_settle {path : Path} {isEntry : Bool} {text : Name}
    {document : JsoncDocument} {resolver : Resolver S} {diagnostic : Diagnostic}
    (h : diagnostic ∈ (decodeDocument reader path text document).2) :
    diagnostic ∈ (settle reader path isEntry text document resolver).diagnostics := by
  cases isEntry <;> exact List.mem_append_right _ h

theorem finish_complete {path : Path} (isEntry : Bool) (text : Name) (document : JsoncDocument)
    (merged : MergedConfig S) (h : key reader path ∉ resolver.incompleteConfigs) :
    let loaded : LoadedConfig S :=
      ⟨ownSettings (directoryOf path) document (decodeDocument reader path text document).1 merged,
        true⟩
    finish reader path isEntry text document merged true resolver =
      (loaded,
        (settle reader path isEntry text document resolver).remember (key reader path) loaded) := by
  unfold finish Config.settle
  cases isEntry <;> simp [h, recordEntry]

theorem finish_incomplete {path : Path} (isEntry : Bool) (text : Name) (document : JsoncDocument)
    (merged : MergedConfig S) {basesComplete : Bool}
    (h : ¬ (basesComplete = true ∧ key reader path ∉ resolver.incompleteConfigs)) :
    finish reader path isEntry text document merged basesComplete resolver =
      (⟨ownSettings (directoryOf path) document (decodeDocument reader path text document).1 merged,
          false⟩,
        settle reader path isEntry text document resolver) := by
  unfold finish Config.settle
  cases basesComplete with
  | false => cases isEntry <;> simp
  | true =>
    have hmem : key reader path ∈ resolver.incompleteConfigs := by simpa using h
    cases isEntry <;> simp [hmem, recordEntry]

end

/-! ## Loading again -/

/-- Nothing on the stack or in a circle has one of the keys, and all were seen. -/
structure Apart (reader : Reader S) (paths stack : List Path) (resolver : Resolver S) : Prop where
  stack : ∀ path ∈ paths, key reader path ∉ stackKeys reader stack
  complete : ∀ path ∈ paths, key reader path ∉ resolver.incompleteConfigs
  seen : ∀ path ∈ paths, key reader path ∈ resolver.seenConfigs

/-- The state after some diagnostics, up to the cache. -/
def Reported (resolver : Resolver S) (diagnostics : List Diagnostic) (after : Resolver S) : Prop :=
  ∃ cache, after = { resolver with diagnostics := resolver.diagnostics ++ diagnostics, cache }

theorem Reported.refl (resolver : Resolver S) : Reported resolver [] resolver :=
  ⟨resolver.cache, by simp⟩

theorem Reported.trans {resolver middle after : Resolver S} {diagnostics diagnostics' : List Diagnostic}
    (h : Reported resolver diagnostics middle) (h' : Reported middle diagnostics' after) :
    Reported resolver (diagnostics ++ diagnostics') after := by
  obtain ⟨_, rfl⟩ := h
  obtain ⟨cache, rfl⟩ := h'
  exact ⟨cache, by simp⟩

theorem Apart.of_reported {paths stack : List Path} {resolver after : Resolver S}
    {diagnostics : List Diagnostic} (h : Apart reader paths stack resolver)
    (hafter : Reported resolver diagnostics after) : Apart reader paths stack after := by
  obtain ⟨_, rfl⟩ := hafter
  exact ⟨h.stack, h.complete, h.seen⟩

theorem Apart.mono {paths paths' stack : List Path} {resolver : Resolver S}
    (h : Apart reader paths stack resolver) (hsub : ∀ path ∈ paths', path ∈ paths) :
    Apart reader paths' stack resolver :=
  ⟨fun p hp => h.stack p (hsub p hp), fun p hp => h.complete p (hsub p hp),
    fun p hp => h.seen p (hsub p hp)⟩

theorem see_of_mem {resolver : Resolver S} {name : Name} (h : name ∈ resolver.seenConfigs) :
    resolver.see name = resolver := if_pos h

/-- Without the cache, a configuration that loads does so again wherever it is met. -/
theorem Loads.uncached {files : List Name} (hfinite : Finite reader files) {path : Path}
    {result : Option (MergedConfig S)} {diagnostics : List Diagnostic} {paths : List Path}
    (h : Loads reader path result diagnostics paths) :
    ∀ depth base stack resolver, normalizePath base = path → Apart reader paths stack resolver →
      unseen files (stackKeys reader stack) < depth →
      ∃ after, loadConfigUncached reader depth base stack false resolver =
          some (result.map fun merged => ⟨merged, true⟩, after) ∧
        Reported resolver diagnostics after := by
  refine Loads.rec
    (motive_1 := fun path result diagnostics paths _ =>
      ∀ depth base stack resolver, normalizePath base = path → Apart reader paths stack resolver →
        unseen files (stackKeys reader stack) < depth →
        ∃ after, loadConfigUncached reader depth base stack false resolver =
            some (result.map fun merged => ⟨merged, true⟩, after) ∧
          Reported resolver diagnostics after)
    (motive_2 := fun directory values merged merged' diagnostics paths _ =>
      ∀ depth stack resolver, Apart reader paths stack resolver →
        unseen files (stackKeys reader stack) < depth →
        ∃ after, loadBases reader (fun base => loadConfigUncached reader depth base stack false)
            directory values merged true resolver = some (merged', true, after) ∧
          Reported resolver diagnostics after)
    ?unreadable ?config ?nil ?missing ?base h
  case unreadable =>
    rintro path hread depth base stack resolver rfl hapart hdepth
    obtain ⟨depth, rfl⟩ : ∃ n, depth = n + 1 := ⟨depth - 1, by omega⟩
    refine ⟨resolver.report (cannotRead (normalizePath base)), ?_, resolver.cache, rfl⟩
    rw [loadConfigUncached, loadConfigFrom_unreadable (hapart.stack _ List.mem_cons_self) rfl hread,
      see_of_mem (hapart.seen _ List.mem_cons_self)]
    rfl
  case config =>
    rintro path text document merged diagnostics paths hread - hfresh ih depth base stack resolver
      rfl hapart hdepth
    obtain ⟨depth, rfl⟩ : ∃ n, depth = n + 1 := ⟨depth - 1, by omega⟩
    have hnew := hapart.stack _ List.mem_cons_self
    have hlt := unseen_push_lt hfinite (by simp [hread]) hnew
    have hbases : Apart reader paths (stack ++ [normalizePath base]) resolver := by
      have hrest := hapart.mono fun path hpath => List.mem_cons_of_mem _ hpath
      refine ⟨fun path hpath => ?_, hrest.complete, hrest.seen⟩
      have hstack := hrest.stack path hpath
      have hne := hfresh path hpath
      simp_all [stackKeys]
    obtain ⟨after, hrun, hafter⟩ := ih depth (stack ++ [normalizePath base]) resolver hbases
      (by omega)
    rw [← see_of_mem (hapart.seen _ List.mem_cons_self)] at hrun
    have hcomplete : key reader (normalizePath base) ∉ after.incompleteConfigs := by
      obtain ⟨_, rfl⟩ := hafter
      exact hapart.complete _ List.mem_cons_self
    refine ⟨_, ?_, hafter.trans ⟨(key reader (normalizePath base), ⟨ownSettings
      (directoryOf (normalizePath base)) document
      (decodeDocument reader (normalizePath base) text document).1 merged, true⟩) :: after.cache,
      rfl⟩⟩
    rw [loadConfigUncached, loadConfigFrom_readable hnew rfl hread hrun,
      finish_complete false text document merged hcomplete]
    rfl
  case nil =>
    intro directory merged depth stack resolver _ _
    exact ⟨resolver, rfl, .refl resolver⟩
  case missing =>
    intro directory raw rest merged merged' diagnostics paths hmissing _ ih depth stack resolver
      hapart hdepth
    have hreport : Reported resolver [notFound raw] (resolver.report (notFound raw)) :=
      ⟨resolver.cache, rfl⟩
    obtain ⟨after, hrun, hafter⟩ := ih depth stack _ (hapart.of_reported hreport) hdepth
    refine ⟨after, ?_, hreport.trans hafter⟩
    rw [loadBases, resolveExtendsPath, hmissing]
    exact hrun
  case base =>
    intro directory base raw rest merged merged' result diagnostics diagnostics' paths paths' hbase
      _ _ ih ihrest depth stack resolver hapart hdepth
    obtain ⟨middle, hload, hmiddle⟩ := ih depth base stack resolver rfl
      (hapart.mono fun path hpath => List.mem_append_left _ hpath) hdepth
    obtain ⟨after, hrun, hafter⟩ := ihrest depth stack middle
      ((hapart.mono fun path hpath => List.mem_append_right _ hpath).of_reported hmiddle) hdepth
    refine ⟨after, ?_, hmiddle.trans hafter⟩
    rw [loadBases, resolveExtendsPath, hbase]
    dsimp only
    rw [hload]
    cases result with
    | none => exact hrun
    | some base => exact hrun

/-! ## With and without the cache -/

/-- The configurations of a project: its entry, and what they extend. -/
inductive Asked (reader : Reader S) (root : Path) : Path → Prop
  | root : Asked reader root (normalizePath root)
  | base {path base : Path} {text : Name} {document : JsoncDocument} {raw : Name}
    (h : Asked reader root path) (hread : readDocument reader path = some (text, document))
    (hraw : raw ∈ extendsValues document)
    (hbase : extendsPath reader (directoryOf path) raw = some base) :
    Asked reader root (normalizePath base)

/-- Different configurations of the project have different keys. -/
def DistinctKeys (reader : Reader S) (root : Path) : Prop :=
  ∀ path other, Asked reader root path → Asked reader root other →
    key reader path = key reader other → path = other

/-- The diagnostics were reported, the files seen, and those that can be read are in the cache. -/
structure Backs (reader : Reader S) (root : Path) (resolver : Resolver S)
    (diagnostics : List Diagnostic) (paths : List Path) : Prop where
  reported : ∀ diagnostic ∈ diagnostics, diagnostic ∈ resolver.diagnostics
  asked : ∀ path ∈ paths, Asked reader root path
  seen : ∀ path ∈ paths, key reader path ∈ resolver.seenConfigs
  cached : ∀ path ∈ paths, (readDocument reader path).isSome →
    (resolver.cache.lookup (key reader path)).isSome

/-- Loading forgets nothing. -/
structure Grows (resolver after : Resolver S) : Prop where
  diagnostics : ∀ diagnostic ∈ resolver.diagnostics, diagnostic ∈ after.diagnostics
  seen : ∀ name ∈ resolver.seenConfigs, name ∈ after.seenConfigs
  incomplete : ∀ name ∈ resolver.incompleteConfigs, name ∈ after.incompleteConfigs
  cached : ∀ name, (resolver.cache.lookup name).isSome → (after.cache.lookup name).isSome

/-- The states of the two loaders differ in the cache and in how often diagnostics are reported. -/
def Agrees (resolver uncached : Resolver S) : Prop :=
  ∃ diagnostics cache, uncached = { resolver with diagnostics, cache } ∧
    ∀ diagnostic, diagnostic ∈ diagnostics ↔ diagnostic ∈ resolver.diagnostics

/-- What the loader keeps while some configurations are on the stack. -/
structure Invariant (reader : Reader S) (root : Path) (stack : List Path) (resolver : Resolver S) :
    Prop where
  loads : ∀ name loaded, resolver.cache.lookup name = some loaded → loaded.complete = true ∧
    ∃ path diagnostics paths, key reader path = name ∧ Asked reader root path ∧
      Loads reader path (some loaded.merged) diagnostics paths ∧
      Backs reader root resolver diagnostics paths
  apart : ∀ name, (resolver.cache.lookup name).isSome →
    name ∉ stackKeys reader stack ∧ name ∉ resolver.incompleteConfigs
  stack : ∀ path ∈ stack, Asked reader root path ∧ (readDocument reader path).isSome
  incomplete : ∀ name ∈ resolver.incompleteConfigs, ∃ path, key reader path = name ∧
    Asked reader root path ∧ (readDocument reader path).isSome

/-- How the load of a configuration may end: with what it loads to wherever it is met, incompletely,
or in a circle through the configuration that extends it. -/
def Outcome (reader : Reader S) (root : Path) (stack : List Path) (resolver : Resolver S)
    (path : Path) (result : Option (LoadedConfig S)) : Prop :=
  ((∀ loaded, result = some loaded → loaded.complete = true) ∧
    ∃ diagnostics paths, Loads reader path (result.map (·.merged)) diagnostics paths ∧
      Backs reader root resolver diagnostics paths) ∨
  (∃ loaded, result = some loaded ∧ loaded.complete = false) ∨
  ∃ top, stack.getLast? = some top ∧ key reader top ∈ resolver.incompleteConfigs

/-- Two ways to load a configuration give the same result and lead to states that agree. -/
def Simulates (reader : Reader S) (root : Path) (stack : List Path)
    (load load' : Path → Resolver S → Option (Option (LoadedConfig S) × Resolver S)) : Prop :=
  ∀ base resolver uncached, Asked reader root (normalizePath base) →
    Invariant reader root stack resolver → Agrees resolver uncached →
    ∃ result after uncached', load base resolver = some (result, after) ∧
      load' base uncached = some (result, uncached') ∧ Invariant reader root stack after ∧
      Agrees after uncached' ∧ Grows resolver after ∧
      Outcome reader root stack after (normalizePath base) result

section

variable {root : Path} {stack : List Path} {resolver after uncached : Resolver S}
  {diagnostics diagnostics' : List Diagnostic} {paths paths' : List Path}

theorem Grows.refl (resolver : Resolver S) : Grows resolver resolver :=
  ⟨fun _ => id, fun _ => id, fun _ => id, fun _ => id⟩

theorem Grows.trans {middle : Resolver S} (h : Grows resolver middle) (h' : Grows middle after) :
    Grows resolver after :=
  ⟨fun d hd => h'.diagnostics d (h.diagnostics d hd), fun n hn => h'.seen n (h.seen n hn),
    fun n hn => h'.incomplete n (h.incomplete n hn), fun n hn => h'.cached n (h.cached n hn)⟩

theorem Backs.mono (h : Backs reader root resolver diagnostics paths) (hgrows : Grows resolver after) :
    Backs reader root after diagnostics paths :=
  ⟨fun d hd => hgrows.diagnostics d (h.reported d hd), h.asked,
    fun p hp => hgrows.seen _ (h.seen p hp), fun p hp hr => hgrows.cached _ (h.cached p hp hr)⟩

theorem Backs.nil (resolver : Resolver S) : Backs reader root resolver [] [] := by
  constructor <;> simp

theorem Backs.append (h : Backs reader root resolver diagnostics paths)
    (h' : Backs reader root resolver diagnostics' paths') :
    Backs reader root resolver (diagnostics ++ diagnostics') (paths ++ paths') := by
  refine ⟨fun d hd => ?_, fun p hp => ?_, fun p hp => ?_, fun p hp => ?_⟩
  · exact (List.mem_append.mp hd).elim (h.reported d) (h'.reported d)
  · exact (List.mem_append.mp hp).elim (h.asked p) (h'.asked p)
  · exact (List.mem_append.mp hp).elim (h.seen p) (h'.seen p)
  · exact (List.mem_append.mp hp).elim (h.cached p) (h'.cached p)

/-- What backs a load is neither on the stack nor in a circle. -/
theorem Invariant.apart_of_backs (hkeys : DistinctKeys reader root)
    (hinv : Invariant reader root stack resolver)
    (h : Backs reader root resolver diagnostics paths) : Apart reader paths stack resolver := by
  refine ⟨fun path hpath hmem => ?_, fun path hpath hmem => ?_, h.seen⟩
  · obtain ⟨other, hother, heq⟩ := List.mem_map.mp hmem
    obtain ⟨hasked, hread⟩ := hinv.stack other hother
    obtain rfl := hkeys other path hasked (h.asked path hpath) heq
    exact (hinv.apart _ (h.cached other hpath hread)).1 hmem
  · obtain ⟨other, heq, hasked, hread⟩ := hinv.incomplete _ hmem
    obtain rfl := hkeys other path hasked (h.asked path hpath) heq
    exact (hinv.apart _ (h.cached other hpath hread)).2 hmem

/-- Reporting and counting keep the invariant. -/
theorem Invariant.of_grows (h : Invariant reader root stack resolver)
    (hgrows : Grows resolver after) (hcache : after.cache = resolver.cache)
    (hincomplete : after.incompleteConfigs = resolver.incompleteConfigs) :
    Invariant reader root stack after := by
  refine ⟨fun name loaded hlookup => ?_, ?_, h.stack, ?_⟩
  · obtain ⟨hcomplete, path, diagnostics, paths, hkey, hasked, hloads, hbacks⟩ :=
      h.loads name loaded (hcache ▸ hlookup)
    exact ⟨hcomplete, path, diagnostics, paths, hkey, hasked, hloads, hbacks.mono hgrows⟩
  · rw [hcache, hincomplete]
    exact h.apart
  · rw [hincomplete]
    exact h.incomplete

theorem Grows.report (resolver : Resolver S) (diagnostic : Diagnostic) :
    Grows resolver (resolver.report diagnostic) :=
  ⟨fun _ h => List.mem_append_left _ h, fun _ => id, fun _ => id, fun _ => id⟩

theorem Grows.see (resolver : Resolver S) (name : Name) : Grows resolver (resolver.see name) := by
  unfold Resolver.see
  split
  · exact .refl resolver
  · exact ⟨fun _ => id, fun _ h => List.mem_cons_of_mem _ h, fun _ => id, fun _ => id⟩

theorem mem_seenConfigs_see (resolver : Resolver S) (name : Name) :
    name ∈ (resolver.see name).seenConfigs := by
  unfold Resolver.see
  split
  · assumption
  · exact List.mem_cons_self

theorem Agrees.report (h : Agrees resolver uncached) (diagnostic : Diagnostic) :
    Agrees (resolver.report diagnostic) (uncached.report diagnostic) := by
  obtain ⟨diagnostics, cache, rfl, hmem⟩ := h
  exact ⟨diagnostics ++ [diagnostic], cache, rfl, fun d => by simp [Resolver.report, hmem]⟩

theorem Agrees.see (h : Agrees resolver uncached) (name : Name) :
    Agrees (resolver.see name) (uncached.see name) := by
  obtain ⟨diagnostics, cache, rfl, hmem⟩ := h
  refine ⟨diagnostics, cache, ?_, fun d => ?_⟩
  · unfold Resolver.see
    split <;> rfl
  · unfold Resolver.see
    split <;> exact hmem d

@[simp]
theorem cache_see (resolver : Resolver S) (name : Name) :
    (resolver.see name).cache = resolver.cache := by
  unfold Resolver.see
  split <;> rfl

@[simp]
theorem incompleteConfigs_see (resolver : Resolver S) (name : Name) :
    (resolver.see name).incompleteConfigs = resolver.incompleteConfigs := by
  unfold Resolver.see
  split <;> rfl

/-! ### The cases of a load -/

/-- What the cache serves is what a load without it gives. -/
theorem simulates_served (hkeys : DistinctKeys reader root) {files : List Name}
    (hfinite : Finite reader files) {depth : Nat} {base : Path} {cached : LoadedConfig S}
    (hasked : Asked reader root (normalizePath base))
    (hinv : Invariant reader root stack resolver) (hagrees : Agrees resolver uncached)
    (hdepth : unseen files (stackKeys reader stack) < depth)
    (hserve : resolver.cache.lookup (key reader (normalizePath base)) = some cached) :
    ∃ uncached', loadConfigUncached reader depth base stack false uncached =
        some (some cached, uncached') ∧ Agrees resolver uncached' ∧
      Outcome reader root stack resolver (normalizePath base) (some cached) := by
  obtain ⟨hcomplete, path, diagnostics, paths, hkey, hpath, hloads, hbacks⟩ :=
    hinv.loads _ _ hserve
  obtain rfl := hkeys path _ hpath hasked hkey
  obtain ⟨before, cache, rfl, hmem⟩ := hagrees
  have hapart := hinv.apart_of_backs hkeys hbacks
  obtain ⟨_, hrun, cache', rfl⟩ := hloads.uncached hfinite depth base stack
    { resolver with diagnostics := before, cache } rfl ⟨hapart.stack, hapart.complete, hapart.seen⟩
    hdepth
  have hcached : (⟨cached.merged, true⟩ : LoadedConfig S) = cached := by rw [← hcomplete]
  refine ⟨_, ?_, ⟨before ++ diagnostics, cache', rfl, fun diagnostic => ?_⟩, .inl ⟨?_, ?_⟩⟩
  · rw [hrun, Option.map_some, hcached]
  · rw [List.mem_append, hmem]
    exact ⟨fun h => h.elim id (hbacks.reported diagnostic), .inl⟩
  · rintro _ ⟨⟩
    exact hcomplete
  · exact ⟨diagnostics, paths, hloads, hbacks⟩

/-- A circle is reported alike, and spoils no cached configuration. -/
theorem simulates_circle {base : Path} (hinv : Invariant reader root stack resolver)
    (hagrees : Agrees resolver uncached)
    (hmem : key reader (normalizePath base) ∈ stackKeys reader stack) :
    let circle := circleFrom reader stack (normalizePath base)
    Invariant reader root stack (reportCircle reader resolver circle (normalizePath base)) ∧
      Agrees (reportCircle reader resolver circle (normalizePath base))
        (reportCircle reader uncached circle (normalizePath base)) ∧
      Grows resolver (reportCircle reader resolver circle (normalizePath base)) ∧
      Outcome reader root stack (reportCircle reader resolver circle (normalizePath base))
        (normalizePath base) none := by
  intro circle
  have hsuffix : circle <:+ stack := List.dropWhile_suffix _
  have hnonempty : circle ≠ [] := by
    obtain ⟨item, hitem, hkey⟩ := List.mem_map.mp hmem
    intro hnil
    have := List.dropWhile_eq_nil_iff.mp hnil item hitem
    simp [hkey] at this
  -- the keys that are marked are all on the stack
  have hmarked : ∀ name ∈ key reader (normalizePath base) :: circle.map (key reader),
      name ∈ stackKeys reader stack := by
    intro name hname
    rcases List.mem_cons.mp hname with rfl | hname
    · exact hmem
    · obtain ⟨item, hitem, rfl⟩ := List.mem_map.mp hname
      exact List.mem_map_of_mem (hsuffix.subset hitem)
  have hgrows : Grows resolver (reportCircle reader resolver circle (normalizePath base)) :=
    ⟨fun _ h => List.mem_append_left _ h, fun _ => id, fun _ h => List.mem_append_right _ h,
      fun _ => id⟩
  refine ⟨⟨fun name loaded hlookup => ?_, fun name hname => ?_, hinv.stack, fun name hname => ?_⟩,
    ?_, hgrows, .inr (.inr ?_)⟩
  · obtain ⟨hcomplete, path, diagnostics, paths, hkey, hasked, hloads, hbacks⟩ :=
      hinv.loads name loaded hlookup
    exact ⟨hcomplete, path, diagnostics, paths, hkey, hasked, hloads, hbacks.mono hgrows⟩
  · obtain ⟨hstack, hincomplete⟩ := hinv.apart name hname
    refine ⟨hstack, fun h => ?_⟩
    rcases List.mem_append.mp h with h | h
    · exact hstack (hmarked name h)
    · exact hincomplete h
  · rcases List.mem_append.mp hname with h | h
    · obtain ⟨item, hitem, rfl⟩ := List.mem_map.mp (hmarked name h)
      exact ⟨item, rfl, hinv.stack item hitem⟩
    · exact hinv.incomplete name h
  · obtain ⟨diagnostics, cache, rfl, hsame⟩ := hagrees
    exact ⟨_, cache, rfl, fun diagnostic => by simp [reportCircle, Resolver.report, hsame]⟩
  · obtain ⟨front, hfront⟩ := hsuffix
    refine ⟨circle.getLast hnonempty, ?_, ?_⟩
    · rw [← hfront, List.getLast?_append, List.getLast?_eq_some_getLast hnonempty]
      rfl
    · exact List.mem_append_left _ (List.mem_cons_of_mem _
        (List.mem_map_of_mem (List.getLast_mem hnonempty)))

/-- Bases are merged alike, and from what they load to unless the result is incomplete. -/
theorem loadBases_simulates {load load' : Path → Resolver S →
      Option (Option (LoadedConfig S) × Resolver S)}
    (hload : Simulates reader root stack load load') {directory : Path} {values : List Name}
    (hasked : ∀ raw ∈ values, ∀ base, extendsPath reader directory raw = some base →
      Asked reader root (normalizePath base))
    (merged : MergedConfig S) (basesComplete : Bool) (resolver uncached : Resolver S)
    (hinv : Invariant reader root stack resolver) (hagrees : Agrees resolver uncached) :
    ∃ merged' basesComplete' after uncached',
      loadBases reader load directory values merged basesComplete resolver =
        some (merged', basesComplete', after) ∧
      loadBases reader load' directory values merged basesComplete uncached =
        some (merged', basesComplete', uncached') ∧
      Invariant reader root stack after ∧ Agrees after uncached' ∧ Grows resolver after ∧
      (basesComplete' = true →
        (∀ top, stack.getLast? = some top → key reader top ∉ after.incompleteConfigs) →
        basesComplete = true ∧ ∃ diagnostics paths,
          LoadsBases reader directory values merged merged' diagnostics paths ∧
          Backs reader root after diagnostics paths) := by
  induction values generalizing merged basesComplete resolver uncached with
  | nil =>
    exact ⟨merged, basesComplete, resolver, uncached, rfl, rfl, hinv, hagrees, .refl resolver,
      fun hcomplete _ => ⟨hcomplete, [], [], .nil directory merged, .nil resolver⟩⟩
  | cons raw rest ih =>
    have hrest := fun value (hvalue : value ∈ rest) => hasked value (List.mem_cons_of_mem _ hvalue)
    cases hbase : extendsPath reader directory raw with
    | none =>
      have hgrows := Grows.report resolver (notFound raw)
      obtain ⟨merged', basesComplete', after, uncached', hrun, hrun', hinv', hagrees', hgrows',
        hend⟩ := ih hrest merged basesComplete _ _ (hinv.of_grows hgrows rfl rfl)
          (hagrees.report (notFound raw))
      refine ⟨merged', basesComplete', after, uncached', ?_, ?_, hinv', hagrees',
        hgrows.trans hgrows', fun hcomplete htop => ?_⟩
      · rw [loadBases, resolveExtendsPath, hbase]
        exact hrun
      · rw [loadBases, resolveExtendsPath, hbase]
        exact hrun'
      · obtain ⟨hbefore, diagnostics, paths, hloads, hbacks⟩ := hend hcomplete htop
        refine ⟨hbefore, _, _, .missing hbase hloads, fun d hd => ?_, hbacks.asked, hbacks.seen,
          hbacks.cached⟩
        rcases List.mem_cons.mp hd with rfl | hd
        · exact hgrows'.diagnostics _ (by simp [Resolver.report])
        · exact hbacks.reported d hd
    | some base =>
      obtain ⟨result, middle, uncached₁, hstep, hstep', hinv₁, hagrees₁, hgrows₁, houtcome⟩ :=
        hload base resolver uncached (hasked raw List.mem_cons_self base hbase) hinv hagrees
      obtain ⟨merged', basesComplete', after, uncached', hrun, hrun', hinv', hagrees', hgrows',
        hend⟩ := ih hrest ((result.map fun loaded => merged.mergeFrom loaded.merged).getD merged)
          (basesComplete && (result.map (·.complete)).getD true) middle uncached₁ hinv₁ hagrees₁
      refine ⟨merged', basesComplete', after, uncached', ?_, ?_, hinv', hagrees',
        hgrows₁.trans hgrows', fun hcomplete htop => ?_⟩
      · rw [loadBases, resolveExtendsPath, hbase]
        dsimp only
        rw [hstep]
        cases result <;> simpa using hrun
      · rw [loadBases, resolveExtendsPath, hbase]
        dsimp only
        rw [hstep']
        cases result <;> simpa using hrun'
      · obtain ⟨hbefore, diagnostics, paths, hloads, hbacks⟩ := hend hcomplete htop
        rw [Bool.and_eq_true] at hbefore
        rcases houtcome with ⟨-, diagnostics₁, paths₁, hloads₁, hbacks₁⟩ |
          ⟨loaded, rfl, hincomplete⟩ | ⟨top, hlast, hmarked⟩
        · refine ⟨hbefore.1, _, _, .base hbase hloads₁ ?_, (hbacks₁.mono hgrows').append hbacks⟩
          rw [Option.map_map]
          exact hloads
        · simp [hincomplete] at hbefore
        · exact absurd (hgrows'.incomplete _ hmarked) (htop top hlast)

theorem Invariant.push {path : Path} (h : Invariant reader root stack resolver)
    (hasked : Asked reader root path) (hread : (readDocument reader path).isSome)
    (hserve : resolver.cache.lookup (key reader path) = none) :
    Invariant reader root (stack ++ [path]) resolver := by
  refine ⟨h.loads, fun name hname => ⟨fun hmem => ?_, (h.apart name hname).2⟩, fun item hitem => ?_,
    h.incomplete⟩
  · rw [stackKeys, List.map_append, List.mem_append] at hmem
    rcases hmem with hmem | hmem
    · exact (h.apart name hname).1 hmem
    · obtain rfl : name = key reader path := by simpa using hmem
      rw [hserve] at hname
      cases hname
  · rcases List.mem_append.mp hitem with hitem | hitem
    · exact h.stack item hitem
    · obtain rfl := List.mem_singleton.mp hitem
      exact ⟨hasked, hread⟩

theorem Invariant.pop {path : Path} (h : Invariant reader root (stack ++ [path]) resolver) :
    Invariant reader root stack resolver := by
  refine ⟨h.loads, fun name hname => ⟨fun hmem => ?_, (h.apart name hname).2⟩, fun item hitem => ?_,
    h.incomplete⟩
  · exact (h.apart name hname).1 (by simp [stackKeys] at hmem ⊢; exact .inl hmem)
  · exact h.stack item (List.mem_append_left _ hitem)

theorem Grows.remember (resolver : Resolver S) (name : Name) (loaded : LoadedConfig S) :
    Grows resolver (resolver.remember name loaded) := by
  refine ⟨fun _ => id, fun _ => id, fun _ => id, fun other hother => ?_⟩
  change (List.lookup other ((name, loaded) :: resolver.cache)).isSome
  rw [List.lookup_cons]
  split
  · rfl
  · exact hother

/-- A configuration that loaded completely may be cached. -/
theorem Invariant.insert {path : Path} {merged : MergedConfig S}
    (h : Invariant reader root stack resolver) (hasked : Asked reader root path)
    (hstack : key reader path ∉ stackKeys reader stack)
    (hincomplete : key reader path ∉ resolver.incompleteConfigs)
    (hloads : Loads reader path (some merged) diagnostics paths)
    (hbacks : Backs reader root (resolver.remember (key reader path) ⟨merged, true⟩) diagnostics
      paths) :
    Invariant reader root stack (resolver.remember (key reader path) ⟨merged, true⟩) := by
  have hgrows := Grows.remember resolver (key reader path) ⟨merged, true⟩
  have hcases : ∀ name loaded,
      ((key reader path, (⟨merged, true⟩ : LoadedConfig S)) :: resolver.cache).lookup name =
        some loaded →
      (name = key reader path ∧ loaded = ⟨merged, true⟩) ∨ resolver.cache.lookup name = some loaded := by
    intro name loaded hlookup
    rw [List.lookup_cons] at hlookup
    by_cases hname : name = key reader path
    · subst hname
      simp only [beq_self_eq_true] at hlookup
      exact .inl ⟨rfl, (Option.some.inj hlookup).symm⟩
    · simp only [beq_eq_false_iff_ne.mpr hname] at hlookup
      exact .inr hlookup
  refine ⟨fun name loaded hlookup => ?_, fun name hname => ?_, h.stack, h.incomplete⟩
  · rcases hcases name loaded hlookup with ⟨rfl, rfl⟩ | hlookup
    · exact ⟨rfl, path, diagnostics, paths, rfl, hasked, hloads, hbacks⟩
    · obtain ⟨hcomplete, other, diagnostics', paths', hkey, hasked', hloads', hbacks'⟩ :=
        h.loads name loaded hlookup
      exact ⟨hcomplete, other, diagnostics', paths', hkey, hasked', hloads', hbacks'.mono hgrows⟩
  · obtain ⟨loaded, hloaded⟩ := Option.isSome_iff_exists.mp hname
    rcases hcases name loaded hloaded with ⟨rfl, -⟩ | hlookup
    · exact ⟨hstack, hincomplete⟩
    · exact h.apart name (by rw [hlookup]; rfl)

theorem Grows.settle (resolver : Resolver S) (path : Path) (isEntry : Bool) (text : Name)
    (document : JsoncDocument) :
    Grows resolver (settle reader path isEntry text document resolver) := by
  unfold Config.settle
  cases isEntry <;>
    exact ⟨fun _ h => List.mem_append_left _ h, fun _ => id, fun _ => id, fun _ => id⟩

theorem Agrees.settle (h : Agrees resolver uncached) (path : Path) (isEntry : Bool) (text : Name)
    (document : JsoncDocument) :
    Agrees (settle reader path isEntry text document resolver)
      (settle reader path isEntry text document uncached) := by
  obtain ⟨diagnostics, cache, rfl, hmem⟩ := h
  unfold Config.settle
  cases isEntry <;>
    exact ⟨_, cache, rfl, fun d => by simp [recordEntry, hmem]⟩

theorem Agrees.incompleteConfigs (h : Agrees resolver uncached) :
    uncached.incompleteConfigs = resolver.incompleteConfigs := by
  obtain ⟨_, _, rfl, -⟩ := h
  rfl

theorem Agrees.remember (h : Agrees resolver uncached) (name : Name) (loaded : LoadedConfig S) :
    Agrees (resolver.remember name loaded) (uncached.remember name loaded) := by
  obtain ⟨diagnostics, cache, rfl, hmem⟩ := h
  exact ⟨diagnostics, (name, loaded) :: cache, rfl, hmem⟩

/-- The configuration on top of the bases is the same, and may be cached if it is complete. -/
theorem simulates_finish (hkeys : DistinctKeys reader root) {path : Path}
    (hasked : Asked reader root path) (hnew : key reader path ∉ stackKeys reader stack)
    {text : Name} {document : JsoncDocument} (hread : readDocument reader path = some (text, document))
    (hinv : Invariant reader root (stack ++ [path]) resolver) (hagrees : Agrees resolver uncached)
    (hseen : key reader path ∈ resolver.seenConfigs) (isEntry : Bool) (merged : MergedConfig S)
    (basesComplete : Bool)
    (hbases : basesComplete = true → key reader path ∉ resolver.incompleteConfigs →
      ∃ diagnostics paths,
        LoadsBases reader (directoryOf path) (extendsValues document) .empty merged diagnostics
          paths ∧
        Backs reader root resolver diagnostics paths) :
    ∃ loaded after uncached',
      finish reader path isEntry text document merged basesComplete resolver = (loaded, after) ∧
      finish reader path isEntry text document merged basesComplete uncached =
        (loaded, uncached') ∧
      Invariant reader root stack after ∧ Agrees after uncached' ∧ Grows resolver after ∧
      Outcome reader root stack after path (some loaded) := by
  have hsettled : Grows resolver (settle reader path isEntry text document resolver) :=
    .settle resolver path isEntry text document
  have hinv' := hinv.pop.of_grows hsettled (cache_settle ..) (incompleteConfigs_settle ..)
  have hagrees' : Agrees (settle reader path isEntry text document resolver)
      (settle reader path isEntry text document uncached) :=
    hagrees.settle path isEntry text document
  by_cases hcomplete : basesComplete = true ∧ key reader path ∉ resolver.incompleteConfigs
  · obtain ⟨rfl, hunmarked⟩ := hcomplete
    obtain ⟨diagnostics, paths, hloads, hbacks⟩ := hbases rfl hunmarked
    have hapart := hinv.apart_of_backs hkeys hbacks
    have hfresh : ∀ base ∈ paths, key reader base ≠ key reader path := by
      intro base hbase heq
      exact hapart.stack base hbase (by simp [stackKeys, heq])
    have hconfig := Loads.config hread hloads hfresh
    have hgrows := hsettled.trans (Grows.remember _ (key reader path)
      ⟨ownSettings (directoryOf path) document (decodeDocument reader path text document).1 merged,
        true⟩)
    have hbacked := hbacks.mono hgrows
    have hall : Backs reader root ((settle reader path isEntry text document resolver).remember
        (key reader path) ⟨ownSettings (directoryOf path) document
          (decodeDocument reader path text document).1 merged, true⟩)
        (diagnostics ++ (decodeDocument reader path text document).2) (path :: paths) := by
      refine ⟨fun d hd => ?_, List.forall_mem_cons.mpr ⟨hasked, hbacked.asked⟩,
        List.forall_mem_cons.mpr ⟨hsettled.seen _ hseen, hbacked.seen⟩,
        List.forall_mem_cons.mpr ⟨fun _ => ?_, hbacked.cached⟩⟩
      · exact (List.mem_append.mp hd).elim (hbacked.reported d) mem_diagnostics_settle
      · simp [Resolver.remember]
    refine ⟨_, _, _, finish_complete isEntry text document merged hunmarked,
      finish_complete isEntry text document merged (hagrees.incompleteConfigs ▸ hunmarked),
      hinv'.insert hasked hnew (by simpa using hunmarked) hconfig hall, hagrees'.remember _ _,
      hgrows, .inl ⟨?_, _, _, hconfig, hall⟩⟩
    rintro _ ⟨⟩
    rfl
  · exact ⟨_, _, _, finish_incomplete isEntry text document merged hcomplete,
      finish_incomplete isEntry text document merged (by rwa [hagrees.incompleteConfigs]), hinv',
      hagrees', hsettled, .inr (.inl ⟨_, rfl, rfl⟩)⟩

/-- A configuration that is neither on the stack nor in the cache loads alike if its bases do. -/
theorem simulates_new (hkeys : DistinctKeys reader root) {depth : Nat} {base : Path}
    (hasked : Asked reader root (normalizePath base))
    (hnew : key reader (normalizePath base) ∉ stackKeys reader stack)
    (hserve : resolver.cache.lookup (key reader (normalizePath base)) = none)
    (hinv : Invariant reader root stack resolver) (hagrees : Agrees resolver uncached)
    (isEntry : Bool)
    (hload : (readDocument reader (normalizePath base)).isSome →
      Simulates reader root (stack ++ [normalizePath base])
        (fun other => loadConfig reader depth other (stack ++ [normalizePath base]) false)
        (fun other => loadConfigUncached reader depth other (stack ++ [normalizePath base]) false)) :
    ∃ result after uncached',
      loadConfig reader (depth + 1) base stack isEntry resolver = some (result, after) ∧
      loadConfigUncached reader (depth + 1) base stack isEntry uncached = some (result, uncached') ∧
      Invariant reader root stack after ∧ Agrees after uncached' ∧ Grows resolver after ∧
      Outcome reader root stack after (normalizePath base) result := by
  have hsee := Grows.see resolver (key reader (normalizePath base))
  have hinv₁ := hinv.of_grows hsee (cache_see _ _) (incompleteConfigs_see _ _)
  have hagrees₁ := hagrees.see (key reader (normalizePath base))
  cases hread : readDocument reader (normalizePath base) with
  | none =>
    have hreport := Grows.report (resolver.see (key reader (normalizePath base)))
      (cannotRead (normalizePath base))
    refine ⟨none, _, _, loadConfigFrom_unreadable hnew hserve hread,
      loadConfigFrom_unreadable hnew rfl hread, hinv₁.of_grows hreport rfl rfl,
      hagrees₁.report _, hsee.trans hreport, .inl ⟨nofun, _, _, .unreadable hread, ?_⟩⟩
    constructor
    · simp [Resolver.report]
    · simpa using hasked
    · simpa [Resolver.report] using mem_seenConfigs_see resolver _
    · simp [hread]
  | some loaded =>
    obtain ⟨text, document⟩ := loaded
    have hisSome : (readDocument reader (normalizePath base)).isSome := by rw [hread]; rfl
    have hpush := hinv₁.push hasked hisSome (by rwa [cache_see])
    obtain ⟨merged, basesComplete, middle, uncached₂, hrun, hrun', hinv₂, hagrees₂, hgrows₂, hend⟩ :=
      loadBases_simulates (hload hisSome)
        (fun raw hraw other hother => hasked.base hread hraw hother) .empty true _ _ hpush hagrees₁
    obtain ⟨config, after, uncached', hfinish, hfinish', hinv', hagrees', hgrows', houtcome⟩ :=
      simulates_finish hkeys hasked hnew hread hinv₂ hagrees₂
        (hgrows₂.seen _ (mem_seenConfigs_see resolver _)) isEntry merged basesComplete
        fun hcomplete hunmarked => (hend hcomplete fun top htop => by
          obtain rfl : normalizePath base = top := by simpa using htop
          exact hunmarked).2
    refine ⟨some config, after, uncached', ?_, ?_, hinv', hagrees',
      (hsee.trans hgrows₂).trans hgrows', houtcome⟩
    · rw [loadConfig, loadConfigFrom_readable hnew hserve hread hrun, hfinish]
    · rw [loadConfigUncached, loadConfigFrom_readable hnew rfl hread hrun', hfinish']

/-- The two loaders agree on every configuration of the project, on any stack. -/
theorem loadConfig_simulates (hkeys : DistinctKeys reader root) {files : List Name}
    (hfinite : Finite reader files) (depth : Nat) (stack : List Path)
    (hdepth : unseen files (stackKeys reader stack) < depth) :
    Simulates reader root stack (fun base => loadConfig reader depth base stack false)
      (fun base => loadConfigUncached reader depth base stack false) := by
  induction depth generalizing stack with
  | zero => omega
  | succ depth ih =>
    intro base resolver uncached hasked hinv hagrees
    by_cases hmem : key reader (normalizePath base) ∈ stackKeys reader stack
    · obtain ⟨hinv', hagrees', hgrows, houtcome⟩ := simulates_circle hinv hagrees hmem
      exact ⟨none, _, _, loadConfigFrom_circle hmem, loadConfigFrom_circle hmem, hinv', hagrees',
        hgrows, houtcome⟩
    · cases hserve : resolver.cache.lookup (key reader (normalizePath base)) with
      | some cached =>
        obtain ⟨uncached', hrun, hagrees', houtcome⟩ :=
          simulates_served hkeys hfinite hasked hinv hagrees hdepth hserve
        exact ⟨some cached, resolver, uncached', loadConfigFrom_served hmem hserve, hrun, hinv,
          hagrees', .refl resolver, houtcome⟩
      | none =>
        refine simulates_new hkeys hasked hmem hserve hinv hagrees false fun hread => ?_
        have hlt := unseen_push_lt hfinite hread hmem
        exact ih _ (by omega)

end

def noOptions : OptionSchema := ⟨Unit, Unit, Unit, Unit⟩

/-- A document that names bases and files. -/
def documentOf (entries : List (String × List String)) : JsoncDocument where
  value := .object <| entries.map fun (key, values) =>
    (key.toList, .array (values.map fun value => .string value.toList))
  compilerOptions := []
  compilerOptionsKey := none
  references := []

/-- A reader of documents without options, each known by its path. -/
def readerOf (caseSensitive : Bool) (documents : List (Name × JsoncDocument)) :
    Reader noOptions where
  caseSensitive
  directoryExists _ := false
  readDirectory _ := none
  realpath path := path
  currentDirectory := ⟨"/p".toList⟩
  fileExists path := (documents.lookup (foldCase caseSensitive path.text)).isSome
  readFile path := some (foldCase caseSensitive path.text)
  parseJsonc text := documents.lookup text
  decodeCompilerOptions _ _ _ _ :=
    (⟨⟨fun _ => none, fun _ => none⟩, fun _ => none, fun _ => none, fun _ => none⟩, [])

theorem finite_readerOf {documents : List (Name × JsoncDocument)}
    (h : ∀ document ∈ documents, Path.displayPath ⟨document.1⟩ = document.1) :
    Finite (readerOf true documents) (documents.map (·.1)) := by
  intro path hread
  have hread : (documents.lookup path.text).isSome := by
    cases hlookup : documents.lookup path.text with
    | none => simp [readDocument, readerOf, foldCase, hlookup] at hread
    | some document => rfl
  obtain ⟨document, hlookup⟩ := Option.isSome_iff_exists.mp hread
  obtain ⟨front, back, rfl, -⟩ := List.lookup_eq_some_iff.mp hlookup
  have hkey : path.displayPath = path.text := h (path.text, document) (by simp)
  simp [key, pathKey, foldCase, readerOf, hkey]

def twoSpellings : Reader noOptions :=
  readerOf false [
    ("/p/tsconfig.json".toList, documentOf [("extends", ["../C/b.json", "../c/b.json"])]),
    ("/c/b.json".toList, documentOf [("files", ["a"])])]

/-- The directory the files of the loaded configuration are relative to. -/
def filesOrigin (result : Option (Option (LoadedConfig noOptions) × Resolver noOptions)) :
    Option Path :=
  ((result.bind (·.1)).bind (·.merged.files)).map (·.origin)

section

variable {reader : Reader S} {root : Path}

/-- Some paths hold the configurations each of them extends. -/
def ClosedUnderExtends (reader : Reader S) (paths : List Path) : Bool :=
  paths.all fun path =>
    match readDocument reader path with
    | none => true
    | some (_, document) => (extendsValues document).all fun raw =>
      match extendsPath reader (directoryOf path) raw with
      | none => true
      | some base => normalizePath base ∈ paths

theorem Asked.mem_of_closed {paths : List Path} (hclosed : ClosedUnderExtends reader paths)
    (hroot : normalizePath root ∈ paths) {path : Path} (h : Asked reader root path) :
    path ∈ paths := by
  induction h with
  | root => exact hroot
  | base _ hread hraw hbase ih =>
    have hpath := List.all_eq_true.mp hclosed _ ih
    simp only [hread, List.all_eq_true] at hpath
    simpa only [hbase, decide_eq_true_eq] using hpath _ hraw

theorem distinctKeys_of_closed {paths : List Path} (hclosed : ClosedUnderExtends reader paths)
    (hroot : normalizePath root ∈ paths)
    (hkeys : ∀ path ∈ paths, ∀ other ∈ paths, key reader path = key reader other → path = other) :
    DistinctKeys reader root :=
  fun path other hpath hother =>
    hkeys path (hpath.mem_of_closed hclosed hroot) other (hother.mem_of_closed hclosed hroot)

end

/-- A diamond: two bases with a common one. -/
def diamond : Reader noOptions :=
  readerOf true [
    ("/p/tsconfig.json".toList, documentOf [("extends", ["./b.json", "./c.json"])]),
    ("/p/b.json".toList, documentOf [("extends", ["./d.json"])]),
    ("/p/c.json".toList, documentOf [("extends", ["./d.json"])]),
    ("/p/d.json".toList, documentOf [("files", ["a"])])]

end Tsz.Project.Config
