import Mathlib.Data.Char
import Mathlib.Data.List.Lex
import Mathlib.Data.Prod.Lex
import Tsz.Bind.Facts
import Tsz.Project.Path
import Tsz.Recursion.PostOrder
import Tsz.Sorting.SortedMap
import Tsz.Text

/-!
# The standard library

The pinned libraries that are selected, and the declarations that they make.

## Main definitions

* `Libraries` — the index of the pinned libraries.
* `StandardLibraryEnvironment.fromOptions` — the environment for options.
* `StandardLibraryEnvironment.Consistent` — names resolve to the declarations of their identities.

## Main results

* `fromRoots_selected` — which libraries are selected, and in which order.
* `fromRoots_resolve` — which names resolve, and to what.
* `fromRoots_declarations_eq` — the order of the roots does not matter for declarations.
-/

namespace Tsz.Program

open Tsz.Bind (Meaning)
open Project (Name)
open Sorting (SortedMap)
open Recursion (Traversal Refers Needs Visits)

/-- The options that a server sets; the others keep their defaults. -/
structure CompilerOptions where
  strict : Bool := true
  strictNullChecks : Option Bool := none
  strictPropertyInitialization : Option Bool := none
  noImplicitAny : Option Bool := none
  useDefineForClassFields : Option Bool := none
  noUnusedLocals : Bool := false
  noUnusedParameters : Bool := false
  noLib : Bool := false
  allowJs : Bool := false
  checkJs : Option Bool := none
  lib : Option (List Name) := none
  target : Name := "es2025".toList
  noEmit : Bool := false

/-! ## The pinned libraries -/

def standardLibraryFile : FileId := ⟨2 ^ 32 - 1⟩

structure CanonicalTypeAliasOrigin where
  name : Name
  path : Name
  source : Name
  nameStart : Nat

structure GeneratedLibrary where
  references : List Name
  typeNames : List Name
  valueNames : List Name
  homogeneousRecordTypeOrigins : List CanonicalTypeAliasOrigin

/-- The index of the pinned libraries by their names. None of their references is missing. -/
structure Libraries where
  table : SortedMap Name GeneratedLibrary
  closed : ∀ name library, table.get? name = some library →
    ∀ reference ∈ library.references, (table.get? reference).isSome

namespace Libraries

variable (libraries : Libraries)

def library (name : Name) : Option GeneratedLibrary := libraries.table.get? name

def references (name : Name) : Option (List Name) := (libraries.library name).map (·.references)

/-- A visit enters at most all libraries. -/
def visitLibrary : Traversal Name → Name → Traversal Name :=
  Recursion.visit libraries.references (libraries.table.entries.length + 1)

def defaultLibraryForTarget (target : Name) : Name :=
  let spelled : List (String × String) :=
    [("es2015", "es6"), ("es6", "es6"), ("es2016", "es2016.full"), ("es7", "es2016.full"),
      ("es2017", "es2017.full"), ("es2018", "es2018.full"), ("es2019", "es2019.full"),
      ("es2020", "es2020.full"), ("es2021", "es2021.full"), ("es2022", "es2022.full"),
      ("es2023", "es2023.full"), ("es2024", "es2024.full"), ("esnext", "esnext.full"),
      ("latest", "esnext.full")]
  ((spelled.lookup (String.ofList ((trim target).map Char.toLower))).getD "es2025.full").toList

def aliases : List (String × String) :=
  [("es6", "es2015"), ("es7", "es2016"), ("esnext.asynciterable", "es2018.asynciterable"),
    ("esnext.symbol", "es2019.symbol"), ("esnext.bigint", "es2020.bigint"),
    ("esnext.weakref", "es2021.weakref"), ("esnext.object", "es2024.object"),
    ("esnext.regexp", "es2024.regexp"), ("esnext.string", "es2024.string"),
    ("esnext.float16", "es2025.float16"), ("esnext.iterator", "es2025.iterator"),
    ("esnext.promise", "es2025.promise")]

def explicitLibraryName (name : Name) : Option Name :=
  let name := (trim name).map Char.toLower
  if name = "lib.d.ts".toList then some "es5.full".toList
  else
    let name := (stripPrefix "lib.".toList name).getD name
    let name := (stripSuffix ".d.ts".toList name).getD name
    let name := ((aliases.lookup (String.ofList name)).map String.toList).getD name
    (libraries.library name).map fun _ => name

end Libraries

/-! ## The environment -/

structure StandardLibraryDeclaration where
  id : DeclId
  name : Name
  meaning : Meaning
deriving DecidableEq

structure StandardLibraryEnvironment where
  selectedLibraries : List Name := []
  declarations : List StandardLibraryDeclaration := []
  typeNames : SortedMap Name DeclId := .empty
  valueNames : SortedMap Name DeclId := .empty
  homogeneousRecordTypes : List (DeclId × CanonicalTypeAliasOrigin) := []

namespace StandardLibraryEnvironment

section

variable (env : StandardLibraryEnvironment)

def declaration (id : DeclId) : Option StandardLibraryDeclaration :=
  if id.file = standardLibraryFile then env.declarations[id.index]? else none

def resolve (name : Name) : Meaning → Option DeclId
  | .value => env.valueNames.get? name
  | .type => env.typeNames.get? name

def homogeneousRecordOrigin (id : DeclId) : Option CanonicalTypeAliasOrigin :=
  env.homogeneousRecordTypes.lookup id

def nextId : DeclId := ⟨standardLibraryFile, env.declarations.length⟩

/-- The environment with one more declaration. -/
def declare (origins : SortedMap Name CanonicalTypeAliasOrigin) (name : Name) :
    Meaning → StandardLibraryEnvironment
  | .value =>
    { env with
      valueNames := env.valueNames.insert name env.nextId
      declarations := env.declarations ++ [⟨env.nextId, name, .value⟩] }
  | .type =>
    { env with
      homogeneousRecordTypes :=
        match origins.get? name with
        | some origin => (env.nextId, origin) :: env.homogeneousRecordTypes
        | none => env.homogeneousRecordTypes
      typeNames := env.typeNames.insert name env.nextId
      declarations := env.declarations ++ [⟨env.nextId, name, .type⟩] }

end

/-- A name and whether it is one of a value; types come first. -/
abbrev Declared := Name ×ₗ Bool

def Declared.meaning (declared : Declared) : Meaning :=
  if (ofLex declared).2 then .value else .type

/-- The environment with a declaration for each name. -/
def declareAll (origins : SortedMap Name CanonicalTypeAliasOrigin)
    (env : StandardLibraryEnvironment) (names : List (Declared × Unit)) :
    StandardLibraryEnvironment :=
  names.foldl (fun env (declared, _) =>
    env.declare origins (ofLex declared).1 declared.meaning) env

variable (libraries : Libraries)

/-- The names of a library among those that were found. -/
def declareNames (found : SortedMap Declared Unit) (name : Name) : SortedMap Declared Unit :=
  match libraries.library name with
  | none => found
  | some library =>
    let found := library.typeNames.foldl (fun found name => found.insert (toLex (name, false)) ())
      found
    library.valueNames.foldl (fun found name => found.insert (toLex (name, true)) ()) found

def declaredNames (selected : List Name) : SortedMap Declared Unit :=
  selected.foldl (declareNames libraries) .empty

def recordOrigins (selected : List Name) : SortedMap Name CanonicalTypeAliasOrigin :=
  selected.foldl (fun origins name =>
    match libraries.library name with
    | none => origins
    | some library =>
      library.homogeneousRecordTypeOrigins.foldl
        (fun origins origin => origins.insert origin.name origin) origins) .empty

def fromRoots (roots : List Name) : StandardLibraryEnvironment :=
  let selected := (roots.foldl libraries.visitLibrary {}).selected
  let origins := recordOrigins libraries selected
  let env := declareAll origins { selectedLibraries := selected }
    (declaredNames libraries selected).entries
  if (env.valueNames.get? "undefined".toList).isSome then env
  else env.declare origins "undefined".toList .value

def fromOptions (options : CompilerOptions) : StandardLibraryEnvironment :=
  if options.noLib then {}
  else
    fromRoots libraries <|
      match options.lib with
      | none => [Libraries.defaultLibraryForTarget options.target]
      | some names => names.filterMap libraries.explicitLibraryName

/-- The type of a name that authored declarations take over. -/
def hideHomogeneousRecordType (env : StandardLibraryEnvironment) (id : DeclId) :
    StandardLibraryEnvironment :=
  { env with
    typeNames := ⟨env.typeNames.entries.filter fun entry => entry.2 ≠ id,
      env.typeNames.sorted.filter _⟩ }

/-- The only authored type of a name, where it takes over one of the standard library. -/
def typeAliasCollision (env : StandardLibraryEnvironment) (isAlias : DeclId → Bool) (name : Name) :
    List DeclId → Option (DeclId × DeclId)
  | [authored] =>
    if isAlias authored then do
      let library ← env.resolve name .type
      let _ ← env.homogeneousRecordOrigin library
      some (authored, library)
    else none
  | _ => none

/-- The types of global names that are taken over, which are hidden then. -/
def typeAliasCollisions (isAlias : DeclId → Bool) :
    StandardLibraryEnvironment → List (Name × List DeclId) →
      List (DeclId × DeclId) × StandardLibraryEnvironment
  | env, [] => ([], env)
  | env, (name, declarations) :: rest =>
    match env.typeAliasCollision isAlias name declarations with
    | none => typeAliasCollisions isAlias env rest
    | some (authored, library) =>
      let (collisions, behind) :=
        typeAliasCollisions isAlias (env.hideHomogeneousRecordType library) rest
      ((authored, library) :: collisions, behind)

end StandardLibraryEnvironment

/-! ## Which libraries are selected -/

namespace Libraries

variable {libraries : Libraries}

theorem visits_roots (roots : List Name) : ∃ added,
    Visits libraries.references roots {} (roots.foldl libraries.visitLibrary {}) added := by
  have hplaces (name : Name) (h : (libraries.references name).isSome) :
      name ∈ libraries.table.entries.map Prod.fst := by
    obtain ⟨library, hlibrary⟩ := Option.isSome_iff_exists.mp ((Option.isSome_map ..).symm.trans h)
    exact List.mem_map_of_mem (SortedMap.get?_eq_some_iff.mp hlibrary)
  refine (Recursion.exists_visits hplaces _).2 roots {} ?_
  have hlength := Recursion.unseen_le_length (libraries.table.entries.map Prod.fst) []
  rw [List.length_map] at hlength
  exact Nat.lt_succ_of_le hlength

end Libraries

namespace StandardLibraryEnvironment

variable {env : StandardLibraryEnvironment} {origins : SortedMap Name CanonicalTypeAliasOrigin}
  {name other : Name} {meaning : Meaning} {id : DeclId}

@[simp]
theorem selectedLibraries_declare :
    (env.declare origins name meaning).selectedLibraries = env.selectedLibraries := by
  cases meaning <;> rfl

@[simp]
theorem declarations_declare : (env.declare origins name meaning).declarations =
    env.declarations ++ [⟨env.nextId, name, meaning⟩] := by
  cases meaning <;> rfl

theorem resolve_declare (m : Meaning) : (env.declare origins name meaning).resolve other m =
    if m = meaning ∧ other = name then some env.nextId else env.resolve other m := by
  cases meaning <;> cases m <;>
    simp [declare, resolve, SortedMap.get?_insert]

theorem declaration_declare : (env.declare origins name meaning).declaration id =
    if id = env.nextId then some ⟨env.nextId, name, meaning⟩ else env.declaration id := by
  obtain ⟨file, index⟩ := id
  simp only [declaration, declarations_declare, nextId, DeclId.mk.injEq]
  by_cases hfile : file = standardLibraryFile
  · simp only [hfile, if_true, true_and]
    rcases Nat.lt_trichotomy index env.declarations.length with hlt | rfl | hgt
    · rw [List.getElem?_append_left hlt, if_neg hlt.ne]
    · rw [List.getElem?_concat_length, if_pos rfl]
    · rw [if_neg hgt.ne', List.getElem?_eq_none (by simp; omega),
        List.getElem?_eq_none (Nat.le_of_lt hgt)]
  · rw [if_neg hfile, if_neg hfile, if_neg fun h => hfile h.1]

theorem declaration_nextId : env.declaration env.nextId = none := by
  rw [declaration, nextId, if_pos rfl]
  exact List.getElem?_eq_none le_rfl

/-- Names resolve to the declarations of their identities. -/
structure Consistent (env : StandardLibraryEnvironment) : Prop where
  id_eq : ∀ id declared, env.declaration id = some declared → declared.id = id
  resolve_iff : ∀ name meaning id,
    env.resolve name meaning = some id ↔ env.declaration id = some ⟨id, name, meaning⟩

theorem consistent_empty (selected : List Name) :
    Consistent { selectedLibraries := selected } where
  id_eq id declared h := by
    unfold declaration at h
    split_ifs at h
    cases h
  resolve_iff name meaning id := by
    cases meaning <;> simp [resolve, declaration]

/-- A new name is declared with the next identity. -/
theorem Consistent.declare (h : Consistent env) (hnew : env.resolve name meaning = none) :
    Consistent (env.declare origins name meaning) where
  id_eq id declared hdeclared := by
    rw [declaration_declare] at hdeclared
    split_ifs at hdeclared with hid
    · rw [hid, ← Option.some.inj hdeclared]
    · exact h.id_eq id declared hdeclared
  resolve_iff other m id := by
    rw [resolve_declare, declaration_declare]
    split_ifs with hother hid hid
    · simp [hother, hid]
    · simp only [Option.some.injEq]
      refine iff_of_false (Ne.symm hid) fun hdeclared => ?_
      rw [hother.1, hother.2] at hdeclared
      rw [(h.resolve_iff name meaning id).mpr hdeclared] at hnew
      cases hnew
    · rw [Option.some.injEq, hid]
      refine iff_of_false (fun hresolve => ?_) fun heq => hother ?_
      · have hdeclared := (h.resolve_iff other m env.nextId).mp hresolve
        rw [declaration_nextId] at hdeclared
        cases hdeclared
      · simp only [StandardLibraryDeclaration.mk.injEq] at heq
        exact ⟨heq.2.2.symm, heq.2.1.symm⟩
    · exact h.resolve_iff other m id

/-! ## All declarations -/

theorem declared_injective {declared other : Declared}
    (hname : (ofLex declared).1 = (ofLex other).1)
    (hmeaning : declared.meaning = other.meaning) : declared = other := by
  obtain ⟨name, value⟩ := declared
  obtain ⟨name', value'⟩ := other
  obtain rfl : name = name' := hname
  have : value = value' := by
    cases value <;> cases value' <;> first | rfl | cases hmeaning
  rw [this]

theorem consistent_declareAll (origins : SortedMap Name CanonicalTypeAliasOrigin)
    {names : List (Declared × Unit)} (h : Consistent env)
    (hnodup : (names.map Prod.fst).Nodup)
    (hnew : ∀ entry ∈ names, env.resolve (ofLex entry.1).1 entry.1.meaning = none) :
    Consistent (declareAll origins env names) ∧
      ∀ name meaning, ((declareAll origins env names).resolve name meaning).isSome ↔
        (env.resolve name meaning).isSome ∨
          ∃ entry ∈ names, (ofLex entry.1).1 = name ∧ entry.1.meaning = meaning := by
  induction names generalizing env with
  | nil => exact ⟨h, fun _ _ => by simp [declareAll]⟩
  | cons entry names ih =>
    obtain ⟨hentry, hnames⟩ := List.nodup_cons.mp hnodup
    obtain ⟨hnone, hnew⟩ := List.forall_mem_cons.mp hnew
    have hdeclare : Consistent (env.declare origins (ofLex entry.1).1 entry.1.meaning) :=
      h.declare hnone
    have hstill : ∀ other ∈ names, (env.declare origins (ofLex entry.1).1
        entry.1.meaning).resolve (ofLex other.1).1 other.1.meaning = none := by
      intro other hother
      rw [resolve_declare, if_neg, hnew other hother]
      rintro ⟨hmeaning, hname⟩
      rw [← declared_injective hname hmeaning] at hentry
      exact hentry (List.mem_map_of_mem hother)
    obtain ⟨hconsistent, hresolve⟩ := ih hdeclare hnames hstill
    refine ⟨hconsistent, fun name meaning => (hresolve name meaning).trans ?_⟩
    rw [resolve_declare, List.exists_mem_cons_iff]
    split_ifs with hsame
    · refine iff_of_true (.inl rfl) (.inr (.inl ⟨hsame.2.symm, hsame.1.symm⟩))
    · have hother : ¬ ((ofLex entry.1).1 = name ∧ entry.1.meaning = meaning) :=
        fun h => hsame ⟨h.2.symm, h.1.symm⟩
      rw [or_iff_right hother]

theorem selectedLibraries_declareAll (names : List (Declared × Unit)) :
    (declareAll origins env names).selectedLibraries = env.selectedLibraries := by
  induction names generalizing env with
  | nil => rfl
  | cons entry names ih => exact ih.trans selectedLibraries_declare

/-! ## The names of libraries -/

theorem get?_foldl_insert (value : Bool) (names : List Name) (found : SortedMap Declared Unit)
    (declared : Declared) :
    ((names.foldl (fun found name => found.insert (toLex (name, value)) ()) found).get?
        declared).isSome ↔
      (found.get? declared).isSome ∨ (ofLex declared).2 = value ∧ (ofLex declared).1 ∈ names := by
  induction names generalizing found with
  | nil => simp
  | cons name names ih =>
    rw [List.foldl_cons, ih, SortedMap.get?_insert, List.mem_cons]
    split_ifs with h
    · subst h
      simp
    · have hne : ¬ ((ofLex declared).2 = value ∧ (ofLex declared).1 = name) :=
        fun heq => h (congrArg toLex (Prod.ext heq.2 heq.1))
      rw [and_or_left, or_iff_right (a := _ ∧ _ = name) hne]

variable {libraries : Libraries} {selected : List Name}

/-- Whether a library declares a name as a type or as a value. -/
def Declares (library : GeneratedLibrary) (name : Name) : Meaning → Prop
  | .type => name ∈ library.typeNames
  | .value => name ∈ library.valueNames

theorem isSome_declareNames (found : SortedMap Declared Unit) (name : Name) (declared : Declared) :
    ((declareNames libraries found name).get? declared).isSome ↔
      (found.get? declared).isSome ∨ ∃ library, libraries.library name = some library ∧
        Declares library (ofLex declared).1 declared.meaning := by
  rw [declareNames]
  cases libraries.library name with
  | none => simp
  | some library =>
    dsimp only
    rw [get?_foldl_insert, get?_foldl_insert, or_assoc]
    refine or_congr_right ?_
    simp only [Option.some.injEq, exists_eq_left', Declared.meaning]
    cases (ofLex declared).2 <;> simp [Declares]

theorem isSome_declaredNames (declared : Declared) :
    ((declaredNames libraries selected).get? declared).isSome ↔
      ∃ name ∈ selected, ∃ library, libraries.library name = some library ∧
        Declares library (ofLex declared).1 declared.meaning := by
  have hfold (found : SortedMap Declared Unit) :
      ((selected.foldl (declareNames libraries) found).get? declared).isSome ↔
        (found.get? declared).isSome ∨ ∃ name ∈ selected, ∃ library,
          libraries.library name = some library ∧
            Declares library (ofLex declared).1 declared.meaning := by
    induction selected generalizing found with
    | nil => simp
    | cons name selected ih =>
      rw [List.foldl_cons, ih, isSome_declareNames, List.exists_mem_cons_iff, or_assoc]
  refine (hfold .empty).trans (or_iff_right ?_)
  simp

/-! ## The environment from roots -/

variable {roots roots' : List Name}

theorem fromRoots_selectedLibraries :
    (fromRoots libraries roots).selectedLibraries =
      (roots.foldl libraries.visitLibrary {}).selected := by
  rw [fromRoots]
  split_ifs
  · exact selectedLibraries_declareAll _
  · exact selectedLibraries_declare.trans (selectedLibraries_declareAll _)

theorem exists_declared_iff (names : SortedMap Declared Unit) (name : Name) (meaning : Meaning) :
    (∃ entry ∈ names.entries, (ofLex entry.1).1 = name ∧ entry.1.meaning = meaning) ↔
      (names.get? (toLex (name, meaning = .value))).isSome := by
  rw [Option.isSome_iff_exists]
  constructor
  · rintro ⟨⟨declared, value⟩, hentry, hname, hmeaning⟩
    have hdeclared : declared = toLex (name, decide (meaning = .value)) := by
      refine declared_injective hname ?_
      rw [hmeaning]
      cases meaning <;> rfl
    exact ⟨value, SortedMap.get?_eq_some_iff.mpr (hdeclared ▸ hentry)⟩
  · rintro ⟨value, hget⟩
    refine ⟨_, SortedMap.get?_eq_some_iff.mp hget, rfl, ?_⟩
    cases meaning <;> rfl

/-- The environment in front of what it is given in addition. -/
theorem consistent_libraries (origins : SortedMap Name CanonicalTypeAliasOrigin)
    (libraries : Libraries) (selected : List Name) :
    let env := declareAll origins { selectedLibraries := selected }
      (declaredNames libraries selected).entries
    Consistent env ∧ ∀ name meaning, (env.resolve name meaning).isSome ↔
      ∃ name' ∈ selected, ∃ library, libraries.library name' = some library ∧
        Declares library name meaning := by
  have hnodup : ((declaredNames libraries selected).entries.map Prod.fst).Nodup :=
    List.pairwise_map.mpr ((declaredNames libraries selected).sorted.imp fun h => h.ne)
  obtain ⟨hconsistent, hresolve⟩ := consistent_declareAll origins
    (consistent_empty selected) hnodup fun entry _ => by cases entry.1.meaning <;> rfl
  refine ⟨hconsistent, fun name meaning => (hresolve name meaning).trans ?_⟩
  have hnone : (({ selectedLibraries := selected } : StandardLibraryEnvironment).resolve name
      meaning).isSome = false := by cases meaning <;> rfl
  rw [exists_declared_iff, isSome_declaredNames, hnone]
  cases meaning <;> simp [Declared.meaning]

theorem mem_selectedLibraries {name : Name} :
    name ∈ (fromRoots libraries roots).selectedLibraries ↔ (libraries.library name).isSome ∧
      ∃ root ∈ roots, Needs libraries.references root name := by
  obtain ⟨added, h⟩ := libraries.visits_roots roots
  rw [fromRoots_selectedLibraries, h.mem_selected_iff, Libraries.references, Option.isSome_map]

/-- The libraries that are selected are those that the roots need, each of them once. A library
stands behind those it refers to, unless they need it, too. -/
theorem fromRoots_selected (libraries : Libraries) (roots : List Name) :
    let selected := (fromRoots libraries roots).selectedLibraries
    selected.Nodup ∧
      (∀ name, name ∈ selected ↔ (libraries.library name).isSome ∧
        ∃ root ∈ roots, Needs libraries.references root name) ∧
      selected.Pairwise fun name later =>
        Refers libraries.references name later → Needs libraries.references later name := by
  obtain ⟨added, h⟩ := libraries.visits_roots roots
  have hselected : (fromRoots libraries roots).selectedLibraries = added :=
    fromRoots_selectedLibraries.trans h.selected
  exact ⟨hselected ▸ h.nodup, fun name => mem_selectedLibraries, hselected ▸ h.ordered⟩

theorem fromRoots_cases (libraries : Libraries) (roots : List Name) :
    Consistent (fromRoots libraries roots) ∧
      ∀ name meaning, ((fromRoots libraries roots).resolve name meaning).isSome ↔
        (∃ name' ∈ (fromRoots libraries roots).selectedLibraries, ∃ library,
          libraries.library name' = some library ∧ Declares library name meaning) ∨
            name = "undefined".toList ∧ meaning = .value := by
  rw [fromRoots_selectedLibraries, fromRoots]
  obtain ⟨hconsistent, hresolve⟩ := consistent_libraries
    (recordOrigins libraries (roots.foldl libraries.visitLibrary {}).selected) libraries
    (roots.foldl libraries.visitLibrary {}).selected
  split_ifs with hundefined
  · refine ⟨hconsistent, fun name meaning => ?_⟩
    rw [hresolve, eq_comm, or_iff_left_of_imp]
    rintro ⟨rfl, rfl⟩
    exact (hresolve _ .value).mp hundefined
  · have hnew := Option.not_isSome_iff_eq_none.mp hundefined
    refine ⟨@Consistent.declare _ _ "undefined".toList .value hconsistent hnew,
      fun name meaning => ?_⟩
    rw [resolve_declare, ← hresolve]
    split_ifs with hsame
    · exact iff_of_true rfl (.inr ⟨hsame.2, hsame.1⟩)
    · exact (or_iff_left fun h => hsame ⟨h.2, h.1⟩).symm

/-- A name resolves to the declaration of its identity, and to nothing else. The names that resolve
are those of the selected libraries, and `undefined`. -/
theorem fromRoots_resolve (libraries : Libraries) (roots : List Name) :
    let env := fromRoots libraries roots
    (∀ id declared, env.declaration id = some declared → declared.id = id) ∧
      (∀ name meaning id,
        env.resolve name meaning = some id ↔ env.declaration id = some ⟨id, name, meaning⟩) ∧
      ∀ name meaning, (env.resolve name meaning).isSome ↔
        (∃ name' ∈ env.selectedLibraries, ∃ library, libraries.library name' = some library ∧
          Declares library name meaning) ∨ name = "undefined".toList ∧ meaning = .value := by
  obtain ⟨hconsistent, hresolve⟩ := fromRoots_cases libraries roots
  exact ⟨hconsistent.id_eq, hconsistent.resolve_iff, hresolve⟩

/-- Environments declare the same. -/
structure SameDeclarations (env env' : StandardLibraryEnvironment) : Prop where
  declarations : env.declarations = env'.declarations
  typeNames : env.typeNames = env'.typeNames
  valueNames : env.valueNames = env'.valueNames

theorem SameDeclarations.declare {env env' : StandardLibraryEnvironment}
    (h : SameDeclarations env env') (origins origins' : SortedMap Name CanonicalTypeAliasOrigin)
    (name : Name) (meaning : Meaning) :
    SameDeclarations (env.declare origins name meaning) (env'.declare origins' name meaning) := by
  have hid : env.nextId = env'.nextId := by rw [nextId, nextId, h.declarations]
  cases meaning <;>
    exact ⟨by simp [h.declarations, hid],
      by simp [StandardLibraryEnvironment.declare, h.typeNames, hid],
      by simp [StandardLibraryEnvironment.declare, h.valueNames, hid]⟩

theorem SameDeclarations.declareAll {env env' : StandardLibraryEnvironment}
    (h : SameDeclarations env env') (origins origins' : SortedMap Name CanonicalTypeAliasOrigin)
    (names : List (Declared × Unit)) :
    SameDeclarations (declareAll origins env names)
      (StandardLibraryEnvironment.declareAll origins' env' names) := by
  induction names generalizing env env' with
  | nil => exact h
  | cons entry names ih => exact ih (h.declare origins origins' _ _)

theorem declaredNames_eq {selected selected' : List Name}
    (h : ∀ name, name ∈ selected ↔ name ∈ selected') :
    declaredNames libraries selected = declaredNames libraries selected' := by
  refine SortedMap.ext_get? fun declared => ?_
  have hsome : ((declaredNames libraries selected).get? declared).isSome ↔
      ((declaredNames libraries selected').get? declared).isSome := by
    simp only [isSome_declaredNames, h]
  cases hleft : (declaredNames libraries selected).get? declared <;>
    cases hright : (declaredNames libraries selected').get? declared <;>
    simp_all

theorem sameDeclarations_fromRoots
    (h : ∀ name, name ∈ (fromRoots libraries roots).selectedLibraries ↔
      name ∈ (fromRoots libraries roots').selectedLibraries) :
    SameDeclarations (fromRoots libraries roots) (fromRoots libraries roots') := by
  simp only [fromRoots_selectedLibraries] at h
  have hstart : SameDeclarations
      { selectedLibraries := (roots.foldl libraries.visitLibrary {}).selected }
      { selectedLibraries := (roots'.foldl libraries.visitLibrary {}).selected } := ⟨rfl, rfl, rfl⟩
  have hall := hstart.declareAll
    (recordOrigins libraries (roots.foldl libraries.visitLibrary {}).selected)
    (recordOrigins libraries (roots'.foldl libraries.visitLibrary {}).selected)
    (declaredNames libraries (roots.foldl libraries.visitLibrary {}).selected).entries
  rw [fromRoots, fromRoots, ← declaredNames_eq h, ← hall.valueNames]
  split_ifs
  · exact hall
  · exact hall.declare _ _ _ _

/-- Declarations and their identities depend on the libraries that the roots need, not on the order
of the roots. -/
theorem fromRoots_declarations_eq (libraries : Libraries) {roots roots' : List Name}
    (h : ∀ name, (libraries.library name).isSome →
      ((∃ root ∈ roots, Needs libraries.references root name) ↔
        ∃ root ∈ roots', Needs libraries.references root name)) :
    let env := fromRoots libraries roots
    let env' := fromRoots libraries roots'
    env.declarations = env'.declarations ∧ (∀ id, env.declaration id = env'.declaration id) ∧
      ∀ name meaning, env.resolve name meaning = env'.resolve name meaning := by
  have hsame : SameDeclarations (fromRoots libraries roots) (fromRoots libraries roots') :=
    sameDeclarations_fromRoots fun name => by
      rw [mem_selectedLibraries, mem_selectedLibraries]
      exact and_congr_right (h name)
  refine ⟨hsame.declarations, fun id => ?_, fun name meaning => ?_⟩
  · rw [declaration, declaration, hsame.declarations]
  · cases meaning
    · exact congrArg (·.get? name) hsame.valueNames
    · exact congrArg (·.get? name) hsame.typeNames

/-- A library that refers to another. -/
def twoLibraries : Libraries where
  table := ⟨[("dom".toList, ⟨["es5".toList], ["Node".toList], ["document".toList], []⟩),
    ("es5".toList, ⟨[], ["Array".toList], ["Array".toList], []⟩)], by decide⟩
  closed name library h reference hreference := by
    rcases List.mem_cons.mp (SortedMap.get?_eq_some_iff.mp h) with heq | hmem
    · obtain ⟨rfl, rfl⟩ := Prod.mk.inj heq
      rw [List.mem_singleton.mp hreference]
      decide
    · obtain ⟨rfl, rfl⟩ := Prod.mk.inj (List.mem_singleton.mp hmem)
      cases hreference

theorem fromRoots_declarations_eq_redundant :
    let env := fromRoots twoLibraries ["dom".toList]
    let env' := fromRoots twoLibraries ["es5".toList, "dom".toList]
    env.declarations = env'.declarations ∧ (∀ id, env.declaration id = env'.declaration id) ∧
      ∀ name meaning, env.resolve name meaning = env'.resolve name meaning := by
  refine fromRoots_declarations_eq twoLibraries fun name _ => ⟨?_, ?_⟩
  · rintro ⟨root, hroot, hneeds⟩
    exact ⟨root, List.mem_cons_of_mem _ hroot, hneeds⟩
  · rintro ⟨root, hroot, hneeds⟩
    refine ⟨_, List.mem_singleton_self _, ?_⟩
    rcases List.mem_cons.mp hroot with rfl | hroot
    · exact .head ⟨["es5".toList], by decide, List.mem_singleton_self _⟩ hneeds
    · rwa [← List.mem_singleton.mp hroot]

/-! ## Types that are taken over -/

theorem resolve_hide (name : Name) (meaning : Meaning) :
    (env.hideHomogeneousRecordType id).resolve name meaning =
      if meaning = .type ∧ env.resolve name meaning = some id then none
      else env.resolve name meaning := by
  cases meaning with
  | value => simp [hideHomogeneousRecordType, resolve]
  | type =>
    ext other
    have hget : (env.hideHomogeneousRecordType id).resolve name .type = some other ↔
        env.resolve name .type = some other ∧ other ≠ id := by
      rw [resolve, resolve, SortedMap.get?_eq_some_iff, SortedMap.get?_eq_some_iff,
        hideHomogeneousRecordType, List.mem_filter]
      simp
    rw [hget]
    split_ifs with h
    · rw [h.2]
      simp [eq_comm]
    · refine and_iff_left_of_imp fun hother heq => h ⟨rfl, heq ▸ hother⟩

theorem typeAliasCollision_eq_some {isAlias : DeclId → Bool} {declarations : List DeclId}
    {collision : DeclId × DeclId} :
    env.typeAliasCollision isAlias name declarations = some collision ↔
      ∃ authored, declarations = [authored] ∧ isAlias authored ∧
        env.resolve name .type = some collision.2 ∧
          (env.homogeneousRecordOrigin collision.2).isSome ∧ collision.1 = authored := by
  unfold typeAliasCollision
  split
  · next authored =>
    obtain ⟨first, second⟩ := collision
    simp only [Option.ite_none_right_eq_some, Option.bind_eq_bind, Option.bind_eq_some_iff,
      Option.some.injEq, Prod.mk.injEq, Option.isSome_iff_exists, List.cons.injEq, and_true]
    grind
  · next hne =>
    refine iff_of_false (fun h => by cases h) ?_
    rintro ⟨authored, rfl, -⟩
    exact hne authored rfl

/-- Whether a name is taken over depends on what it resolves to. -/
theorem typeAliasCollision_congr {env' : StandardLibraryEnvironment} (isAlias : DeclId → Bool)
    (hresolve : env'.resolve name .type = env.resolve name .type)
    (horigins : env'.homogeneousRecordTypes = env.homogeneousRecordTypes)
    (authored : List DeclId) :
    env'.typeAliasCollision isAlias name authored =
      env.typeAliasCollision isAlias name authored := by
  unfold typeAliasCollision homogeneousRecordOrigin
  rw [hresolve, horigins]

/-- Different types have different identities. -/
def Distinguishes (env : StandardLibraryEnvironment) : Prop :=
  ∀ name name' id, env.resolve name .type = some id →
    env.resolve name' .type = some id → name = name'

theorem Consistent.distinguishes (h : Consistent env) : Distinguishes env := by
  intro name name' id hname hname'
  have hdeclared := (h.resolve_iff name .type id).mp hname
  rw [(h.resolve_iff name' .type id).mp hname'] at hdeclared
  have heq := Option.some.inj hdeclared
  simp only [StandardLibraryDeclaration.mk.injEq] at heq
  exact heq.2.1.symm

theorem Distinguishes.hide (h : Distinguishes env) :
    Distinguishes (env.hideHomogeneousRecordType id) := by
  intro name name' other hname hname'
  rw [resolve_hide] at hname hname'
  split_ifs at hname hname'
  exact h name name' other hname hname'

theorem typeAliasCollisions_eq (isAlias : DeclId → Bool) {globals : List (Name × List DeclId)}
    (h : Distinguishes env) (hnodup : (globals.map Prod.fst).Nodup) :
    let taken := env.typeAliasCollisions isAlias globals
    taken.1 = globals.filterMap (fun entry => env.typeAliasCollision isAlias entry.1 entry.2) ∧
      taken.2.declarations = env.declarations ∧
      (∀ name meaning, (meaning = .type → ∀ entry ∈ globals, entry.1 = name →
        env.typeAliasCollision isAlias name entry.2 = none) →
          taken.2.resolve name meaning = env.resolve name meaning) ∧
      ∀ entry ∈ globals, (env.typeAliasCollision isAlias entry.1 entry.2).isSome →
        taken.2.resolve entry.1 .type = none := by
  induction globals generalizing env with
  | nil => simp [typeAliasCollisions]
  | cons entry globals ih =>
    obtain ⟨name, authored⟩ := entry
    obtain ⟨hentry, hglobals⟩ := List.nodup_cons.mp hnodup
    dsimp only
    rw [typeAliasCollisions]
    cases hcollision : env.typeAliasCollision isAlias name authored with
    | none =>
      obtain ⟨hfound, hdeclarations, hkept, hhidden⟩ := ih h hglobals
      refine ⟨?_, hdeclarations, fun other meaning hother => hkept other meaning ?_,
        fun entry hentry hsome => ?_⟩
      · simp only [List.filterMap_cons, hcollision]
        exact hfound
      · exact fun htype entry hentry => hother htype entry (List.mem_cons_of_mem _ hentry)
      · rcases List.mem_cons.mp hentry with rfl | hentry
        · rw [hcollision] at hsome
          cases hsome
        · exact hhidden entry hentry hsome
    | some collision =>
      obtain ⟨-, -, -, hresolve, -⟩ := typeAliasCollision_eq_some.mp hcollision
      have hhide : Distinguishes (env.hideHomogeneousRecordType collision.2) := h.hide
      obtain ⟨hfound, hdeclarations, hkept, hhidden⟩ := ih hhide hglobals
      have hsame : ∀ other ≠ name, ∀ meaning,
          (env.hideHomogeneousRecordType collision.2).resolve other meaning =
            env.resolve other meaning := by
        intro other hother meaning
        rw [resolve_hide, if_neg]
        rintro ⟨rfl, hid⟩
        exact hother (h other name collision.2 hid hresolve)
      have hcongr : ∀ entry ∈ globals,
          (env.hideHomogeneousRecordType collision.2).typeAliasCollision isAlias entry.1 entry.2 =
            env.typeAliasCollision isAlias entry.1 entry.2 := by
        intro entry hmem
        refine typeAliasCollision_congr isAlias (hsame entry.1 (fun heq => hentry ?_) .type) rfl _
        exact List.mem_map.mpr ⟨entry, hmem, heq⟩
      refine ⟨?_, hdeclarations, fun other meaning hother => ?_, fun entry hmem hsome => ?_⟩
      · simp only [List.filterMap_cons, hcollision]
        rw [hfound, List.filterMap_congr hcongr]
      · by_cases hname : other = name
        · subst hname
          cases meaning with
          | value =>
            have hvalue := hkept other .value fun h => absurd h (by decide)
            exact hvalue.trans (resolve_hide other .value)
          | type =>
            rw [hother rfl _ List.mem_cons_self rfl] at hcollision
            cases hcollision
        · rw [hkept other meaning, hsame other hname]
          rintro htype entry hmem rfl
          rw [hcongr entry hmem]
          exact hother htype entry (List.mem_cons_of_mem _ hmem) rfl
      · rcases List.mem_cons.mp hmem with rfl | hmem
        · refine (hkept name .type fun _ entry hmem heq => ?_).trans ?_
          · exact absurd (List.mem_map.mpr ⟨entry, hmem, heq⟩) hentry
          · rw [resolve_hide, if_pos ⟨rfl, hresolve⟩]
        · exact hhidden entry hmem (by rwa [hcongr entry hmem])

end StandardLibraryEnvironment

end Tsz.Program
