import Tsz.Project.Patterns

/-!
# The same project in two places

What discovery finds in a project does not depend on where the project lies, as long as the path
of the project mentions no directory that the walk would skip.

## Main definitions

* `Directory`, `Directory.mount` — a project, and a host that has it at a base.
* `Base.mentions` — the directories that the path of a base makes explicit.

## Main results

* `discoverWildcardFiles_relocates_iff` — two bases find the same files in every project exactly
  when their own paths make the same directories explicit.
-/

namespace Tsz.Project.Config

open Sorting

/-! ## Projects -/

abbrev EntryName := {name : Name // IsName name}

/-- A directory tree; an entry without a directory is a file. -/
inductive Directory
  | mk (entries : List (EntryName × Option Directory))

namespace Directory

def entries : Directory → List (EntryName × Option Directory)
  | .mk entries => entries

mutual

def depth : Directory → Nat
  | .mk entries => depthEntries entries + 1

def depthEntries : List (EntryName × Option Directory) → Nat
  | [] => 0
  | (_, none) :: rest => depthEntries rest
  | (_, some directory) :: rest => max directory.depth (depthEntries rest)

end

/-- The directory that a list of names leads to. -/
def find (caseSensitive : Bool) : List Name → Directory → Option Directory
  | [], directory => some directory
  | name :: names, directory =>
    match directory.entries.find? fun entry =>
        foldCase caseSensitive entry.1 = foldCase caseSensitive name with
    | some (_, some child) => find caseSensitive names child
    | _ => none

def hostEntries (directory : Directory) (path : Path) : List HostEntry :=
  directory.entries.map fun (name, child) =>
    ⟨path.push ⟨name⟩, child.isNone, child.isSome⟩

end Directory

namespace Base

def normalName : Component → Option Name
  | .normal name => some name
  | _ => none

/-- The names that lead from the base to a path below it. -/
def locate (base : Base) (caseSensitive : Bool) (path : Path) : Option (List Name) :=
  let fold (component : Component) := foldCase caseSensitive component.text
  let length := base.names.length + 1
  if (path.components.take length).map fold = (base.path.components.map fold) then
    (path.components.drop length).mapM normalName
  else none

end Base

/-- A host that has a project at a base, and is any other host elsewhere. -/
def Directory.mount (project : Directory) (base : Base) (caseSensitive : Bool) (elsewhere : Host) :
    Host where
  caseSensitive
  directoryExists path :=
    match base.locate caseSensitive path with
    | some names => (project.find caseSensitive names).isSome
    | none => elsewhere.directoryExists path
  readDirectory path :=
    match base.locate caseSensitive path with
    | some names => (project.find caseSensitive names).map (·.hostEntries path)
    | none => elsewhere.readDirectory path
  realpath path :=
    match base.locate caseSensitive path with
    | some _ => path
    | none => elsewhere.realpath path

/-- A file of the project: the names of its directory and its own. -/
structure ProjectFile where
  directory : List EntryName
  name : EntryName
deriving DecidableEq

namespace Base

variable (base : Base)

def placeFile (file : ProjectFile) : Path :=
  base.place (file.directory.map Subtype.val ++ [file.name.1])

/-- The names of directories that the path of the base itself makes explicit. -/
def mentions (caseSensitive : Bool) (name : Name) : Bool :=
  patternExplicitlyIncludesDirectory base.path.text name caseSensitive

end Base

/-! ## Looking up -/

def entryNames (directory : List EntryName) : List Name := directory.map Subtype.val

theorem isName_entryNames {directory : List EntryName} : ∀ n ∈ entryNames directory, IsName n := by
  intro n hn
  obtain ⟨e, -, rfl⟩ := List.mem_map.mp hn
  exact e.2

@[simp] theorem entryNames_append (d e : List EntryName) :
    entryNames (d ++ e) = entryNames d ++ entryNames e := List.map_append

namespace Directory

theorem find_append (caseSensitive : Bool) (names more : List Name) (project : Directory) :
    project.find caseSensitive (names ++ more) =
      (project.find caseSensitive names).bind (find caseSensitive more) := by
  induction names generalizing project with
  | nil => rfl
  | cons n names ih =>
    rw [List.cons_append, find, find]
    split
    · exact ih _
    · rfl

theorem depth_pos (directory : Directory) : 0 < directory.depth := by
  cases directory
  simp [depth]

theorem depth_lt_of_mem {directory child : Directory} {name : EntryName}
    (h : (name, some child) ∈ directory.entries) : child.depth < directory.depth := by
  obtain ⟨entries⟩ := directory
  have hle : ∀ entries : List (EntryName × Option Directory), (name, some child) ∈ entries →
      child.depth ≤ depthEntries entries := by
    intro entries
    induction entries with
    | nil => simp
    | cons entry entries ih =>
      intro h
      rcases List.mem_cons.mp h with rfl | h
      · simp [depthEntries]
      · refine (ih h).trans ?_
        obtain ⟨m, _ | d⟩ := entry
        · exact le_refl _
        · exact le_max_right _ _
  exact Nat.lt_succ_of_le (hle entries h)

theorem depth_lt_of_find {caseSensitive : Bool} {directory child : Directory} {name : Name}
    (h : directory.find caseSensitive [name] = some child) : child.depth < directory.depth := by
  rw [find] at h
  split at h
  next entry child' hfound =>
    obtain rfl : child' = child := by simpa [find] using h
    exact depth_lt_of_mem (List.mem_of_find?_eq_some hfound)
  next => cases h

/-- The entries in the order of the walk. -/
def sorted (directory : Directory) : List (EntryName × Option Directory) :=
  sortByKey (fun entry => entry.1.1) directory.entries

end Directory

namespace Base

variable (base : Base) {caseSensitive : Bool}

theorem mapM_normalName (names : List Name) :
    (names.map Component.normal).mapM normalName = some names := by
  induction names with
  | nil => rfl
  | cons n names ih => rw [List.map_cons, List.mapM_cons, ih]; rfl

theorem locate_place {names : List Name} (h : ∀ n ∈ names, IsName n) :
    base.locate caseSensitive (base.place names) = some names := by
  have hcomponents := Path.components_ofNames (base.isName_place h)
  have hbase := Path.components_ofNames base.isName
  have hlength : (Component.rootDir :: base.names.map .normal).length = base.names.length + 1 := by
    simp
  have hsplit : (base.place names).components =
      (Component.rootDir :: base.names.map .normal) ++ names.map .normal := by
    rw [place, hcomponents, List.map_append, List.cons_append]
  rw [locate, hsplit, List.take_append_of_le_length hlength.ge, List.take_of_length_le hlength.le,
    path, hbase, if_pos rfl, ← hlength, List.drop_left]
  exact mapM_normalName names

/-! ## The host that has the project -/

section

variable (project : Directory) (elsewhere : Host)

@[simp] theorem mount_caseSensitive :
    (project.mount base caseSensitive elsewhere).caseSensitive = caseSensitive := rfl

theorem mount_directoryExists {names : List Name} (h : ∀ n ∈ names, IsName n) :
    (project.mount base caseSensitive elsewhere).directoryExists (base.place names) =
      (project.find caseSensitive names).isSome := by
  simp [Directory.mount, base.locate_place h]

theorem mount_readDirectory {names : List Name} (h : ∀ n ∈ names, IsName n) :
    (project.mount base caseSensitive elsewhere).readDirectory (base.place names) =
      (project.find caseSensitive names).map (·.hostEntries (base.place names)) := by
  simp [Directory.mount, base.locate_place h]

theorem mount_realpath {names : List Name} (h : ∀ n ∈ names, IsName n) :
    (project.mount base caseSensitive elsewhere).realpath (base.place names) =
      base.place names := by
  simp [Directory.mount, base.locate_place h]

end

/-- An entry of a directory of the project, as the host gives it. -/
def placeEntry (names : List Name) (entry : EntryName × Option Directory) : HostEntry :=
  ⟨base.place (names ++ [entry.1.1]), entry.2.isNone, entry.2.isSome⟩

theorem isName_append {names : List Name} (h : ∀ n ∈ names, IsName n) (name : EntryName) :
    ∀ n ∈ names ++ [name.1], IsName n := by
  intro n hn
  rcases List.mem_append.mp hn with hn | hn
  · exact h n hn
  · exact (List.mem_singleton.mp hn) ▸ name.2

theorem fileName_place {names : List Name} (h : ∀ n ∈ names, IsName n) (name : EntryName) :
    (base.place (names ++ [name.1])).fileName = some name.1 := by
  have hvalid := base.isName_place (isName_append h name)
  rw [place, ← List.append_assoc] at *
  exact Path.fileName_ofNames hvalid

theorem hostEntries_place {names : List Name} (h : ∀ n ∈ names, IsName n)
    (directory : Directory) :
    directory.hostEntries (base.place names) = directory.entries.map (base.placeEntry names) := by
  refine List.map_congr_left fun ⟨name, child⟩ _ => ?_
  simp only [placeEntry, place, Path.push_ofNames (base.isName_place h) name.2, List.append_assoc]

/-- The order of the entries is that of their names. -/
theorem sortEntries_place {names : List Name} (h : ∀ n ∈ names, IsName n)
    (directory : Directory) :
    sortEntries (directory.hostEntries (base.place names)) =
      directory.sorted.map (base.placeEntry names) := by
  rw [base.hostEntries_place h, sortEntries, sortByKey, Directory.sorted, sortByKey]
  refine (List.map_insertionSort _ _ _ _ fun a _ b _ => ?_).symm
  simp only [placeEntry, base.fileName_place h, Option.toList_some, Prod.Lex.toLex_le_toLex]
  have hsingle : ∀ x y : Name, ([x] < [y] ↔ x < y) := fun x y => by
    simp [List.cons_lt_cons_iff]
  rw [hsingle, le_iff_lt_or_eq, List.singleton_inj]
  refine or_congr_right ⟨fun heq => ⟨heq, heq ▸ le_rfl⟩, And.left⟩

theorem files_placeEntry (names : List EntryName) (entries : List (EntryName × Option Directory)) :
    ((entries.map (base.placeEntry (entryNames names))).filter (·.isFile)).map
        (fun entry => normalizePath entry.path) =
      ((entries.filter (·.2.isNone)).map fun entry => ProjectFile.mk names entry.1).map
        base.placeFile := by
  rw [List.filter_map, List.map_map, List.map_map]
  refine List.map_congr_left fun entry _ => ?_
  exact Path.normalizeProjectPath_ofNames
    (base.isName_place (isName_append isName_entryNames entry.1))

end Base

/-! ## The walk -/

/-- A walk of the project, wherever it lies. -/
structure ProjectWalk where
  visited : List (List EntryName)
  files : List ProjectFile

def ProjectWalk.placed (walk : ProjectWalk) (base : Base) (caseSensitive : Bool) : Walk where
  visited := walk.visited.map fun names => pathKey (base.place (entryNames names)) caseSensitive
  files := walk.files.map base.placeFile

/-- The bases whose own paths make the given directories explicit. -/
def Base.MentionsAre (base : Base) (caseSensitive : Bool) (explicit : Name → Bool) : Prop :=
  ∀ name, IsName name → isImplicitlyExcludedDirectory name = true →
    base.mentions caseSensitive name = explicit name

section

variable (project : Directory) (caseSensitive : Bool) (explicit : Name → Bool) (text : Name)

/-- One child of a directory, given that the walk of each of its directories is known. -/
theorem visitEntries_placed (names : List EntryName) (depth : Nat)
    (entries : List (EntryName × Option Directory))
    (hvisit : ∀ entry ∈ entries, ∀ walk : ProjectWalk, entry.2.isSome →
      ∃ walk' : ProjectWalk, ∀ (base : Base) (elsewhere : Host),
        base.MentionsAre caseSensitive explicit →
        visitDirectory (project.mount base caseSensitive elsewhere) (base.head ++ text) depth
            (base.place (entryNames names ++ [entry.1.1])) (walk.placed base caseSensitive) =
          some (walk'.placed base caseSensitive)) (walk : ProjectWalk) :
    ∃ walk' : ProjectWalk, ∀ (base : Base) (elsewhere : Host),
      base.MentionsAre caseSensitive explicit →
      ((entries.map (base.placeEntry (entryNames names))).filter (·.isDirectory)).foldlM
          (fun walk entry =>
            let name := entry.path.fileName.getD []
            if isImplicitlyExcludedDirectory name &&
                !patternExplicitlyIncludesDirectory (base.head ++ text) name caseSensitive then
              some walk
            else visitDirectory (project.mount base caseSensitive elsewhere) (base.head ++ text)
              depth entry.path walk)
          (walk.placed base caseSensitive) =
        some (walk'.placed base caseSensitive) := by
  induction entries generalizing walk with
  | nil => exact ⟨walk, fun _ _ _ => rfl⟩
  | cons entry entries ih =>
    obtain ⟨hentry, hentries⟩ := List.forall_mem_cons.mp hvisit
    obtain ⟨name, _ | child⟩ := entry
    · -- a file is no directory to walk
      exact ih hentries walk
    · -- whether it is skipped is the same for every base
      have hskip : ∀ base : Base, base.MentionsAre caseSensitive explicit →
          (isImplicitlyExcludedDirectory name.1 &&
            !patternExplicitlyIncludesDirectory (base.head ++ text) name.1 caseSensitive) =
          (isImplicitlyExcludedDirectory name.1 &&
            !(explicit name.1 ||
              patternExplicitlyIncludesDirectory text name.1 caseSensitive)) := by
        intro base hbase
        rw [explicit_head base name.2.1]
        cases himplicit : isImplicitlyExcludedDirectory name.1 with
        | false => rfl
        | true => rw [← hbase name.1 name.2 himplicit, Base.mentions]
      have hname : ∀ base : Base,
          (base.place (entryNames names ++ [name.1])).fileName.getD [] = name.1 := fun base => by
        rw [base.fileName_place isName_entryNames, Option.getD_some]
      cases hwalked : isImplicitlyExcludedDirectory name.1 &&
          !(explicit name.1 || patternExplicitlyIncludesDirectory text name.1 caseSensitive) with
      | true =>
        obtain ⟨walk', hwalk'⟩ := ih hentries walk
        refine ⟨walk', fun base elsewhere hbase => ?_⟩
        rw [← hwalk' base elsewhere hbase, List.map_cons, List.filter_cons_of_pos rfl,
          List.foldlM_cons]
        simp only [Base.placeEntry, hname, hskip base hbase, hwalked, if_true]
        rfl
      | false =>
        obtain ⟨walk₁, hwalk₁⟩ := hentry walk rfl
        obtain ⟨walk', hwalk'⟩ := ih hentries walk₁
        refine ⟨walk', fun base elsewhere hbase => ?_⟩
        rw [← hwalk' base elsewhere hbase, List.map_cons, List.filter_cons_of_pos rfl,
          List.foldlM_cons]
        simp only [Base.placeEntry, hname, hskip base hbase, hwalked, Bool.false_eq_true, if_false]
        rw [hwalk₁ base elsewhere hbase]
        rfl

theorem visitDirectory_placed (depth : Nat) (names : List EntryName) (walk : ProjectWalk)
    (hpos : 0 < depth)
    (hdepth : ∀ directory, project.find caseSensitive (entryNames names) = some directory →
      directory.depth ≤ depth) :
    ∃ walk' : ProjectWalk, ∀ (base : Base) (elsewhere : Host),
      base.MentionsAre caseSensitive explicit →
      visitDirectory (project.mount base caseSensitive elsewhere) (base.head ++ text) depth
          (base.place (entryNames names)) (walk.placed base caseSensitive) =
        some (walk'.placed base caseSensitive) := by
  induction depth generalizing names walk with
  | zero => omega
  | succ depth ih =>
    have hkey : ∀ base : Base, ∀ elsewhere : Host,
        pathKey ((project.mount base caseSensitive elsewhere).realpath
            (base.place (entryNames names))) caseSensitive ∈
          (walk.placed base caseSensitive).visited ↔
        ∃ visited ∈ walk.visited, foldCase caseSensitive (textBelow (entryNames visited)) =
          foldCase caseSensitive (textBelow (entryNames names)) := by
      intro base elsewhere
      simp only [base.mount_realpath project elsewhere isName_entryNames, ProjectWalk.placed,
        List.mem_map, base.pathKey_place_inj isName_entryNames isName_entryNames]
    by_cases hvisited : ∃ visited ∈ walk.visited,
        foldCase caseSensitive (textBelow (entryNames visited)) =
          foldCase caseSensitive (textBelow (entryNames names))
    · refine ⟨walk, fun base elsewhere _ => ?_⟩
      rw [visitDirectory, Base.mount_caseSensitive, if_pos ((hkey base elsewhere).mpr hvisited)]
    · cases hfind : project.find caseSensitive (entryNames names) with
      | none =>
        refine ⟨{ walk with visited := names :: walk.visited }, fun base elsewhere _ => ?_⟩
        rw [visitDirectory, Base.mount_caseSensitive,
          if_neg (fun h => hvisited ((hkey base elsewhere).mp h)),
          base.mount_readDirectory project elsewhere isName_entryNames, hfind, Option.map_none,
          base.mount_realpath project elsewhere isName_entryNames]
        rfl
      | some directory =>
        have hvisit : ∀ entry ∈ directory.sorted, ∀ walk : ProjectWalk, entry.2.isSome →
            ∃ walk' : ProjectWalk, ∀ (base : Base) (elsewhere : Host),
              base.MentionsAre caseSensitive explicit →
              visitDirectory (project.mount base caseSensitive elsewhere) (base.head ++ text)
                  depth (base.place (entryNames names ++ [entry.1.1]))
                  (walk.placed base caseSensitive) =
                some (walk'.placed base caseSensitive) := by
          rintro ⟨name, child⟩ hentry walk hchild
          obtain ⟨child, rfl⟩ := Option.isSome_iff_exists.mp hchild
          have hmem := (mem_sortByKey _).mp hentry
          have hle := hdepth directory hfind
          have hchild := Directory.depth_lt_of_mem hmem
          have hnames : entryNames names ++ [name.1] = entryNames (names ++ [name]) := by
            simp [entryNames]
          rw [hnames]
          refine ih (names ++ [name]) walk (by have := child.depth_pos; omega) fun found hfound => ?_
          rw [← hnames, Directory.find_append, hfind, Option.bind_some] at hfound
          have hlt := Directory.depth_lt_of_find hfound
          omega
        obtain ⟨walk', hwalk'⟩ := visitEntries_placed project caseSensitive explicit text names
          depth directory.sorted hvisit ⟨names :: walk.visited, walk.files ++
            (directory.sorted.filter (·.2.isNone)).map fun entry => ⟨names, entry.1⟩⟩
        refine ⟨walk', fun base elsewhere hbase => ?_⟩
        rw [← hwalk' base elsewhere hbase, visitDirectory, Base.mount_caseSensitive,
          if_neg (fun h => hvisited ((hkey base elsewhere).mp h)),
          base.mount_readDirectory project elsewhere isName_entryNames, hfind, Option.map_some,
          base.mount_realpath project elsewhere isName_entryNames]
        simp only [base.sortEntries_place isName_entryNames, base.files_placeEntry]
        simp only [ProjectWalk.placed, List.map_append, List.map_cons]

end

/-! ## The files that are taken -/

/-- The names of a file below the base. -/
def ProjectFile.names (file : ProjectFile) : List Name :=
  entryNames file.directory ++ [file.name.1]

theorem ProjectFile.isName (file : ProjectFile) : ∀ n ∈ file.names, IsName n :=
  Base.isName_append isName_entryNames file.name

def ExtensionIdentity.placed (identity : ExtensionIdentity) (base : Base)
    (caseSensitive : Bool) : ExtensionIdentity :=
  ⟨identity.group, foldCase caseSensitive base.head ++ identity.stem⟩

theorem ExtensionIdentity.placed_inj {identity other : ExtensionIdentity} {base : Base}
    {caseSensitive : Bool} :
    identity.placed base caseSensitive = other.placed base caseSensitive ↔ identity = other := by
  obtain ⟨group, stem⟩ := identity
  obtain ⟨group', stem'⟩ := other
  simp [ExtensionIdentity.placed]

/-- What is taken of the project, wherever it lies. -/
structure ProjectFound where
  result : List (Option ProjectFile)
  seen : List ProjectFile
  priorities : List (ExtensionIdentity × Nat × Nat)

def ProjectFound.placed (found : ProjectFound) (base : Base) (caseSensitive : Bool) :
    Discovered where
  result := found.result.map (·.map base.placeFile)
  seen := found.seen.map fun file => pathKey (base.placeFile file) caseSensitive
  priorities := found.priorities.map fun (identity, rest) =>
    (identity.placed base caseSensitive, rest)

/-- The identities of the literal files. -/
def projectLiterals (caseSensitive : Bool) (files : List ProjectFile) :
    List (ExtensionIdentity × Nat) :=
  files.filterMap fun file => stripExtension (foldCase caseSensitive (textBelow file.names))

def placeLiterals (base : Base) (caseSensitive : Bool)
    (literals : List (ExtensionIdentity × Nat)) : List (ExtensionIdentity × Nat) :=
  literals.map fun (identity, priority) => (identity.placed base caseSensitive, priority)

section

variable (base : Base) (caseSensitive : Bool)

theorem displayPath_placeFile (file : ProjectFile) :
    (base.placeFile file).displayPath = base.head ++ textBelow file.names :=
  base.displayPath_place_below (by simp)

theorem extensionIdentity_placeFile (file : ProjectFile) :
    extensionIdentity (base.placeFile file) caseSensitive =
      (stripExtension (foldCase caseSensitive (textBelow file.names))).map
        fun (identity, priority) => (identity.placed base caseSensitive, priority) :=
  extensionIdentity_head base (displayPath_placeFile base file)

theorem filterMap_extensionIdentity (files : List ProjectFile) :
    (files.map base.placeFile).filterMap (fun path => extensionIdentity path caseSensitive) =
      placeLiterals base caseSensitive (projectLiterals caseSensitive files) := by
  rw [List.filterMap_map, placeLiterals, projectLiterals, List.map_filterMap]
  congr 1
  funext file
  exact extensionIdentity_placeFile base caseSensitive file

theorem lookup_placed (priorities : List (ExtensionIdentity × Nat × Nat))
    (identity : ExtensionIdentity) :
    (priorities.map fun entry => (entry.1.placed base caseSensitive, entry.2)).lookup
        (identity.placed base caseSensitive) = priorities.lookup identity := by
  induction priorities with
  | nil => rfl
  | cons entry priorities ih =>
    have hkey : (identity.placed base caseSensitive == entry.1.placed base caseSensitive) =
        (identity == entry.1) := by
      rw [Bool.eq_iff_iff, beq_iff_eq, beq_iff_eq, ExtensionIdentity.placed_inj]
    rw [List.map_cons, List.lookup_cons, List.lookup_cons, ih, hkey]

theorem supportedSourceFile_placeFile (allowJs : Bool) (file : ProjectFile) :
    supportedSourceFile (base.placeFile file) allowJs =
      supportedSourceFile (Path.ofNames [file.name.1]) allowJs := by
  have hname : (Path.ofNames [file.name.1]).fileName = some file.name.1 :=
    @Path.fileName_ofNames [] file.name.1 (by simpa using file.name.2)
  have hplaced : (base.placeFile file).fileName = some file.name.1 :=
    base.fileName_place isName_entryNames file.name
  rw [supportedSourceFile, supportedSourceFile, hname, hplaced]

end

theorem any_placeLiterals (base : Base) (caseSensitive : Bool)
    (literals : List (ExtensionIdentity × Nat)) (identity : ExtensionIdentity) (priority : Nat) :
    (placeLiterals base caseSensitive literals).any (fun literal =>
        literal.1 = identity.placed base caseSensitive && literal.2 < priority) =
      literals.any fun literal => literal.1 = identity && literal.2 < priority := by
  rw [placeLiterals, List.any_map]
  congr 1
  funext literal
  simp [ExtensionIdentity.placed_inj]

theorem admitIdentity_placed (literals : List (ExtensionIdentity × Nat)) (found : ProjectFound)
    (file : ProjectFile) (identity : ExtensionIdentity) (priority : Nat) :
    ∃ found' : ProjectFound, ∀ (base : Base) (caseSensitive : Bool),
      admitIdentity (placeLiterals base caseSensitive literals) (found.placed base caseSensitive)
          (base.placeFile file) (identity.placed base caseSensitive) priority =
        found'.placed base caseSensitive := by
  have hlookup : ∀ (base : Base) (caseSensitive : Bool),
      (found.placed base caseSensitive).priorities.lookup (identity.placed base caseSensitive) =
        found.priorities.lookup identity :=
    fun base caseSensitive => lookup_placed base caseSensitive found.priorities identity
  cases hliteral : literals.any fun literal => literal.1 = identity && literal.2 < priority with
  | true =>
    exact ⟨found, fun base caseSensitive => by
      rw [admitIdentity, any_placeLiterals, hliteral, if_pos rfl]⟩
  | false =>
    cases hexisting : found.priorities.lookup identity with
    | none =>
      refine ⟨⟨found.result ++ [some file], found.seen,
        (identity, priority, found.result.length) :: found.priorities⟩,
        fun base caseSensitive => ?_⟩
      rw [admitIdentity, any_placeLiterals, hliteral, if_neg Bool.false_ne_true, hlookup,
        hexisting]
      simp [ProjectFound.placed]
    | some existing =>
      obtain ⟨existingPriority, existingIndex⟩ := existing
      by_cases hle : existingPriority ≤ priority
      · refine ⟨found, fun base caseSensitive => ?_⟩
        rw [admitIdentity, any_placeLiterals, hliteral, if_neg Bool.false_ne_true, hlookup,
          hexisting]
        exact if_pos hle
      · refine ⟨⟨found.result.set existingIndex none ++ [some file], found.seen,
          (identity, priority, found.result.length) :: found.priorities⟩,
          fun base caseSensitive => ?_⟩
        rw [admitIdentity, any_placeLiterals, hliteral, if_neg Bool.false_ne_true, hlookup,
          hexisting]
        simp [ProjectFound.placed, hle, List.map_set]

/-- Whether a file of the walk is wanted at all. -/
def unwanted (caseSensitive : Bool) (pattern : Name) (excludes : List Pattern) (allowJs : Bool)
    (file : ProjectFile) : Bool :=
  !supportedSourceFile (Path.ofNames [file.name.1]) allowJs ||
    !globParts (parts (foldCase caseSensitive pattern))
      (parts (foldCase caseSensitive (textBelow file.names))) ||
    excludes.any fun exclude => excludesBelow caseSensitive exclude.names (textBelow file.names)

theorem unwanted_placeFile (base : Base) (host : Host) (pattern : Name) (excludes : List Pattern)
    (allowJs : Bool) (file : ProjectFile) :
    (!supportedSourceFile (base.placeFile file) allowJs ||
      !globMatches (base.head ++ pattern) (base.placeFile file) host.caseSensitive ||
      excludedBy host ⟨base.path, excludes.map Pattern.raw⟩ (base.placeFile file)) =
    unwanted host.caseSensitive pattern excludes allowJs file := by
  have hdisplay := displayPath_placeFile base file
  rw [supportedSourceFile_placeFile, globMatches_head base hdisplay, excludedBy_head hdisplay,
    unwanted]

theorem admitFile_placed (caseSensitive : Bool) (pattern : Name) (excludes : List Pattern)
    (allowJs : Bool) (literals : List (ExtensionIdentity × Nat)) (found : ProjectFound)
    (file : ProjectFile) :
    ∃ found' : ProjectFound, ∀ (base : Base) (host : Host), host.caseSensitive = caseSensitive →
      admitFile host (base.head ++ pattern) ⟨base.path, excludes.map Pattern.raw⟩ allowJs
          (placeLiterals base caseSensitive literals) (found.placed base caseSensitive)
          (base.placeFile file) =
        found'.placed base caseSensitive := by
  have hseen : ∀ base : Base, pathKey (base.placeFile file) caseSensitive ∈
      (found.placed base caseSensitive).seen ↔
      ∃ seen ∈ found.seen, foldCase caseSensitive (textBelow seen.names) =
        foldCase caseSensitive (textBelow file.names) := by
    intro base
    simp only [ProjectFound.placed, List.mem_map]
    refine exists_congr fun seen => and_congr_right fun _ => ?_
    exact base.pathKey_place_inj seen.isName file.isName
  cases hcase : unwanted caseSensitive pattern excludes allowJs file with
  | true =>
    refine ⟨found, ?_⟩
    rintro base host rfl
    rw [admitFile, unwanted_placeFile, hcase, if_pos rfl]
  | false =>
    by_cases hold : ∃ seen ∈ found.seen, foldCase caseSensitive (textBelow seen.names) =
        foldCase caseSensitive (textBelow file.names)
    · refine ⟨found, ?_⟩
      rintro base host rfl
      rw [admitFile, unwanted_placeFile, hcase, if_neg Bool.false_ne_true]
      simp only [if_pos ((hseen base).mpr hold)]
    · have hnew : ∀ base : Base,
          (ProjectFound.mk found.result (file :: found.seen) found.priorities).placed base
              caseSensitive =
            { found.placed base caseSensitive with
              seen := pathKey (base.placeFile file) caseSensitive ::
                (found.placed base caseSensitive).seen } := fun base => rfl
      cases hidentity : stripExtension (foldCase caseSensitive (textBelow file.names)) with
      | none =>
        refine ⟨⟨found.result, file :: found.seen, found.priorities⟩, ?_⟩
        rintro base host rfl
        rw [admitFile, unwanted_placeFile, hcase, if_neg Bool.false_ne_true]
        simp only [if_neg fun h => hold ((hseen base).mp h), extensionIdentity_placeFile, hidentity,
          Option.map_none, hnew]
      | some found₁ =>
        obtain ⟨identity, priority⟩ := found₁
        obtain ⟨found', hfound'⟩ := admitIdentity_placed literals
          ⟨found.result, file :: found.seen, found.priorities⟩ file identity priority
        refine ⟨found', ?_⟩
        rintro base host rfl
        rw [admitFile, unwanted_placeFile, hcase, if_neg Bool.false_ne_true]
        simp only [if_neg fun h => hold ((hseen base).mp h), extensionIdentity_placeFile, hidentity,
          Option.map_some]
        rw [← hfound' base host.caseSensitive, hnew]

/-! ## Where a pattern starts -/

def starSegments : List Name := [['*', '*'], ['*']]

/-- The names of an include pattern; a directory stands for everything in it. -/
def includeNames (caseSensitive : Bool) (project : Directory) (pattern : Pattern) : List Name :=
  if !hasWildcard (['/'].intercalate pattern.names) &&
      (project.find caseSensitive pattern.names).isSome then pattern.names ++ starSegments
  else pattern.names

theorem includeNames_valid (caseSensitive : Bool) (project : Directory)
    (pattern : Pattern) :
    (∀ n ∈ includeNames caseSensitive project pattern, IsName n) ∧
      includeNames caseSensitive project pattern ≠ [] := by
  have hstars : ∀ n ∈ starSegments, IsName n := by decide
  unfold includeNames
  split
  next => exact ⟨List.forall_mem_append.mpr ⟨pattern.isName, hstars⟩, by simp [starSegments]⟩
  next h =>
    refine ⟨pattern.isName, fun hnil => h ?_⟩
    rw [hnil]
    rfl

section

variable (base : Base) (caseSensitive : Bool) (project : Directory) (elsewhere : Host)

theorem includePattern_mount (pattern : Pattern) :
    includePattern base.path pattern.raw (project.mount base caseSensitive elsewhere) =
      (base.place (includeNames caseSensitive project pattern)).text := by
  unfold includePattern includeNames
  simp only [base.absolutePattern_pattern, base.hasWildcard_place]
  rw [show Path.mk (base.place pattern.names).text = base.place pattern.names from rfl,
    base.mount_directoryExists project elsewhere pattern.isName]
  split
  next =>
    have hstars : (base.place (pattern.names ++ starSegments)).text =
        Path.below (base.names ++ pattern.names) ++ ['/'].intercalate starSegments := by
      rw [Base.place, ← List.append_assoc]
      exact Path.ofNames_append (by decide)
    rw [hstars, ← Base.trimEndSlashes_append (base.isName_place pattern.isName), List.append_assoc]
    rfl
  next => rfl

/-- The names in front of the first wildcard of a pattern. -/
def traversalNames (names : List Name) : List Name :=
  if hasWildcard (['/'].intercalate names) then names.takeWhile fun n => !hasWildcard n
  else if (project.find caseSensitive names).isSome then names
  else names.dropLast

theorem traversalBase_mount {names : List Name} (h : ∀ n ∈ names, IsName n) (hne : names ≠ []) :
    traversalBase (base.place names).text (project.mount base caseSensitive elsewhere) =
      some (base.place (traversalNames caseSensitive project names)) := by
  have hpath : Path.mk (base.place names).text = base.place names := rfl
  simp only [traversalBase, traversalNames, base.hasWildcard_place, hpath]
  cases hwild : hasWildcard (['/'].intercalate names) with
  | false =>
    rw [base.mount_directoryExists project elsewhere h]
    cases (project.find caseSensitive names).isSome with
    | true => rfl
    | false =>
      obtain ⟨init, last, rfl⟩ := (List.eq_nil_or_concat names).resolve_left hne
      have hvalid := base.isName_place h
      rw [List.concat_eq_append, ← List.append_assoc] at hvalid
      simp only [List.concat_eq_append, List.dropLast_concat, Base.place, ← List.append_assoc]
      exact Path.parent_ofNames hvalid
  | true =>
    have hstart : (base.place names).components.takeWhile (fun c => !hasWildcard c.text) =
        .rootDir :: (base.names ++ names.takeWhile fun n => !hasWildcard n).map .normal := by
      rw [Base.place, Path.components_ofNames (base.isName_place h), List.map_append,
        List.map_append, List.takeWhile_cons_of_pos (by rfl),
        List.takeWhile_append_of_pos (by
          intro c hc
          obtain ⟨n, hn, rfl⟩ := List.mem_map.mp hc
          simpa [Component.text] using base.hasWildcard_names hn),
        List.takeWhile_map]
      rfl
    have hvalid : ∀ n ∈ names.takeWhile fun n => !hasWildcard n, IsName n := fun n hn =>
      h n (List.takeWhile_subset _ hn)
    rw [hstart, Path.ofComponents_names (base.isName_place hvalid)]
    simp [Path.ofNames, Base.place]

end

/-! ## Discovery in two places -/

theorem traversalNames_valid {caseSensitive : Bool} {project : Directory} {names : List Name}
    (h : ∀ n ∈ names, IsName n) :
    ∀ n ∈ traversalNames caseSensitive project names, IsName n := by
  unfold traversalNames
  split
  · exact fun n hn => h n (List.takeWhile_subset _ hn)
  · split
    · exact h
    · exact fun n hn => h n (List.dropLast_subset _ hn)

/-- No directory below a project is deeper than the project. -/
theorem Directory.depth_le_of_find {caseSensitive : Bool} {project directory : Directory}
    {names : List Name} (h : project.find caseSensitive names = some directory) :
    directory.depth ≤ project.depth := by
  induction names generalizing project with
  | nil => exact (Option.some.inj h) ▸ le_rfl
  | cons n names ih =>
    rw [← List.singleton_append, find_append] at h
    obtain ⟨child, hchild, h⟩ := Option.bind_eq_some_iff.mp h
    exact (ih h).trans (depth_lt_of_find hchild).le

theorem foldl_admitFile_placed (caseSensitive : Bool) (pattern : Name) (excludes : List Pattern)
    (allowJs : Bool) (literals : List (ExtensionIdentity × Nat)) (files : List ProjectFile)
    (found : ProjectFound) :
    ∃ found' : ProjectFound, ∀ (base : Base) (host : Host), host.caseSensitive = caseSensitive →
      (files.map base.placeFile).foldl
          (admitFile host (base.head ++ pattern) ⟨base.path, excludes.map Pattern.raw⟩ allowJs
            (placeLiterals base caseSensitive literals)) (found.placed base caseSensitive) =
        found'.placed base caseSensitive := by
  induction files generalizing found with
  | nil => exact ⟨found, fun _ _ _ => rfl⟩
  | cons file files ih =>
    obtain ⟨found₁, hfound₁⟩ :=
      admitFile_placed caseSensitive pattern excludes allowJs literals found file
    obtain ⟨found', hfound'⟩ := ih found₁
    refine ⟨found', fun base host hhost => ?_⟩
    rw [List.map_cons, List.foldl_cons, hfound₁ base host hhost, hfound' base host hhost]

theorem exists_entryNames {names : List Name} (h : ∀ n ∈ names, IsName n) :
    ∃ directory : List EntryName, entryNames directory = names :=
  ⟨names.pmap Subtype.mk h, by simp [entryNames, List.map_pmap]⟩

section

variable {project : Directory} (caseSensitive : Bool) (explicit : Name → Bool) {depth : Nat}
  (hdepth : project.depth ≤ depth) (excludes : List Pattern) (allowJs : Bool)
  (literals : List (ExtensionIdentity × Nat))

include hdepth in
theorem discoverPattern_placed (pattern : Pattern) (found : ProjectFound) :
    ∃ found' : ProjectFound, ∀ (base : Base) (elsewhere : Host) (values : List Name),
      base.MentionsAre caseSensitive explicit →
      discoverPattern depth (project.mount base caseSensitive elsewhere) ⟨base.path, values⟩
          ⟨base.path, excludes.map Pattern.raw⟩ allowJs
          (placeLiterals base caseSensitive literals) (found.placed base caseSensitive)
          pattern.raw =
        some (found'.placed base caseSensitive) := by
  obtain ⟨hnames, hne⟩ := includeNames_valid caseSensitive project pattern
  set names := includeNames caseSensitive project pattern with hnamesDef
  obtain ⟨start, hstart⟩ := exists_entryNames
    (@traversalNames_valid caseSensitive project _ hnames)
  obtain ⟨walk, hwalk⟩ := visitDirectory_placed project caseSensitive explicit
    (['/'].intercalate names) depth start ⟨[], []⟩ (project.depth_pos.trans_le hdepth)
    fun directory hfind => (Directory.depth_le_of_find hfind).trans hdepth
  obtain ⟨found', hfound'⟩ := foldl_admitFile_placed caseSensitive (['/'].intercalate names)
    excludes allowJs literals walk.files found
  refine ⟨found', fun base elsewhere values hbase => ?_⟩
  have hwalk := hwalk base elsewhere hbase
  have hbegin := traversalBase_mount base caseSensitive project elsewhere hnames hne
  rw [hstart] at hwalk
  rw [base.text_place hne] at hbegin
  rw [discoverPattern]
  simp only [includePattern_mount, ← hnamesDef, base.text_place hne, hbegin]
  rw [show (Walk.mk [] [] : Walk) = (ProjectWalk.mk [] []).placed base caseSensitive from rfl,
    hwalk]
  exact congrArg some (hfound' base _ rfl)

include hdepth in
theorem discoverPatterns_placed (patterns : List Pattern) (found : ProjectFound) :
    ∃ found' : ProjectFound, ∀ (base : Base) (elsewhere : Host) (values : List Name),
      base.MentionsAre caseSensitive explicit →
      (patterns.map Pattern.raw).foldlM
          (discoverPattern depth (project.mount base caseSensitive elsewhere) ⟨base.path, values⟩
            ⟨base.path, excludes.map Pattern.raw⟩ allowJs
            (placeLiterals base caseSensitive literals)) (found.placed base caseSensitive) =
        some (found'.placed base caseSensitive) := by
  induction patterns generalizing found with
  | nil => exact ⟨found, fun _ _ _ _ => rfl⟩
  | cons pattern patterns ih =>
    obtain ⟨found₁, hfound₁⟩ := discoverPattern_placed caseSensitive explicit hdepth excludes
      allowJs literals pattern found
    obtain ⟨found', hfound'⟩ := ih found₁
    refine ⟨found', fun base elsewhere values hbase => ?_⟩
    rw [List.map_cons, List.foldlM_cons, hfound₁ base elsewhere values hbase]
    exact hfound' base elsewhere values hbase

include hdepth in
/-- The files of a project that discovery finds are the same at every base that mentions the same
directories. -/
theorem discoverWildcardFiles_placed (includes excludes : List Pattern)
    (literals : List ProjectFile) :
    ∃ files : List ProjectFile, ∀ (base : Base) (elsewhere : Host),
      base.MentionsAre caseSensitive explicit →
      discoverWildcardFiles depth (project.mount base caseSensitive elsewhere)
          ⟨base.path, includes.map Pattern.raw⟩ ⟨base.path, excludes.map Pattern.raw⟩ allowJs
          (literals.map base.placeFile) =
        some (files.map base.placeFile) := by
  obtain ⟨found, hfound⟩ := discoverPatterns_placed caseSensitive explicit hdepth excludes
    allowJs (projectLiterals caseSensitive literals) includes ⟨[], [], []⟩
  refine ⟨found.result.filterMap id, fun base elsewhere hbase => ?_⟩
  have hfound := hfound base elsewhere (includes.map Pattern.raw) hbase
  rw [discoverWildcardFiles, Base.mount_caseSensitive, filterMap_extensionIdentity]
  simp only
  rw [show (Discovered.mk [] [] [] : Discovered) =
    (ProjectFound.mk [] [] []).placed base caseSensitive from rfl, hfound]
  simp [ProjectFound.placed, List.filterMap_map, List.map_filterMap]

end

/-! ## A project that tells two bases apart -/

/-- A host without any file. -/
def nowhere : Host := ⟨true, fun _ => false, fun _ => none, id⟩

def everything : Pattern := ⟨"**/*".toList, by decide⟩

def sourceName : EntryName := ⟨"a.ts".toList, by decide⟩

def sourceDirectory : Directory := .mk [(sourceName, none)]

/-- A directory of the given name with one source file. -/
def probe (name : EntryName) : Directory := .mk [(name, some sourceDirectory)]

theorem depth_probe (name : EntryName) : (probe name).depth = 2 := by
  rw [probe, Directory.depth, Directory.depthEntries, sourceDirectory, Directory.depth,
    Directory.depthEntries, Directory.depthEntries, Directory.depthEntries]
  rfl

section

variable (base : Base) (caseSensitive : Bool) (elsewhere : Host) (name : EntryName)

theorem everything_names : everything.names = starSegments := by decide

theorem explicit_everything :
    patternExplicitlyIncludesDirectory (base.head ++ "**/*".toList) name.1 caseSensitive =
      base.mentions caseSensitive name.1 := by
  rw [explicit_head base name.2.1, Base.mentions]
  have hpattern : patternExplicitlyIncludesDirectory "**/*".toList name.1 caseSensitive = false := by
    have hsplit : (foldCase caseSensitive "**/*".toList).splitOn '/' = starSegments := by
      cases caseSensitive <;> decide
    have hpackage : ∀ segment ∈ starSegments, isPackageDirectory segment = false ∧
        startsWithDot segment = false := by decide
    rw [patternExplicitlyIncludesDirectory, hsplit, List.any_eq_false]
    intro segment hsegment
    obtain ⟨hnoPackage, hnoDot⟩ := hpackage segment hsegment
    split
    next h =>
      rintro heq
      rw [← of_decide_eq_true heq, hnoPackage] at h
      cases h
    next => simp [hnoDot]
  rw [hpattern, Bool.or_false]

theorem visitDirectory_sourceDirectory (depth : Nat) :
    ∃ visited, visitDirectory ((probe name).mount base caseSensitive elsewhere)
        (base.head ++ "**/*".toList) (depth + 1) (base.place (entryNames [name]))
        ⟨[pathKey (base.place []) caseSensitive], []⟩ =
      some ⟨visited, [base.placeFile ⟨[name], sourceName⟩]⟩ := by
  have hfind : (probe name).find caseSensitive (entryNames [name]) = some sourceDirectory := by
    simp [entryNames, Directory.find, probe, Directory.entries, sourceDirectory]
  have hsorted : sourceDirectory.sorted = [(sourceName, none)] := by
    simp [Directory.sorted, sortByKey, sourceDirectory, Directory.entries]
  have hkey : pathKey (base.place (entryNames [name])) caseSensitive ∉
      [pathKey (base.place []) caseSensitive] := by
    rw [List.mem_singleton, base.pathKey_place_inj isName_entryNames (by simp),
      foldCase_eq_nil.mpr (show textBelow [] = [] from rfl), foldCase_eq_nil]
    exact textBelow_ne_nil isName_entryNames (by simp [entryNames])
  refine ⟨[pathKey (base.place (entryNames [name])) caseSensitive,
    pathKey (base.place []) caseSensitive], ?_⟩
  rw [visitDirectory, Base.mount_caseSensitive,
    base.mount_realpath (probe name) elsewhere isName_entryNames, if_neg hkey,
    base.mount_readDirectory (probe name) elsewhere isName_entryNames, hfind, Option.map_some]
  simp only [base.sortEntries_place isName_entryNames, base.files_placeEntry, hsorted]
  rfl

/-- What the walk of the probe finds: the file, unless its directory is skipped. -/
theorem visitDirectory_probe (hexcluded : isImplicitlyExcludedDirectory name.1 = true) :
    ∃ visited, visitDirectory ((probe name).mount base caseSensitive elsewhere)
        (base.head ++ "**/*".toList) 3 (base.place []) ⟨[], []⟩ =
      some ⟨visited, if base.mentions caseSensitive name.1 then
        [base.placeFile ⟨[name], sourceName⟩] else []⟩ := by
  have hvalid : ∀ n ∈ ([] : List Name), IsName n := by simp
  have hsorted : (probe name).sorted = [(name, some sourceDirectory)] := by
    simp [Directory.sorted, sortByKey, probe, Directory.entries, sourceDirectory]
  have hname : (base.place ([] ++ [name.1])).fileName.getD [] = name.1 := by
    rw [base.fileName_place hvalid, Option.getD_some]
  obtain ⟨visited, hvisited⟩ :=
    visitDirectory_sourceDirectory base caseSensitive elsewhere name 1
  refine ⟨if base.mentions caseSensitive name.1 then visited
    else [pathKey (base.place []) caseSensitive], ?_⟩
  rw [visitDirectory, Base.mount_caseSensitive, base.mount_realpath (probe name) elsewhere hvalid,
    if_neg (by simp), base.mount_readDirectory (probe name) elsewhere hvalid,
    show (probe name).find caseSensitive [] = some (probe name) from rfl, Option.map_some]
  simp only [base.sortEntries_place hvalid, hsorted]
  simp only [List.map_cons, List.map_nil]
  rw [show ([base.placeEntry [] (name, some sourceDirectory)].filter (·.isFile)) = [] from rfl,
    show ([base.placeEntry [] (name, some sourceDirectory)].filter (·.isDirectory)) =
      [base.placeEntry [] (name, some sourceDirectory)] from rfl, List.foldlM_cons]
  simp only [Base.placeEntry, hname, hexcluded, explicit_everything, Bool.true_and, List.map_nil,
    List.append_nil]
  cases base.mentions caseSensitive name.1 with
  | true =>
    simp only [Bool.not_true, Bool.false_eq_true, if_false, if_true]
    exact (congrArg (Option.bind · _) hvisited).trans rfl
  | false => rfl

theorem matchesEnd_append {α : Type} {accepts : List α → Bool} (front : List α) {rest : List α}
    (h : accepts rest = true) : matchesEnd accepts (front ++ rest) = true := by
  induction front with
  | nil => cases rest <;> simp [matchesEnd, h]
  | cons x front ih => simp [matchesEnd, ih]

theorem textBelow_probe : ∃ front, foldCase caseSensitive
    (textBelow (ProjectFile.mk [name] sourceName).names) = front ++ '/' :: sourceName.1 := by
  refine ⟨foldCase caseSensitive (slashes name.1), ?_⟩
  have hsource : foldCase caseSensitive (slashes ('/' :: sourceName.1)) = '/' :: sourceName.1 := by
    cases caseSensitive <;> decide
  have hnames : (ProjectFile.mk [name] sourceName).names = [name.1, sourceName.1] := rfl
  rw [hnames, textBelow, List.intercalate_cons_cons, List.intercalate_singleton, slashes,
    List.append_assoc, List.map_append, foldCase_append]
  exact congrArg _ hsource

/-- The file of the probe is wanted. -/
theorem unwanted_probe :
    unwanted caseSensitive "**/*".toList [] false ⟨[name], sourceName⟩ = false := by
  obtain ⟨front, hfront⟩ := textBelow_probe caseSensitive name
  have hpattern : parts (foldCase caseSensitive "**/*".toList) = starSegments := by
    cases caseSensitive <;> decide
  have hparts : parts (front ++ '/' :: sourceName.1) = parts front ++ [sourceName.1] := by
    rw [parts, List.splitOn_append_cons_self, List.filter_append, parts]
    exact congrArg _ (by decide)
  have hmatch : globParts starSegments (parts front ++ [sourceName.1]) = true :=
    matchesEnd_append (parts front) (by decide)
  have hsupported : supportedSourceFile (Path.ofNames [sourceName.1]) false = true := by decide
  rw [unwanted, hfront, hpattern, hparts, hmatch, hsupported]
  rfl

theorem stripExtension_probe :
    (stripExtension (foldCase caseSensitive
      (textBelow (ProjectFile.mk [name] sourceName).names))).isSome := by
  obtain ⟨front, hfront⟩ := textBelow_probe caseSensitive name
  have hsuffix : ".ts".toList <:+ front ++ '/' :: sourceName.1 :=
    List.IsSuffix.trans (by decide) (List.suffix_append front ('/' :: sourceName.1))
  rw [hfront, stripExtension, List.findSome?_isSome_iff]
  refine ⟨(extensionGroups.head (by decide), 0), by decide, ?_⟩
  rw [List.findSome?_isSome_iff]
  refine ⟨(".ts".toList, 0), by decide, ?_⟩
  simp only [if_pos (List.isSuffixOf_iff_suffix.mpr hsuffix), Option.isSome_some]

theorem admitFile_probe :
    (admitFile ((probe name).mount base caseSensitive elsewhere) (base.head ++ "**/*".toList)
        ⟨base.path, []⟩ false [] ⟨[], [], []⟩ (base.placeFile ⟨[name], sourceName⟩)).result =
      [some (base.placeFile ⟨[name], sourceName⟩)] := by
  obtain ⟨⟨identity, priority⟩, hidentity⟩ :=
    Option.isSome_iff_exists.mp (stripExtension_probe caseSensitive name)
  have hunwanted := unwanted_placeFile base ((probe name).mount base caseSensitive elsewhere)
    "**/*".toList [] false ⟨[name], sourceName⟩
  rw [Base.mount_caseSensitive, unwanted_probe] at hunwanted
  rw [admitFile, show (Selector.mk base.path []) = ⟨base.path, [].map Pattern.raw⟩ from rfl,
    Base.mount_caseSensitive, hunwanted, if_neg Bool.false_ne_true]
  simp only [List.not_mem_nil, if_false, extensionIdentity_placeFile, hidentity, Option.map_some]
  rfl

theorem discoverWildcardFiles_probe (hexcluded : isImplicitlyExcludedDirectory name.1 = true) :
    discoverWildcardFiles 3 ((probe name).mount base caseSensitive elsewhere)
        ⟨base.path, [everything.raw]⟩ ⟨base.path, []⟩ false [] =
      some (if base.mentions caseSensitive name.1 then
        [base.placeFile ⟨[name], sourceName⟩] else []) := by
  have hinclude : includeNames caseSensitive (probe name) everything = starSegments := by
    rw [includeNames, everything_names]
    rfl
  have htext : (base.place starSegments).text = base.head ++ "**/*".toList :=
    base.text_place (by decide)
  have hstart : traversalNames caseSensitive (probe name) starSegments = [] := rfl
  have hbegin := traversalBase_mount base caseSensitive (probe name) elsewhere
    (show ∀ n ∈ starSegments, IsName n by decide) (by decide)
  obtain ⟨visited, hvisited⟩ := visitDirectory_probe base caseSensitive elsewhere name hexcluded
  rw [hstart, htext] at hbegin
  have hpattern : discoverPattern 3 ((probe name).mount base caseSensitive elsewhere)
      ⟨base.path, [everything.raw]⟩ ⟨base.path, []⟩ false [] ⟨[], [], []⟩ everything.raw =
    some ((if base.mentions caseSensitive name.1 then
        [base.placeFile ⟨[name], sourceName⟩] else []).foldl
      (admitFile ((probe name).mount base caseSensitive elsewhere) (base.head ++ "**/*".toList)
        ⟨base.path, []⟩ false []) ⟨[], [], []⟩) := by
    simp only [discoverPattern, includePattern_mount, hinclude, htext, hbegin]
    exact (congrArg (Option.bind · _) hvisited).trans rfl
  rw [discoverWildcardFiles]
  simp only [List.filterMap_nil, List.foldlM_cons, hpattern]
  cases base.mentions caseSensitive name.1 with
  | true =>
    have hadmitted := admitFile_probe base caseSensitive elsewhere name
    exact congrArg (fun result => some (result.filterMap id)) hadmitted
  | false => rfl

end

/-- Two bases find the same files in every project, for all patterns that stay inside of it,
exactly when their own paths make the same of the directories explicit that a walk skips. -/
theorem discoverWildcardFiles_relocates_iff (caseSensitive : Bool) (base base' : Base) :
    (∀ (project : Directory) (elsewhere elsewhere' : Host) (includes excludes : List Pattern)
        (literals : List ProjectFile) (allowJs : Bool) (depth : Nat), project.depth ≤ depth →
      ∃ files : List ProjectFile,
        discoverWildcardFiles depth (project.mount base caseSensitive elsewhere)
            ⟨base.path, includes.map Pattern.raw⟩ ⟨base.path, excludes.map Pattern.raw⟩ allowJs
            (literals.map base.placeFile) = some (files.map base.placeFile) ∧
        discoverWildcardFiles depth (project.mount base' caseSensitive elsewhere')
            ⟨base'.path, includes.map Pattern.raw⟩ ⟨base'.path, excludes.map Pattern.raw⟩ allowJs
            (literals.map base'.placeFile) = some (files.map base'.placeFile)) ↔
      ∀ name : EntryName, isImplicitlyExcludedDirectory name.1 = true →
        base.mentions caseSensitive name.1 = base'.mentions caseSensitive name.1 := by
  constructor
  · intro h name hexcluded
    obtain ⟨files, hfiles, hfiles'⟩ := h (probe name) nowhere nowhere [everything] [] [] false 3
      (by rw [depth_probe]; decide)
    have hbase := discoverWildcardFiles_probe base caseSensitive nowhere name hexcluded
    have hbase' := discoverWildcardFiles_probe base' caseSensitive nowhere name hexcluded
    have hcount : files.length = if base.mentions caseSensitive name.1 then 1 else 0 := by
      have hlength := congrArg List.length (Option.some.inj (hfiles.symm.trans hbase))
      rw [List.length_map] at hlength
      rw [hlength]
      split <;> rfl
    have hcount' : files.length = if base'.mentions caseSensitive name.1 then 1 else 0 := by
      have hlength := congrArg List.length (Option.some.inj (hfiles'.symm.trans hbase'))
      rw [List.length_map] at hlength
      rw [hlength]
      split <;> rfl
    rw [hcount] at hcount'
    grind
  · intro h project elsewhere elsewhere' includes excludes literals allowJs depth hdepth
    obtain ⟨files, hfiles⟩ := discoverWildcardFiles_placed caseSensitive
      (base.mentions caseSensitive) hdepth allowJs includes excludes literals
    exact ⟨files, hfiles base elsewhere fun _ _ _ => rfl,
      hfiles base' elsewhere' fun name hname hexcluded => (h ⟨name, hname⟩ hexcluded).symm⟩

def nodeModules : EntryName := ⟨"node_modules".toList, by decide⟩

theorem plain_of_all {names : List Name}
    (h : (names.all fun n => n.all fun c => !isWildcard c && c != '\\') = true) :
    ∀ n ∈ names, ∀ c ∈ n, isWildcard c = false ∧ c ≠ '\\' := by
  simpa only [List.all_eq_true, Bool.and_eq_true, Bool.not_eq_true', bne_iff_ne] using h

def packageBase : Base :=
  ⟨["x".toList, nodeModules.1], by decide +kernel, plain_of_all (by decide +kernel)⟩

def plainBase : Base :=
  ⟨["x".toList, "y".toList], by decide +kernel, plain_of_all (by decide +kernel)⟩

/-- A project below `node_modules` is searched for packages, the same project elsewhere is not. -/
theorem discoverWildcardFiles_packageBase :
    ¬ ∃ files : List ProjectFile,
      discoverWildcardFiles 3 ((probe nodeModules).mount packageBase true nowhere)
          ⟨packageBase.path, [everything.raw]⟩ ⟨packageBase.path, []⟩ false [] =
        some (files.map packageBase.placeFile) ∧
      discoverWildcardFiles 3 ((probe nodeModules).mount plainBase true nowhere)
          ⟨plainBase.path, [everything.raw]⟩ ⟨plainBase.path, []⟩ false [] =
        some (files.map plainBase.placeFile) := by
  have hexcluded : isImplicitlyExcludedDirectory nodeModules.1 = true := by decide
  have hmentions : packageBase.mentions true nodeModules.1 = true := by decide
  have hplain : plainBase.mentions true nodeModules.1 = false := by decide
  rintro ⟨files, hfiles, hfiles'⟩
  rw [discoverWildcardFiles_probe _ true nowhere _ hexcluded, hmentions] at hfiles
  rw [discoverWildcardFiles_probe _ true nowhere _ hexcluded, hplain] at hfiles'
  have hempty : files.map plainBase.placeFile = [] := (Option.some.inj hfiles').symm
  rw [List.map_eq_nil_iff.mp hempty] at hfiles
  cases hfiles

end Tsz.Project.Config
