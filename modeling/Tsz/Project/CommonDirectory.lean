import Tsz.Project.EmitPlan
import Tsz.Project.Lexical

/-!
# The common directory of the sources

The directory that is left of the first source's directory after shortening it for each other
source is the longest one above them all, as long as the sources start at the same place.

## Main results

* `Path.commonWith_ofPieces` — shortening leaves the common front.
* `commonSourceDirectory_longest` — the directory is the longest common one.
-/

namespace Tsz.Project

/-! ## Common fronts -/

/-- The longest common front of two lists. -/
def commonFront {α : Type} [DecidableEq α] : List α → List α → List α
  | a :: as, b :: bs => if a = b then a :: commonFront as bs else []
  | _, _ => []

section

variable {α : Type} [DecidableEq α]

theorem commonFront_isPrefix (as bs : List α) :
    commonFront as bs <+: as ∧ commonFront as bs <+: bs := by
  fun_induction commonFront as bs with
  | case1 a as bs ih => simpa using ih
  | case2 => simp
  | case3 => simp

theorem prefix_commonFront {as bs front : List α} (ha : front <+: as) (hb : front <+: bs) :
    front <+: commonFront as bs := by
  induction front generalizing as bs with
  | nil => exact List.nil_prefix
  | cons c front ih =>
    obtain ⟨as', rfl⟩ := ha
    obtain ⟨bs', rfl⟩ := hb
    simpa [commonFront] using ih ⟨as', rfl⟩ ⟨bs', rfl⟩

theorem commonFront_of_isPrefix {as bs : List α} (h : as <+: bs) : commonFront as bs = as :=
  (commonFront_isPrefix as bs).1.eq_of_length_le
    (prefix_commonFront List.prefix_rfl h).length_le

/-- Without its last element a list that is no front of the other has the same common front. -/
theorem commonFront_concat {as bs : List α} {a : α} (h : ¬ as ++ [a] <+: bs) :
    commonFront (as ++ [a]) bs = commonFront as bs := by
  apply List.IsPrefix.eq_of_length_le
  · have hfront := commonFront_isPrefix (as ++ [a]) bs
    refine prefix_commonFront ?_ hfront.2
    rcases List.prefix_concat_iff.mp hfront.1 with heq | hfront'
    · exact absurd (heq ▸ hfront.2) h
    · exact hfront'
  · have hfront := commonFront_isPrefix as bs
    exact (prefix_commonFront (hfront.1.trans (List.prefix_append _ _)) hfront.2).length_le

/-- The common front of a first list and some others is the longest front of them all. -/
theorem foldl_commonFront (rest : List (List α)) (first : List α) :
    (∀ as ∈ first :: rest, rest.foldl commonFront first <+: as) ∧
      ∀ front, (∀ as ∈ first :: rest, front <+: as) → front <+: rest.foldl commonFront first := by
  induction rest generalizing first with
  | nil => simp
  | cons second rest ih =>
    obtain ⟨hall, hlongest⟩ := ih (commonFront first second)
    have hfront := commonFront_isPrefix first second
    rw [List.foldl_cons]
    obtain ⟨hcommon, hrest⟩ := List.forall_mem_cons.mp hall
    refine ⟨?_, fun front h => ?_⟩
    · exact List.forall_mem_cons.mpr ⟨hcommon.trans hfront.1,
        List.forall_mem_cons.mpr ⟨hcommon.trans hfront.2, hrest⟩⟩
    · simp only [List.forall_mem_cons] at h hlongest
      exact hlongest front ⟨prefix_commonFront h.1 h.2.1, h.2.2⟩

end

namespace Component

theorem ofName_injective : Function.Injective ofName := by
  intro p q h
  unfold ofName at h
  grind

theorem text_ofName (piece : Name) : (ofName piece).text = piece := by
  unfold ofName
  split_ifs with h
  · exact h.symm
  · rfl

end Component

namespace Path

/-! ## Spelled paths -/

/-- A path that is spelled by its pieces. -/
def IsSpelled (absolute : Bool) (path : Path) : Prop :=
  ∃ pieces, (∀ piece ∈ pieces, IsPiece piece) ∧ path = ofPieces absolute pieces

variable {absolute : Bool} {path other : Path}

theorem IsSpelled.eq_of_components (h : path.IsSpelled absolute) (hother : other.IsSpelled absolute)
    (hcomponents : path.components = other.components) : path = other := by
  obtain ⟨pieces, hpieces, rfl⟩ := h
  obtain ⟨others, hothers, rfl⟩ := hother
  rw [components_ofPieces hpieces, components_ofPieces hothers, List.append_cancel_left_eq,
    (List.map_injective_iff.mpr Component.ofName_injective).eq_iff] at hcomponents
  rw [hcomponents]

/-- The clamped normal form of a path is spelled by its pieces. -/
theorem isSpelled_normalizeClampedPath (path : Path) :
    path.normalizeClampedPathLexically.IsSpelled path.isAbsolute := by
  obtain ⟨hplace, heq⟩ := path.normalizeClampedPath_eq
  exact ⟨path.location.spelling, hplace.isPiece, by rw [heq, Location.path, absolute_location]⟩

theorem IsSpelled.parent (h : path.IsSpelled absolute) {directory : Path}
    (hparent : path.parent = some directory) :
    directory.IsSpelled absolute ∧ ∃ last, path.components = directory.components ++ [last] := by
  obtain ⟨pieces, hpieces, rfl⟩ := h
  rcases List.eq_nil_or_concat pieces with rfl | ⟨init, last, rfl⟩
  · rw [parent_ofPieces_nil] at hparent
    cases hparent
  · rw [List.concat_eq_append] at hpieces hparent ⊢
    have hinit : ∀ piece ∈ init, IsPiece piece := fun piece hpiece =>
      hpieces piece (List.mem_append_left _ hpiece)
    obtain rfl : ofPieces absolute init = directory := by
      simpa [parent_ofPieces hpieces] using hparent
    exact ⟨⟨init, hinit, rfl⟩, Component.ofName last, by
      simp [components_ofPieces hpieces, components_ofPieces hinit]⟩

/-- Without a parent a path is where all paths of its kind start. -/
theorem IsSpelled.prefix_of_parent_eq_none (h : path.IsSpelled absolute)
    (hother : other.IsSpelled absolute) (hparent : path.parent = none) :
    path.components <+: other.components := by
  obtain ⟨pieces, hpieces, rfl⟩ := h
  obtain ⟨others, hothers, rfl⟩ := hother
  rcases List.eq_nil_or_concat pieces with rfl | ⟨init, last, rfl⟩
  · rw [components_ofPieces hpieces, components_ofPieces hothers]
    simp
  · rw [List.concat_eq_append] at hpieces hparent
    simp [parent_ofPieces hpieces] at hparent

/-- Shortening a directory until it contains another one leaves what they have in common. -/
theorem IsSpelled.commonWith {directory common : Path} (hdirectory : directory.IsSpelled absolute)
    (h : common.IsSpelled absolute) {n : Nat} (hn : common.components.length ≤ n) :
    (commonWith directory n common).IsSpelled absolute ∧
      (Tsz.Project.commonWith directory n common).components =
        commonFront common.components directory.components := by
  induction n generalizing common with
  | zero =>
    have hnil : common.components = [] := List.eq_nil_of_length_eq_zero (by omega)
    exact ⟨h, by rw [Tsz.Project.commonWith, hnil]; rfl⟩
  | succ n ih =>
    rw [Tsz.Project.commonWith]
    split_ifs with hstarts
    · refine ⟨h, (commonFront_of_isPrefix ?_).symm⟩
      simpa [startsWith] using hstarts
    · have hfront' : ¬ common.components <+: directory.components := by
        simpa [startsWith] using hstarts
      cases hparent : common.parent with
      | none => exact absurd (h.prefix_of_parent_eq_none hdirectory hparent) hfront'
      | some parent =>
        obtain ⟨hspelled, last, hcomponents⟩ := h.parent hparent
        rw [hcomponents, List.length_append, List.length_singleton] at hn
        obtain ⟨hcommon, heq⟩ := ih hspelled (by omega)
        refine ⟨hcommon, ?_⟩
        rw [hcomponents] at hfront'
        rw [heq, hcomponents, commonFront_concat hfront']

theorem IsSpelled.foldl_commonWith {rest : List Path} {first : Path}
    (h : ∀ directory ∈ first :: rest, directory.IsSpelled absolute) :
    (rest.foldl (fun common directory =>
        Tsz.Project.commonWith directory common.components.length common) first).IsSpelled
          absolute ∧
      (rest.foldl (fun common directory =>
          Tsz.Project.commonWith directory common.components.length common) first).components =
        (rest.map components).foldl commonFront first.components := by
  induction rest generalizing first with
  | nil => exact ⟨h first List.mem_cons_self, rfl⟩
  | cons second rest ih =>
    obtain ⟨hfirst, hsecond, hrest⟩ := by simpa only [List.forall_mem_cons] using h
    obtain ⟨hcommon, heq⟩ := hsecond.commonWith hfirst le_rfl
    rw [List.foldl_cons, List.map_cons, List.foldl_cons, ← heq]
    exact ih (List.forall_mem_cons.mpr ⟨hcommon, hrest⟩)

/-- A directory is an ancestor of a path that has more components. -/
def IsAncestorOf (directory path : Path) : Prop :=
  path.startsWith directory = true ∧ directory.components ≠ path.components

theorem isAncestorOf_iff {directory : Path} :
    directory.IsAncestorOf path ↔
      directory.components <+: path.components ∧ directory.components ≠ path.components := by
  simp [IsAncestorOf, startsWith]

/-- The ancestors of a path are those of its directory and that directory. -/
theorem IsSpelled.isAncestorOf_iff (h : path.IsSpelled absolute) {directory ancestor : Path}
    (hparent : path.parent = some directory) :
    ancestor.IsAncestorOf path ↔ ancestor.components <+: directory.components := by
  obtain ⟨-, last, hcomponents⟩ := h.parent hparent
  rw [Path.isAncestorOf_iff, hcomponents, List.prefix_concat_iff]
  constructor
  · rintro ⟨heq | hfront', hne⟩
    · exact absurd heq hne
    · exact hfront'
  · intro hfront'
    refine ⟨Or.inr hfront', fun heq => ?_⟩
    have hlength := hfront'.length_le
    rw [heq, List.length_append, List.length_singleton] at hlength
    omega

/-! ## Stripping -/

theorem ofComponents_map_ofName {pieces : List Name} (h : ∀ piece ∈ pieces, IsPiece piece) :
    ofComponents (pieces.map Component.ofName) = ofPieces false pieces := by
  have hfold : ∀ more front : List Name, (∀ piece ∈ front ++ more, IsPiece piece) →
      (more.map Component.ofName).foldl (fun path component => path.push ⟨component.text⟩)
        (ofPieces false front) = ofPieces false (front ++ more) := by
    intro more
    induction more with
    | nil => simp
    | cons piece more ih =>
      intro front hfront
      have hsplit : ∀ other ∈ (front ++ [piece]) ++ more, IsPiece other := by
        simpa using hfront
      have hpush : (ofPieces false front).push ⟨(Component.ofName piece).text⟩ =
          ofPieces false (front ++ [piece]) := by
        rw [Component.text_ofName]
        exact push_ofPieces (fun other hother => hfront other (List.mem_append_left _ hother))
          (hfront piece (by simp))
      rw [List.map_cons, List.foldl_cons, hpush, ih _ hsplit]
      simp
  exact hfold pieces [] h

theorem IsSpelled.exists_stripPrefix {directory : Path} (h : path.IsSpelled absolute)
    (hdirectory : directory.IsSpelled absolute) (hancestor : directory.IsAncestorOf path) :
    ∃ rest, (∀ piece ∈ rest, IsPiece piece) ∧ rest ≠ [] ∧
      path.components = directory.components ++ rest.map Component.ofName ∧
        path.stripPrefix directory = some (ofPieces false rest) := by
  obtain ⟨pieces, hpieces, rfl⟩ := h
  obtain ⟨front, hfront, rfl⟩ := hdirectory
  obtain ⟨hfront', hne⟩ := Path.isAncestorOf_iff.mp hancestor
  rw [components_ofPieces hpieces, components_ofPieces hfront, List.prefix_append_right_inj,
    List.prefix_map_iff] at hfront'
  obtain ⟨front', ⟨rest, rfl⟩, hmap⟩ := hfront'
  obtain rfl : front = front' :=
    List.map_injective_iff.mpr Component.ofName_injective hmap
  have hrest : ∀ piece ∈ rest, IsPiece piece := fun piece hpiece =>
    hpieces piece (List.mem_append_right _ hpiece)
  have hcomponents : (ofPieces absolute (front ++ rest)).components =
      (ofPieces absolute front).components ++ rest.map Component.ofName := by
    rw [components_ofPieces hpieces, components_ofPieces hfront, List.map_append,
      List.append_assoc]
  refine ⟨rest, hrest, ?_, hcomponents, ?_⟩
  · rintro rfl
    exact hne (by rw [hcomponents]; simp)
  · rw [stripPrefix, if_pos hancestor.1, hcomponents, List.drop_left,
      ofComponents_map_ofName hrest]

/-- What is left of a path below a directory tells the path. -/
theorem IsSpelled.stripPrefix_injective {directory : Path}
    (h : path.IsSpelled absolute) (hother : other.IsSpelled absolute)
    (hdirectory : directory.IsSpelled absolute) (hpath : directory.IsAncestorOf path)
    (hancestor : directory.IsAncestorOf other)
    (heq : path.stripPrefix directory = other.stripPrefix directory) : path = other := by
  obtain ⟨rest, hrest, hne, hcomponents, hstrip⟩ := h.exists_stripPrefix hdirectory hpath
  obtain ⟨rest', hrest', hne', hcomponents', hstrip'⟩ :=
    hother.exists_stripPrefix hdirectory hancestor
  rw [hstrip, hstrip', Option.some.injEq] at heq
  obtain rfl : rest = rest' := by
    rw [← pieces_ofPieces hrest hne, heq, pieces_ofPieces hrest' hne']
  exact h.eq_of_components hother (hcomponents.trans hcomponents'.symm)

end Path

/-! ## The directory of the sources -/

/-- The paths whose directories are compared: those of the sources that are no declarations and
lie in a directory, as they are normalised. -/
def sourcePaths (files : List ProgramFile) : List Path :=
  ((files.filter fun file => !isDeclarationSource file.hostPath).map
    fun file => file.hostPath.normalizeClampedPathLexically).filter (·.parent.isSome)

theorem commonSourceDirectory_eq (files : List ProgramFile) :
    commonSourceDirectory files =
      match (sourcePaths files).filterMap Path.parent with
      | [] => none
      | first :: rest =>
        some (rest.foldl (fun common directory =>
          commonWith directory common.components.length common) first) := by
  have hdirectories : (files.filterMap fun file =>
      if isDeclarationSource file.hostPath then none
      else file.hostPath.normalizeClampedPathLexically.parent) =
        (sourcePaths files).filterMap Path.parent := by
    unfold sourcePaths
    induction files with
    | nil => rfl
    | cons file files ih =>
      by_cases hdeclaration : isDeclarationSource file.hostPath = true
      · simpa [hdeclaration] using ih
      · cases hparent : file.hostPath.normalizeClampedPathLexically.parent with
        | none => simpa [hdeclaration, hparent] using ih
        | some parent => simpa [hdeclaration, hparent] using ih
  rw [commonSourceDirectory, hdirectories] <;> rfl

theorem sourcePaths_perm {files files' : List ProgramFile} (h : files.Perm files') :
    (sourcePaths files).Perm (sourcePaths files') :=
  ((h.filter _).map _).filter _

theorem isSpelled_of_mem_sourcePaths {files : List ProgramFile} {path : Path}
    (h : path ∈ sourcePaths files) : path.IsSpelled path.isAbsolute := by
  obtain ⟨hmem, -⟩ := List.mem_filter.mp h
  obtain ⟨file, -, rfl⟩ := List.mem_map.mp hmem
  have hspelled := file.hostPath.isSpelled_normalizeClampedPath
  have habsolute : file.hostPath.normalizeClampedPathLexically.isAbsolute =
      file.hostPath.isAbsolute := by
    obtain ⟨pieces, hpieces, heq⟩ := hspelled
    rw [heq, Path.isAbsolute_ofPieces hpieces]
  rwa [habsolute]

/-- A directory is the longest one that is an ancestor of some paths. -/
structure IsLongestAncestor (directory : Path) (paths : List Path) : Prop where
  isAncestorOf : ∀ path ∈ paths, directory.IsAncestorOf path
  longest : ∀ other : Path, (∀ path ∈ paths, other.IsAncestorOf path) →
    other.components <+: directory.components

theorem isLongestAncestor_commonSourceDirectory {files : List ProgramFile} {absolute : Bool}
    (hne : sourcePaths files ≠ [])
    (hsame : ∀ path ∈ sourcePaths files, path.isAbsolute = absolute) :
    ∃ directory, commonSourceDirectory files = some directory ∧
      directory.IsSpelled absolute ∧ IsLongestAncestor directory (sourcePaths files) := by
  have hspelled : ∀ path ∈ sourcePaths files, path.IsSpelled absolute := by
    intro path hpath
    rw [← hsame path hpath]
    exact isSpelled_of_mem_sourcePaths hpath
  have hparents : ∀ path ∈ sourcePaths files, ∃ parent, path.parent = some parent := by
    intro path hpath
    exact Option.isSome_iff_exists.mp (List.mem_filter.mp hpath).2
  rw [commonSourceDirectory_eq]
  cases hdirectories : (sourcePaths files).filterMap Path.parent with
  | nil =>
    obtain ⟨path, hpath⟩ := List.exists_mem_of_ne_nil _ hne
    obtain ⟨parent, hparent⟩ := hparents path hpath
    rw [List.filterMap_eq_nil_iff] at hdirectories
    rw [hdirectories path hpath] at hparent
    cases hparent
  | cons first rest =>
    have hmem (directory : Path) : directory ∈ first :: rest ↔
        ∃ path ∈ sourcePaths files, path.parent = some directory := by
      rw [← hdirectories, List.mem_filterMap]
    have hall : ∀ directory ∈ first :: rest, directory.IsSpelled absolute := by
      intro directory hdirectory
      obtain ⟨path, hpath, hparent⟩ := (hmem directory).mp hdirectory
      exact ((hspelled path hpath).parent hparent).1
    obtain ⟨hcommon, hcomponents⟩ := Path.IsSpelled.foldl_commonWith hall
    obtain ⟨hfront, hlongest⟩ :=
      foldl_commonFront (rest.map Path.components) first.components
    rw [← List.map_cons, ← hcomponents] at hfront hlongest
    refine ⟨_, rfl, hcommon, ?_, ?_⟩
    · intro path hpath
      obtain ⟨parent, hparent⟩ := hparents path hpath
      rw [(hspelled path hpath).isAncestorOf_iff hparent]
      exact hfront _ (List.mem_map_of_mem ((hmem parent).mpr ⟨path, hpath, hparent⟩))
    · intro other hother
      apply hlongest
      intro components hmap
      obtain ⟨directory, hdirectory, rfl⟩ := List.mem_map.mp hmap
      obtain ⟨path, hpath, hparent⟩ := (hmem directory).mp hdirectory
      exact ((hspelled path hpath).isAncestorOf_iff hparent).mp (hother path hpath)

/-- Where all sources are named by absolute paths, or all by relative ones, the common directory is
the longest one above them all in whatever order they come, and stripping it keeps them apart. -/
theorem commonSourceDirectory_longest (files : List ProgramFile)
    (hne : sourcePaths files ≠ [])
    (hsame : ∀ path ∈ sourcePaths files, ∀ other ∈ sourcePaths files,
      path.isAbsolute = other.isAbsolute) :
    ∃ directory, IsLongestAncestor directory (sourcePaths files) ∧
      (∀ files' : List ProgramFile, files'.Perm files →
        commonSourceDirectory files' = some directory) ∧
      (∀ path ∈ sourcePaths files, (path.stripPrefix directory).isSome = true) ∧
      ∀ path ∈ sourcePaths files, ∀ other ∈ sourcePaths files,
        path.stripPrefix directory = other.stripPrefix directory → path = other := by
  obtain ⟨source, hsource⟩ := List.exists_mem_of_ne_nil _ hne
  have habsolute (files' : List ProgramFile) (hperm : files'.Perm files) :
      ∀ path ∈ sourcePaths files', path.isAbsolute = source.isAbsolute := fun path hpath =>
    hsame path ((sourcePaths_perm hperm).mem_iff.mp hpath) source hsource
  obtain ⟨directory, -, hspelled, hlongest⟩ :=
    isLongestAncestor_commonSourceDirectory hne (habsolute files (.refl _))
  have hpaths : ∀ path ∈ sourcePaths files, path.IsSpelled source.isAbsolute := by
    intro path hpath
    rw [← habsolute files (.refl _) path hpath]
    exact isSpelled_of_mem_sourcePaths hpath
  refine ⟨directory, hlongest, ?_, ?_, ?_⟩
  · intro files' hperm
    have hmem (path : Path) : path ∈ sourcePaths files' ↔ path ∈ sourcePaths files :=
      (sourcePaths_perm hperm).mem_iff
    obtain ⟨directory', heq, hspelled', hlongest'⟩ := isLongestAncestor_commonSourceDirectory
      (List.ne_nil_of_mem ((hmem source).mpr hsource)) (habsolute files' hperm)
    have hle := hlongest.longest directory' fun path hpath =>
      hlongest'.isAncestorOf path ((hmem path).mpr hpath)
    have hge := hlongest'.longest directory fun path hpath =>
      hlongest.isAncestorOf path ((hmem path).mp hpath)
    rw [heq, hspelled'.eq_of_components hspelled (hle.eq_of_length_le hge.length_le)]
  · intro path hpath
    rw [Path.stripPrefix, if_pos (hlongest.isAncestorOf path hpath).1]
    rfl
  · intro path hpath other hother heq
    exact (hpaths path hpath).stripPrefix_injective (hpaths other hother) hspelled
      (hlongest.isAncestorOf path hpath) (hlongest.isAncestorOf other hother) heq

private def sourceFile (index : Nat) (hostPath : String) : ProgramFile :=
  ⟨⟨index⟩, ⟨hostPath.toList⟩, ⟨hostPath.toList⟩⟩

theorem commonSourceDirectory_longest_nested :
    ∃ directory, IsLongestAncestor directory
        (sourcePaths [sourceFile 0 "/p/src/a.ts", sourceFile 1 "/p/src2/b.ts"]) ∧
      commonSourceDirectory [sourceFile 1 "/p/src2/b.ts", sourceFile 0 "/p/src/a.ts"] =
        some directory := by
  obtain ⟨directory, hlongest, hperm, -⟩ := commonSourceDirectory_longest
    [sourceFile 0 "/p/src/a.ts", sourceFile 1 "/p/src2/b.ts"] (by decide +kernel)
    (by decide +kernel)
  exact ⟨directory, hlongest, hperm _ (.swap _ _ _)⟩

/-- Next to an absolute path a relative one shares no directory, and the result depends on which
of the two comes first. -/
theorem commonSourceDirectory_mixed :
    sourcePaths [sourceFile 0 "/a/x.ts", sourceFile 1 "b/y.ts"] ≠ [] ∧
      commonSourceDirectory [sourceFile 0 "/a/x.ts", sourceFile 1 "b/y.ts"] = some ⟨['/']⟩ ∧
      commonSourceDirectory [sourceFile 1 "b/y.ts", sourceFile 0 "/a/x.ts"] = some ⟨[]⟩ ∧
      (Path.mk "b/y.ts".toList ∈
        sourcePaths [sourceFile 0 "/a/x.ts", sourceFile 1 "b/y.ts"]) ∧
      ¬ (Path.mk ['/']).IsAncestorOf ⟨"b/y.ts".toList⟩ := by
  refine ⟨?_, ?_, ?_, ?_, fun h => ?_⟩
  · decide +kernel
  · decide +kernel
  · decide +kernel
  · decide +kernel
  · exact absurd h.1 (by decide +kernel)

end Tsz.Project
