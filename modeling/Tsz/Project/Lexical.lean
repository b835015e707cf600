import Tsz.Project.Names

/-!
# Lexical normal forms of any path

A path without empty pieces and single dots is spelled by its pieces, whether it is absolute or
not, and a lexical normal form is such a path. What a path denotes is found by walking it: a
relative path climbs out of the directory it starts in, an absolute one stays at the root.

## Main definitions

* `Path.location` — where a path leads.

## Main results

* `Path.components_ofPieces`, `Path.push_ofPieces`, `Path.parent_ofPieces`.
* `Path.normalizeProjectPath_sound_iff` — when the normal form leads to the same place.
* `Path.normalizeClampedPath_eq` — the clamped normal form always does.
-/

namespace Tsz.Project

/-- A piece of a spelled path: a name or the step to the parent. -/
def IsPiece (piece : Name) : Prop := piece ≠ [] ∧ '/' ∉ piece ∧ piece ≠ ['.']

theorem IsName.isPiece {name : Name} (h : IsName name) : IsPiece name := ⟨h.1, h.2.1, h.2.2.1⟩

def dots : Name := ['.', '.']

theorem isPiece_dots : IsPiece dots := by
  simp [IsPiece, dots]

namespace Component

/-- The component that a piece of a spelled path is. -/
def ofName (piece : Name) : Component := if piece = dots then .parentDir else .normal piece

theorem ofName_of_isName {name : Name} (h : IsName name) : ofName name = .normal name :=
  if_neg h.2.2.2

theorem ofPiece_of_isPiece {piece : Name} (h : IsPiece piece) :
    ofPiece piece = some (ofName piece) := by
  by_cases hdots : piece = dots
  · subst hdots
    rfl
  · rw [ofName, if_neg hdots]
    exact ofPiece_of_isName ⟨h.1, h.2.1, h.2.2, hdots⟩

end Component

namespace Path

/-! ## Spelled paths -/

section

variable {absolute : Bool} {pieces : List Name} (h : ∀ piece ∈ pieces, IsPiece piece)
include h

theorem isAbsolute_ofPieces : (ofPieces absolute pieces).isAbsolute = absolute := by
  cases absolute with
  | true => rfl
  | false =>
    cases pieces with
    | nil => rfl
    | cons piece rest =>
      obtain ⟨c, cs, rfl⟩ := List.exists_cons_of_ne_nil (h piece List.mem_cons_self).1
      have hc : c ≠ '/' := by
        rintro rfl
        exact (h _ List.mem_cons_self).2.1 List.mem_cons_self
      cases rest <;> simp [isAbsolute, ofPieces, hc]

theorem pieces_ofPieces (hne : pieces ≠ []) : (ofPieces absolute pieces).pieces = pieces := by
  have hsplit : (['/'].intercalate pieces).splitOn '/' = pieces :=
    List.splitOn_intercalate '/' (fun piece hpiece => (h piece hpiece).2.1) hne
  rw [Path.pieces, isAbsolute_ofPieces h]
  cases absolute <;> exact hsplit

theorem filterMap_ofPieces : pieces.filterMap Component.ofPiece = pieces.map Component.ofName := by
  induction pieces with
  | nil => rfl
  | cons piece pieces ih =>
    obtain ⟨hpiece, hrest⟩ := List.forall_mem_cons.mp h
    rw [List.filterMap_cons_some (Component.ofPiece_of_isPiece hpiece), ih hrest, List.map_cons]

theorem components_ofPieces :
    (ofPieces absolute pieces).components =
      (if absolute then [.rootDir] else []) ++ pieces.map Component.ofName := by
  rcases eq_or_ne pieces [] with rfl | hne
  · cases absolute <;> rfl
  · have hhead : pieces.head? ≠ some ['.'] := by
      intro hhead
      exact (h _ (List.mem_of_head? hhead)).2.2 rfl
    rw [components, leading, isAbsolute_ofPieces h, pieces_ofPieces h hne, filterMap_ofPieces h,
      if_neg hhead]

theorem trimPieces_of_isPiece (lead : Bool) : trimPieces lead pieces = pieces := by
  induction pieces generalizing lead with
  | nil => rfl
  | cons piece pieces ih =>
    obtain ⟨hpiece, hrest⟩ := List.forall_mem_cons.mp h
    rw [trimPieces, ih hrest]
    cases pieces <;> simp [Component.ofPiece_of_isPiece hpiece]

end

variable {absolute : Bool} {pieces : List Name} {piece : Name}

theorem parent_ofPieces_nil : (ofPieces absolute []).parent = none := by
  cases absolute <;> rfl

theorem parent_ofPieces (h : ∀ p ∈ pieces ++ [piece], IsPiece p) :
    (ofPieces absolute (pieces ++ [piece])).parent = some (ofPieces absolute pieces) := by
  have hpieces : ∀ p ∈ pieces, IsPiece p := fun p hp => h p (List.mem_append_left _ hp)
  rw [parent, pieces_ofPieces h (by simp), isAbsolute_ofPieces h, trimPieces_of_isPiece h]
  split
  next heq => simp at heq
  next => rw [List.dropLast_concat, trimPieces_of_isPiece hpieces]

/-- What is pushed goes behind the pieces, each with its separator. -/
theorem push_text (h : ∀ p ∈ pieces, IsPiece p) {text : Name}
    (hrelative : (Path.mk text).isAbsolute = false) :
    (ofPieces absolute pieces).push ⟨text⟩ =
      ⟨(if absolute then ['/'] else []) ++ (pieces.flatMap (· ++ ['/']) ++ text)⟩ := by
  rw [push, hrelative, if_neg (by simp)]
  rcases List.eq_nil_or_concat pieces with rfl | ⟨init, last, rfl⟩
  · cases absolute <;> simp [ofPieces]
  · have hlast := h last (by simp)
    have htext : (ofPieces absolute (init ++ [last])).text = (if absolute then ['/'] else []) ++
        (init.flatMap (· ++ ['/']) ++ last) := by
      rw [ofPieces, intercalate_append _ _ (by simp), List.intercalate_singleton]
    have hend : (ofPieces absolute (init ++ [last])).text.getLast? ≠ some '/' := by
      rw [htext, ← List.append_assoc, List.getLast?_append_of_ne_nil _ hlast.1]
      exact fun hslash => hlast.2.1 (List.mem_of_getLast? hslash)
    have hne : (ofPieces absolute (init ++ [last])).text ≠ [] := by
      rw [htext]
      simp [hlast.1]
    rw [List.concat_eq_append, if_neg (by simp [hend, hne]), Path.mk.injEq, htext]
    simp

theorem isAbsolute_of_not_mem {text : Name} (h : '/' ∉ text) :
    (Path.mk text).isAbsolute = false := by
  cases text with
  | nil => rfl
  | cons c cs =>
    have hc : c ≠ '/' := fun hc => h (hc ▸ List.mem_cons_self)
    simpa [isAbsolute] using hc

theorem push_ofPieces (h : ∀ p ∈ pieces, IsPiece p) (hpiece : IsPiece piece) :
    (ofPieces absolute pieces).push ⟨piece⟩ = ofPieces absolute (pieces ++ [piece]) := by
  rw [push_text h (isAbsolute_of_not_mem hpiece.2.1), ofPieces, intercalate_append _ _ (by simp),
    List.intercalate_singleton]

/-! ## What a path denotes -/

/-- A place: so many directories above the one where a relative path starts, then down through
names. -/
structure Location where
  absolute : Bool
  above : Nat
  names : List Name
deriving DecidableEq

/-- One step of a walk. At the root there is no way up, and in front of all names a relative path
climbs. -/
def Location.step (location : Location) : Component → Location
  | .rootDir | .curDir => location
  | .normal name => { location with names := location.names ++ [name] }
  | .parentDir =>
    if location.names = [] then
      if location.absolute then location else { location with above := location.above + 1 }
    else { location with names := location.names.dropLast }

def location (path : Path) : Location :=
  path.components.foldl Location.step ⟨path.isAbsolute, 0, []⟩

/-! ## The normal form -/

/-- The step to the parent in front of a normal form. -/
def climb (up : Bool) : List Name := if up then [dots] else []

/-- A normal form stands for a place, but for how far above the start it is. -/
structure Tracks (up : Bool) (location : Location) : Prop where
  isName : ∀ name ∈ location.names, IsName name
  above : location.absolute = false → (up = true ↔ location.above % 2 = 1)
  absolute : location.absolute = true → location.above = 0

/-- The components a path can have behind its root. -/
def IsStep : Component → Prop
  | .rootDir => False
  | .curDir | .parentDir => True
  | .normal name => IsName name

theorem isPiece_climb {up : Bool} {names : List Name} (h : ∀ name ∈ names, IsName name) :
    ∀ piece ∈ climb up ++ names, IsPiece piece := by
  intro piece hpiece
  rcases List.mem_append.mp hpiece with hpiece | hpiece
  · cases up
    · simp [climb] at hpiece
    · obtain rfl : piece = dots := by simpa [climb] using hpiece
      exact isPiece_dots
  · exact (h piece hpiece).isPiece

/-- Climbing in front of all names puts the step there, or takes it away again. -/
theorem tracks_climb {up : Bool} {location : Location} (h : Tracks up location)
    (hnames : location.names = []) : Tracks (!up) (location.step .parentDir) := by
  have hstep : location.step .parentDir = if location.absolute then location
      else { location with above := location.above + 1 } := if_pos hnames
  rw [hstep]
  split_ifs with habsolute
  · exact ⟨h.isName, fun hrelative => by simp [habsolute] at hrelative, h.absolute⟩
  · refine ⟨h.isName, fun _ => ?_, fun hcontra => absurd hcontra habsolute⟩
    have habove := h.above (Bool.eq_false_iff.mpr habsolute)
    cases up <;> simp at habove ⊢ <;> omega

theorem names_climb {location : Location} (hnames : location.names = []) :
    (location.step .parentDir).names = [] := by
  simp only [Location.step, hnames, if_true]
  split
  · exact hnames
  · rfl

theorem normalizeStep_tracks {up : Bool} {location : Location} (h : Tracks up location)
    {component : Component} (hstep : IsStep component) :
    ∃ up', Tracks up' (location.step component) ∧
      normalizeStep location.absolute true
          (ofPieces location.absolute (climb up ++ location.names)) component =
        ofPieces location.absolute (climb up' ++ (location.step component).names) := by
  cases component with
  | rootDir => exact hstep.elim
  | curDir => exact ⟨up, h, rfl⟩
  | normal name =>
    refine ⟨up, ⟨?_, h.above, h.absolute⟩, ?_⟩
    · intro other hother
      rcases List.mem_append.mp hother with hother | hother
      · exact h.isName other hother
      · obtain rfl : other = name := by simpa using hother
        exact hstep
    · rw [Location.step, ← List.append_assoc]
      exact push_ofPieces (isPiece_climb h.isName) hstep.isPiece
  | parentDir =>
    rcases List.eq_nil_or_concat location.names with hnil | ⟨init, last, hconcat⟩
    · refine ⟨!up, tracks_climb h hnil, ?_⟩
      rw [names_climb hnil, hnil, List.append_nil, List.append_nil]
      cases up with
      | false =>
        have hparent : (ofPieces location.absolute []).parent = none := parent_ofPieces_nil
        simp only [normalizeStep, if_true, climb, Bool.false_eq_true, if_false, hparent]
        exact push_ofPieces (by simp) isPiece_dots
      | true =>
        have hpiece : ∀ piece ∈ ([] : List Name) ++ [dots], IsPiece piece := by
          simp [isPiece_dots]
        have hparent : (ofPieces location.absolute [dots]).parent =
            some (ofPieces location.absolute []) := parent_ofPieces hpiece
        simp only [normalizeStep, if_true, climb, hparent]
        rfl
    · rw [List.concat_eq_append] at hconcat
      have hnames : (location.step .parentDir).names = init := by
        simp [Location.step, hconcat]
      refine ⟨up, ⟨?_, ?_, ?_⟩, ?_⟩
      · intro name hname
        rw [hnames] at hname
        exact h.isName name (by simp [hconcat, hname])
      · simpa [Location.step, hconcat] using h.above
      · simpa [Location.step, hconcat] using h.absolute
      · have hpieces : ∀ piece ∈ climb up ++ location.names, IsPiece piece :=
          isPiece_climb h.isName
        rw [hconcat, ← List.append_assoc] at hpieces
        have hparent : (ofPieces location.absolute (climb up ++ init ++ [last])).parent =
            some (ofPieces location.absolute (climb up ++ init)) := parent_ofPieces hpieces
        rw [hnames, hconcat, ← List.append_assoc]
        simp only [normalizeStep, if_true, hparent]

theorem absolute_step (location : Location) (component : Component) :
    (location.step component).absolute = location.absolute := by
  cases component <;> simp only [Location.step]
  split <;> [split; rfl] <;> rfl

theorem foldl_normalizeStep_tracks {components : List Component}
    (hsteps : ∀ component ∈ components, IsStep component) {up : Bool} {location : Location}
    (h : Tracks up location) :
    ∃ up', Tracks up' (components.foldl Location.step location) ∧
      components.foldl (normalizeStep location.absolute true)
          (ofPieces location.absolute (climb up ++ location.names)) =
        ofPieces location.absolute
          (climb up' ++ (components.foldl Location.step location).names) := by
  induction components generalizing up location with
  | nil => exact ⟨up, h, rfl⟩
  | cons component components ih =>
    obtain ⟨hstep, hrest⟩ := List.forall_mem_cons.mp hsteps
    obtain ⟨next, htracks, heq⟩ := normalizeStep_tracks h hstep
    obtain ⟨up', htracks', heq'⟩ := ih hrest htracks
    rw [absolute_step] at heq'
    refine ⟨up', htracks', ?_⟩
    rw [List.foldl_cons, heq]
    exact heq'

/-! ## The components of any path -/

theorem isStep_of_mem_pieces {pieces : List Name} (h : ∀ piece ∈ pieces, '/' ∉ piece) :
    ∀ component ∈ pieces.filterMap Component.ofPiece, IsStep component := by
  intro component hcomponent
  obtain ⟨piece, hpiece, heq⟩ := List.mem_filterMap.mp hcomponent
  cases component with
  | rootDir =>
    unfold Component.ofPiece at heq
    split at heq <;> cases heq
  | curDir | parentDir => trivial
  | normal name =>
    obtain ⟨rfl, hname⟩ := isName_of_ofPiece (h piece hpiece) heq
    exact hname

theorem slash_not_mem_pieces (path : Path) : ∀ piece ∈ path.pieces, '/' ∉ piece := by
  intro piece hpiece
  unfold pieces at hpiece
  split at hpiece <;> exact not_mem_of_mem_splitOn hpiece

theorem components_eq_steps (path : Path) : ∃ steps, (∀ step ∈ steps, IsStep step) ∧
    path.components = (if path.isAbsolute then [.rootDir] else []) ++ steps := by
  have hpieces := isStep_of_mem_pieces (slash_not_mem_pieces path)
  unfold components leading
  split_ifs
  · exact ⟨_, hpieces, rfl⟩
  · refine ⟨.curDir :: path.pieces.filterMap Component.ofPiece, ?_, rfl⟩
    exact List.forall_mem_cons.mpr ⟨trivial, hpieces⟩
  · exact ⟨_, hpieces, rfl⟩

/-- The normal form of a path is where it leads, but for the directories above the start: one of
two steps to a parent takes away the other. -/
theorem normalizeProjectPath_tracks (path : Path) : ∃ up, Tracks up path.location ∧
    path.normalizeProjectPathLexically =
      ofPieces path.isAbsolute (climb up ++ path.location.names) := by
  obtain ⟨steps, hsteps, hcomponents⟩ := path.components_eq_steps
  have hstart : Tracks false ⟨path.isAbsolute, 0, []⟩ := ⟨by simp, by simp, by simp⟩
  obtain ⟨up, htracks, hfold⟩ := foldl_normalizeStep_tracks hsteps hstart
  have hlocation : path.location = steps.foldl Location.step ⟨path.isAbsolute, 0, []⟩ := by
    rw [location, hcomponents]
    cases path.isAbsolute <;> rfl
  rw [hlocation]
  refine ⟨up, htracks, ?_⟩
  rw [normalizeProjectPathLexically, normalizeLexically, hcomponents, ← hfold]
  cases path.isAbsolute <;> rfl

/-! ## The normal form of a normal form -/

variable {names : List Name}

theorem components_normalForm (absolute up : Bool) (h : ∀ name ∈ names, IsName name) :
    (ofPieces absolute (climb up ++ names)).components =
      (if absolute then [.rootDir] else []) ++ (if up then [.parentDir] else []) ++
        names.map .normal := by
  rw [components_ofPieces (isPiece_climb h), List.map_append, List.append_assoc]
  congr 2
  · cases up <;> rfl
  · exact List.map_congr_left fun name hname => Component.ofName_of_isName (h name hname)

theorem location_names (location : Location) (names : List Name) :
    (names.map Component.normal).foldl Location.step location =
      { location with names := location.names ++ names } := by
  induction names generalizing location with
  | nil => simp
  | cons name names ih => simp [ih, Location.step]

theorem location_normalForm (absolute up : Bool) (h : ∀ name ∈ names, IsName name) :
    (ofPieces absolute (climb up ++ names)).location =
      ⟨absolute, if absolute then 0 else up.toNat, names⟩ := by
  rw [location, components_normalForm absolute up h, isAbsolute_ofPieces (isPiece_climb h),
    List.foldl_append, location_names]
  cases absolute <;> cases up <;> rfl

theorem foldl_normalizeStep_append {absolute collapse : Bool} {pieces : List Name}
    (hpieces : ∀ piece ∈ pieces, IsPiece piece) (h : ∀ name ∈ names, IsName name) :
    (names.map Component.normal).foldl (normalizeStep absolute collapse)
        (ofPieces absolute pieces) = ofPieces absolute (pieces ++ names) := by
  induction names generalizing pieces with
  | nil => simp
  | cons name names ih =>
    obtain ⟨hname, hrest⟩ := List.forall_mem_cons.mp h
    have hnext : ∀ piece ∈ pieces ++ [name], IsPiece piece := by
      simpa [or_imp, forall_and, hname.isPiece] using hpieces
    have hstep : normalizeStep absolute collapse (ofPieces absolute pieces) (.normal name) =
        ofPieces absolute (pieces ++ [name]) := push_ofPieces hpieces hname.isPiece
    rw [List.map_cons, List.foldl_cons, hstep, ih hnext hrest, List.append_assoc,
      List.singleton_append]

theorem normalizeProjectPath_normalForm (absolute up : Bool) (h : ∀ name ∈ names, IsName name) :
    (ofPieces absolute (climb up ++ names)).normalizeProjectPathLexically =
      ofPieces absolute (climb up ++ names) := by
  have hclimb : ∀ piece ∈ climb up, IsPiece piece := fun piece hpiece =>
    isPiece_climb h piece (List.mem_append_left _ hpiece)
  rw [normalizeProjectPathLexically, normalizeLexically, components_normalForm absolute up h,
    isAbsolute_ofPieces (isPiece_climb h), List.foldl_append]
  have hstart : ((if absolute then [Component.rootDir] else []) ++
      (if up then [Component.parentDir] else [])).foldl (normalizeStep absolute true) ⟨[]⟩ =
        ofPieces absolute (climb up) := by
    cases absolute <;> cases up <;> rfl
  rw [hstart, foldl_normalizeStep_append hclimb h]

theorem normalizeProjectPath_idempotent (path : Path) :
    path.normalizeProjectPathLexically.normalizeProjectPathLexically =
      path.normalizeProjectPathLexically := by
  obtain ⟨up, htracks, heq⟩ := path.normalizeProjectPath_tracks
  rw [heq, normalizeProjectPath_normalForm _ _ htracks.isName]

theorem absolute_location (path : Path) : path.location.absolute = path.isAbsolute := by
  have hfold (components : List Component) (location : Location) :
      (components.foldl Location.step location).absolute = location.absolute := by
    induction components generalizing location with
    | nil => rfl
    | cons component components ih => rw [List.foldl_cons, ih, absolute_step]
  exact hfold _ _

/-- The normal form is found in one go. It leads where the path leads unless the path is relative
and climbs more than one directory above its start. -/
theorem normalizeProjectPath_sound_iff (path : Path) :
    (path.normalizeProjectPathLexically.normalizeProjectPathLexically =
        path.normalizeProjectPathLexically ∧
      path.normalizeProjectPathLexically.location = path.location) ↔
        path.isAbsolute = true ∨ path.location.above ≤ 1 := by
  obtain ⟨up, htracks, heq⟩ := path.normalizeProjectPath_tracks
  have habsolute := path.absolute_location
  rw [and_iff_right path.normalizeProjectPath_idempotent, heq,
    location_normalForm _ _ htracks.isName]
  cases hlocation : path.location with
  | mk absolute above names =>
    rw [hlocation] at htracks habsolute
    dsimp only at habsolute
    subst habsolute
    cases hpath : path.isAbsolute with
    | true =>
      have habove : above = 0 := htracks.absolute hpath
      simp [habove]
    | false =>
      have habove := htracks.above hpath
      dsimp only at habove
      simp only [Bool.false_eq_true, if_false, Location.mk.injEq, true_and, and_true, false_or]
      cases up <;> simp at habove ⊢ <;> omega

/-- The second step to a parent takes away the first. -/
theorem normalizeProjectPath_above :
    (Path.mk "../../a".toList).normalizeProjectPathLexically = ⟨"a".toList⟩ ∧
      (Path.mk "a".toList).location ≠ (Path.mk "../../a".toList).location := by
  decide

/-! ## The clamped normal form -/

/-- The places paths lead to: nothing lies above the root. -/
structure IsPlace (location : Location) : Prop where
  isName : ∀ name ∈ location.names, IsName name
  above : location.absolute = true → location.above = 0

namespace Location

def spelling (location : Location) : List Name :=
  List.replicate location.above dots ++ location.names

/-- The shortest path to a place. -/
def path (location : Location) : Path := ofPieces location.absolute location.spelling

end Location

theorem IsPlace.isPiece {location : Location} (h : IsPlace location) :
    ∀ piece ∈ location.spelling, IsPiece piece := by
  intro piece hpiece
  rcases List.mem_append.mp hpiece with hpiece | hpiece
  · rw [List.eq_of_mem_replicate hpiece]
    exact isPiece_dots
  · exact (h.isName piece hpiece).isPiece

theorem IsPlace.components_path {location : Location} (h : IsPlace location) :
    location.path.components = (if location.absolute then [.rootDir] else []) ++
      (List.replicate location.above .parentDir ++ location.names.map .normal) := by
  rw [Location.path, components_ofPieces h.isPiece, Location.spelling, List.map_append,
    List.map_replicate]
  congr 2
  exact List.map_congr_left fun name hname => Component.ofName_of_isName (h.isName name hname)

theorem IsPlace.step {location : Location} (h : IsPlace location) {component : Component}
    (hstep : IsStep component) : IsPlace (location.step component) := by
  refine ⟨?_, ?_⟩
  · intro name hname
    cases component with
    | rootDir => exact hstep.elim
    | curDir => exact h.isName name hname
    | normal last =>
      rcases List.mem_append.mp hname with hname | hname
      · exact h.isName name hname
      · rw [List.mem_singleton.mp hname]
        exact hstep
    | parentDir =>
      have hmem : name ∈ location.names.dropLast := by
        simp only [Location.step] at hname
        split at hname <;> rename_i hnames
        · split at hname <;> simp [hnames] at hname
        · exact hname
      exact h.isName name (List.dropLast_subset _ hmem)
  · intro habsolute
    rw [absolute_step] at habsolute
    cases component <;> simp [Location.step, habsolute, h.above]
    split <;> simp [h.above habsolute]

/-- Each component added to a normal form takes the step it stands for. -/
theorem IsPlace.normalizeStep_path {location : Location} (h : IsPlace location)
    {component : Component} (hstep : IsStep component) :
    normalizeStep location.absolute false location.path component =
      (location.step component).path := by
  cases component with
  | rootDir => exact hstep.elim
  | curDir => rfl
  | normal name =>
    have hpush : location.path.push ⟨name⟩ = ofPieces location.absolute
        (location.spelling ++ [name]) := push_ofPieces h.isPiece hstep.isPiece
    refine hpush.trans ?_
    rw [Location.path, Location.spelling, Location.spelling, Location.step, List.append_assoc]
  | parentDir =>
    simp only [normalizeStep, Bool.false_eq_true, if_false, h.components_path]
    rcases List.eq_nil_or_concat location.names with hnil | ⟨init, last, hconcat⟩
    · cases habsolute : location.absolute with
      | true => simp [hnil, h.above habsolute, Location.step, habsolute]
      | false =>
        have hpush : location.path.push ⟨Component.parentDir.text⟩ =
            (location.step .parentDir).path := by
          have hpieces : location.path.push ⟨dots⟩ = ofPieces location.absolute
              (location.spelling ++ [dots]) := push_ofPieces h.isPiece isPiece_dots
          refine hpieces.trans ?_
          simp [Location.step, Location.path, Location.spelling, hnil, habsolute,
            List.replicate_succ']
        cases habove : location.above with
        | zero => simpa [hnil] using hpush
        | succ above => simpa [hnil, List.replicate_succ'] using hpush
    · rw [List.concat_eq_append] at hconcat
      have hpieces :
          location.spelling = (List.replicate location.above dots ++ init) ++ [last] := by
        rw [Location.spelling, hconcat, List.append_assoc]
      have hparent : location.path.parent =
          some (ofPieces location.absolute (List.replicate location.above dots ++ init)) := by
        have hpiece := h.isPiece
        rw [hpieces] at hpiece
        rw [Location.path, hpieces, parent_ofPieces hpiece]
      have hpop : location.path.pop = (location.step .parentDir).path := by
        rw [pop, hparent, Option.getD_some]
        simp [Location.step, Location.path, Location.spelling, hconcat]
      simpa [hconcat] using hpop

theorem foldl_clampedStep {steps : List Component} (hsteps : ∀ step ∈ steps, IsStep step)
    {location : Location} (h : IsPlace location) :
    IsPlace (steps.foldl Location.step location) ∧
      steps.foldl (normalizeStep location.absolute false) location.path =
        (steps.foldl Location.step location).path := by
  induction steps generalizing location with
  | nil => exact ⟨h, rfl⟩
  | cons step steps ih =>
    obtain ⟨hstep, hrest⟩ := List.forall_mem_cons.mp hsteps
    rw [List.foldl_cons, List.foldl_cons, h.normalizeStep_path hstep, ← absolute_step]
    exact ih hrest (h.step hstep)

/-- The clamped normal form of a path is the shortest path to where it leads. -/
theorem normalizeClampedPath_eq (path : Path) :
    IsPlace path.location ∧ path.normalizeClampedPathLexically = path.location.path := by
  obtain ⟨steps, hsteps, hcomponents⟩ := path.components_eq_steps
  have hstart : IsPlace ⟨path.isAbsolute, 0, []⟩ := ⟨by simp, by simp⟩
  have hlocation : path.location = steps.foldl Location.step ⟨path.isAbsolute, 0, []⟩ := by
    rw [location, hcomponents]
    cases path.isAbsolute <;> rfl
  obtain ⟨hplace, hfold⟩ := foldl_clampedStep hsteps hstart
  rw [hlocation]
  refine ⟨hplace, ?_⟩
  rw [normalizeClampedPathLexically, normalizeLexically, hcomponents, ← hfold]
  cases path.isAbsolute <;> rfl

theorem IsPlace.location_path {location : Location} (h : IsPlace location) :
    location.path.location = location := by
  have habove (n : Nat) (start : Location) (hnames : start.names = [])
      (habsolute : start.absolute = false) :
      (List.replicate n Component.parentDir).foldl Location.step start =
        { start with above := start.above + n } := by
    induction n generalizing start with
    | zero => rfl
    | succ n ih =>
      rw [List.replicate_succ, List.foldl_cons, ih]
      · simp [Location.step, hnames, habsolute, Nat.add_comm, Nat.add_left_comm]
      · exact names_climb hnames
      · rw [absolute_step, habsolute]
  rw [Path.location, h.components_path, Location.path, isAbsolute_ofPieces h.isPiece,
    List.foldl_append, List.foldl_append, location_names]
  obtain ⟨absolute, above, names⟩ := location
  cases absolute with
  | true =>
    obtain rfl : above = 0 := h.above rfl
    simp [Location.step]
  | false =>
    have hfold := habove above ⟨false, 0, []⟩ rfl rfl
    simp [hfold]

/-! ## Walking on from a directory -/

theorem foldl_step_leading (path : Path) :
    path.location = (path.pieces.filterMap Component.ofPiece).foldl Location.step
      ⟨path.isAbsolute, 0, []⟩ := by
  rw [location, components, leading]
  split_ifs <;> rfl

/-- A relative text is walked from the directory it is pushed to. -/
theorem location_push (h : ∀ p ∈ pieces, IsPiece p) {text : Name}
    (hrelative : (Path.mk text).isAbsolute = false) :
    ((ofPieces absolute pieces).push ⟨text⟩).location =
      ((text.splitOn '/').filterMap Component.ofPiece).foldl Location.step
        (ofPieces absolute pieces).location := by
  have hslash : ∀ p ∈ pieces, '/' ∉ p := fun p hp => (h p hp).2.1
  have habsolute : (Path.mk ((if absolute then ['/'] else []) ++
      (pieces.flatMap (· ++ ['/']) ++ text))).isAbsolute = absolute := by
    cases absolute with
    | true => rfl
    | false =>
      cases pieces with
      | nil => exact hrelative
      | cons first rest =>
        obtain ⟨c, cs, rfl⟩ := List.exists_cons_of_ne_nil (h first List.mem_cons_self).1
        have hc : c ≠ '/' := fun hc => hslash _ List.mem_cons_self (hc ▸ List.mem_cons_self)
        simpa [isAbsolute] using hc
  have hpieces : (Path.mk ((if absolute then ['/'] else []) ++
      (pieces.flatMap (· ++ ['/']) ++ text))).pieces = pieces ++ text.splitOn '/' := by
    rw [Path.pieces, habsolute]
    cases absolute <;> exact splitOn_below hslash text
  rw [push_text h hrelative, foldl_step_leading, habsolute, hpieces, List.filterMap_append,
    List.foldl_append]
  congr 1
  rw [location, components_ofPieces h, isAbsolute_ofPieces h, filterMap_ofPieces h]
  cases absolute <;> rfl

end Path

end Tsz.Project
