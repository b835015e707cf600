import Tsz.Project.CommonDirectory
import Mathlib.Data.List.Nodup

/-!
# Relative imports

A relative specifier is walked from the directory of the importing file. A place without an
extension is tried with each supported extension in turn, a place with one as it is.

## Main definitions

* `resolveRelativeSource` — the source a specifier names.
* `FindsSource` — what was found is a source, or one that comes before it.

## Main results

* `resolveRelativeSource_complete_iff` — when a source is found by its path without its extension.
-/

namespace Tsz.Project

namespace Path

def normalizeImportPathLexically (path : Path) : Path := path.normalizeLexically false

/-- The file name's extension is replaced, or added to a name that has none. -/
def setExtension (path : Path) (extension : Name) : Path :=
  match path.fileStem with
  | none => path
  | some stem => path.withFileName (stem ++ '.' :: extension)

end Path

/-- The source with a normalised path; of several the last one is kept. -/
def sourceAt (files : List ProgramFile) (path : Path) : Option FileId :=
  (files.reverse.find? fun file =>
    file.hostPath.normalizeImportPathLexically.components = path.components).map (·.id)

def exactSourceKindSupported (path : Path) (allowJs : Bool) : Bool :=
  match path.extension with
  | none => false
  | some extension =>
    ["ts", "tsx", "mts", "cts"].any (·.toList = extension) ||
      allowJs && ["js", "jsx", "mjs", "cjs"].any (·.toList = extension)

/-- The extensions of sources in the order they are tried. -/
def sourceExtensions (allowJs : Bool) : List Name :=
  let extensions :=
    ["ts", "tsx", "d.ts", "mts", "d.mts", "cts", "d.cts", "js", "jsx", "mjs", "cjs"]
  (extensions.take (if allowJs then extensions.length else 7)).map String.toList

def isRelativeSpecifier (specifier : Name) : Bool :=
  "./".toList.isPrefixOf specifier || "../".toList.isPrefixOf specifier

def resolveRelativeSource (files : List ProgramFile) (importer : ProgramFile) (specifier : Name)
    (allowJs : Bool) : Option FileId :=
  if !isRelativeSpecifier specifier then none
  else
    let parent := importer.hostPath.parent.getD ⟨[]⟩
    let base := (parent.join ⟨specifier⟩).normalizeImportPathLexically
    if base.extension.isSome then
      if !exactSourceKindSupported base allowJs then none else sourceAt files base
    else
      (sourceExtensions allowJs).findSome? fun extension =>
        sourceAt files (base.setExtension extension)

/-- What was found is a file with the same stem whose extension comes no later. -/
def FindsSource (program : Program) (found : Option FileId) (source : ProgramFile) (stem : Name)
    (extension : Name) (allowJs : Bool) : Prop :=
  ∃ file ∈ program.files, found = some file.id ∧
    ∃ better, (sourceExtensions allowJs).idxOf better ≤ (sourceExtensions allowJs).idxOf extension ∧
      file.hostPath.normalizeImportPathLexically =
        source.hostPath.normalizeImportPathLexically.withFileName (stem ++ '.' :: better)

/-! ## File names -/

/-- A name has no extension where no dot comes behind its first character. -/
theorem Path.splitExtension_of_not_mem {name : Name} (h : '.' ∉ name.tail) :
    splitExtension name = (name, none) := by
  cases name with
  | nil => rfl
  | cons c tail =>
    have hall : ∀ d ∈ tail.reverse, (d != '.') = true := by
      intro d hd
      have hne : d ≠ '.' := fun heq => h (heq ▸ List.mem_reverse.mp hd)
      simpa using hne
    have hlength : tail.length ≤ ((c :: tail).reverse.takeWhile (· != '.')).reverse.length := by
      rw [List.reverse_cons, List.takeWhile_append_of_pos hall]
      simp
    have hbefore : (c :: tail).length -
        ((c :: tail).reverse.takeWhile (· != '.')).reverse.length - 1 = 0 := by
      rw [List.length_cons]
      omega
    rw [splitExtension, hbefore]
    exact if_pos (Or.inr rfl)

theorem Path.isSome_splitExtension {name : Name} (h : '.' ∈ name.tail)
    (hdots : name ≠ dots) : (splitExtension name).2.isSome = true := by
  cases name with
  | nil => cases h
  | cons c tail =>
    have hmem : '.' ∈ tail.reverse := List.mem_reverse.mpr h
    obtain ⟨post, pre, heq, hpost⟩ := List.eq_append_cons_of_mem hmem
    have hall : ∀ d ∈ post, (d != '.') = true := by
      intro d hd
      have hne : d ≠ '.' := fun hdot => hpost (hdot ▸ hd)
      simpa using hne
    have hafter : (c :: tail).reverse.takeWhile (· != '.') = post := by
      rw [List.reverse_cons, heq, List.append_assoc, List.takeWhile_append_of_pos hall]
      simp
    have hlength : tail.length = post.length + (pre.length + 1) := by
      simpa using congrArg List.length heq
    have hbefore : (c :: tail).take ((c :: tail).length - post.reverse.length - 1) ≠ [] := by
      have hpos : (c :: tail).length - post.reverse.length - 1 ≠ 0 := by
        simp only [List.length_cons, List.length_reverse]
        omega
      exact fun hnil => hpos ((List.take_eq_nil_iff.mp hnil).resolve_right (by simp))
    have hnone : ¬ (c :: tail = ['.', '.'] ∨
        (c :: tail).take ((c :: tail).length - post.reverse.length - 1) = []) :=
      not_or.mpr ⟨hdots, hbefore⟩
    rw [splitExtension, hafter]
    simp only [if_neg hnone, Option.isSome_some]

/-- What can be added to a stem behind a dot. -/
def IsExtension (extension : Name) : Prop := '/' ∉ extension ∧ ∃ c ∈ extension, c ≠ '.'

theorem isExtension_of_mem {allowJs : Bool} {extension : Name}
    (h : extension ∈ sourceExtensions allowJs) : IsExtension extension := by
  have hall : (sourceExtensions true).all fun extension =>
      !extension.contains '/' && extension.any (· != '.') := by decide
  have hmem : extension ∈ sourceExtensions true := by
    cases allowJs with
    | true => exact h
    | false => exact List.mem_of_mem_take (l := sourceExtensions true) (i := 7) h
  simpa [IsExtension] using List.all_eq_true.mp hall extension hmem

theorem IsExtension.isName {extension : Name} (h : IsExtension extension) {stem : Name}
    (hstem : '/' ∉ stem) : IsName (stem ++ '.' :: extension) := by
  obtain ⟨hslash, c, hc, hdot⟩ := h
  have hmem : c ∈ stem ++ '.' :: extension := by simp [hc]
  refine ⟨by simp, by simp [hstem, hslash], ?_, ?_⟩ <;>
  · intro heq
    rw [heq] at hmem
    exact hdot (by simpa using hmem)

namespace Path

/-! ## Places with a name -/

/-- The place that some components spell. -/
def Location.ofComponents (components : List Component) : Location where
  absolute := components.contains .rootDir
  above := components.count .parentDir
  names := components.filterMap fun
    | .normal name => some name
    | _ => none

theorem IsPlace.ofComponents_path {location : Location} (h : IsPlace location) :
    Location.ofComponents location.path.components = location := by
  obtain ⟨absolute, above, names⟩ := location
  rw [h.components_path]
  have hnames : (names.map Component.normal).filterMap (fun
      | .normal name => some name
      | _ => none) = names := by
    rw [List.filterMap_map]
    exact List.filterMap_some
  have hcount : (names.map Component.normal).count .parentDir = 0 :=
    List.count_eq_zero.mpr (by simp)
  cases absolute <;> simp [Location.ofComponents, hnames, hcount]

theorem fileName_path {location : Location} (h : IsPlace location) :
    location.path.fileName = location.names.getLast? := by
  rw [fileName, h.components_path]
  rcases List.eq_nil_or_concat location.names with hnil | ⟨init, last, hconcat⟩
  · rw [hnil]
    cases habsolute : location.absolute with
    | true => simp [h.above habsolute]
    | false => cases habove : location.above <;> simp [List.replicate_succ']
  · simp [hconcat]

theorem IsPlace.of_prefix {location : Location} (h : IsPlace location) {init : List Name}
    {last name : Name} (hnames : location.names = init ++ [last]) (hname : IsName name) :
    IsPlace { location with names := init } ∧
      IsPlace { location with names := init ++ [name] } := by
  have hinit : ∀ other ∈ init, IsName other := fun other hother =>
    h.isName other (by simp [hnames, hother])
  exact ⟨⟨hinit, h.above⟩, ⟨by simpa [or_imp, forall_and, hname] using hinit, h.above⟩⟩

/-- Another file name is pushed to the directory. -/
theorem withFileName_path {location : Location} (h : IsPlace location) {init : List Name}
    {last : Name} (hnames : location.names = init ++ [last]) (name : Name) :
    location.path.withFileName name =
      { location with names := init : Location }.path.push ⟨name⟩ := by
  have hspelling : location.spelling = (List.replicate location.above dots ++ init) ++ [last] := by
    rw [Location.spelling, hnames, List.append_assoc]
  have hparent : location.path.parent = some { location with names := init : Location }.path := by
    have hpiece := h.isPiece
    rw [hspelling] at hpiece
    rw [Location.path, hspelling, parent_ofPieces hpiece]
    rfl
  rw [withFileName, fileName_path h, hnames, pop, hparent]
  simp

theorem withFileName_path_of_isName {location : Location} (h : IsPlace location)
    {init : List Name} {last name : Name} (hnames : location.names = init ++ [last])
    (hname : IsName name) :
    location.path.withFileName name =
      { location with names := init ++ [name] : Location }.path := by
  have hpush : ({ location with names := init : Location }.path).push ⟨name⟩ =
      ofPieces location.absolute
        (({ location with names := init : Location }).spelling ++ [name]) :=
    push_ofPieces (h.of_prefix hnames hname).1.isPiece hname.isPiece
  rw [withFileName_path h hnames, hpush, Location.path, Location.spelling, Location.spelling,
    List.append_assoc]

/-- Replacing the extension keeps the directory. -/
theorem setExtension_path {location : Location} (h : IsPlace location) {extension : Name}
    (hextension : IsExtension extension) :
    ∃ result, IsPlace result ∧ location.path.setExtension extension = result.path ∧
      result.names.length = location.names.length := by
  rcases List.eq_nil_or_concat location.names with hnil | ⟨init, last, hconcat⟩
  · refine ⟨location, h, ?_, rfl⟩
    rw [setExtension, fileStem, fileName_path h, hnil]
    rfl
  · rw [List.concat_eq_append] at hconcat
    have hlast : IsName last := h.isName last (by simp [hconcat])
    have hslash : '/' ∉ (splitExtension last).1 := by
      intro hmem
      simp only [splitExtension] at hmem
      split at hmem
      · exact hlast.2.1 hmem
      · exact hlast.2.1 (List.mem_of_mem_take hmem)
    have hname := hextension.isName hslash
    refine ⟨_, (h.of_prefix hconcat hname).2, ?_, by simp [hconcat]⟩
    rw [← withFileName_path_of_isName h hconcat hname, setExtension, fileStem, fileName_path h,
      hconcat]
    simp

end Path

/-! ## Sources by their paths -/

theorem normalizeImportPath_eq (path : Path) :
    Path.IsPlace path.location ∧ path.normalizeImportPathLexically = path.location.path :=
  path.normalizeClampedPath_eq

theorem sourceAt_sound {files : List ProgramFile} {path : Path} {id : FileId}
    (h : sourceAt files path = some id) : ∃ file ∈ files, file.id = id ∧
      file.hostPath.normalizeImportPathLexically.components = path.components := by
  obtain ⟨file, hfind, rfl⟩ := Option.map_eq_some_iff.mp h
  refine ⟨file, List.mem_reverse.mp (List.mem_of_find?_eq_some hfind), rfl, ?_⟩
  simpa using List.find?_some hfind

theorem sourceAt_complete {files : List ProgramFile} {file : ProgramFile} (h : file ∈ files) :
    ∃ id, sourceAt files file.hostPath.normalizeImportPathLexically = some id := by
  have hfind : (files.reverse.find? fun other =>
      other.hostPath.normalizeImportPathLexically.components =
        file.hostPath.normalizeImportPathLexically.components).isSome = true := by
    rw [List.find?_isSome]
    exact ⟨file, List.mem_reverse.mpr h, by simp⟩
  obtain ⟨other, hother⟩ := Option.isSome_iff_exists.mp hfind
  exact ⟨other.id, by rw [sourceAt, hother]; rfl⟩

theorem Program.eq_of_id (program : Program) {file other : ProgramFile}
    (h : file ∈ program.files) (hother : other ∈ program.files) (hid : file.id = other.id) :
    file = other :=
  List.inj_on_of_nodup_map program.ids_nodup h hother hid

/-! ## The search -/

/-- What is found lies where the specifier leads, but for the extension that is tried. -/
theorem resolveRelativeSource_sound {files : List ProgramFile} {importer : ProgramFile}
    {specifier : Name} {allowJs : Bool} {id : FileId} {location : Path.Location}
    (hleads : ((importer.hostPath.parent.getD ⟨[]⟩).join ⟨specifier⟩).location = location)
    (h : resolveRelativeSource files importer specifier allowJs = some id) :
    ∃ file ∈ files, file.id = id ∧ ∃ result, Path.IsPlace result ∧
      file.hostPath.normalizeImportPathLexically.components = result.path.components ∧
        result.names.length = location.names.length ∧
          (location.path.extension.isSome = true → result = location) := by
  obtain ⟨hplace, hbase⟩ := normalizeImportPath_eq
    ((importer.hostPath.parent.getD ⟨[]⟩).join ⟨specifier⟩)
  rw [hleads] at hplace hbase
  simp only [resolveRelativeSource, hbase] at h
  split_ifs at h with hspecifier hextension hexact
  · obtain ⟨file, hfile, hid, hcomponents⟩ := sourceAt_sound h
    exact ⟨file, hfile, hid, location, hplace, hcomponents, rfl, fun _ => rfl⟩
  · obtain ⟨extension, hmem, hfound⟩ := List.exists_of_findSome?_eq_some h
    obtain ⟨file, hfile, hid, hcomponents⟩ := sourceAt_sound hfound
    obtain ⟨result, hresult, heq, hlength⟩ :=
      Path.setExtension_path hplace (isExtension_of_mem hmem)
    rw [heq] at hcomponents
    exact ⟨file, hfile, hid, result, hresult, hcomponents, hlength,
      fun hsome => absurd hsome hextension⟩

/-- The first of some candidates that succeeds comes no later than one that does. -/
theorem exists_findSome?_eq_some {α β : Type} [BEq α] [LawfulBEq α] {f : α → Option β} {xs : List α}
    {x : α} (hx : x ∈ xs) (hsome : (f x).isSome = true) :
    ∃ y ∈ xs, xs.idxOf y ≤ xs.idxOf x ∧ ∃ b, f y = some b ∧ xs.findSome? f = some b := by
  have hfound : (xs.findSome? f).isSome = true := List.findSome?_isSome_iff.mpr ⟨x, hx, hsome⟩
  obtain ⟨b, hb⟩ := Option.isSome_iff_exists.mp hfound
  obtain ⟨before, y, behind, rfl, hy, hbefore⟩ := List.findSome?_eq_some_iff.mp hb
  have hnot : ∀ z, (f z).isSome = true → z ∉ before := by
    intro z hz hmem
    rw [hbefore z hmem] at hz
    cases hz
  refine ⟨y, by simp, ?_, b, hy, hb⟩
  rw [List.idxOf_append_of_notMem (hnot y (by simp [hy])),
    List.idxOf_append_of_notMem (hnot x hsome)]
  simp

section

variable {program : Program} {importer source : ProgramFile} {allowJs : Bool}
  {stem extension specifier : Name} {location : Path.Location} {init : List Name}

theorem findsSource_of_stem (hsource : source ∈ program.files)
    (hextension : extension ∈ sourceExtensions allowJs)
    (hrelative : isRelativeSpecifier specifier = true)
    (hplace : Path.IsPlace location)
    (hnames : location.names = init ++ [stem ++ '.' :: extension])
    (hnormal : source.hostPath.normalizeImportPathLexically = location.path)
    (hleads : ((importer.hostPath.parent.getD ⟨[]⟩).join ⟨specifier⟩).location =
      { location with names := init ++ [stem] })
    (hstem : IsName stem) (hdot : '.' ∉ stem.tail) :
    FindsSource program (resolveRelativeSource program.files importer specifier allowJs) source
      stem extension allowJs := by
  obtain ⟨-, hbase⟩ := normalizeImportPath_eq
    ((importer.hostPath.parent.getD ⟨[]⟩).join ⟨specifier⟩)
  have htarget := (hplace.of_prefix hnames hstem).2
  have hsplit := Path.splitExtension_of_not_mem hdot
  have hfileName : ({ location with names := init ++ [stem] } : Path.Location).path.fileName =
      some stem := by
    rw [Path.fileName_path htarget]
    simp
  -- every candidate is the file beside the source with the same stem
  have hcandidate : ∀ other ∈ sourceExtensions allowJs,
      ({ location with names := init ++ [stem] } : Path.Location).path.setExtension other =
        location.path.withFileName (stem ++ '.' :: other) := by
    intro other hother
    have hname := (isExtension_of_mem hother).isName hstem.2.1
    rw [Path.setExtension, Path.fileStem, hfileName, Path.withFileName_path_of_isName hplace
      hnames hname, Option.map_some, hsplit]
    exact Path.withFileName_path_of_isName htarget rfl hname
  have hself : location.path.withFileName (stem ++ '.' :: extension) = location.path := by
    rw [Path.withFileName_path_of_isName hplace hnames (hplace.isName _ (by simp [hnames])),
      ← hnames]
  have hsome : (sourceAt program.files
      (({ location with names := init ++ [stem] } : Path.Location).path.setExtension
        extension)).isSome = true := by
    obtain ⟨id, hid⟩ := sourceAt_complete hsource
    rw [hcandidate extension hextension, hself, ← hnormal, hid]
    rfl
  obtain ⟨better, hbetter, hle, id, hid, hfound⟩ := exists_findSome?_eq_some
    (f := fun other => sourceAt program.files
      (({ location with names := init ++ [stem] } : Path.Location).path.setExtension other))
    hextension hsome
  obtain ⟨file, hfile, rfl, hcomponents⟩ := sourceAt_sound hid
  refine ⟨file, hfile, ?_, better, hle, ?_⟩
  · rw [hleads] at hbase
    simp only [resolveRelativeSource, hbase, hrelative, Path.extension, hfileName,
      Option.bind_some, hsplit]
    exact hfound
  · obtain ⟨hfilePlace, hfileNormal⟩ := normalizeImportPath_eq file.hostPath
    have hname := (isExtension_of_mem hbetter).isName hstem.2.1
    rw [hcandidate better hbetter, Path.withFileName_path_of_isName hplace hnames hname,
      hfileNormal] at hcomponents
    rw [hnormal, Path.withFileName_path_of_isName hplace hnames hname, hfileNormal,
      ← hfilePlace.ofComponents_path, hcomponents,
      (hplace.of_prefix hnames hname).2.ofComponents_path]

/-- Nothing beside the source is found where the specifier leads higher up, or to a name that has
an extension. -/
theorem not_findsSource (hextension : extension ∈ sourceExtensions allowJs)
    (hplace : Path.IsPlace location)
    (hnames : location.names = init ++ [stem ++ '.' :: extension])
    (hnormal : source.hostPath.normalizeImportPathLexically = location.path)
    (hslash : '/' ∉ stem) {target : Path.Location}
    (hleads : ((importer.hostPath.parent.getD ⟨[]⟩).join ⟨specifier⟩).location = target)
    (htarget : target.names.length ≤ init.length ∨
      target.names = init ++ [stem] ∧ target.path.extension.isSome = true) :
    ¬ FindsSource program (resolveRelativeSource program.files importer specifier allowJs) source
      stem extension allowJs := by
  rintro ⟨file, hfile, hfound, better, hle, hpath⟩
  have hbetter : better ∈ sourceExtensions allowJs :=
    List.idxOf_lt_length_iff.mp (hle.trans_lt (List.idxOf_lt_length_iff.mpr hextension))
  have hname := (isExtension_of_mem hbetter).isName hslash
  obtain ⟨other, hother, hid, result, hresult, hcomponents, hlength, hexact⟩ :=
    resolveRelativeSource_sound hleads hfound
  obtain rfl := program.eq_of_id hother hfile hid
  rw [hpath, hnormal, Path.withFileName_path_of_isName hplace hnames hname] at hcomponents
  obtain rfl : ({ location with names := init ++ [stem ++ '.' :: better] } : Path.Location) =
      result := by
    rw [← (hplace.of_prefix hnames hname).2.ofComponents_path, hcomponents,
      hresult.ofComponents_path]
  rcases htarget with hshort | ⟨htarget, hsome⟩
  · simp only [List.length_append, List.length_singleton] at hlength
    omega
  · have heq := congrArg Path.Location.names (hexact hsome)
    rw [htarget] at heq
    simp at heq

end

/-- A source is found by the relative path to it without its extension, or one of the same stem
that comes before it, if and only if no dot is behind the first character of that stem, and it is
not empty or a dot. -/
theorem resolveRelativeSource_complete_iff (program : Program) (importer source : ProgramFile)
    (allowJs : Bool) (stem extension specifier : Name) (hsource : source ∈ program.files)
    (hextension : extension ∈ sourceExtensions allowJs)
    (hname : source.hostPath.normalizeImportPathLexically.fileName =
      some (stem ++ '.' :: extension))
    (hrelative : isRelativeSpecifier specifier = true)
    (hleads : ((importer.hostPath.parent.getD ⟨[]⟩).join ⟨specifier⟩).location =
      (source.hostPath.normalizeImportPathLexically.withFileName stem).location) :
    FindsSource program (resolveRelativeSource program.files importer specifier allowJs) source
        stem extension allowJs ↔ stem ≠ [] ∧ stem ≠ ['.'] ∧ '.' ∉ stem.tail := by
  obtain ⟨hplace, hnormal⟩ := normalizeImportPath_eq source.hostPath
  rw [hnormal, Path.fileName_path hplace] at hname
  obtain ⟨init, hnames⟩ := List.getLast?_eq_some_iff.mp hname
  have hslash : '/' ∉ stem := by
    have hfile := (hplace.isName (stem ++ '.' :: extension) (by simp [hnames])).2.1
    exact fun hmem => hfile (by simp [hmem])
  generalize source.hostPath.location = location at hplace hnormal hnames
  have hdirectory := (hplace.of_prefix hnames
    (hplace.isName (stem ++ '.' :: extension) (by simp [hnames]))).1
  have hsplit : stem.splitOn '/' = [stem] := by
    have hjoined : (['/'].intercalate [stem]).splitOn '/' = [stem] :=
      List.splitOn_intercalate '/' (by simpa using hslash) (by simp)
    rwa [List.intercalate_singleton] at hjoined
  have hpush : ({ location with names := init : Path.Location }.path.push ⟨stem⟩).location =
      ((stem.splitOn '/').filterMap Component.ofPiece).foldl Path.Location.step
        { location with names := init : Path.Location }.path.location :=
    Path.location_push hdirectory.isPiece (Path.isAbsolute_of_not_mem hslash)
  have hwalk : ((importer.hostPath.parent.getD ⟨[]⟩).join ⟨specifier⟩).location =
      ([stem].filterMap Component.ofPiece).foldl Path.Location.step
        { location with names := init } := by
    rw [hleads, hnormal, Path.withFileName_path hplace hnames, hpush, hsplit,
      hdirectory.location_path]
  by_cases hdot : '.' ∈ stem.tail
  · refine iff_of_false ?_ fun h => h.2.2 hdot
    apply not_findsSource hextension hplace hnames hnormal hslash hwalk
    by_cases hdots : stem = dots
    · left
      subst hdots
      simp only [dots, Component.ofPiece, Path.Location.step, List.filterMap_cons,
        List.filterMap_nil, List.foldl_cons, List.foldl_nil]
      split_ifs <;> simp
    · right
      have hstem : IsName stem := by
        refine ⟨?_, hslash, ?_, hdots⟩ <;>
        · rintro rfl
          simp at hdot
      have htarget := (hplace.of_prefix hnames hstem).2
      have hstep : ([stem].filterMap Component.ofPiece).foldl Path.Location.step
          { location with names := init } = { location with names := init ++ [stem] } := by
        simp [Component.ofPiece_of_isName hstem, Path.Location.step]
      rw [hstep]
      refine ⟨rfl, ?_⟩
      rw [Path.extension, Path.fileName_path htarget]
      simpa using Path.isSome_splitExtension hdot hdots
  · by_cases hempty : stem = [] ∨ stem = ['.']
    · refine iff_of_false ?_ (by grind)
      apply not_findsSource hextension hplace hnames hnormal hslash hwalk
      left
      rcases hempty with rfl | rfl <;> exact le_rfl
    · obtain ⟨hne, hpoint⟩ := not_or.mp hempty
      refine iff_of_true ?_ ⟨hne, hpoint, hdot⟩
      have hstem : IsName stem := by
        refine ⟨hne, hslash, hpoint, ?_⟩
        rintro rfl
        simp at hdot
      refine findsSource_of_stem hsource hextension hrelative hplace hnames hnormal ?_ hstem hdot
      rw [hwalk]
      simp [Component.ofPiece_of_isName hstem, Path.Location.step]

private def importProgram : Program :=
  .ofInputs (["/p/app/main.ts", "/p/lib/util.d.ts", "/p/lib/util.tsx", "/p/lib/foo.service.ts"].map
    fun text => (⟨text.toList⟩, ⟨text.toList⟩))

private def importFile (index : Nat) : ProgramFile :=
  importProgram.files.getD index ⟨⟨0⟩, ⟨[]⟩, ⟨[]⟩⟩

theorem resolveRelativeSource_complete_util :
    FindsSource importProgram (resolveRelativeSource importProgram.files (importFile 0)
      "../lib/util".toList false) (importFile 1) "util".toList "d.ts".toList false :=
  (resolveRelativeSource_complete_iff importProgram (importFile 0) (importFile 1) false
    "util".toList "d.ts".toList "../lib/util".toList (List.mem_of_getElem? (i := 1) rfl)
    (by decide +kernel) (by decide +kernel) (by decide +kernel) (by decide +kernel)).mpr
    (by decide +kernel)

/-- What is behind the last dot of the stem is taken for an extension. -/
theorem resolveRelativeSource_dotted :
    importFile 3 ∈ importProgram.files ∧
      (importFile 3).hostPath.normalizeImportPathLexically.fileName =
        some ("foo.service".toList ++ '.' :: "ts".toList) ∧
      (((importFile 0).hostPath.parent.getD ⟨[]⟩).join ⟨"../lib/foo.service".toList⟩).location =
        ((importFile 3).hostPath.normalizeImportPathLexically.withFileName
          "foo.service".toList).location ∧
      ¬ FindsSource importProgram (resolveRelativeSource importProgram.files (importFile 0)
        "../lib/foo.service".toList false) (importFile 3) "foo.service".toList "ts".toList
          false := by
  refine ⟨List.mem_of_getElem? (i := 3) rfl, by decide +kernel, by decide +kernel, ?_⟩
  rintro ⟨file, -, hfound, -⟩
  have hnone : resolveRelativeSource importProgram.files (importFile 0)
      "../lib/foo.service".toList false = none := by
    decide +kernel
  rw [hnone] at hfound
  cases hfound

end Tsz.Project
