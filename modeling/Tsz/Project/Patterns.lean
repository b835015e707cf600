import Tsz.Project.Discovery
import Tsz.Project.Names

/-!
# Patterns below a directory

Every test that discovery makes of an absolute pattern and an absolute file, for patterns and
files below one directory: the text of the directory drops out, except where the pattern is
searched for the names of directories.

## Main definitions

* `Base` — the directory of a project.
* `Pattern` — a relative pattern that stays inside of the project.

## Main results

* `globMatches_place`, `excludedBy_place`, `extensionIdentity_place` — what does not depend on the
  directory.
* `explicit_place` — what does.
-/

namespace Tsz.Project.Config

/-! ## Case folding -/

def foldChar (caseSensitive : Bool) (c : Char) : Char := if caseSensitive then c else c.toLower

theorem foldCase_eq_map (caseSensitive : Bool) (text : Name) :
    foldCase caseSensitive text = text.map (foldChar caseSensitive) := by
  cases caseSensitive
  · rfl
  · simp [foldCase, show foldChar true = id from rfl]

theorem toNat_toLower (c : Char) :
    c.toLower.toNat = if 65 ≤ c.toNat ∧ c.toNat ≤ 90 then c.toNat + 32 else c.toNat := by
  have hletter : (65 ≤ c.toNat ∧ c.toNat ≤ 90) ↔ c.val ≥ 'A'.val ∧ c.val ≤ 'Z'.val := by
    simp only [ge_iff_le, UInt32.le_iff_toNat_le]
    rfl
  unfold Char.toLower
  split
  next h =>
    have hrange := hletter.mpr h
    have hsmall : c.val.toNat ≤ 90 := hrange.2
    have hoffset : ('a'.val - 'A'.val).toNat = 32 := rfl
    rw [if_pos hrange]
    show (c.val + ('a'.val - 'A'.val)).toNat = c.val.toNat + 32
    rw [UInt32.toNat_add]
    omega
  next h => rw [if_neg fun hrange => h (hletter.mp hrange)]

/-- Folding neither makes nor removes a character in front of the letters. -/
theorem foldChar_eq_iff {caseSensitive : Bool} {c d : Char} (hd : d.toNat < 65) :
    foldChar caseSensitive c = d ↔ c = d := by
  cases caseSensitive
  · rw [show foldChar false c = c.toLower from rfl, ← Char.toNat_inj, ← Char.toNat_inj,
      toNat_toLower]
    split <;> omega
  · rfl

section

variable (caseSensitive : Bool)

@[simp] theorem foldCase_append (s t : Name) :
    foldCase caseSensitive (s ++ t) = foldCase caseSensitive s ++ foldCase caseSensitive t := by
  simp [foldCase_eq_map]

@[simp] theorem foldCase_cons (c : Char) (t : Name) :
    foldCase caseSensitive (c :: t) = foldChar caseSensitive c :: foldCase caseSensitive t := by
  simp [foldCase_eq_map]

@[simp] theorem foldCase_nil : foldCase caseSensitive [] = [] := by simp [foldCase_eq_map]

@[simp] theorem foldChar_slash : foldChar caseSensitive '/' = '/' :=
  (foldChar_eq_iff (by decide)).mpr rfl

variable {caseSensitive}

@[simp] theorem foldCase_eq_nil {t : Name} : foldCase caseSensitive t = [] ↔ t = [] := by
  simp [foldCase_eq_map]

@[simp] theorem foldCase_length (t : Name) : (foldCase caseSensitive t).length = t.length := by
  simp [foldCase_eq_map]

theorem mem_foldCase {c : Char} (hc : c.toNat < 65) {t : Name} :
    c ∈ foldCase caseSensitive t ↔ c ∈ t := by
  simp [foldCase_eq_map, foldChar_eq_iff hc]

theorem hasWildcard_foldCase (t : Name) :
    hasWildcard (foldCase caseSensitive t) = hasWildcard t := by
  have hchar : ∀ c, isWildcard (foldChar caseSensitive c) = isWildcard c := by
    intro c
    unfold isWildcard
    rw [decide_eq_decide.mpr (foldChar_eq_iff (d := '*') (by decide)),
      decide_eq_decide.mpr (foldChar_eq_iff (d := '?') (by decide))]
  rw [foldCase_eq_map, hasWildcard, hasWildcard, List.any_map]
  exact congrArg (List.any t) (funext hchar)

end

/-! ## Globs -/

theorem hasWildcard_cons (c : Char) (t : Name) :
    hasWildcard (c :: t) = (isWildcard c || hasWildcard t) := rfl

/-- A pattern without wildcards matches itself. -/
theorem globSegmentChars_self {t : Name} (h : hasWildcard t = false) :
    globSegmentChars t t = true := by
  induction t with
  | nil => rfl
  | cons c t ih =>
    rw [hasWildcard_cons, Bool.or_eq_false_iff] at h
    have hstar : c ≠ '*' := by rintro rfl; exact absurd h.1 (by decide)
    simp [globSegmentChars, hstar, ih h.2]

theorem globSegment_self {t : Name} (h : hasWildcard t = false) : globSegment t t = true := by
  simp [globSegment, h, globSegmentChars_self h]

/-- A directory in front of both sides does not matter. -/
theorem globParts_append {names : List Name} (h : ∀ n ∈ names, hasWildcard n = false)
    (pattern candidate : List Name) :
    globParts (names ++ pattern) (names ++ candidate) = globParts pattern candidate := by
  induction names with
  | nil => rfl
  | cons n names ih =>
    obtain ⟨hn, hrest⟩ := List.forall_mem_cons.mp h
    have hstars : n ≠ ['*', '*'] := by rintro rfl; exact absurd hn (by decide)
    simp [globParts, hstars, globSegment_self hn, ih hrest]

/-! ## Texts below a directory -/

/-- A directory of the host, on a path free of the characters a pattern reads differently. -/
structure Base where
  names : List Name
  isName : ∀ n ∈ names, IsName n
  plain : ∀ n ∈ names, ∀ c ∈ n, isWildcard c = false ∧ c ≠ '\\'

theorem mem_intercalate {c : Char} {sep : Name} {texts : List Name}
    (h : c ∈ sep.intercalate texts) : c ∈ sep ∨ ∃ t ∈ texts, c ∈ t := by
  induction texts with
  | nil => simp at h
  | cons t texts ih =>
    cases texts with
    | nil => exact .inr ⟨t, by simp, by simpa using h⟩
    | cons u texts =>
      rw [List.intercalate_cons_cons, List.mem_append, List.mem_append] at h
      rcases h with (h | h) | h
      · exact .inr ⟨t, by simp, h⟩
      · exact .inl h
      · exact (ih h).imp_right fun ⟨v, hv, hc⟩ => ⟨v, List.mem_cons_of_mem _ hv, hc⟩

theorem mem_intercalate_of_mem {c : Char} {sep t : Name} {texts : List Name} (ht : t ∈ texts)
    (hc : c ∈ t) : c ∈ sep.intercalate texts := by
  induction texts with
  | nil => simp at ht
  | cons u texts ih =>
    cases texts with
    | nil => simp_all
    | cons v texts =>
      rw [List.intercalate_cons_cons, List.mem_append, List.mem_append]
      rcases List.mem_cons.mp ht with rfl | ht
      · exact .inl (.inl hc)
      · exact .inr (ih ht)

theorem slashes_eq_self {t : Name} (h : '\\' ∉ t) : slashes t = t := by
  unfold slashes
  refine (List.map_congr_left fun c hc => if_neg ?_).trans (List.map_id' t)
  rintro rfl
  exact h hc

theorem displayPath_eq (path : Path) : path.displayPath = slashes path.text := rfl

theorem not_mem_slashes (t : Name) : '\\' ∉ slashes t := by
  simp only [slashes, List.mem_map, not_exists, not_and]
  intro c _
  split <;> simp_all

namespace Base

variable (base : Base)

def path : Path := Path.ofNames base.names

/-- Where some names lead to from the base. -/
def place (names : List Name) : Path := Path.ofNames (base.names ++ names)

/-- What the text of every path below the base starts with. -/
def head : Name := Path.below base.names

theorem text_place {names : List Name} (hne : names ≠ []) :
    (base.place names).text = base.head ++ ['/'].intercalate names :=
  Path.ofNames_append hne

theorem isName_place {names : List Name} (h : ∀ n ∈ names, IsName n) :
    ∀ n ∈ base.names ++ names, IsName n := by
  intro n hn
  exact (List.mem_append.mp hn).elim (base.isName n) (h n)

theorem hasWildcard_names {n : Name} (hn : n ∈ base.names) : hasWildcard n = false := by
  simp only [hasWildcard, List.any_eq_false]
  exact fun c hc => by simp [(base.plain n hn c hc).1]

theorem hasWildcard_head : hasWildcard base.head = false := by
  simp only [hasWildcard, List.any_eq_false]
  intro c hc
  rcases List.mem_cons.mp hc with rfl | hc
  · decide
  · obtain ⟨n, hn, hc⟩ := List.mem_flatMap.mp hc
    rcases List.mem_append.mp hc with hc | hc
    · simp [(base.plain n hn c hc).1]
    · obtain rfl : c = '/' := by simpa using hc
      decide

theorem slashes_head : slashes base.head = base.head := by
  refine slashes_eq_self fun hc => ?_
  rcases List.mem_cons.mp hc with hc | hc
  · exact absurd hc (by decide)
  · obtain ⟨n, hn, hc⟩ := List.mem_flatMap.mp hc
    rcases List.mem_append.mp hc with hc | hc
    · exact (base.plain n hn _ hc).2 rfl
    · exact absurd hc (by decide)

theorem foldCase_head (caseSensitive : Bool) :
    foldCase caseSensitive base.head =
      Path.below (base.names.map (foldCase caseSensitive)) := by
  rw [head, Path.below, Path.below, foldCase_cons, foldChar_slash]
  congr 1
  induction base.names with
  | nil => simp
  | cons n names ih => simp [ih]

/-- The pieces of a text below the base: those of the base, then those of the rest. -/
theorem splitOn_head (caseSensitive : Bool) (t : Name) :
    (foldCase caseSensitive (base.head ++ t)).splitOn '/' =
      [] :: (base.names.map (foldCase caseSensitive) ++ (foldCase caseSensitive t).splitOn '/') := by
  have hnames : ∀ n ∈ base.names.map (foldCase caseSensitive), '/' ∉ n := by
    intro n hn
    obtain ⟨m, hm, rfl⟩ := List.mem_map.mp hn
    exact fun hc => (base.isName m hm).2.1 ((mem_foldCase (by decide)).mp hc)
  rw [foldCase_append, foldCase_head, Path.below, List.cons_append,
    ← List.nil_append ('/' :: _), List.splitOn_append_cons_self_of_not_mem (by simp),
    Path.splitOn_below hnames]

theorem parts_head (caseSensitive : Bool) (t : Name) :
    parts (foldCase caseSensitive (base.head ++ t)) =
      base.names.map (foldCase caseSensitive) ++ parts (foldCase caseSensitive t) := by
  have hkeep : (base.names.map (foldCase caseSensitive)).filter (· ≠ []) =
      base.names.map (foldCase caseSensitive) := by
    refine List.filter_eq_self.mpr fun n hn => ?_
    obtain ⟨m, hm, rfl⟩ := List.mem_map.mp hn
    simpa using (base.isName m hm).1
  rw [parts, splitOn_head, List.filter_cons_of_neg (by simp), List.filter_append, hkeep, parts]

end Base

/-! ## The tests of discovery -/

section

variable (base : Base) {caseSensitive : Bool}

theorem globMatches_head {file : Path} {pattern text : Name}
    (hfile : file.displayPath = base.head ++ text) :
    globMatches (base.head ++ pattern) file caseSensitive =
      globParts (parts (foldCase caseSensitive pattern)) (parts (foldCase caseSensitive text)) := by
  rw [globMatches, hfile, base.parts_head, base.parts_head]
  refine globParts_append (fun n hn => ?_) _ _
  obtain ⟨m, hm, rfl⟩ := List.mem_map.mp hn
  rw [hasWildcard_foldCase, base.hasWildcard_names hm]

theorem path_text_append : base.path.text ++ (if base.names = [] then [] else ['/']) = base.head := by
  split
  next h => simp [Base.path, Base.head, h, Path.ofNames, Path.below]
  next h => exact Path.text_ofNames_of_ne h

/-- A pattern mentions a directory by its own text or by that of the base. -/
theorem explicit_head {name : Name} (hname : name ≠ []) (pattern : Name) :
    patternExplicitlyIncludesDirectory (base.head ++ pattern) name caseSensitive =
      (patternExplicitlyIncludesDirectory base.path.text name caseSensitive ||
        patternExplicitlyIncludesDirectory pattern name caseSensitive) := by
  set test : Name → Bool := fun component =>
    if isPackageDirectory (foldCase caseSensitive name) then
      component = foldCase caseSensitive name
    else startsWithDot component && globSegment component (foldCase caseSensitive name) with htest
  have hexplicit : ∀ t, patternExplicitlyIncludesDirectory t name caseSensitive =
      ((foldCase caseSensitive t).splitOn '/').any test := fun t => rfl
  have hnil : test [] = false := by
    have hne : ([] : Name) ≠ foldCase caseSensitive name := fun h => by simp_all
    simp [htest, hne, startsWithDot]
  have hbase : ((foldCase caseSensitive base.path.text).splitOn '/').any test =
      (base.names.map (foldCase caseSensitive)).any test := by
    have hhead : ((foldCase caseSensitive base.head).splitOn '/').any test =
        (base.names.map (foldCase caseSensitive)).any test := by
      rw [← List.append_nil base.head, base.splitOn_head]
      simp [hnil]
    rw [← hhead, ← path_text_append]
    split
    next => rw [List.append_nil]
    next =>
      rw [foldCase_append, foldCase_cons, foldChar_slash, List.splitOn_append_cons_self]
      simp [hnil]
  rw [hexplicit, hexplicit, hexplicit, hbase, base.splitOn_head]
  simp only [List.any_cons, hnil, Bool.false_or, List.any_append]

theorem foldCase_head_concat : ∃ init, foldCase caseSensitive base.head = init ++ ['/'] := by
  rcases List.eq_nil_or_concat base.names with h | ⟨names, last, h⟩
  · exact ⟨[], by simp [Base.head, h, Path.below]⟩
  · exact ⟨foldCase caseSensitive ('/' :: names.flatMap (· ++ ['/']) ++ last),
      by simp [Base.head, h, Path.below]⟩

/-- A suffix without separators does not reach into a directory. -/
theorem suffix_append_iff {suffix init text : Name} (hslash : '/' ∉ suffix) :
    suffix <:+ init ++ ['/'] ++ text ↔ suffix <:+ text := by
  refine ⟨fun h => ?_, List.suffix_append_of_suffix⟩
  rcases List.suffix_or_suffix_of_suffix h (List.suffix_append (init ++ ['/']) text) with hs | hs
  · exact hs
  · obtain ⟨front, rfl⟩ := hs
    have hfront : front <:+ init ++ ['/'] := by
      obtain ⟨rest, hrest⟩ := h
      exact ⟨rest, List.append_cancel_right (by rw [List.append_assoc, hrest])⟩
    rcases List.eq_nil_or_concat front with rfl | ⟨before, last, rfl⟩
    · simp
    · obtain ⟨rest, hrest⟩ := hfront
      have hlast : last = '/' := by
        rw [List.concat_eq_append, ← List.append_assoc] at hrest
        simpa using List.append_inj_right' hrest rfl
      exact absurd (by simp [hlast]) hslash

theorem extensionGroups_no_slash :
    ∀ extensions ∈ extensionGroups, ∀ extension ∈ extensions, '/' ∉ extension.1 := by
  decide

theorem findSome?_congr {α β : Type} {f g : α → Option β} {l : List α}
    (h : ∀ x ∈ l, f x = g x) : l.findSome? f = l.findSome? g := by
  induction l with
  | nil => rfl
  | cons x l ih =>
    rw [List.findSome?_cons, List.findSome?_cons, h x List.mem_cons_self,
      ih fun y hy => h y (List.mem_cons_of_mem _ hy)]

/-- Only what is below the base decides about an extension. -/
theorem stripExtension_head (text : Name) :
    stripExtension (foldCase caseSensitive base.head ++ text) =
      (stripExtension text).map fun (identity, priority) =>
        (⟨identity.group, foldCase caseSensitive base.head ++ identity.stem⟩, priority) := by
  obtain ⟨init, hhead⟩ : ∃ init, foldCase caseSensitive base.head = init ++ ['/'] :=
    foldCase_head_concat base
  unfold stripExtension
  rw [List.map_findSome?]
  refine findSome?_congr fun ⟨extensions, group⟩ hgroup => ?_
  rw [Function.comp_apply, List.map_findSome?]
  refine findSome?_congr fun ⟨extension, priority⟩ hextension => ?_
  have hslash : '/' ∉ extension :=
    extensionGroups_no_slash extensions (List.fst_mem_of_mem_zipIdx hgroup) _ hextension
  have hiff : extension.isSuffixOf (foldCase caseSensitive base.head ++ text) =
      extension.isSuffixOf text := by
    rw [Bool.eq_iff_iff, List.isSuffixOf_iff_suffix, List.isSuffixOf_iff_suffix, hhead,
      suffix_append_iff hslash]
  simp only [Function.comp_apply, hiff]
  split
  next h =>
    have hle := (List.isSuffixOf_iff_suffix.mp h).length_le
    rw [List.length_append, Nat.add_sub_assoc hle, List.take_length_add_append]
    rfl
  next => rfl

theorem extensionIdentity_head {file : Path} {text : Name}
    (hfile : file.displayPath = base.head ++ text) :
    extensionIdentity file caseSensitive =
      (stripExtension (foldCase caseSensitive text)).map fun (identity, priority) =>
        (⟨identity.group, foldCase caseSensitive base.head ++ identity.stem⟩, priority) := by
  rw [extensionIdentity, hfile, foldCase_append, stripExtension_head]

end

/-! ## Patterns of a configuration -/

/-- A relative pattern that does not climb out of the directory it is relative to. -/
structure Pattern where
  raw : Name
  inside : (Path.resolve (slashes raw)).isSome

/-- The names a pattern is made of once it is resolved. -/
def Pattern.names (pattern : Pattern) : List Name :=
  (Path.resolve (slashes pattern.raw)).get pattern.inside

theorem Pattern.resolve_eq (pattern : Pattern) :
    Path.resolve (slashes pattern.raw) = some pattern.names :=
  (Option.some_get pattern.inside).symm

/-- A resolved pattern is made of names, and of no backslash. -/
theorem Pattern.names_valid (pattern : Pattern) :
    ∀ n ∈ pattern.names, IsName n ∧ '\\' ∉ n := by
  intro n hn
  obtain ⟨-, hnames⟩ := @Path.normalizeProjectPath_push [] _ _ (by simp) pattern.resolve_eq
  refine ⟨(hnames n hn).1, fun hc => not_mem_slashes pattern.raw ?_⟩
  have hmem := @mem_intercalate_of_mem _ ['/'] _ _ (hnames n hn).2 hc
  rwa [List.intercalate_splitOn] at hmem

theorem Pattern.isName (pattern : Pattern) : ∀ n ∈ pattern.names, IsName n := fun n hn =>
  (pattern.names_valid n hn).1

namespace Base

variable (base : Base) {caseSensitive : Bool}

theorem absolutePath_pattern (pattern : Pattern) :
    absolutePath base.path ⟨slashes pattern.raw⟩ = base.place pattern.names := by
  have hrelative : (Path.mk (slashes pattern.raw)).isAbsolute = false := by
    by_contra h
    have h := pattern.resolve_eq
    unfold Path.resolve at h
    simp_all [Path.isAbsolute]
  rw [absolutePath, hrelative]
  exact (Path.normalizeProjectPath_push base.isName pattern.resolve_eq).1

/-- Names without a backslash lead to a path that is displayed as it is. -/
theorem displayPath_place {names : List Name} (h : ∀ n ∈ names, '\\' ∉ n) :
    (base.place names).displayPath = (base.place names).text := by
  rw [displayPath_eq]
  refine slashes_eq_self fun hc => ?_
  rcases List.mem_cons.mp hc with hc | hc
  · exact absurd hc (by decide)
  · rcases mem_intercalate hc with hc | ⟨n, hn, hc⟩
    · exact absurd hc (by decide)
    · rcases List.mem_append.mp hn with hn | hn
      · exact (base.plain n hn _ hc).2 rfl
      · exact h n hn hc

theorem absolutePattern_pattern (pattern : Pattern) :
    absolutePattern base.path pattern.raw = (base.place pattern.names).text := by
  rw [absolutePattern, base.absolutePath_pattern,
    base.displayPath_place fun n hn => (pattern.names_valid n hn).2]

theorem place_nil : base.place [] = base.path := by rw [place, List.append_nil, path]

theorem hasWildcard_path : hasWildcard base.path.text = false := by
  have hhead := base.hasWildcard_head
  rw [← path_text_append, hasWildcard, List.any_append, Bool.or_eq_false_iff] at hhead
  exact hhead.1

theorem hasWildcard_place (names : List Name) :
    hasWildcard (base.place names).text = hasWildcard (['/'].intercalate names) := by
  rcases eq_or_ne names [] with rfl | hne
  · rw [place_nil, hasWildcard_path]
    rfl
  · have hhead := base.hasWildcard_head
    rw [hasWildcard] at hhead
    rw [base.text_place hne, hasWildcard, List.any_append, hhead, Bool.false_or, hasWildcard]

theorem trimEndSlashes_ofNames {names : List Name} (h : ∀ n ∈ names, IsName n) (hne : names ≠ []) :
    trimEndSlashes (Path.ofNames names).text = (Path.ofNames names).text := by
  refine List.rdropWhile_eq_self_iff.mpr fun hl hlast => hne ?_
  refine (Path.getLast?_ofNames h).mp ?_
  rw [List.getLast?_eq_some_getLast hl, of_decide_eq_true hlast]

theorem trimEndSlashes_place {names : List Name} (h : ∀ n ∈ names, IsName n) (hne : names ≠ []) :
    trimEndSlashes (base.place names).text = (base.place names).text :=
  trimEndSlashes_ofNames (base.isName_place h) (by simp [hne])

theorem trimEndSlashes_append {names : List Name} (h : ∀ n ∈ names, IsName n) :
    trimEndSlashes (Path.ofNames names).text ++ ['/'] = Path.below names := by
  rcases eq_or_ne names [] with rfl | hne
  · rfl
  · rw [trimEndSlashes_ofNames h hne, Path.text_ofNames_of_ne hne]

theorem trimEndSlashes_path : trimEndSlashes base.path.text ++ ['/'] = base.head :=
  trimEndSlashes_append base.isName

end Base

/-- Whether an exclude pattern with the names `names` hides what is called `text` below the
base. -/
def excludesBelow (caseSensitive : Bool) (names : List Name) (text : Name) : Bool :=
  let pattern := ['/'].intercalate names
  if names = [] then true
  else if hasWildcard pattern then
    globParts (parts (foldCase caseSensitive pattern)) (parts (foldCase caseSensitive text))
  else
    let pattern := foldCase caseSensitive pattern
    let text := foldCase caseSensitive text
    text = pattern || (pattern ++ ['/']).isPrefixOf text

theorem excludedBy_head {base : Base} {host : Host} {file : Path} {text : Name}
    (hfile : file.displayPath = base.head ++ text) (patterns : List Pattern) :
    excludedBy host ⟨base.path, patterns.map Pattern.raw⟩ file =
      patterns.any fun pattern => excludesBelow host.caseSensitive pattern.names text := by
  rw [excludedBy]
  simp only [List.any_map]
  congr 1
  funext pattern
  simp only [Function.comp_apply, base.absolutePattern_pattern, base.hasWildcard_place, hfile,
    excludesBelow]
  rcases eq_or_ne pattern.names [] with hnil | hne
  · -- the whole project is excluded
    have hpath := congrArg (foldCase host.caseSensitive) base.trimEndSlashes_path
    rw [foldCase_append, foldCase_cons, foldChar_slash, foldCase_nil] at hpath
    simp [hnil, base.place_nil, hpath, hasWildcard]
  · rw [base.trimEndSlashes_place pattern.isName hne, base.text_place hne,
      globMatches_head base hfile]
    have hprefix : ∀ front x y : Name, (front ++ x).isPrefixOf (front ++ y) = x.isPrefixOf y := by
      intro front x y
      rw [Bool.eq_iff_iff, List.isPrefixOf_iff_prefix, List.isPrefixOf_iff_prefix,
        List.prefix_append_right_inj]
    simp [hne, List.append_assoc, hprefix]

/-! ## Keys -/

/-- What names are called below the base. -/
def textBelow (names : List Name) : Name := slashes (['/'].intercalate names)

theorem textBelow_ne_nil {names : List Name} (h : ∀ n ∈ names, IsName n) (hne : names ≠ []) :
    textBelow names ≠ [] := by
  obtain ⟨n, rest, rfl⟩ := List.exists_cons_of_ne_nil hne
  obtain ⟨c, cs, hn⟩ := List.exists_cons_of_ne_nil (h n (by simp)).1
  simp [textBelow, slashes, hn]

namespace Base

variable (base : Base) {caseSensitive : Bool}

theorem displayPath_place_below {names : List Name} (hne : names ≠ []) :
    (base.place names).displayPath = base.head ++ textBelow names := by
  rw [displayPath_eq, base.text_place hne, slashes, List.map_append]
  exact congrArg (· ++ textBelow names) base.slashes_head

/-- Two places have the same key when they are called the same below the base. -/
theorem pathKey_place_inj {names names' : List Name} (h : ∀ n ∈ names, IsName n)
    (h' : ∀ n ∈ names', IsName n) :
    pathKey (base.place names) caseSensitive = pathKey (base.place names') caseSensitive ↔
      foldCase caseSensitive (textBelow names) = foldCase caseSensitive (textBelow names') := by
  have hlonger : ∀ {more : List Name}, (∀ n ∈ more, IsName n) → more ≠ [] →
      foldCase caseSensitive base.path.text ≠
        foldCase caseSensitive base.head ++ foldCase caseSensitive (textBelow more) := by
    intro more hmore hne heq
    have hlength := congrArg List.length heq
    have hpath := congrArg List.length (path_text_append base)
    have hpos := List.length_pos_of_ne_nil (textBelow_ne_nil hmore hne)
    simp only [List.length_append, foldCase_length] at hlength hpath
    omega
  have hpath : pathKey (base.place []) caseSensitive = foldCase caseSensitive base.path.text := by
    rw [pathKey, base.displayPath_place (by simp), base.place_nil]
  have hbelow : ∀ {more : List Name}, more ≠ [] → pathKey (base.place more) caseSensitive =
      foldCase caseSensitive base.head ++ foldCase caseSensitive (textBelow more) := by
    intro more hne
    rw [pathKey, base.displayPath_place_below hne, foldCase_append]
  have hempty : foldCase caseSensitive (textBelow []) = [] :=
    foldCase_eq_nil.mpr rfl
  rcases eq_or_ne names [] with rfl | hne <;> rcases eq_or_ne names' [] with rfl | hne'
  · simp
  · rw [hpath, hbelow hne', hempty, eq_comm (a := []), foldCase_eq_nil]
    exact iff_of_false (hlonger h' hne') (textBelow_ne_nil h' hne')
  · rw [hpath, hbelow hne, hempty, foldCase_eq_nil]
    exact iff_of_false (hlonger h hne).symm (textBelow_ne_nil h hne)
  · rw [hbelow hne, hbelow hne', List.append_cancel_left_eq]

end Base

end Tsz.Project.Config
