import Tsz.Project.Path

/-!
# Absolute paths as lists of names

An absolute path without dots and doubled separators is spelled by the names of its components,
and the edits of paths are those of lists.

## Main definitions

* `IsName` — what a directory may list.
* `Path.ofNames` — the absolute path that leads through some names.

## Main results

* `Path.components_ofNames`, `Path.push_ofNames`, `Path.parent_ofNames`.
* `Path.normalizeProjectPath_ofNames` — such a path is normalised.
-/

namespace Tsz.Project

/-- A name a directory can list: not empty, no separator inside and not one of the dots. -/
def IsName (name : Name) : Prop :=
  name ≠ [] ∧ '/' ∉ name ∧ name ≠ ['.'] ∧ name ≠ ['.', '.']

instance : DecidablePred IsName := fun _ => inferInstanceAs (Decidable (_ ∧ _))

theorem Component.ofPiece_of_isName {name : Name} (h : IsName name) :
    Component.ofPiece name = some (.normal name) := by
  obtain ⟨hempty, -, hdot, hdots⟩ := h
  unfold Component.ofPiece
  split <;> simp_all

theorem intercalate_append {α : Type} (sep : List α) (xs : List (List α)) {ys : List (List α)}
    (hys : ys ≠ []) :
    sep.intercalate (xs ++ ys) = xs.flatMap (· ++ sep) ++ sep.intercalate ys := by
  obtain ⟨y, ys, rfl⟩ := List.exists_cons_of_ne_nil hys
  induction xs with
  | nil => simp
  | cons x xs ih =>
    have hne : xs ++ y :: ys ≠ [] := by simp
    obtain ⟨z, zs, hz⟩ := List.exists_cons_of_ne_nil hne
    rw [List.cons_append, hz, List.intercalate_cons_cons, ← hz, ih]
    simp

namespace Path

/-- The absolute path that leads through some names. -/
def ofNames (names : List Name) : Path := ⟨'/' :: ['/'].intercalate names⟩

@[simp] theorem isAbsolute_ofNames (names : List Name) : (ofNames names).isAbsolute = true := rfl

theorem pieces_ofNames {names : List Name} (h : ∀ n ∈ names, IsName n) (hne : names ≠ []) :
    (ofNames names).pieces = names := by
  have hpieces : (ofNames names).pieces = (['/'].intercalate names).splitOn '/' := rfl
  rw [hpieces]
  exact List.splitOn_intercalate '/' (fun n hn => (h n hn).2.1) hne

theorem filterMap_ofPiece {names : List Name} (h : ∀ n ∈ names, IsName n) :
    names.filterMap Component.ofPiece = names.map .normal := by
  induction names with
  | nil => rfl
  | cons n names ih =>
    obtain ⟨hn, hrest⟩ := List.forall_mem_cons.mp h
    rw [List.filterMap_cons_some (Component.ofPiece_of_isName hn), ih hrest, List.map_cons]

theorem components_ofNames {names : List Name} (h : ∀ n ∈ names, IsName n) :
    (ofNames names).components = .rootDir :: names.map .normal := by
  rcases eq_or_ne names [] with rfl | hne
  · rfl
  · rw [components, leading, isAbsolute_ofNames, if_pos rfl, pieces_ofNames h hne,
      filterMap_ofPiece h]
    rfl

/-- What every text below a directory starts with. -/
def below (names : List Name) : Name := '/' :: names.flatMap (· ++ ['/'])

theorem ofNames_append {names more : List Name} (hmore : more ≠ []) :
    (ofNames (names ++ more)).text = below names ++ ['/'].intercalate more := by
  rw [ofNames, intercalate_append _ _ hmore]
  rfl

/-- The root ends with a separator, no other directory does. -/
theorem getLast?_ofNames {names : List Name} (h : ∀ n ∈ names, IsName n) :
    (ofNames names).text.getLast? = some '/' ↔ names = [] := by
  rcases List.eq_nil_or_concat names with rfl | ⟨init, last, rfl⟩
  · simp [ofNames]
  · have hlast : IsName last := h last (by simp)
    rw [List.concat_eq_append, ofNames_append (by simp), List.intercalate_singleton,
      List.getLast?_append_of_ne_nil _ hlast.1]
    simp only [List.append_eq_nil_iff, List.cons_ne_self, and_false, iff_false]
    exact fun hslash => hlast.2.1 (List.mem_of_getLast? hslash)

theorem text_ofNames_of_ne {names : List Name} (hne : names ≠ []) :
    (ofNames names).text ++ ['/'] = below names := by
  obtain ⟨init, last, rfl⟩ := (List.eq_nil_or_concat names).resolve_left hne
  rw [List.concat_eq_append, ofNames_append (by simp), List.intercalate_singleton]
  simp [below]

/-- Any relative text is joined to a directory the same way. -/
theorem push_ofNames_text {names : List Name} (h : ∀ n ∈ names, IsName n) {other : Path}
    (hother : other.isAbsolute = false) :
    (ofNames names).push other = ⟨below names ++ other.text⟩ := by
  rw [push, hother, if_neg (by simp)]
  rcases eq_or_ne names [] with rfl | hne
  · rfl
  · rw [if_neg]
    · rw [← text_ofNames_of_ne hne, List.append_assoc]
      rfl
    · rw [getLast?_ofNames h]
      simp [hne, ofNames]

theorem isAbsolute_of_isName {name : Name} (h : IsName name) :
    (Path.mk name).isAbsolute = false := by
  obtain ⟨c, cs, rfl⟩ := List.exists_cons_of_ne_nil h.1
  have hc : c ≠ '/' := fun hc => h.2.1 (by simp [hc])
  simpa [isAbsolute] using hc

theorem push_ofNames {names : List Name} (h : ∀ n ∈ names, IsName n) {name : Name}
    (hname : IsName name) : (ofNames names).push ⟨name⟩ = ofNames (names ++ [name]) := by
  rw [push_ofNames_text h (isAbsolute_of_isName hname), Path.mk.injEq,
    ofNames_append (by simp), List.intercalate_singleton]

theorem trimPieces_names {names : List Name} (h : ∀ n ∈ names, IsName n) (lead : Bool) :
    trimPieces lead names = names := by
  induction names generalizing lead with
  | nil => rfl
  | cons n names ih =>
    obtain ⟨hn, hrest⟩ := List.forall_mem_cons.mp h
    rw [trimPieces, ih hrest]
    cases names <;> simp [Component.ofPiece_of_isName hn]

theorem parent_ofNames {names : List Name} {name : Name} (h : ∀ n ∈ names ++ [name], IsName n) :
    (ofNames (names ++ [name])).parent = some (ofNames names) := by
  have hnames : ∀ n ∈ names, IsName n := fun n hn => h n (by simp [hn])
  rw [parent, pieces_ofNames h (by simp), isAbsolute_ofNames, Bool.not_true, trimPieces_names h]
  split
  next heq => simp at heq
  next => rw [List.dropLast_concat, trimPieces_names hnames]; rfl

theorem fileName_ofNames {names : List Name} {name : Name}
    (h : ∀ n ∈ names ++ [name], IsName n) :
    (ofNames (names ++ [name])).fileName = some name := by
  rw [fileName, components_ofNames h]
  simp [List.getLast?_cons]

theorem ofComponents_names {names : List Name} (h : ∀ n ∈ names, IsName n) :
    ofComponents (.rootDir :: names.map .normal) = ofNames names := by
  have hfold : ∀ (rest front : List Name), (∀ n ∈ front ++ rest, IsName n) →
      (rest.map Component.normal).foldl (fun path c => path.push ⟨c.text⟩) (ofNames front) =
        ofNames (front ++ rest) := by
    intro rest
    induction rest with
    | nil => simp
    | cons n rest ih =>
      intro front hvalid
      rw [List.map_cons, List.foldl_cons, show (Component.normal n).text = n from rfl,
        push_ofNames (fun m hm => hvalid m (by simp [hm])) (hvalid n (by simp)),
        ih (front ++ [n]) (by simpa using hvalid), List.append_assoc, List.singleton_append]
  exact hfold names [] (by simpa using h)

/-! ## Normal forms -/

/-- Names walked from a directory; climbing out of it fails. -/
def resolveStep (names : List Name) : Component → Option (List Name)
  | .rootDir => none
  | .curDir => some names
  | .parentDir => if names = [] then none else some names.dropLast
  | .normal name => some (names ++ [name])

/-- Where a relative text leads from a directory, if it stays below it. -/
def resolve (text : Name) : Option (List Name) :=
  if text.head? = some '/' then none
  else ((text.splitOn '/').filterMap Component.ofPiece).foldlM resolveStep []

theorem isName_of_ofPiece {piece name : Name} (hslash : '/' ∉ piece)
    (h : Component.ofPiece piece = some (.normal name)) : name = piece ∧ IsName piece := by
  unfold Component.ofPiece at h
  split at h <;> simp_all [IsName]

theorem normalizeStep_normal {names : List Name} (h : ∀ n ∈ names, IsName n) {name : Name}
    (hname : IsName name) :
    normalizeStep true true (ofNames names) (.normal name) = ofNames (names ++ [name]) :=
  push_ofNames h hname

theorem foldl_normalizeStep_names {base names : List Name} (h : ∀ n ∈ base ++ names, IsName n) :
    (names.map Component.normal).foldl (normalizeStep true true) (ofNames base) =
      ofNames (base ++ names) := by
  induction names generalizing base with
  | nil => simp
  | cons n names ih =>
    rw [List.map_cons, List.foldl_cons, normalizeStep_normal (fun m hm => h m (by simp [hm]))
      (h n (by simp)), ih (by simpa using h), List.append_assoc, List.singleton_append]

theorem normalizeProjectPath_ofNames {names : List Name} (h : ∀ n ∈ names, IsName n) :
    (ofNames names).normalizeProjectPathLexically = ofNames names := by
  rw [normalizeProjectPathLexically, normalizeLexically, components_ofNames h,
    isAbsolute_ofNames, List.foldl_cons]
  have hroot : normalizeStep true true ⟨[]⟩ .rootDir = ofNames [] := rfl
  rw [hroot, foldl_normalizeStep_names (by simpa using h), List.nil_append]

theorem normalizeStep_resolveStep {base names next : List Name} {piece : Name}
    {component : Component} (h : ∀ n ∈ base ++ names, IsName n) (hpiece : '/' ∉ piece)
    (hcomponent : Component.ofPiece piece = some component)
    (hnext : resolveStep names component = some next) :
    normalizeStep true true (ofNames (base ++ names)) component = ofNames (base ++ next) ∧
      ∀ n ∈ next, IsName n ∧ (n ∈ names ∨ n = piece) := by
  have hnames : ∀ n ∈ names, IsName n := fun n hn => h n (by simp [hn])
  cases component with
  | rootDir => simp [resolveStep] at hnext
  | curDir =>
    obtain rfl : names = next := by simpa [resolveStep] using hnext
    exact ⟨rfl, fun n hn => ⟨hnames n hn, .inl hn⟩⟩
  | parentDir =>
    rcases List.eq_nil_or_concat names with rfl | ⟨init, last, rfl⟩
    · simp [resolveStep] at hnext
    · obtain rfl : init = next := by simpa [resolveStep] using hnext
      have hparent := @parent_ofNames (base ++ init) last (by simpa using h)
      simp only [normalizeStep, if_true, List.concat_eq_append, ← List.append_assoc, hparent]
      exact ⟨trivial, fun n hn => ⟨hnames n (by simp [hn]), .inl (by simp [hn])⟩⟩
  | normal name =>
    obtain rfl : names ++ [name] = next := by simpa [resolveStep] using hnext
    obtain ⟨rfl, hname⟩ := isName_of_ofPiece hpiece hcomponent
    refine ⟨?_, fun n hn => ?_⟩
    · rw [normalizeStep_normal h hname, List.append_assoc]
    · rcases List.mem_append.mp hn with hn | hn
      · exact ⟨hnames n hn, .inl hn⟩
      · obtain rfl : n = name := by simpa using hn
        exact ⟨hname, .inr rfl⟩

/-- The steps of a text that stays below a directory are those of its names. -/
theorem foldl_normalizeStep_resolve {base names result : List Name} {pieces : List Name}
    (h : ∀ n ∈ base ++ names, IsName n) (hpieces : ∀ piece ∈ pieces, '/' ∉ piece)
    (hresult : (pieces.filterMap Component.ofPiece).foldlM resolveStep names = some result) :
    (pieces.filterMap Component.ofPiece).foldl (normalizeStep true true) (ofNames (base ++ names)) =
        ofNames (base ++ result) ∧
      ∀ n ∈ result, IsName n ∧ (n ∈ names ∨ n ∈ pieces) := by
  induction pieces generalizing names with
  | nil =>
    have heq : names = result := by simpa using hresult
    subst heq
    exact ⟨rfl, fun n hn => ⟨h n (by simp [hn]), .inl hn⟩⟩
  | cons piece pieces ih =>
    obtain ⟨hpiece, hrest⟩ := List.forall_mem_cons.mp hpieces
    cases hcomponent : Component.ofPiece piece with
    | none =>
      rw [List.filterMap_cons_none hcomponent] at hresult ⊢
      obtain ⟨hfold, hnames⟩ := ih h hrest hresult
      exact ⟨hfold, fun n hn => (hnames n hn).imp_right (.imp_right (List.mem_cons_of_mem _))⟩
    | some component =>
      rw [List.filterMap_cons_some hcomponent] at hresult ⊢
      rw [List.foldlM_cons] at hresult
      obtain ⟨next, hnext, hresult⟩ := Option.bind_eq_some_iff.mp hresult
      have hstep : normalizeStep true true (ofNames (base ++ names)) component =
          ofNames (base ++ next) ∧ ∀ n ∈ next, IsName n ∧ (n ∈ names ∨ n = piece) :=
        normalizeStep_resolveStep h hpiece hcomponent hnext
      have hvalid : ∀ n ∈ base ++ next, IsName n := by
        intro n hn
        rcases List.mem_append.mp hn with hn | hn
        · exact h n (List.mem_append_left _ hn)
        · exact (hstep.2 n hn).1
      obtain ⟨hfold, hnames⟩ := ih hvalid hrest hresult
      rw [List.foldl_cons, hstep.1]
      refine ⟨hfold, fun n hn => ⟨(hnames n hn).1, ?_⟩⟩
      rcases (hnames n hn).2 with hn | hn
      · exact (hstep.2 n hn).2.imp_right fun heq => List.mem_cons.mpr (.inl heq)
      · exact .inr (List.mem_cons_of_mem _ hn)

theorem not_mem_of_mem_splitOn {c : Char} {text piece : Name} (h : piece ∈ text.splitOn c) :
    c ∉ piece := by
  induction text generalizing piece with
  | nil => simp_all
  | cons d text ih =>
    rw [List.splitOn_cons_eq_if_modifyHead] at h
    obtain ⟨first, rest, heq⟩ := List.exists_cons_of_ne_nil (List.splitOn_ne_nil c text)
    rw [heq] at h ih
    split at h
    · rcases List.mem_cons.mp h with rfl | h
      · simp
      · exact ih h
    · rename_i hne
      rcases List.mem_cons.mp h with rfl | h
      · have hfirst : c ∉ first := ih List.mem_cons_self
        exact List.not_mem_cons_of_ne_of_not_mem (fun heq => hne (by simp [heq])) hfirst
      · exact ih (List.mem_cons_of_mem _ h)

theorem splitOn_below {names : List Name} (h : ∀ n ∈ names, '/' ∉ n) (text : Name) :
    (names.flatMap (· ++ ['/']) ++ text).splitOn '/' = names ++ text.splitOn '/' := by
  induction names with
  | nil => rfl
  | cons n names ih =>
    obtain ⟨hn, hrest⟩ := List.forall_mem_cons.mp h
    rw [List.flatMap_cons, List.append_assoc, List.append_assoc, List.singleton_append,
      List.splitOn_append_cons_self_of_not_mem hn, ih hrest, List.cons_append]

/-- A relative text that stays below a directory, joined to it and normalised. -/
theorem normalizeProjectPath_push {base result : List Name} {text : Name}
    (h : ∀ n ∈ base, IsName n) (hresult : resolve text = some result) :
    ((ofNames base).push ⟨text⟩).normalizeProjectPathLexically = ofNames (base ++ result) ∧
      ∀ n ∈ result, IsName n ∧ n ∈ text.splitOn '/' := by
  unfold resolve at hresult
  split at hresult
  · simp at hresult
  · rename_i hrelative
    have hpieces : (Path.mk (below base ++ text)).pieces = base ++ text.splitOn '/' :=
      splitOn_below (fun n hn => (h n hn).2.1) text
    have hcomponents : (Path.mk (below base ++ text)).components = .rootDir ::
        (base.map .normal ++ (text.splitOn '/').filterMap Component.ofPiece) := by
      rw [components, hpieces, List.filterMap_append, filterMap_ofPiece h]
      rfl
    have hroot : normalizeStep true true ⟨[]⟩ .rootDir = ofNames [] := rfl
    obtain ⟨hfold, hnames⟩ := @foldl_normalizeStep_resolve base [] result _
      (by simpa using h) (fun _ => not_mem_of_mem_splitOn) hresult
    rw [push_ofNames_text h (by simpa [isAbsolute] using hrelative),
      normalizeProjectPathLexically, normalizeLexically, hcomponents]
    refine ⟨?_, fun n hn => ⟨(hnames n hn).1, (hnames n hn).2.resolve_left (by simp)⟩⟩
    rw [List.foldl_cons, List.foldl_append,
      show (Path.mk (below base ++ text)).isAbsolute = true from rfl, hroot,
      foldl_normalizeStep_names (by simpa using h), List.nil_append]
    simpa using hfold

end Path

end Tsz.Project
