import Tsz.Semantics.OrderIndependence

/-!
# The normal form of a union

Part of a list can be replaced by what its union lists: absorption only looks at which kinds are
there, and what the part drops the whole drops as well.

## Main definitions

* `normalizeFlat` — a union once its listed unions are replaced by their members.
* `IsUnionNormal` — how the members of a union look.

## Main results

* `normalizeFlat_ids_append` — the union of a part can stand for the part.
* `union_normal_form` — normal form, idempotence and associativity of unions.
-/

namespace Tsz.Semantics

open Sorting

namespace TypeStore

variable {s t : TypeStore}

/-! ## Absorption by a part -/

/-- `boolean` is listed, or both of its literals. -/
def hasBoolean (s : TypeStore) (flattened : List TypeId) : Bool :=
  s.anyKind flattened (· = .boolean) ||
    s.anyKind flattened (·.isBooleanLiteral true) && s.anyKind flattened (·.isBooleanLiteral false)

theorem anyKind_append (ids ids' : List TypeId) (p : TypeKind → Bool) :
    s.anyKind (ids ++ ids') p = (s.anyKind ids p || s.anyKind ids' p) := List.any_append

theorem anyKind_singleton (id : TypeId) (p : TypeKind → Bool) :
    s.anyKind [id] p = p (s.kind id) := by
  simp [anyKind]

theorem mergesBooleans_eq (flattened : List TypeId) :
    s.mergesBooleans flattened =
      (!s.anyKind flattened (· = .boolean) && s.hasBoolean flattened) := by
  rw [mergesBooleans, hasBoolean]
  cases s.anyKind flattened (· = .boolean) <;> simp [-anyKind_eq_true]

theorem survives_eq (flattened : List TypeId) (id : TypeId) :
    s.survives flattened id =
      (s.kind id ≠ .never &&
        !((s.kind id).isLiteralString && s.anyKind flattened (· = .string)) &&
        !((s.kind id).isLiteralNumber && s.anyKind flattened (· = .number)) &&
        !((s.kind id).isLiteralBoolean && s.hasBoolean flattened)) := by
  rw [survives, mergesBooleans, hasBoolean]
  cases s.anyKind flattened (· = .boolean) <;> simp [-anyKind_eq_true]

/-- What nothing absorbs is left. -/
theorem survives_of_kind {flattened : List TypeId} {id : TypeId} {base : TypeKind}
    (hkind : s.kind id = base) (hnever : base ≠ .never) (hstring : base.isLiteralString = false)
    (hnumber : base.isLiteralNumber = false) (hboolean : base.isLiteralBoolean = false) :
    s.survives flattened id := by
  simp [survives, hkind, hnever, hstring, hnumber, hboolean]

theorem anyKind_base_unionList (h : WellFormed s) {policy : UnionPolicy}
    {flattened : List TypeId} {base : TypeKind} (hbase : base = .string ∨ base = .number) :
    s.anyKind (s.unionList policy flattened) (· = base) = s.anyKind flattened (· = base) := by
  rw [Bool.eq_iff_iff, anyKind_eq_true, anyKind_eq_true]
  constructor
  · rintro ⟨id, hid, hkind⟩
    rcases mem_unionList_cases h hid with ⟨hid, -⟩ | ⟨hid, -⟩
    · exact ⟨id, hid, hkind⟩
    · rcases hbase with rfl | rfl <;> simp [hid] at hkind
  · rintro ⟨id, hid, hkind⟩
    refine ⟨id, mem_unionList.mpr (.inl ⟨hid, ?_⟩), hkind⟩
    have hkind : s.kind id = base := by simpa using hkind
    rcases hbase with rfl | rfl <;> exact survives_of_kind hkind nofun rfl rfl rfl

theorem anyKind_boolean_unionList (h : WellFormed s) (policy : UnionPolicy)
    {flattened : List TypeId} :
    s.anyKind (s.unionList policy flattened) (· = .boolean) = s.hasBoolean flattened := by
  rw [Bool.eq_iff_iff, anyKind_eq_true]
  constructor
  · rintro ⟨id, hid, hkind⟩
    rw [hasBoolean, Bool.or_eq_true, Bool.and_eq_true]
    rcases mem_unionList_cases h hid with ⟨hid, -⟩ | ⟨-, hliterals⟩
    · exact .inl (anyKind_eq_true.mpr ⟨id, hid, hkind⟩)
    · refine .inr ⟨?_, ?_⟩
      · obtain ⟨m, hm, p, hliteral⟩ := hliterals true
        exact anyKind_eq_true.mpr ⟨m, hm, by simp [hliteral, TypeKind.isBooleanLiteral]⟩
      · obtain ⟨m, hm, p, hliteral⟩ := hliterals false
        exact anyKind_eq_true.mpr ⟨m, hm, by simp [hliteral, TypeKind.isBooleanLiteral]⟩
  · intro hboolean
    cases hlisted : s.anyKind flattened (· = .boolean) with
    | true =>
      obtain ⟨id, hid, hkind⟩ := anyKind_eq_true.mp hlisted
      have hbase : s.kind id = .boolean := by simpa using hkind
      exact ⟨id, mem_unionList.mpr (.inl ⟨hid, survives_of_kind hbase (by simp) rfl rfl rfl⟩), hkind⟩
    | false =>
      have hmerges : s.mergesBooleans flattened := by rw [mergesBooleans_eq, hlisted, hboolean]; rfl
      refine ⟨s.builtins.boolean, mem_unionList.mpr (.inr (by simp [mergedBoolean, hmerges])), ?_⟩
      simpa using (h.kind_builtin (·.boolean) (k := .boolean) (by decide)).2

theorem anyKind_isBooleanLiteral_unionList (h : WellFormed s) {policy : UnionPolicy}
    {flattened : List TypeId} {value : Bool} :
    s.anyKind (s.unionList policy flattened) (·.isBooleanLiteral value) =
      (s.anyKind flattened (·.isBooleanLiteral value) && !s.hasBoolean flattened) := by
  have hliteral : ∀ id, (s.kind id).isBooleanLiteral value →
      s.survives flattened id = !s.hasBoolean flattened := by
    intro id hid
    rw [survives_eq]
    cases hkind : s.kind id <;>
      simp_all [TypeKind.isBooleanLiteral, TypeKind.isLiteralString, TypeKind.isLiteralNumber,
        TypeKind.isLiteralBoolean]
  rw [Bool.eq_iff_iff, Bool.and_eq_true, anyKind_eq_true, anyKind_eq_true]
  constructor
  · rintro ⟨id, hid, hvalue⟩
    rcases mem_unionList.mp hid with ⟨hid, hsurvives⟩ | hid
    · exact ⟨⟨id, hid, hvalue⟩, (hliteral id hvalue).symm.trans hsurvives⟩
    · unfold mergedBoolean at hid
      split at hid
      · rw [List.mem_singleton.mp hid, (h.kind_builtin (·.boolean) (k := .boolean) (by decide)).2]
          at hvalue
        cases hvalue
      · cases hid
  · rintro ⟨⟨id, hid, hvalue⟩, hboolean⟩
    exact ⟨id, mem_unionList.mpr (.inl ⟨hid, (hliteral id hvalue).trans hboolean⟩), hvalue⟩

/-- The union of a part absorbs as the part does. -/
theorem survives_unionList_append (h : WellFormed s) (policy : UnionPolicy)
    (part rest : List TypeId) :
    s.survives (s.unionList policy part ++ rest) = s.survives (part ++ rest) := by
  have hboolean : s.hasBoolean (s.unionList policy part ++ rest) = s.hasBoolean (part ++ rest) := by
    unfold hasBoolean
    simp only [anyKind_append, anyKind_boolean_unionList h, anyKind_isBooleanLiteral_unionList h]
    unfold hasBoolean
    grind
  funext id
  rw [survives_eq, survives_eq, hboolean]
  simp only [anyKind_append, anyKind_base_unionList h (.inl rfl),
    anyKind_base_unionList h (.inr rfl)]

theorem mergesBooleans_unionList_append (h : WellFormed s) (policy : UnionPolicy)
    (part rest : List TypeId) :
    s.mergesBooleans (s.unionList policy part ++ rest) =
      (s.mergesBooleans (part ++ rest) && !s.mergesBooleans part) := by
  simp only [mergesBooleans, anyKind_append, anyKind_boolean_unionList h,
    anyKind_isBooleanLiteral_unionList h]
  unfold hasBoolean
  grind

/-- What the part drops the whole drops. -/
theorem survives_of_survives_append {part rest : List TypeId} {id : TypeId}
    (h : s.survives (part ++ rest) id) : s.survives part id := by
  rw [survives_eq] at h ⊢
  have hboolean : s.hasBoolean part → s.hasBoolean (part ++ rest) := by
    unfold hasBoolean
    simp only [anyKind_append]
    grind
  simp only [anyKind_append, Bool.and_eq_true, Bool.not_eq_true', Bool.and_eq_false_iff,
    Bool.or_eq_false_iff] at h ⊢
  obtain ⟨⟨⟨hnever, hstring⟩, hnumber⟩, hliteral⟩ := h
  refine ⟨⟨⟨hnever, hstring.imp_right And.left⟩, hnumber.imp_right And.left⟩,
    hliteral.imp_right fun hnone => ?_⟩
  exact Bool.eq_false_iff.mpr fun hpart => by simp [hboolean hpart] at hnone

/-- The members of a union before they are arranged. -/
def surviving (s : TypeStore) (flattened : List TypeId) : List TypeId :=
  flattened.filter (s.survives flattened) ++ s.mergedBoolean flattened

theorem mem_mergedBoolean {flattened : List TypeId} {id : TypeId} :
    id ∈ s.mergedBoolean flattened ↔
      s.mergesBooleans flattened = true ∧ id = s.builtins.boolean := by
  unfold mergedBoolean
  split <;> simp_all

theorem eq_builtin_boolean (h : WellFormed s) {id : TypeId} (hid : s.Contains id)
    (hkind : s.kind id = .boolean) : id = s.builtins.boolean := by
  obtain ⟨hcontains, hboolean⟩ := h.kind_builtin (·.boolean) (k := .boolean) (by decide)
  exact h.eq_of_kind_eq hid hcontains (by rw [hkind]; rfl) (hkind.trans hboolean.symm)

/-- What a union drops and recombines does not depend on where the part stands. -/
theorem survives_append_unionList_append (h : WellFormed s) (policy : UnionPolicy)
    (front part rest : List TypeId) :
    s.survives (front ++ (s.unionList policy part ++ rest)) =
      s.survives (front ++ (part ++ rest)) := by
  rw [survives_perm (List.perm_append_comm_assoc front (s.unionList policy part) rest),
    survives_unionList_append h,
    survives_perm (List.perm_append_comm_assoc part front rest)]

theorem mergesBooleans_append_unionList_append (h : WellFormed s) (policy : UnionPolicy)
    (front part rest : List TypeId) :
    s.mergesBooleans (front ++ (s.unionList policy part ++ rest)) =
      (s.mergesBooleans (front ++ (part ++ rest)) && !s.mergesBooleans part) := by
  rw [mergesBooleans_perm (List.perm_append_comm_assoc front (s.unionList policy part) rest),
    mergesBooleans_unionList_append h,
    mergesBooleans_perm (List.perm_append_comm_assoc part front rest)]

theorem survives_of_survives_append_append {front part rest : List TypeId} {id : TypeId}
    (h : s.survives (front ++ (part ++ rest)) id) : s.survives part id := by
  rw [survives_perm (List.perm_append_comm_assoc front part rest)] at h
  exact survives_of_survives_append h

/-- A `boolean` that the part recombines is there in the whole. -/
theorem mergesBooleans_append_append (h : WellFormed s) {front part rest : List TypeId}
    (hids : ∀ id ∈ front ++ rest, s.Contains id) (hmerges : s.mergesBooleans part) :
    s.mergesBooleans (front ++ (part ++ rest)) ∨ s.builtins.boolean ∈ front ++ rest := by
  cases hlisted : s.anyKind (front ++ rest) (· = .boolean) with
  | true =>
    obtain ⟨id, hid, hkind⟩ := anyKind_eq_true.mp hlisted
    exact .inr (eq_builtin_boolean h (hids id hid) (by simpa using hkind) ▸ hid)
  | false =>
    left
    rw [mergesBooleans_perm (List.perm_append_comm_assoc front part rest)]
    unfold mergesBooleans at hmerges ⊢
    rw [anyKind_append, hlisted]
    simp only [anyKind_append]
    grind

/-- The union of a part leaves the members that the part leaves. -/
theorem mem_surviving_append_unionList_append (h : WellFormed s) (policy : UnionPolicy)
    {front part rest : List TypeId} (hids : ∀ id ∈ front ++ rest, s.Contains id) {id : TypeId} :
    id ∈ s.surviving (front ++ (s.unionList policy part ++ rest)) ↔
      id ∈ s.surviving (front ++ (part ++ rest)) := by
  have hkind := (h.kind_builtin (·.boolean) (k := .boolean) (by decide)).2
  have hboolean : ∀ flattened, s.survives flattened s.builtins.boolean :=
    fun _ => survives_of_kind hkind nofun rfl rfl rfl
  have himp : s.survives (front ++ (part ++ rest)) id → s.survives part id :=
    survives_of_survives_append_append
  have hrecombined : s.mergesBooleans part →
      s.mergesBooleans (front ++ (part ++ rest)) ∨ s.builtins.boolean ∈ front ++ rest :=
    mergesBooleans_append_append h hids
  simp only [surviving, List.mem_append, List.mem_filter, survives_append_unionList_append h,
    mem_mergedBoolean, mergesBooleans_append_unionList_append h, mem_unionList] at hrecombined ⊢
  grind

theorem unionList_eq (policy : UnionPolicy) (flattened : List TypeId) :
    s.unionList policy flattened = (s.arrange policy (s.surviving flattened)).eraseDups := rfl

theorem filter_mergedBoolean {flattened : List TypeId} {p : TypeId → Bool}
    (hp : s.mergesBooleans flattened = true → p s.builtins.boolean = false) :
    (s.mergedBoolean flattened).filter p = [] := by
  rw [List.filter_eq_nil_iff]
  intro id hid
  obtain ⟨hmerges, rfl⟩ := mem_mergedBoolean.mp hid
  simp [hp hmerges]

/-- Members of one key that the part lists keep their order in its union. -/
theorem filter_arrange_surviving (policy : UnionPolicy) {part : List TypeId} {p : TypeId → Bool}
    (hp : ∀ id, p id = true → s.survives part id = true)
    (hboolean : s.mergesBooleans part = true → p s.builtins.boolean = false)
    (harranged : (s.arrange policy (s.surviving part)).filter p = (s.surviving part).filter p) :
    (s.unionList policy part).filter p = (part.filter p).eraseDups := by
  have hfilter : (part.filter (s.survives part)).filter p = part.filter p := by
    rw [List.filter_filter]
    exact List.filter_congr fun id _ => by cases h : p id <;> simp [hp id, h]
  rw [unionList_eq, filter_eraseDups, harranged, surviving, List.filter_append, hfilter,
    filter_mergedBoolean hboolean, List.append_nil]

section part

variable {front part rest : List TypeId}

/-- A part that recombines no `boolean` leaves its members where they were. -/
theorem unionList_preserve_append_unionList_append (h : WellFormed s)
    (hpart : s.mergesBooleans part = false) :
    s.unionList .preserveAuthoredStructuralOrder
        (front ++ (s.unionList .preserveAuthoredStructuralOrder part ++ rest)) =
      s.unionList .preserveAuthoredStructuralOrder (front ++ (part ++ rest)) := by
  have hsurvives := survives_append_unionList_append h .preserveAuthoredStructuralOrder front part
    rest
  have hmerged : s.mergedBoolean (front ++
      (s.unionList .preserveAuthoredStructuralOrder part ++ rest)) =
      s.mergedBoolean (front ++ (part ++ rest)) := by
    unfold mergedBoolean
    rw [mergesBooleans_append_unionList_append h, hpart, Bool.not_false, Bool.and_true]
  have hfilter := filter_arrange_surviving .preserveAuthoredStructuralOrder
    (p := s.survives (front ++ (part ++ rest))) (fun id => survives_of_survives_append_append)
    (fun hmerge => by simp [hpart] at hmerge) rfl
  rw [unionList_eq _ (front ++ (part ++ rest)),
    unionList_eq _ (front ++ (s.unionList .preserveAuthoredStructuralOrder part ++ rest))]
  simp only [arrange, surviving, hsurvives, hmerged]
  simp only [List.filter_append, hfilter, List.append_assoc]
  exact eraseDups_append_congr _ _ (eraseDups_of_nodup (nodup_eraseDups _))

/-- No other type has the key of `boolean`. -/
theorem eq_boolean_of_stableOrderKey (h : WellFormed s) {id : TypeId} (hid : s.Contains id)
    (hkey : s.stableOrderKey id 0 = s.stableOrderKey s.builtins.boolean 0) :
    id = s.builtins.boolean := by
  refine eq_builtin_boolean h hid (kind_of_stableOrderKey_boolean (hkey.trans ?_))
  rw [stableOrderKey_root, (h.kind_builtin (·.boolean) (k := .boolean) (by decide)).2]
  rfl

theorem contains_of_mem_surviving (h : WellFormed s) {flattened : List TypeId}
    (hids : ∀ id ∈ flattened, s.Contains id) {id : TypeId} (hid : id ∈ s.surviving flattened) :
    s.Contains id := by
  rcases List.mem_append.mp hid with hid | hid
  · exact hids id (List.mem_of_mem_filter hid)
  · rw [(mem_mergedBoolean.mp hid).2]
    exact (h.kind_builtin (·.boolean) (k := .boolean) (by decide)).1

/-- In canonical order the members of each key keep their order. -/
theorem unionList_canonical_append_unionList_append (h : WellFormed s)
    (hids : ∀ id ∈ front ++ (part ++ rest), s.Contains id) :
    s.unionList .canonical (front ++ (s.unionList .canonical part ++ rest)) =
      s.unionList .canonical (front ++ (part ++ rest)) := by
  have hsurvives := survives_append_unionList_append h .canonical front part rest
  have houter : ∀ id ∈ front ++ rest, s.Contains id := fun id hid => hids id (by grind)
  have hmem : ∀ id, id ∈ s.surviving (front ++ (s.unionList .canonical part ++ rest)) ↔
      id ∈ s.surviving (front ++ (part ++ rest)) :=
    fun _ => mem_surviving_append_unionList_append h .canonical houter
  rw [unionList_eq _ (front ++ (part ++ rest)),
    unionList_eq _ (front ++ (s.unionList .canonical part ++ rest))]
  refine eraseDups_sortByKey_eq_iff.mpr fun key => ?_
  by_cases hkey : key = s.stableOrderKey s.builtins.boolean 0
  · -- The members with the key of `boolean` are `boolean`.
    have hboolean : ∀ id ∈ (s.surviving (front ++ (part ++ rest))).filter
        (s.stableOrderKey · 0 = key), id = s.builtins.boolean := by
      intro id hid
      obtain ⟨hid, heq⟩ := List.mem_filter.mp hid
      exact eq_boolean_of_stableOrderKey h (contains_of_mem_surviving h hids hid)
        ((of_decide_eq_true heq).trans hkey)
    refine eraseDups_eq_of_forall_eq (fun id hid => hboolean id ?_) hboolean ?_
    · simpa only [List.mem_filter, hmem] using hid
    · simp only [List.mem_filter, hmem]
  · have hnone : ∀ flattened, (s.mergedBoolean flattened).filter
        (fun id => s.stableOrderKey id 0 = key) = [] := fun flattened =>
      filter_mergedBoolean fun _ => by simpa using Ne.symm hkey
    have hfilter := filter_arrange_surviving .canonical
      (p := fun id => s.survives (front ++ (part ++ rest)) id && s.stableOrderKey id 0 = key)
      (fun id hid => survives_of_survives_append_append (Bool.and_eq_true_iff.mp hid).1)
      (fun _ => by simp [Ne.symm hkey])
      (by rw [arrange, ← List.filter_filter, ← List.filter_filter, filter_sortByKey])
    simp only [surviving, hsurvives, List.filter_append, hnone, List.append_nil,
      List.filter_filter] at hfilter ⊢
    simp only [Bool.and_comm] at hfilter ⊢
    rw [hfilter]
    exact eraseDups_append_congr _ _ (eraseDups_of_nodup (nodup_eraseDups _))

end part

/-! ## Unions of parts -/

/-- The union of a list whose listed unions are replaced by their members. -/
def normalizeFlat (s : TypeStore) (policy : UnionPolicy) (flattened : List TypeId) : Normalized :=
  if s.anyKind flattened (· = .any) then .existing s.builtins.any
  else if s.anyKind flattened (· = .unknown) then .existing s.builtins.unknown
  else
    match flattened.find? fun id => (s.kind id).isError with
    | some error => .existing error
    | none => .ofList s.builtins.never (s.unionList policy flattened)

theorem normalizeUnion_eq_normalizeFlat (members : List TypeId) (policy : UnionPolicy) :
    s.normalizeUnion members policy = s.normalizeFlat policy (members.flatMap s.unionMembers) :=
  normalizeUnion_eq members policy

theorem Normalized.ids_ofList {whenEmpty : TypeId} {ids : List TypeId} :
    (Normalized.ofList whenEmpty ids).ids = if ids = [] then [whenEmpty] else ids := by
  unfold Normalized.ofList
  split <;> simp_all [Normalized.ids]

theorem Normalized.ofList_eq_combined {whenEmpty : TypeId} {ids ms : List TypeId} :
    Normalized.ofList whenEmpty ids = .combined ms ↔ ids = ms ∧ 2 ≤ ms.length := by
  match ids with
  | [] | [_] =>
    refine iff_of_false nofun ?_
    rintro ⟨rfl, hlength⟩
    simp at hlength
  | a :: b :: rest =>
    constructor
    · intro h
      obtain rfl : a :: b :: rest = ms := Normalized.combined.inj h
      simp
    · rintro ⟨rfl, -⟩
      rfl

/-- A `never` leaves no trace in a union. -/
theorem unionList_append_never_append {policy : UnionPolicy} {never : TypeId}
    (hnever : s.kind never = .never) (front rest : List TypeId) :
    s.unionList policy (front ++ ([never] ++ rest)) = s.unionList policy (front ++ rest) := by
  have hany : ∀ p : TypeKind → Bool, p .never = false →
      s.anyKind (front ++ ([never] ++ rest)) p = s.anyKind (front ++ rest) p := by
    intro p hp
    simp only [anyKind_append, anyKind_singleton, hnever, hp, Bool.false_or]
  have hmerges : s.mergesBooleans (front ++ ([never] ++ rest)) = s.mergesBooleans (front ++ rest) := by
    unfold mergesBooleans
    rw [hany _ rfl, hany _ rfl, hany _ rfl]
  have hsurvives : s.survives (front ++ ([never] ++ rest)) = s.survives (front ++ rest) := by
    funext id
    unfold survives
    rw [hmerges, hany _ rfl, hany _ rfl, hany _ rfl]
  have hdropped : s.survives (front ++ rest) never = false := by simp [survives, hnever]
  unfold unionList mergedBoolean
  rw [hmerges, hsurvives]
  simp [hdropped]

theorem normalizeFlat_of_unabsorbed {policy : UnionPolicy} {flattened : List TypeId}
    (hany : s.anyKind flattened (· = .any) = false)
    (hunknown : s.anyKind flattened (· = .unknown) = false)
    (herror : flattened.find? (fun id => (s.kind id).isError) = none) :
    s.normalizeFlat policy flattened =
      .ofList s.builtins.never (s.unionList policy flattened) := by
  simp [normalizeFlat, hany, hunknown, herror, -anyKind_eq_true]

/-- Nothing that is left absorbs the rest. -/
theorem unabsorbed_unionList (h : WellFormed s) (policy : UnionPolicy) {flattened : List TypeId}
    (hany : s.anyKind flattened (· = .any) = false)
    (hunknown : s.anyKind flattened (· = .unknown) = false)
    (herror : flattened.find? (fun id => (s.kind id).isError) = none) :
    s.anyKind (s.unionList policy flattened) (· = .any) = false ∧
      s.anyKind (s.unionList policy flattened) (· = .unknown) = false ∧
      (s.unionList policy flattened).find? (fun id => (s.kind id).isError) = none := by
  rw [anyKind_eq_false] at hany hunknown ⊢
  rw [anyKind_eq_false, List.find?_eq_none] at *
  refine ⟨fun id hid => ?_, fun id hid => ?_, fun id hid => ?_⟩ <;>
    rcases mem_unionList_cases h hid with ⟨hid, -⟩ | ⟨hkind, -⟩
  · exact hany id hid
  · simp [hkind]
  · exact hunknown id hid
  · simp [hkind]
  · exact herror id hid
  · simp [hkind, TypeKind.isError]

/-- Two parts that absorb nothing differ only in what they list. -/
theorem normalizeFlat_append_append_of_unabsorbed (policy : UnionPolicy)
    (front rest : List TypeId) {part part' : List TypeId}
    (hpart : s.anyKind part (· = .any) = false ∧ s.anyKind part (· = .unknown) = false ∧
      part.find? (fun id => (s.kind id).isError) = none)
    (hpart' : s.anyKind part' (· = .any) = false ∧ s.anyKind part' (· = .unknown) = false ∧
      part'.find? (fun id => (s.kind id).isError) = none) :
    s.normalizeFlat policy (front ++ (part' ++ rest)) =
        s.normalizeFlat policy (front ++ (part ++ rest)) ∨
      s.normalizeFlat policy (front ++ (part' ++ rest)) =
          .ofList s.builtins.never (s.unionList policy (front ++ (part' ++ rest))) ∧
        s.normalizeFlat policy (front ++ (part ++ rest)) =
          .ofList s.builtins.never (s.unionList policy (front ++ (part ++ rest))) := by
  simp only [normalizeFlat, anyKind_append, List.find?_append, hpart, hpart', Bool.false_or,
    Option.none_or]
  by_cases hany : (s.anyKind front (· = .any) || s.anyKind rest (· = .any)) = true
  · exact .inl (by rw [if_pos hany, if_pos hany])
  by_cases hunknown : (s.anyKind front (· = .unknown) || s.anyKind rest (· = .unknown)) = true
  · exact .inl (by rw [if_neg hany, if_neg hany, if_pos hunknown, if_pos hunknown])
  simp only [if_neg hany, if_neg hunknown]
  split
  · exact .inl rfl
  · exact .inr ⟨rfl, rfl⟩

/-- The union of a part absorbs the whole as the part does, or nothing absorbs the part. -/
theorem normalizeFlat_ids_cases (h : WellFormed s) (policy : UnionPolicy)
    (front part rest : List TypeId) :
    s.normalizeFlat policy (front ++ ((s.normalizeFlat policy part).ids ++ rest)) =
        s.normalizeFlat policy (front ++ (part ++ rest)) ∨
      s.normalizeFlat policy (front ++ ((s.normalizeFlat policy part).ids ++ rest)) =
          .ofList s.builtins.never (s.unionList policy
            (front ++ (s.unionList policy part ++ rest))) ∧
        s.normalizeFlat policy (front ++ (part ++ rest)) =
          .ofList s.builtins.never (s.unionList policy (front ++ (part ++ rest))) := by
  have hanykind := (h.kind_builtin (·.any) (k := .any) (by decide)).2
  have hunknownkind := (h.kind_builtin (·.unknown) (k := .unknown) (by decide)).2
  have hneverkind := (h.kind_builtin (·.never) (k := .never) (by decide)).2
  cases hany : s.anyKind part (· = .any) with
  | true =>
    left
    have hpart : s.normalizeFlat policy part = .existing s.builtins.any := by
      rw [normalizeFlat, hany, if_pos rfl]
    rw [hpart, Normalized.ids, normalizeFlat, normalizeFlat]
    simp only [anyKind_append, anyKind_singleton, hanykind, hany, decide_true, Bool.true_or,
      Bool.or_true, if_true]
  | false =>
    cases hunknown : s.anyKind part (· = .unknown) with
    | true =>
      left
      have hpart : s.normalizeFlat policy part = .existing s.builtins.unknown := by
        rw [normalizeFlat, hany, hunknown, if_neg Bool.false_ne_true, if_pos rfl]
      rw [hpart, Normalized.ids, normalizeFlat, normalizeFlat]
      simp only [anyKind_append, anyKind_singleton, hunknownkind, hany, hunknown, decide_true,
        reduceCtorEq, decide_false, Bool.true_or, Bool.or_true, if_true]
    | false =>
      cases herror : part.find? fun id => (s.kind id).isError with
      | some error =>
        left
        have hkind : (s.kind error).isError := by simpa using List.find?_some herror
        have hpart : s.normalizeFlat policy part = .existing error := by
          simp [normalizeFlat, hany, hunknown, herror, -anyKind_eq_true]
        have hnotany : s.kind error ≠ .any := fun h => by simp [h, TypeKind.isError] at hkind
        have hnotunknown : s.kind error ≠ .unknown :=
          fun h => by simp [h, TypeKind.isError] at hkind
        rw [hpart, Normalized.ids, normalizeFlat, normalizeFlat]
        simp only [anyKind_append, anyKind_singleton, hnotany, hnotunknown, hany, hunknown,
          decide_false, List.find?_append, herror, List.find?_singleton, hkind, if_true]
        cases front.find? fun id => (s.kind id).isError <;> rfl
      | none =>
        rw [normalizeFlat_of_unabsorbed hany hunknown herror, Normalized.ids_ofList]
        have hunion := unabsorbed_unionList h policy hany hunknown herror
        by_cases hempty : s.unionList policy part = []
        · rw [if_pos hempty, hempty]
          have hnever : s.anyKind [s.builtins.never] (· = .any) = false ∧
              s.anyKind [s.builtins.never] (· = .unknown) = false ∧
              [s.builtins.never].find? (fun id => (s.kind id).isError) = none := by
            simp [anyKind_singleton, hneverkind, TypeKind.isError, -anyKind_eq_true]
          have := normalizeFlat_append_append_of_unabsorbed policy front rest
            ⟨hany, hunknown, herror⟩ hnever
          rwa [unionList_append_never_append hneverkind] at this
        · rw [if_neg hempty]
          exact normalizeFlat_append_append_of_unabsorbed policy front rest ⟨hany, hunknown, herror⟩ hunion

section

variable {front part rest : List TypeId}

/-- The union of a part can stand for the part, in canonical order or when the part recombines
no `boolean`. -/
theorem normalizeFlat_append_ids_append (h : WellFormed s) {policy : UnionPolicy}
    (hids : ∀ id ∈ front ++ (part ++ rest), s.Contains id)
    (hpolicy : policy = .canonical ∨ s.mergesBooleans part = false) :
    s.normalizeFlat policy (front ++ ((s.normalizeFlat policy part).ids ++ rest)) =
      s.normalizeFlat policy (front ++ (part ++ rest)) := by
  rcases normalizeFlat_ids_cases h policy front part rest with heq | ⟨hleft, hright⟩
  · exact heq
  · rw [hleft, hright]
    cases policy with
    | canonical => rw [unionList_canonical_append_unionList_append h hids]
    | preserveAuthoredStructuralOrder =>
      rw [unionList_preserve_append_unionList_append h (hpolicy.resolve_left nofun)]

theorem Normalized.ids_ofList_perm {whenEmpty : TypeId} {ids ids' : List TypeId}
    (h : ids.Perm ids') :
    (Normalized.ofList whenEmpty ids).ids.Perm (Normalized.ofList whenEmpty ids').ids := by
  rw [ids_ofList, ids_ofList]
  have hempty : ids = [] ↔ ids' = [] := by
    rw [← List.length_eq_zero_iff, h.length_eq, List.length_eq_zero_iff]
  by_cases hids : ids = []
  · rw [if_pos hids, if_pos (hempty.mp hids)]
  · rwa [if_neg hids, if_neg (hempty.not.mp hids)]

/-- In either order the union of a part leads to the same members. -/
theorem normalizeFlat_append_ids_append_perm (h : WellFormed s) (policy : UnionPolicy)
    (hids : ∀ id ∈ front ++ (part ++ rest), s.Contains id) :
    (s.normalizeFlat policy (front ++ ((s.normalizeFlat policy part).ids ++ rest))).ids.Perm
      (s.normalizeFlat policy (front ++ (part ++ rest))).ids := by
  rcases normalizeFlat_ids_cases h policy front part rest with heq | ⟨hleft, hright⟩
  · rw [heq]
  · rw [hleft, hright]
    refine Normalized.ids_ofList_perm ?_
    rw [unionList_eq, unionList_eq]
    refine (List.perm_ext_iff_of_nodup (nodup_eraseDups _) (nodup_eraseDups _)).mpr fun id => ?_
    rw [List.mem_eraseDups, List.mem_eraseDups, (arrange_perm policy _).mem_iff,
      (arrange_perm policy _).mem_iff]
    exact mem_surviving_append_unionList_append h policy fun id hid => hids id (by grind)

theorem survives_unionList (h : WellFormed s) (policy : UnionPolicy) (flattened : List TypeId) :
    s.survives (s.unionList policy flattened) = s.survives flattened := by
  simpa using survives_unionList_append h policy flattened []

/-- What is left survives beside what is left. -/
theorem survives_of_mem_unionList (h : WellFormed s) {policy : UnionPolicy}
    {flattened : List TypeId} {id : TypeId} (hid : id ∈ s.unionList policy flattened) :
    s.survives (s.unionList policy flattened) id := by
  rw [survives_unionList h]
  rcases mem_unionList.mp hid with ⟨-, hid⟩ | hid
  · exact hid
  · rw [(mem_mergedBoolean.mp hid).2]
    exact survives_of_kind (h.kind_builtin (·.boolean) (k := .boolean) (by decide)).2 nofun rfl
      rfl rfl

/-- Nothing is absorbed from what is left. -/
theorem surviving_unionList (h : WellFormed s) (policy : UnionPolicy) (flattened : List TypeId) :
    s.surviving (s.unionList policy flattened) = s.unionList policy flattened := by
  have hmerges := mergesBooleans_unionList_append h policy flattened []
  rw [List.append_nil, List.append_nil, Bool.and_not_self] at hmerges
  rw [surviving, mergedBoolean, hmerges, if_neg Bool.false_ne_true, List.append_nil]
  exact List.filter_eq_self.mpr fun id hid => survives_of_mem_unionList h hid

/-- A list in normal form stays as it is. -/
theorem unionList_unionList (h : WellFormed s) (policy : UnionPolicy) (flattened : List TypeId) :
    s.unionList policy (s.unionList policy flattened) = s.unionList policy flattened := by
  have harrange : s.arrange policy (s.unionList policy flattened) =
      s.unionList policy flattened := by
    cases policy with
    | preserveAuthoredStructuralOrder => rfl
    | canonical =>
      have hsorted := (sortByKey_pairwise (s.stableOrderKey · 0) (s.surviving flattened)).sublist
        (eraseDups_sublist _)
      exact eq_of_filter_eq (sortByKey_pairwise _ _) hsorted fun key => filter_sortByKey _ _ key
  rw [unionList_eq, surviving_unionList h, harrange]
  exact eraseDups_of_nodup (nodup_eraseDups _)

theorem normalizeFlat_ids (h : WellFormed s) (policy : UnionPolicy) (flattened : List TypeId) :
    s.normalizeFlat policy (s.normalizeFlat policy flattened).ids =
      s.normalizeFlat policy flattened := by
  have hcases := normalizeFlat_ids_cases h policy [] flattened []
  simp only [List.nil_append, List.append_nil] at hcases
  rcases hcases with heq | ⟨hleft, hright⟩
  · exact heq
  · rw [hleft, hright, unionList_unionList h]

/-- How the members of a union look. A fresh and a regular literal of one value are different
types. -/
structure IsUnionNormal (s : TypeStore) (members : List TypeId) : Prop where
  two_le : 2 ≤ members.length
  flat : ∀ m ∈ members, IsFlat (s.kind m) ∧ s.kind m ≠ .never
  strings : ∀ m ∈ members, (s.kind m).isLiteralString → ∀ base ∈ members, s.kind base ≠ .string
  numbers : ∀ m ∈ members, (s.kind m).isLiteralNumber → ∀ base ∈ members, s.kind base ≠ .number
  booleans : ∀ m ∈ members, (s.kind m).isLiteralBoolean → ∀ base ∈ members, s.kind base ≠ .boolean
  one_boolean : ∀ m ∈ members, ∀ m' ∈ members, (s.kind m).isBooleanLiteral true →
    (s.kind m').isBooleanLiteral false → False
  nodup : members.Nodup
  distinct : ∀ m ∈ members, ∀ m' ∈ members, s.kind m = s.kind m' →
    isFreshDeferred (s.kind m) = false → m = m'

theorem isUnionNormal_of_combined (h : WellFormed s) {members ms : List TypeId}
    {policy : UnionPolicy} (hmembers : ∀ m ∈ members, s.Contains m)
    (hms : s.normalizeUnion members policy = .combined ms) : IsUnionNormal s ms := by
  obtain ⟨hnodup, hflat⟩ := normalizeUnion_combined h hmembers hms
  have hlist := unionList_of_combined hms
  have hcontains := contains_of_combined hms fun _ => contains_normalizeUnion h hmembers
  have htwo : 2 ≤ ms.length := by
    rw [normalizeUnion_eq_normalizeFlat, normalizeFlat] at hms
    split_ifs at hms
    split at hms
    · cases hms
    · exact (Normalized.ofList_eq_combined.mp hms).2
  have hsurvives : ∀ m ∈ ms, s.survives ms m := fun m hm => by
    rw [← hlist] at hm ⊢
    exact survives_of_mem_unionList h hm
  simp only [survives_eq, Bool.and_eq_true, Bool.not_eq_true', Bool.and_eq_false_iff,
    decide_eq_true_eq] at hsurvives
  have hbase : ∀ {base : TypeKind}, s.anyKind ms (· = base) = false →
      ∀ m ∈ ms, s.kind m ≠ base := fun hnone m hm => by
    simpa using anyKind_eq_false.mp hnone m hm
  have hboolean : ∀ m ∈ ms, (s.kind m).isLiteralBoolean → s.hasBoolean ms = false :=
    fun m hm hliteral => (hsurvives m hm).2.resolve_left (by simp [hliteral])
  refine ⟨htwo, fun m hm => ⟨hflat m hm, (hsurvives m hm).1.1.1⟩, ?_, ?_, ?_, ?_, hnodup, ?_⟩
  · intro m hm hliteral
    exact hbase ((hsurvives m hm).1.1.2.resolve_left (by simp [hliteral]))
  · intro m hm hliteral
    exact hbase ((hsurvives m hm).1.2.resolve_left (by simp [hliteral]))
  · intro m hm hliteral
    have hnone := hboolean m hm hliteral
    rw [hasBoolean, Bool.or_eq_false_iff] at hnone
    exact hbase hnone.1
  · intro m hm m' hm' htrue hfalse
    have hliteral : (s.kind m).isLiteralBoolean := by
      cases hkind : s.kind m <;> simp_all [TypeKind.isBooleanLiteral, TypeKind.isLiteralBoolean]
    have hnone := hboolean m hm hliteral
    rw [hasBoolean, anyKind_eq_true.mpr ⟨m, hm, htrue⟩, anyKind_eq_true.mpr ⟨m', hm', hfalse⟩]
      at hnone
    simp at hnone
  · intro m hm m' hm' heq hfresh
    exact h.eq_of_kind_eq (hcontains m hm) (hcontains m' hm') hfresh heq

/-- A union that is not made of several members is not a union. -/
theorem kind_ne_union_of_existing (h : WellFormed s) {members : List TypeId}
    {policy : UnionPolicy} (hmembers : ∀ m ∈ members, s.Contains m) {id : TypeId}
    (hid : s.normalizeUnion members policy = .existing id) (ms : List TypeId) :
    s.kind id ≠ .union ms := by
  rw [normalizeUnion_eq_normalizeFlat, normalizeFlat] at hid
  split_ifs at hid with hany hunknown
  · rw [← Normalized.existing.inj hid, (h.kind_builtin (·.any) (k := .any) (by decide)).2]
    exact TypeKind.noConfusion
  · rw [← Normalized.existing.inj hid, (h.kind_builtin (·.unknown) (k := .unknown) (by decide)).2]
    exact TypeKind.noConfusion
  · split at hid
    next error herror =>
      have hkind : (s.kind error).isError := by simpa using List.find?_some herror
      rw [← Normalized.existing.inj hid]
      intro hunion
      simp [hunion, TypeKind.isError] at hkind
    next hnone =>
      have hlisted : id ∈ (Normalized.existing id).ids := List.mem_singleton_self id
      rw [← hid] at hlisted
      rcases Normalized.mem_ids_ofList hlisted with rfl | hmem
      · rw [(h.kind_builtin (·.never) (k := .never) (by decide)).2]
        exact TypeKind.noConfusion
      · refine (isFlat_of_mem_unionList h hmembers (Bool.eq_false_iff.mpr hany)
          (Bool.eq_false_iff.mpr hunknown) (fun id hid => ?_) hmem).union ms
        exact Bool.eq_false_iff.mpr (List.find?_eq_none.mp hnone id hid)

theorem unionMembers_of_ne_union {id : TypeId} (h : ∀ ms, s.kind id ≠ .union ms) :
    s.unionMembers id = [id] := by
  unfold unionMembers
  split
  · next nested hkind => exact absurd hkind (h nested)
  · rfl

theorem unionMembers_union (h : WellFormed s) {members : List TypeId} (policy : UnionPolicy)
    (hmembers : ∀ m ∈ members, s.Contains m) :
    (s.union members policy).2.unionMembers (s.union members policy).1 =
      (s.normalizeUnion members policy).ids := by
  have hkind := kind_combine h.toConsistent .union (s.normalizeUnion members policy)
  unfold TypeStore.union
  cases hn : s.normalizeUnion members policy with
  | existing id => exact unionMembers_of_ne_union (kind_ne_union_of_existing h hmembers hn)
  | combined ms =>
    rw [hn] at hkind
    unfold unionMembers
    simp only [hkind, Normalized.ids]

theorem flatMap_unionMembers_ids (h : WellFormed s) {members : List TypeId} {policy : UnionPolicy}
    (hmembers : ∀ m ∈ members, s.Contains m) :
    (s.normalizeUnion members policy).ids.flatMap s.unionMembers =
      (s.normalizeUnion members policy).ids := by
  have hself : ∀ id ∈ (s.normalizeUnion members policy).ids, s.unionMembers id = [id] := by
    intro id hid
    refine unionMembers_of_ne_union fun ms => ?_
    cases hn : s.normalizeUnion members policy with
    | existing other =>
      rw [hn] at hid
      rw [List.mem_singleton.mp hid]
      exact kind_ne_union_of_existing h hmembers hn ms
    | combined others =>
      rw [hn] at hid
      exact ((normalizeUnion_combined h hmembers hn).2 id hid).union ms
  rw [List.flatMap_congr hself]
  simp

theorem combine_of_extends (members : List TypeId) (policy : UnionPolicy)
    (ht : Extends (s.union members policy).2 t) :
    t.combine .union (s.normalizeUnion members policy) = ((s.union members policy).1, t) := by
  unfold TypeStore.union at ht ⊢
  cases hn : s.normalizeUnion members policy with
  | existing id => rfl
  | combined ms =>
    rw [hn] at ht
    exact intern_of_extends ht

/-- The normal form of a union, and when the union of a list can stand for the list. -/
theorem union_normal_form (hs : Reachable s) {members : List TypeId}
    (hmembers : ∀ m ∈ members, s.Contains m) (policy : UnionPolicy) {id : TypeId} {t : TypeStore}
    (hunion : s.union members policy = (id, t)) :
    (∀ ms, t.kind id = .union ms → IsUnionNormal t ms) ∧
      t.union (t.unionMembers id) policy = (id, t) ∧
      ∀ more, (∀ m ∈ more, t.Contains m) →
        (policy = .canonical ∨ t.mergesBooleans (members.flatMap t.unionMembers) = false →
          t.union (id :: more) policy = t.union (members ++ more) policy) ∧
        (t.normalizeUnion (id :: more) policy).ids.Perm
          (t.normalizeUnion (members ++ more) policy).ids := by
  have hwell := hs.wellFormed
  have hgrow : Extends s t := by
    have := extends_combine (s := s) .union (s.normalizeUnion members policy)
    rwa [← TypeStore.union, hunion] at this
  have ht : WellFormed t := by
    have hafter : Reachable (s.union members policy).2 := hs.union hmembers
    rw [hunion] at hafter
    exact hafter.wellFormed
  have hmembers' : ∀ m ∈ members, t.Contains m := fun m hm => hgrow.contains (hmembers m hm)
  have hsame : t.normalizeUnion members policy = s.normalizeUnion members policy :=
    normalizeUnion_of_extends hgrow hwell ht hmembers
  have hids : t.unionMembers id = (t.normalizeUnion members policy).ids := by
    have := unionMembers_union hwell policy hmembers
    rwa [hunion, ← hsame] at this
  have hagain : t.union members policy = (id, t) := by
    have := combine_of_extends (s := s) (t := t) members policy (by rw [hunion])
    rwa [← hsame, hunion] at this
  refine ⟨fun ms hms => ?_, ?_, fun more hmore => ?_⟩
  · cases hn : t.normalizeUnion members policy with
    | existing other =>
      have hother : other = id := by
        have := congrArg Prod.fst hagain
        rwa [TypeStore.union, hn] at this
      exact absurd (hother ▸ hms) (kind_ne_union_of_existing ht hmembers' hn ms)
    | combined others =>
      rw [hn, unionMembers, hms] at hids
      rw [show ms = others from hids]
      exact isUnionNormal_of_combined ht hmembers' hn
  · rw [← hagain, TypeStore.union, TypeStore.union, hids, normalizeUnion_eq_normalizeFlat,
      flatMap_unionMembers_ids ht hmembers', normalizeUnion_eq_normalizeFlat members,
      normalizeFlat_ids ht]
  · have hcontains : ∀ id ∈ [] ++ (members.flatMap t.unionMembers ++ more.flatMap t.unionMembers),
        t.Contains id := by
      intro id hid
      rw [List.nil_append, ← List.flatMap_append] at hid
      obtain ⟨m, hm, hid⟩ := List.mem_flatMap.mp hid
      refine contains_unionMembers ht.toConsistent ?_ hid
      rcases List.mem_append.mp hm with hm | hm
      · exact hmembers' m hm
      · exact hmore m hm
    have hleft : t.normalizeUnion (id :: more) policy = t.normalizeFlat policy
        ([] ++ ((t.normalizeFlat policy (members.flatMap t.unionMembers)).ids ++
          more.flatMap t.unionMembers)) := by
      rw [normalizeUnion_eq_normalizeFlat, List.flatMap_cons, hids,
        normalizeUnion_eq_normalizeFlat, List.nil_append]
    have hright : t.normalizeUnion (members ++ more) policy = t.normalizeFlat policy
        ([] ++ (members.flatMap t.unionMembers ++ more.flatMap t.unionMembers)) := by
      rw [normalizeUnion_eq_normalizeFlat, List.flatMap_append, List.nil_append]
    constructor
    · intro hpolicy
      rw [TypeStore.union, TypeStore.union, hleft, hright,
        normalizeFlat_append_ids_append ht hcontains hpolicy]
    · rw [hleft, hright]
      exact normalizeFlat_append_ids_append_perm ht policy hcontains

theorem union_normal_form_numberOrString :
    (new.union [new.builtins.number, new.builtins.string] .canonical).2.kind
        (new.union [new.builtins.number, new.builtins.string] .canonical).1 =
          .union [new.builtins.string, new.builtins.number] ∧
      IsUnionNormal (new.union [new.builtins.number, new.builtins.string] .canonical).2
        [new.builtins.string, new.builtins.number] := by
  have hmembers : ∀ m ∈ [new.builtins.number, new.builtins.string], new.Contains m := by decide
  have hkind : (new.union [new.builtins.number, new.builtins.string] .canonical).2.kind
      (new.union [new.builtins.number, new.builtins.string] .canonical).1 =
        .union [new.builtins.string, new.builtins.number] := by decide +kernel
  exact ⟨hkind, (union_normal_form .new hmembers .canonical rfl).1 _ hkind⟩

end

/-! ### Literals and order -/

/-- The kind with the provenance of a literal left out. -/
def regularKind : TypeKind → TypeKind
  | .literalBoolean value _ => .literalBoolean value .regular
  | .literalNumber value _ => .literalNumber value .regular
  | .literalString value _ => .literalString value .regular
  | k => k

/-- The fresh and the regular literal `true`, and the fresh literal `false`. -/
def booleanLiterals : TypeStore :=
  (((new.intern (.literalBoolean true .fresh)).2.intern (.literalBoolean true .regular)).2.intern
    (.literalBoolean false .fresh)).2

theorem reachable_booleanLiterals : Reachable booleanLiterals :=
  .intern (.intern (.intern .new (by decide) nofun nofun) (by decide) nofun nofun) (by decide)
    nofun nofun

/-- Both literals `true` stay, and a recombined `boolean` stands last in authored order. -/
theorem union_keeps_provenance_and_moves_boolean :
    (¬ ∀ s : TypeStore, Reachable s → ∀ members : List TypeId, (∀ m ∈ members, s.Contains m) →
      ∀ policy ms, (s.union members policy).2.kind (s.union members policy).1 = .union ms →
        ∀ m ∈ ms, ∀ m' ∈ ms, regularKind ((s.union members policy).2.kind m) =
          regularKind ((s.union members policy).2.kind m') → m = m') ∧
    ¬ ∀ s : TypeStore, Reachable s → ∀ members more : List TypeId,
      (∀ m ∈ members ++ more, s.Contains m) → ∀ policy,
        (s.union members policy).2.union ((s.union members policy).1 :: more) policy =
          (s.union members policy).2.union (members ++ more) policy := by
  constructor
  · intro h
    have := h booleanLiterals reachable_booleanLiterals [⟨13⟩, ⟨14⟩] (by decide +kernel) .canonical
      [⟨13⟩, ⟨14⟩] (by decide +kernel) ⟨13⟩ (by decide) ⟨14⟩ (by decide) (by decide +kernel)
    exact absurd this (by decide)
  · intro h
    have := h booleanLiterals reachable_booleanLiterals [⟨13⟩, ⟨15⟩] [booleanLiterals.builtins.number]
      (by decide +kernel) .preserveAuthoredStructuralOrder
    exact absurd (congrArg (fun result => result.2.kind result.1) this) (by decide +kernel)

end TypeStore

end Tsz.Semantics
