import Mathlib.Tactic.IntervalCases
import Tsz.Semantics.Renaming
import Tsz.Semantics.Union

/-!
# What unions and intersections are made of

The members of a combination come from the listed types, a renaming of the store renames
them, and the invariants of the store survive.
-/

namespace Tsz.Semantics

open Sorting

namespace TypeStore

variable {s t : TypeStore}

/-! ## The flattened list -/

@[simp]
theorem anyKind_eq_true {ids : List TypeId} {p : TypeKind → Bool} :
    s.anyKind ids p = true ↔ ∃ id ∈ ids, p (s.kind id) = true := by
  simp [anyKind]

theorem anyKind_eq_false {ids : List TypeId} {p : TypeKind → Bool} :
    s.anyKind ids p = false ↔ ∀ id ∈ ids, p (s.kind id) = false := by
  simp [anyKind]

theorem anyKind_perm {ids ids' : List TypeId} (h : ids.Perm ids') (p : TypeKind → Bool) :
    s.anyKind ids p = s.anyKind ids' p := by
  rw [Bool.eq_iff_iff, anyKind_eq_true, anyKind_eq_true]
  simp only [h.mem_iff]

theorem anyKind_filter_ne_never {ids : List TypeId} {p : TypeKind → Bool}
    (hp : p .never = false) :
    s.anyKind (ids.filter fun id => s.kind id ≠ .never) p = s.anyKind ids p := by
  rw [Bool.eq_iff_iff, anyKind_eq_true, anyKind_eq_true]
  constructor
  · rintro ⟨id, hid, h⟩
    exact ⟨id, List.mem_of_mem_filter hid, h⟩
  · rintro ⟨id, hid, h⟩
    refine ⟨id, List.mem_filter.mpr ⟨hid, ?_⟩, h⟩
    simp only [decide_eq_true_eq, ne_eq]
    intro hnever
    simp [hnever, hp] at h

/-- A union with `true` and `false` but not `boolean` gets `boolean` in their place. -/
def mergesBooleans (s : TypeStore) (flattened : List TypeId) : Bool :=
  !s.anyKind flattened (· = .boolean) && s.anyKind flattened (·.isBooleanLiteral true) &&
    s.anyKind flattened (·.isBooleanLiteral false)

/-- A listed type that is neither `never` nor subsumed by the others. -/
def survives (s : TypeStore) (flattened : List TypeId) (id : TypeId) : Bool :=
  s.kind id ≠ .never &&
    !((s.kind id).isLiteralString && s.anyKind flattened (· = .string)) &&
    !((s.kind id).isLiteralNumber && s.anyKind flattened (· = .number)) &&
    !((s.kind id).isLiteralBoolean &&
      (s.anyKind flattened (· = .boolean) || s.mergesBooleans flattened))

theorem mergesBooleans_perm {ids ids' : List TypeId} (h : ids.Perm ids') :
    s.mergesBooleans ids = s.mergesBooleans ids' := by
  simp only [mergesBooleans, anyKind_perm h]

theorem survives_perm {ids ids' : List TypeId} (h : ids.Perm ids') :
    s.survives ids = s.survives ids' := by
  funext id
  simp only [survives, anyKind_perm h, mergesBooleans_perm h]

def mergedBoolean (s : TypeStore) (flattened : List TypeId) : List TypeId :=
  if s.mergesBooleans flattened then [s.builtins.boolean] else []

/-- Absorption only removes literals, and boolean literals only next to `boolean`. -/
theorem anyKind_absorbLiterals {ids : List TypeId} {value : Bool}
    (h : s.anyKind ids (· = .boolean) = false) :
    s.anyKind (s.absorbLiterals ids) (·.isBooleanLiteral value) =
      s.anyKind ids (·.isBooleanLiteral value) := by
  rw [Bool.eq_iff_iff, anyKind_eq_true, anyKind_eq_true]
  constructor
  · rintro ⟨id, hid, hvalue⟩
    exact ⟨id, List.mem_of_mem_filter hid, hvalue⟩
  · rintro ⟨id, hid, hvalue⟩
    refine ⟨id, List.mem_filter.mpr ⟨hid, ?_⟩, hvalue⟩
    cases hkind : s.kind id <;>
      simp_all [TypeKind.isBooleanLiteral, TypeKind.isLiteralString, TypeKind.isLiteralNumber]

/-- Dropping `never`, absorbing literals and merging booleans keeps the survivors in order. -/
theorem mergeBooleans_absorbLiterals (flattened : List TypeId) :
    s.mergeBooleans (s.absorbLiterals (flattened.filter fun id => s.kind id ≠ .never))
        (s.anyKind (flattened.filter fun id => s.kind id ≠ .never) (· = .boolean)) =
      flattened.filter (s.survives flattened) ++ s.mergedBoolean flattened := by
  have hany : ∀ p : TypeKind → Bool, p .never = false →
      s.anyKind (flattened.filter fun id => s.kind id ≠ .never) p = s.anyKind flattened p :=
    fun p hp => anyKind_filter_ne_never hp
  have hboolean := hany (· = .boolean) rfl
  unfold mergeBooleans mergedBoolean mergesBooleans
  rw [hboolean]
  cases hb : s.anyKind flattened (· = .boolean) with
  | true =>
    simp only [Bool.not_true, Bool.false_and, Bool.false_eq_true, if_false, List.append_nil]
    rw [absorbLiterals, hboolean, hany (· = .string) rfl, hany (· = .number) rfl,
      List.filter_filter]
    refine List.filter_congr fun id _ => ?_
    simp [survives, mergesBooleans, hb, Bool.and_comm, Bool.and_left_comm]
  | false =>
    rw [anyKind_absorbLiterals (hboolean.trans hb), anyKind_absorbLiterals (hboolean.trans hb),
      hany (·.isBooleanLiteral true) rfl, hany (·.isBooleanLiteral false) rfl]
    rw [absorbLiterals, hboolean, hany (· = .string) rfl, hany (· = .number) rfl]
    split
    · next hmerges =>
      rw [List.filter_filter, List.filter_filter]
      refine congrArg (· ++ _) (List.filter_congr fun id _ => ?_)
      simp only [Bool.not_false, Bool.true_and] at hmerges
      simp [survives, mergesBooleans, hb, hmerges, Bool.and_comm, Bool.and_left_comm]
    · next hmerges =>
      rw [List.filter_filter, List.append_nil]
      refine List.filter_congr fun id _ => ?_
      simp only [Bool.not_false, Bool.true_and, Bool.not_eq_true] at hmerges
      simp [survives, mergesBooleans, hb, hmerges, Bool.and_comm, Bool.and_left_comm]

/-- The order in which a policy lists the members. -/
def arrange (s : TypeStore) : UnionPolicy → List TypeId → List TypeId
  | .canonical, ids => sortByKey (s.stableOrderKey · 0) ids
  | .preserveAuthoredStructuralOrder, ids => ids

theorem arrange_perm (policy : UnionPolicy) (ids : List TypeId) :
    (s.arrange policy ids).Perm ids := by
  cases policy with
  | canonical => exact sortByKey_perm _ ids
  | preserveAuthoredStructuralOrder => exact .refl ids

/-- The members of the union of a flattened list that nothing absorbs. -/
def unionList (s : TypeStore) (policy : UnionPolicy) (flattened : List TypeId) : List TypeId :=
  (s.arrange policy
    (flattened.filter (s.survives flattened) ++ s.mergedBoolean flattened)).eraseDups

theorem mem_unionList {policy : UnionPolicy} {flattened : List TypeId} {id : TypeId} :
    id ∈ s.unionList policy flattened ↔
      id ∈ flattened ∧ s.survives flattened id ∨ id ∈ s.mergedBoolean flattened := by
  simp [unionList, (arrange_perm policy _).mem_iff]

theorem normalizeUnion_eq (members : List TypeId) (policy : UnionPolicy) :
    s.normalizeUnion members policy =
      if s.anyKind (members.flatMap s.unionMembers) (· = .any) then .existing s.builtins.any
      else if s.anyKind (members.flatMap s.unionMembers) (· = .unknown) then
        .existing s.builtins.unknown
      else
        match (members.flatMap s.unionMembers).find? fun id => (s.kind id).isError with
        | some error => .existing error
        | none => .ofList s.builtins.never (s.unionList policy (members.flatMap s.unionMembers)) := by
  unfold normalizeUnion unionList arrange
  rw [← mergeBooleans_absorbLiterals]
  cases policy <;> rfl

/-! ## The ids of the result -/

def Normalized.ids : Normalized → List TypeId
  | .existing id => [id]
  | .combined members => members

theorem Normalized.mem_ids_ofList {whenEmpty id : TypeId} {ids : List TypeId}
    (h : id ∈ (Normalized.ofList whenEmpty ids).ids) : id = whenEmpty ∨ id ∈ ids := by
  unfold Normalized.ofList at h
  split at h <;> simp_all [Normalized.ids]

/-- What the members of a union are: neither unions nor types that absorb a union. -/
structure IsFlat (k : TypeKind) : Prop where
  union : ∀ ms, k ≠ .union ms
  any : k ≠ .any
  unknown : k ≠ .unknown
  error : k.isError = false

structure WellFormed (s : TypeStore) : Prop extends Consistent s where
  grown : Extends new s
  unions : ∀ id ms, s.Contains id → s.kind id = .union ms →
    ms.Nodup ∧ ∀ m ∈ ms, IsFlat (s.kind m)

theorem WellFormed.builtin (h : WellFormed s) {id : TypeId} (hid : id.index < 13) :
    s.Contains id ∧ s.kind id = new.kind id :=
  ⟨h.grown.contains hid, h.grown.kind hid⟩

/-- A builtin type under its name. -/
theorem WellFormed.kind_builtin (h : WellFormed s) (name : BuiltinTypes → TypeId) {k : TypeKind}
    (hk : new.Contains (name new.builtins) ∧ new.kind (name new.builtins) = k) :
    s.Contains (name s.builtins) ∧ s.kind (name s.builtins) = k := by
  rw [h.grown.builtins]
  exact ⟨h.grown.contains hk.1, (h.grown.kind hk.1).trans hk.2⟩

theorem contains_unionMembers (h : Consistent s) {m id : TypeId} (hm : s.Contains m)
    (hid : id ∈ s.unionMembers m) : s.Contains id := by
  unfold unionMembers at hid
  split at hid
  · next nested hkind => exact h.children m hm id (hkind ▸ hid)
  · rwa [List.mem_singleton.mp hid]

/-- A union is made of builtin types and of what its list contributes. -/
theorem mem_ids_normalizeUnion (h : WellFormed s) {members : List TypeId} {policy : UnionPolicy}
    {id : TypeId} (hid : id ∈ (s.normalizeUnion members policy).ids) :
    id.index < 13 ∨ id ∈ members.flatMap s.unionMembers := by
  have hb : s.builtins = new.builtins := h.grown.builtins
  rw [normalizeUnion_eq] at hid
  split at hid
  · rw [List.mem_singleton.mp hid, hb]
    exact .inl (by decide)
  split at hid
  · rw [List.mem_singleton.mp hid, hb]
    exact .inl (by decide)
  split at hid
  · next error herror =>
    rw [List.mem_singleton.mp hid]
    exact .inr (List.mem_of_find?_eq_some herror)
  · rcases Normalized.mem_ids_ofList hid with rfl | hid
    · rw [hb]
      exact .inl (by decide)
    · rcases mem_unionList.mp hid with ⟨hid, -⟩ | hid
      · exact .inr hid
      · unfold mergedBoolean at hid
        split at hid
        · rw [List.mem_singleton.mp hid, hb]
          exact .inl (by decide)
        · cases hid

theorem contains_normalizeUnion (h : WellFormed s) {members : List TypeId} {policy : UnionPolicy}
    (hmembers : ∀ m ∈ members, s.Contains m) {id : TypeId}
    (hid : id ∈ (s.normalizeUnion members policy).ids) : s.Contains id := by
  rcases mem_ids_normalizeUnion h hid with hid | hid
  · exact (h.builtin hid).1
  · obtain ⟨m, hm, hid⟩ := List.mem_flatMap.mp hid
    exact contains_unionMembers h.toConsistent (hmembers m hm) hid

theorem contains_normalizeIntersection (h : WellFormed s) {members : List TypeId}
    (hmembers : ∀ m ∈ members, s.Contains m) {id : TypeId}
    (hid : id ∈ (s.normalizeIntersection members).ids) : s.Contains id := by
  rcases Normalized.mem_ids_ofList hid with rfl | hid
  · rw [h.grown.builtins]
    exact (h.builtin (by decide)).1
  · exact hmembers id ((mem_sortByKey _).mp ((List.destutter_sublist _ _).subset hid))

/-! ## Renaming -/

def Normalized.map (f : TypeId → TypeId) : Normalized → Normalized
  | .existing id => .existing (f id)
  | .combined members => .combined (members.map f)

theorem Normalized.ofList_map {f : TypeId → TypeId} {whenEmpty whenEmpty' : TypeId}
    (h : f whenEmpty = whenEmpty') (ids : List TypeId) :
    ofList whenEmpty' (ids.map f) = (ofList whenEmpty ids).map f := by
  match ids with
  | [] => simp [ofList, map, h]
  | [id] => rfl
  | id :: id' :: ids => rfl

/-- The kinds a predicate on kinds looks at have no children, or it ignores them. -/
def Structural (p : TypeKind → Bool) : Prop := ∀ f k, p (k.rename f) = p k

theorem structural_kind {k : TypeKind} (hk : ∀ f l, l.rename f = k → l = k)
    (hk' : ∀ f, k.rename f = k) : Structural (· = k) := by
  intro f l
  have : l.rename f = k ↔ l = k := ⟨hk f l, fun h => h ▸ hk' f⟩
  simp [this]

theorem structural_any : Structural (· = .any) :=
  structural_kind (fun _ l => by cases l <;> simp [TypeKind.rename]) fun _ => rfl

theorem structural_unknown : Structural (· = .unknown) :=
  structural_kind (fun _ l => by cases l <;> simp [TypeKind.rename]) fun _ => rfl

theorem structural_never : Structural (· = .never) :=
  structural_kind (fun _ l => by cases l <;> simp [TypeKind.rename]) fun _ => rfl

theorem structural_string : Structural (· = .string) :=
  structural_kind (fun _ l => by cases l <;> simp [TypeKind.rename]) fun _ => rfl

theorem structural_number : Structural (· = .number) :=
  structural_kind (fun _ l => by cases l <;> simp [TypeKind.rename]) fun _ => rfl

theorem structural_boolean : Structural (· = .boolean) :=
  structural_kind (fun _ l => by cases l <;> simp [TypeKind.rename]) fun _ => rfl

theorem structural_isError : Structural TypeKind.isError := fun _ k => by cases k <;> rfl

theorem structural_isLiteralString : Structural TypeKind.isLiteralString :=
  fun _ k => by cases k <;> rfl

theorem structural_isLiteralNumber : Structural TypeKind.isLiteralNumber :=
  fun _ k => by cases k <;> rfl

theorem structural_isLiteralBoolean : Structural TypeKind.isLiteralBoolean :=
  fun _ k => by cases k <;> rfl

theorem structural_isBooleanLiteral (value : Bool) : Structural (·.isBooleanLiteral value) :=
  fun _ k => by cases k <;> rfl

namespace Renaming

variable (r : Renaming s t)

theorem structural {p : TypeKind → Bool} (hp : Structural p) {id : TypeId} (hid : s.Contains id) :
    p (t.kind (r.toFun id)) = p (s.kind id) := by
  rw [r.kind id hid, hp]

theorem anyKind_map {p : TypeKind → Bool} (hp : Structural p) {ids : List TypeId}
    (hids : ∀ id ∈ ids, s.Contains id) : t.anyKind (ids.map r.toFun) p = s.anyKind ids p := by
  rw [Bool.eq_iff_iff, anyKind_eq_true, anyKind_eq_true]
  constructor
  · rintro ⟨_, hid, h⟩
    obtain ⟨id, hmem, rfl⟩ := List.mem_map.mp hid
    exact ⟨id, hmem, r.structural hp (hids id hmem) ▸ h⟩
  · rintro ⟨id, hid, h⟩
    exact ⟨r.toFun id, List.mem_map_of_mem hid, (r.structural hp (hids id hid)).symm ▸ h⟩

theorem unionMembers_map {id : TypeId} (hid : s.Contains id) :
    t.unionMembers (r.toFun id) = (s.unionMembers id).map r.toFun := by
  unfold unionMembers
  rw [r.kind id hid]
  cases s.kind id <;> rfl

theorem flatMap_unionMembers {ids : List TypeId} (hids : ∀ id ∈ ids, s.Contains id) :
    (ids.map r.toFun).flatMap t.unionMembers = (ids.flatMap s.unionMembers).map r.toFun := by
  rw [List.flatMap_map, List.map_flatMap]
  exact List.flatMap_congr fun id hid => r.unionMembers_map (hids id hid)

/-- Builtin types go to builtin types. -/
theorem builtin (hs : WellFormed s) (ht : WellFormed t) {id : TypeId} (hid : id.index < 13) :
    r.toFun id = id := by
  have hnew : ∀ i < 13, isFreshDeferred (new.kind ⟨i⟩) = false ∧
      (new.kind ⟨i⟩).rename r.toFun = new.kind ⟨i⟩ := by
    intro i hi
    interval_cases i <;> exact ⟨by decide, rfl⟩
  obtain ⟨hfresh, hrename⟩ := hnew id.index hid
  obtain ⟨hcontains, hkind⟩ := hs.builtin hid
  have hkind' : t.kind (r.toFun id) = new.kind id := by
    rw [r.kind id hcontains, hkind]
    exact hrename
  refine ht.toConsistent.eq_of_kind_eq (r.contains id hcontains) (ht.builtin hid).1 ?_ ?_
  · rw [hkind']
    exact hfresh
  · rw [hkind', (ht.builtin hid).2]

theorem survives_map {flattened : List TypeId} (hids : ∀ id ∈ flattened, s.Contains id)
    {id : TypeId} (hid : s.Contains id) :
    t.survives (flattened.map r.toFun) (r.toFun id) = s.survives flattened id := by
  have hnever : t.kind (r.toFun id) ≠ .never ↔ s.kind id ≠ .never :=
    not_congr (by simpa using r.structural structural_never hid)
  simp only [survives, mergesBooleans, r.anyKind_map structural_string hids,
    r.anyKind_map structural_number hids, r.anyKind_map structural_boolean hids,
    r.anyKind_map (structural_isBooleanLiteral _) hids, r.structural structural_isLiteralString hid,
    r.structural structural_isLiteralNumber hid, r.structural structural_isLiteralBoolean hid,
    hnever]

theorem arrange_map (hs : WellFormed s) {policy : UnionPolicy} {ids : List TypeId}
    (hids : ∀ id ∈ ids, s.Contains id) :
    t.arrange policy (ids.map r.toFun) = (s.arrange policy ids).map r.toFun := by
  cases policy with
  | canonical =>
    exact sortByKey_map fun id hid => r.stableOrderKey_eq hs.toConsistent 0 (hids id hid)
  | preserveAuthoredStructuralOrder => rfl

theorem unionList_map (hs : WellFormed s) (ht : WellFormed t) {policy : UnionPolicy}
    {flattened : List TypeId} (hids : ∀ id ∈ flattened, s.Contains id) :
    t.unionList policy (flattened.map r.toFun) =
      (s.unionList policy flattened).map r.toFun := by
  have hmerged : t.mergedBoolean (flattened.map r.toFun) =
      (s.mergedBoolean flattened).map r.toFun := by
    have hboolean : t.builtins.boolean = r.toFun s.builtins.boolean := by
      rw [hs.grown.builtins, ht.grown.builtins, r.builtin hs ht (by decide)]
    have hmerges : t.mergesBooleans (flattened.map r.toFun) = s.mergesBooleans flattened := by
      simp only [mergesBooleans, r.anyKind_map structural_boolean hids,
        r.anyKind_map (structural_isBooleanLiteral _) hids]
    unfold mergedBoolean
    rw [hmerges, hboolean]
    cases s.mergesBooleans flattened <;> rfl
  have hsurvivors : (flattened.map r.toFun).filter (t.survives (flattened.map r.toFun)) =
      (flattened.filter (s.survives flattened)).map r.toFun := by
    rw [List.filter_map]
    exact congrArg _ (List.filter_congr fun id hid => r.survives_map hids (hids id hid))
  unfold unionList
  rw [hmerged, hsurvivors, ← List.map_append, r.arrange_map hs, eraseDups_map r.injective]
  intro id hid
  rcases List.mem_append.mp hid with hid | hid
  · exact hids id (List.mem_of_mem_filter hid)
  · unfold mergedBoolean at hid
    split at hid
    · rw [List.mem_singleton.mp hid, hs.grown.builtins]
      exact (hs.builtin (by decide)).1
    · cases hid

/-- Unions do not depend on allocation. -/
theorem normalizeUnion_map (hs : WellFormed s) (ht : WellFormed t) {members : List TypeId}
    {policy : UnionPolicy} (hmembers : ∀ m ∈ members, s.Contains m) :
    t.normalizeUnion (members.map r.toFun) policy =
      (s.normalizeUnion members policy).map r.toFun := by
  have hids : ∀ id ∈ members.flatMap s.unionMembers, s.Contains id := by
    intro id hid
    obtain ⟨m, hm, hid⟩ := List.mem_flatMap.mp hid
    exact contains_unionMembers hs.toConsistent (hmembers m hm) hid
  have hbuiltins : ∀ id, id.index < 13 → r.toFun id = id := fun id => r.builtin hs ht
  have hfind : ((members.flatMap s.unionMembers).map r.toFun).find?
        (fun id => (t.kind id).isError) =
      ((members.flatMap s.unionMembers).find? fun id => (s.kind id).isError).map r.toFun := by
    rw [List.find?_map, ← List.head?_filter, ← List.head?_filter]
    refine congrArg _ (congrArg _ (List.filter_congr fun id hid => ?_))
    exact r.structural structural_isError (hids id hid)
  rw [normalizeUnion_eq, normalizeUnion_eq, r.flatMap_unionMembers hmembers,
    r.anyKind_map structural_any hids, r.anyKind_map structural_unknown hids, hfind,
    r.unionList_map hs ht hids, hs.grown.builtins, ht.grown.builtins]
  split
  · exact congrArg _ (hbuiltins _ (by decide)).symm
  split
  · exact congrArg _ (hbuiltins _ (by decide)).symm
  cases (members.flatMap s.unionMembers).find? fun id => (s.kind id).isError with
  | some error => rfl
  | none => exact Normalized.ofList_map (hbuiltins _ (by decide)) _

/-- Intersections do not depend on allocation. -/
theorem normalizeIntersection_map (hs : WellFormed s) (ht : WellFormed t)
    {members : List TypeId} (hmembers : ∀ m ∈ members, s.Contains m) :
    t.normalizeIntersection (members.map r.toFun) =
      (s.normalizeIntersection members).map r.toFun := by
  unfold normalizeIntersection
  have hsort : sortByKey (t.stableOrderKey · 0) (members.map r.toFun) =
      (sortByKey (s.stableOrderKey · 0) members).map r.toFun :=
    sortByKey_map fun id hid => r.stableOrderKey_eq hs.toConsistent 0 (hmembers id hid)
  rw [hsort, ← List.map_destutter_ne _ r.injective, hs.grown.builtins, ht.grown.builtins]
  exact Normalized.ofList_map (r.builtin hs ht (by decide)) _

end Renaming

theorem Normalized.map_id (n : Normalized) : n.map id = n := by
  cases n <;> simp [Normalized.map]

theorem normalizeUnion_of_extends (h : Extends s t) (hs : WellFormed s) (ht : WellFormed t)
    {members : List TypeId} {policy : UnionPolicy} (hmembers : ∀ m ∈ members, s.Contains m) :
    t.normalizeUnion members policy = s.normalizeUnion members policy := by
  have hmap : t.normalizeUnion (members.map id) policy =
      (s.normalizeUnion members policy).map id :=
    (Renaming.ofExtends h).normalizeUnion_map hs ht hmembers
  rwa [List.map_id, Normalized.map_id] at hmap

theorem normalizeIntersection_of_extends (h : Extends s t) (hs : WellFormed s)
    (ht : WellFormed t) {members : List TypeId} (hmembers : ∀ m ∈ members, s.Contains m) :
    t.normalizeIntersection members = s.normalizeIntersection members := by
  have hmap : t.normalizeIntersection (members.map id) =
      (s.normalizeIntersection members).map id :=
    (Renaming.ofExtends h).normalizeIntersection_map hs ht hmembers
  rwa [List.map_id, Normalized.map_id] at hmap

/-! ## Combining -/

section combine

variable {wrap : List TypeId → TypeKind} {n : Normalized}

theorem extends_combine (wrap : List TypeId → TypeKind) (n : Normalized) :
    Extends s (s.combine wrap n).2 := by
  cases n with
  | existing id => exact .refl s
  | combined ms => exact s.extends_intern _

theorem contains_combine (hs : Consistent s) (hn : ∀ id ∈ n.ids, s.Contains id) :
    (s.combine wrap n).2.Contains (s.combine wrap n).1 := by
  cases n with
  | existing id => exact hn id List.mem_cons_self
  | combined ms => exact (hs.kind_intern _).1

theorem kind_combine (hs : Consistent s) (wrap : List TypeId → TypeKind) (n : Normalized) :
    (s.combine wrap n).2.kind (s.combine wrap n).1 =
      match n with
      | .existing id => s.kind id
      | .combined members => wrap members := by
  cases n with
  | existing id => rfl
  | combined ms => exact (hs.kind_intern _).2

end combine

/-! ## The invariants survive -/

theorem WellFormed.new : WellFormed new where
  toConsistent := Consistent.new
  grown := .refl _
  unions := by
    rintro ⟨i⟩ ms hi hkind
    have hi : i < 13 := hi
    have hnone : ∀ i < 13, (TypeStore.new.kind ⟨i⟩).children = [] := by decide
    have := hnone i hi
    rw [hkind] at this
    subst this
    simp

theorem WellFormed.push (h : WellFormed s) (hgrow : Extends s t) (ht : Consistent t)
    (hkinds : ∀ id, t.Contains id → s.Contains id ∨ ∀ ms, t.kind id = .union ms →
      ms.Nodup ∧ ∀ m ∈ ms, s.Contains m ∧ IsFlat (s.kind m)) : WellFormed t where
  toConsistent := ht
  grown := h.grown.trans hgrow
  unions := by
    intro id ms hid hms
    rcases hkinds id hid with hold | hnew
    · rw [hgrow.kind hold] at hms
      refine (h.unions id ms hold hms).imp_right fun hflat m hm => ?_
      have hm' := h.children id hold m (hms ▸ hm)
      exact hgrow.kind hm' ▸ hflat m hm
    · refine (hnew ms hms).imp_right fun hflat m hm => ?_
      exact hgrow.kind (hflat m hm).1 ▸ (hflat m hm).2

theorem WellFormed.intern (h : WellFormed s) {k : TypeKind}
    (hk : ∀ c ∈ k.children, s.Contains c)
    (hunion : ∀ ms, k = .union ms → ms.Nodup ∧ ∀ m ∈ ms, IsFlat (s.kind m)) :
    WellFormed (s.intern k).2 := by
  refine h.push (s.extends_intern k) (h.toConsistent.intern hk) fun id hid => ?_
  rcases s.intern_cases k with ⟨_, -, heq⟩ | ⟨-, heq⟩
  · rw [heq] at hid
    exact .inl hid
  · rw [heq] at hid ⊢
    rcases contains_push.mp hid with hold | hid
    · exact .inl hold
    · obtain rfl : id = ⟨s.kinds.length⟩ := congrArg TypeId.mk hid
      refine .inr fun ms hms => ?_
      obtain rfl : k = .union ms := (kind_push_last (s := s)).symm.trans hms
      exact (hunion ms rfl).imp_right fun hflat m hm => ⟨hk m hm, hflat m hm⟩

theorem WellFormed.freshDeferred (h : WellFormed s) {d : DeferredType TypeId}
    (hd : isFreshDeferred (.deferred d)) : WellFormed (s.freshDeferred d).2 := by
  refine h.push (s.extends_freshDeferred d) (h.toConsistent.freshDeferred hd) fun id hid => ?_
  rcases contains_push.mp hid with hold | hid
  · exact .inl hold
  · obtain rfl : id = ⟨s.kinds.length⟩ := congrArg TypeId.mk hid
    refine .inr fun ms hms => ?_
    cases (kind_push_last (s := s)).symm.trans hms

theorem IsFlat.of_mem_unionMembers (h : WellFormed s) {m id : TypeId} (hm : s.Contains m)
    (hid : id ∈ s.unionMembers m) (hany : s.kind id ≠ .any) (hunknown : s.kind id ≠ .unknown)
    (herror : (s.kind id).isError = false) : IsFlat (s.kind id) := by
  unfold unionMembers at hid
  split at hid
  · next nested hkind => exact (h.unions m nested hm hkind).2 id hid
  · next hunion =>
    obtain rfl := List.mem_singleton.mp hid
    exact ⟨hunion, hany, hunknown, herror⟩

/-- What is left of a flattened list after absorption is flat. -/
theorem isFlat_of_mem_unionList (h : WellFormed s) {members : List TypeId} {policy : UnionPolicy}
    (hmembers : ∀ m ∈ members, s.Contains m)
    (hany : s.anyKind (members.flatMap s.unionMembers) (· = .any) = false)
    (hunknown : s.anyKind (members.flatMap s.unionMembers) (· = .unknown) = false)
    (herror : ∀ id ∈ members.flatMap s.unionMembers, (s.kind id).isError = false)
    {id : TypeId} (hid : id ∈ s.unionList policy (members.flatMap s.unionMembers)) :
    IsFlat (s.kind id) := by
  rcases mem_unionList.mp hid with ⟨hid, -⟩ | hid
  · obtain ⟨m, hm, hidm⟩ := List.mem_flatMap.mp hid
    refine .of_mem_unionMembers h (hmembers m hm) hidm ?_ ?_ (herror id hid)
    · simpa using anyKind_eq_false.mp hany id hid
    · simpa using anyKind_eq_false.mp hunknown id hid
  · unfold mergedBoolean at hid
    split at hid
    · obtain rfl := List.mem_singleton.mp hid
      rw [(h.kind_builtin (·.boolean) (k := .boolean) (by decide)).2]
      exact ⟨nofun, by decide, by decide, by decide⟩
    · cases hid

theorem normalizeUnion_combined (h : WellFormed s) {members ms : List TypeId}
    {policy : UnionPolicy} (hmembers : ∀ m ∈ members, s.Contains m)
    (hms : s.normalizeUnion members policy = .combined ms) :
    ms.Nodup ∧ ∀ m ∈ ms, IsFlat (s.kind m) := by
  rw [normalizeUnion_eq] at hms
  split at hms
  · cases hms
  split at hms
  · cases hms
  split at hms
  · cases hms
  · next hany hunknown _ herror =>
    have hlist : s.unionList policy (members.flatMap s.unionMembers) = ms := by
      unfold Normalized.ofList at hms
      split at hms <;> cases hms
      rfl
    subst hlist
    refine ⟨nodup_eraseDups _, fun m hm => isFlat_of_mem_unionList h hmembers ?_ ?_ ?_ hm⟩
    · exact Bool.eq_false_iff.mpr hany
    · exact Bool.eq_false_iff.mpr hunknown
    · exact fun id hid => Bool.eq_false_iff.mpr (List.find?_eq_none.mp herror id hid)

theorem contains_of_combined {n : Normalized} {ms : List TypeId} (hn : n = .combined ms)
    (h : ∀ id ∈ n.ids, s.Contains id) : ∀ m ∈ ms, s.Contains m :=
  fun m hm => h m (hn ▸ hm)

theorem WellFormed.union (h : WellFormed s) {members : List TypeId} {policy : UnionPolicy}
    (hmembers : ∀ m ∈ members, s.Contains m) : WellFormed (s.union members policy).2 := by
  unfold TypeStore.union combine
  cases hn : s.normalizeUnion members policy with
  | existing id => exact h
  | combined ms =>
    refine h.intern (contains_of_combined hn fun _ => contains_normalizeUnion h hmembers) ?_
    rintro _ ⟨⟩
    exact normalizeUnion_combined h hmembers hn

theorem WellFormed.intersection (h : WellFormed s) {members : List TypeId}
    (hmembers : ∀ m ∈ members, s.Contains m) : WellFormed (s.intersection members).2 := by
  unfold TypeStore.intersection combine
  cases hn : s.normalizeIntersection members with
  | existing id => exact h
  | combined ms =>
    exact h.intern
      (contains_of_combined hn fun _ => contains_normalizeIntersection h hmembers) nofun

theorem Reachable.wellFormed (h : Reachable s) : WellFormed s := by
  induction h with
  | new => exact .new
  | intern _ hk hunion _ ih => exact ih.intern hk fun ms hms => absurd hms (hunion ms)
  | freshDeferred _ hd ih => exact ih.freshDeferred hd
  | union _ hms ih => exact ih.union hms
  | intersection _ hms ih => exact ih.intersection hms

/-! ## Where unions come from -/

theorem contains_intern {k : TypeKind} {id : TypeId} (h : (s.intern k).2.Contains id) :
    s.Contains id ∨ (s.intern k).2.kind id = k := by
  rcases s.intern_cases k with ⟨_, -, heq⟩ | ⟨-, heq⟩
  · rw [heq] at h
    exact .inl h
  · rw [heq] at h ⊢
    refine (contains_push.mp h).imp_right fun hid => ?_
    obtain rfl : id = ⟨s.kinds.length⟩ := congrArg TypeId.mk hid
    exact kind_push_last

/-- The members of a union are what was left when it was combined. -/
theorem Reachable.union_origin (h : Reachable s) {id : TypeId} {ms : List TypeId}
    (hid : s.Contains id) (hkind : s.kind id = .union ms) :
    ∃ s₀ members policy, Extends s₀ s ∧ Reachable s₀ ∧ (∀ m ∈ members, s₀.Contains m) ∧
      s₀.normalizeUnion members policy = .combined ms := by
  have hstep {u u' : TypeStore} (hgrow : Extends u u') (hold : u.Contains id ∨ u'.kind id ≠ .union ms)
      (hkind : u'.kind id = .union ms)
      (ih : u.Contains id → u.kind id = .union ms →
        ∃ s₀ members policy, Extends s₀ u ∧ Reachable s₀ ∧ (∀ m ∈ members, s₀.Contains m) ∧
          s₀.normalizeUnion members policy = .combined ms) :
      ∃ s₀ members policy, Extends s₀ u' ∧ Reachable s₀ ∧ (∀ m ∈ members, s₀.Contains m) ∧
        s₀.normalizeUnion members policy = .combined ms := by
    have hold := hold.resolve_right (not_not_intro hkind)
    obtain ⟨s₀, members, policy, hs₀, h⟩ := ih hold ((hgrow.kind hold).symm.trans hkind)
    exact ⟨s₀, members, policy, hs₀.trans hgrow, h⟩
  induction h with
  | new =>
    have hid : id.index < 13 := hid
    have hnone : ∀ i < 13, (TypeStore.new.kind ⟨i⟩).children = [] := by decide
    have hms := hnone id.index hid
    rw [hkind] at hms
    obtain rfl : ms = [] := hms
    have hempty : ∀ i < 13, TypeStore.new.kind ⟨i⟩ ≠ .union [] := by decide
    exact absurd hkind (hempty id.index hid)
  | @intern s k _ _ hunion _ ih =>
    refine hstep (s.extends_intern k) ?_ hkind ih
    exact (contains_intern hid).imp_right fun hk hms => hunion ms (hk.symm.trans hms)
  | @freshDeferred s d _ _ ih =>
    refine hstep (s.extends_freshDeferred d) ?_ hkind ih
    refine (contains_push.mp hid).imp_right fun hid => ?_
    obtain rfl : id = ⟨s.kinds.length⟩ := congrArg TypeId.mk hid
    change (s.push (.deferred d)).kind ⟨s.kinds.length⟩ ≠ .union ms
    rw [kind_push_last]
    exact nofun
  | @union s members policy hs hms ih =>
    unfold TypeStore.union combine at hid hkind ⊢
    cases hn : s.normalizeUnion members policy with
    | existing id' =>
      rw [hn] at hid hkind
      exact ih hid hkind
    | combined ms' =>
      rw [hn] at hid hkind
      by_cases hold : s.Contains id
      · exact hstep (s.extends_intern _) (.inl hold) hkind ih
      · obtain rfl : ms' = ms := by
          have := ((contains_intern hid).resolve_left hold).symm.trans hkind
          exact TypeKind.union.inj this
        exact ⟨s, members, policy, s.extends_intern _, hs, hms, hn⟩
  | @intersection s members hs hms ih =>
    unfold TypeStore.intersection combine at hid hkind ⊢
    cases hn : s.normalizeIntersection members with
    | existing id' =>
      rw [hn] at hid hkind
      exact ih hid hkind
    | combined ms' =>
      rw [hn] at hid hkind
      refine hstep (s.extends_intern _) ?_ hkind ih
      exact (contains_intern hid).imp_right fun hk hms => nomatch hk.symm.trans hms

/-- The members of a union are what is left of the flattened list. -/
theorem unionList_of_combined {members ms : List TypeId} {policy : UnionPolicy}
    (hms : s.normalizeUnion members policy = .combined ms) :
    s.unionList policy (members.flatMap s.unionMembers) = ms := by
  rw [normalizeUnion_eq] at hms
  split_ifs at hms
  split at hms
  · cases hms
  · unfold Normalized.ofList at hms
    split at hms <;> cases hms
    rfl

/-- What is left was listed, or is `boolean` next to both of its literals. -/
theorem mem_unionList_cases (h : WellFormed s) {policy : UnionPolicy} {flattened : List TypeId}
    {id : TypeId} (hid : id ∈ s.unionList policy flattened) :
    id ∈ flattened ∧ s.kind id ≠ .never ∨
      s.kind id = .boolean ∧
        ∀ value, ∃ m ∈ flattened, ∃ p, s.kind m = .literalBoolean value p := by
  rcases mem_unionList.mp hid with ⟨hid, hsurvives⟩ | hid
  · refine .inl ⟨hid, fun hnever => ?_⟩
    simp [survives, hnever] at hsurvives
  · unfold mergedBoolean at hid
    split at hid
    · next hmerges =>
      obtain rfl := List.mem_singleton.mp hid
      refine .inr ⟨?_, fun value => ?_⟩
      · exact (h.kind_builtin (·.boolean) (by decide)).2
      have hvalue : s.anyKind flattened (·.isBooleanLiteral value) := by
        simp only [mergesBooleans, Bool.and_eq_true] at hmerges
        cases value
        · exact hmerges.2
        · exact hmerges.1.2
      obtain ⟨m, hm, hvalue⟩ := anyKind_eq_true.mp hvalue
      unfold TypeKind.isBooleanLiteral at hvalue
      split at hvalue
      · next value' p hkind => exact ⟨m, hm, p, by rw [hkind, eq_of_beq hvalue]⟩
      · cases hvalue
    · cases hid

/-- What is listed but not left is `never`, or a literal whose base type is left. -/
theorem absorbed (h : WellFormed s) (policy : UnionPolicy) {flattened : List TypeId} {id : TypeId}
    (hsurvives : ¬ s.survives flattened id) :
    s.kind id = .never ∨
      (∃ a p, s.kind id = .literalString a p ∧
        ∃ w ∈ s.unionList policy flattened, s.kind w = .string) ∨
      (∃ a p, s.kind id = .literalNumber a p ∧
        ∃ w ∈ s.unionList policy flattened, s.kind w = .number) ∨
      (∃ a p, s.kind id = .literalBoolean a p ∧
        ∃ w ∈ s.unionList policy flattened, s.kind w = .boolean) := by
  have hbase {base : TypeKind} (hnever : base ≠ .never) (hstring : base.isLiteralString = false)
      (hnumber : base.isLiteralNumber = false) (hboolean : base.isLiteralBoolean = false)
      (hany : s.anyKind flattened (· = base)) :
      ∃ w ∈ s.unionList policy flattened, s.kind w = base := by
    obtain ⟨w, hw, hkind⟩ := anyKind_eq_true.mp hany
    have hkind : s.kind w = base := by simpa using hkind
    refine ⟨w, mem_unionList.mpr (.inl ⟨hw, ?_⟩), hkind⟩
    simp [survives, hkind, hnever, hstring, hnumber, hboolean]
  cases hkind : s.kind id with
  | never => exact .inl rfl
  | literalString a p =>
    refine .inr (.inl ⟨a, p, rfl, hbase nofun rfl rfl rfl ?_⟩)
    simpa [survives, hkind, TypeKind.isLiteralString, TypeKind.isLiteralNumber,
      TypeKind.isLiteralBoolean] using hsurvives
  | literalNumber a p =>
    refine .inr (.inr (.inl ⟨a, p, rfl, hbase nofun rfl rfl rfl ?_⟩))
    simpa [survives, hkind, TypeKind.isLiteralString, TypeKind.isLiteralNumber,
      TypeKind.isLiteralBoolean] using hsurvives
  | literalBoolean a p =>
    refine .inr (.inr (.inr ⟨a, p, rfl, ?_⟩))
    have hor : s.anyKind flattened (· = .boolean) ∨ s.mergesBooleans flattened := by
      rw [or_iff_not_imp_left]
      simpa [survives, hkind, TypeKind.isLiteralString, TypeKind.isLiteralNumber,
        TypeKind.isLiteralBoolean, -anyKind_eq_true] using hsurvives
    rcases hor with hboolean | hmerges
    · exact hbase nofun rfl rfl rfl hboolean
    · refine ⟨s.builtins.boolean, mem_unionList.mpr (.inr ?_), ?_⟩
      · simp [mergedBoolean, hmerges]
      · exact (h.kind_builtin (·.boolean) (by decide)).2
  | _ => simp [survives, hkind, TypeKind.isLiteralString, TypeKind.isLiteralNumber,
        TypeKind.isLiteralBoolean] at hsurvives

/-- `true` and `false` are not both left. -/
theorem not_both_booleans (h : WellFormed s) (policy : UnionPolicy) (flattened : List TypeId) :
    ¬ (s.anyKind (s.unionList policy flattened) (·.isBooleanLiteral true) ∧
      s.anyKind (s.unionList policy flattened) (·.isBooleanLiteral false)) := by
  have hleft : ∀ value, s.anyKind (s.unionList policy flattened) (·.isBooleanLiteral value) →
      s.anyKind flattened (·.isBooleanLiteral value) ∧
        s.anyKind flattened (· = .boolean) = false ∧ s.mergesBooleans flattened = false := by
    intro value hvalue
    obtain ⟨id, hid, hvalue⟩ := anyKind_eq_true.mp hvalue
    rcases mem_unionList.mp hid with ⟨hid, hsurvives⟩ | hid
    · have hliteral : (s.kind id).isLiteralBoolean := by
        cases hkind : s.kind id <;> simp_all [TypeKind.isBooleanLiteral, TypeKind.isLiteralBoolean]
      refine ⟨anyKind_eq_true.mpr ⟨id, hid, hvalue⟩, ?_⟩
      simp only [survives, hliteral, Bool.true_and, Bool.and_eq_true, Bool.not_eq_true',
        Bool.or_eq_false_iff] at hsurvives
      exact hsurvives.2
    · unfold mergedBoolean at hid
      split at hid
      · rw [List.mem_singleton.mp hid, (h.kind_builtin (·.boolean) (k := .boolean) (by decide)).2]
          at hvalue
        cases hvalue
      · cases hid
  rintro ⟨htrue, hfalse⟩
  obtain ⟨htrue, hboolean, hmerges⟩ := hleft true htrue
  obtain ⟨hfalse, -, -⟩ := hleft false hfalse
  simp [mergesBooleans, hboolean, htrue, hfalse] at hmerges

end TypeStore

end Tsz.Semantics
