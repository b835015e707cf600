import Tsz.Semantics.Combination

/-!
# When a union or an intersection forgets the order of its members

The ordering keys of two different types can be equal: they leave out the order of
properties, the names of parameters and the identity of incomplete types. Members with equal
keys stay in the order in which they were listed.
-/

namespace Tsz.Semantics

open Sorting

namespace TypeStore

variable {s t : TypeStore}

/-! ## The property -/

/-- Calling an operation again on the members in another order gives the same id, a store
that allocated the members in another way gives the same type, and no member comes twice. -/
structure OrderIndependent (wrap : List TypeId → TypeKind)
    (op : TypeStore → List TypeId → TypeId × TypeStore) (s : TypeStore) (members : List TypeId) :
    Prop where
  permutation : ∀ members' : List TypeId, members'.Perm members →
    (op (op s members).2 members').1 = (op s members).1
  allocation : ∀ t, Reachable t → ∀ r : Renaming s t,
    ∃ r' : Renaming (op s members).2 (op t (members.map r.toFun)).2,
      r.Agrees r' ∧ r'.toFun (op s members).1 = (op t (members.map r.toFun)).1
  nodup : ∀ ms, (op s members).2.kind (op s members).1 = wrap ms → ms.Nodup

/-- What a listed type brings to a union under one ordering key. -/
def contribution (s : TypeStore) (members : List TypeId) (key : TypeOrderKey) (m : TypeId) :
    List TypeId :=
  ((s.unionMembers m).filter (s.survives (members.flatMap s.unionMembers))).filter
    (s.stableOrderKey · 0 = key)

/-- The order of the members of a union does not show: `any` or `unknown` absorbs it, or all
its errors are one, or of two listed types with survivors of one key one continues the other. -/
def UnionDetermined (s : TypeStore) (members : List TypeId) : Prop :=
  s.anyKind (members.flatMap s.unionMembers) (· = .any) ∨
  s.anyKind (members.flatMap s.unionMembers) (· = .unknown) ∨
  if s.anyKind members (·.isError) then
    ∀ e ∈ members, ∀ e' ∈ members, (s.kind e).isError → (s.kind e').isError → e = e'
  else
    ∀ key, ∀ m ∈ members, ∀ m' ∈ members,
      s.contribution members key m <+: s.contribution members key m' ∨
        s.contribution members key m' <+: s.contribution members key m

/-- Different members have different keys, and a single one is not itself an intersection
that repeats a member. -/
def IntersectionDetermined (s : TypeStore) (members : List TypeId) : Prop :=
  Set.InjOn (s.stableOrderKey · 0) {m | m ∈ members} ∧
  ∀ m ∈ members, (∀ m' ∈ members, m' = m) → ∀ ms, s.kind m = .intersection ms → ms.Nodup

/-! ## Normal forms and their types -/

def Normalized.isCombined : Normalized → Bool
  | .existing _ => false
  | .combined _ => true

theorem Normalized.ofList_eq_iff {whenEmpty : TypeId} {ids ids' : List TypeId}
    (h : ids = [] ↔ ids' = []) : ofList whenEmpty ids = ofList whenEmpty ids' ↔ ids = ids' := by
  match ids, ids' with
  | [], [] => simp
  | [], _ :: _ => simp at h
  | _ :: _, [] => simp at h
  | [a], [b] => simp [ofList]
  | [a], b :: c :: bs => simp [ofList]
  | a :: b :: as, [c] => simp [ofList]
  | a :: b :: as, c :: d :: cs => simp [ofList]

theorem Normalized.isCombined_ofList {whenEmpty : TypeId} {ids : List TypeId} :
    (ofList whenEmpty ids).isCombined ↔ 1 < ids.length := by
  match ids with
  | [] => simp [ofList, isCombined]
  | [a] => simp [ofList, isCombined]
  | a :: b :: as => simp [ofList, isCombined]

/-- The two ways of wrapping members. -/
def IsWrap (wrap : List TypeId → TypeKind) : Prop := wrap = .union ∨ wrap = .intersection

namespace IsWrap

variable {wrap : List TypeId → TypeKind}

theorem injective (h : IsWrap wrap) : Function.Injective wrap := by
  rcases h with rfl | rfl <;> exact fun _ _ => by simp

theorem children (h : IsWrap wrap) (ms : List TypeId) : (wrap ms).children = ms := by
  rcases h with rfl | rfl <;> rfl

theorem rename (h : IsWrap wrap) (f : TypeId → TypeId) (ms : List TypeId) :
    (wrap ms).rename f = wrap (ms.map f) := by
  rcases h with rfl | rfl <;> rfl

theorem shared (h : IsWrap wrap) (ms : List TypeId) : isFreshDeferred (wrap ms) = false := by
  rcases h with rfl | rfl <;> rfl

end IsWrap

section combine

variable {wrap : List TypeId → TypeKind} {n n' : Normalized}

/-- In the store after the first combination, the second has the same id exactly when the
normal forms are equal. -/
theorem combine_combine_iff (hs : Consistent s) (hwrap : IsWrap wrap)
    (hn : ∀ id ∈ n.ids, s.Contains id) (hshape : n'.isCombined = n.isCombined) :
    ((s.combine wrap n).2.combine wrap n').1 = (s.combine wrap n).1 ↔ n' = n := by
  cases n with
  | existing id =>
    cases n' with
    | existing id' => simp [combine]
    | combined ms' => cases hshape
  | combined ms =>
    cases n' with
    | existing id' => cases hshape
    | combined ms' =>
      set u := (s.intern (wrap ms)).2 with hu
      have hus : Consistent u := hs.intern (by rwa [hwrap.children])
      change (u.intern (wrap ms')).1 = (s.intern (wrap ms)).1 ↔ _
      constructor
      · intro h
        obtain ⟨hcontains, hkind⟩ := hs.kind_intern (wrap ms)
        have hkind' := (hus.kind_intern (wrap ms')).2
        rw [h, (u.extends_intern _).kind hcontains, hkind] at hkind'
        exact congrArg _ (hwrap.injective hkind'.symm)
      · intro h
        cases h
        rw [intern_of_extends (.refl u)]

/-- A renaming of two stores extends to what they combine. -/
theorem Renaming.combine (hs : Consistent s) (ht : Consistent t) (hwrap : IsWrap wrap)
    (r : Renaming s t) (hn : ∀ id ∈ n.ids, s.Contains id) :
    ∃ r' : Renaming (s.combine wrap n).2 (t.combine wrap (n.map r.toFun)).2,
      r.Agrees r' ∧ r'.toFun (s.combine wrap n).1 = (t.combine wrap (n.map r.toFun)).1 := by
  cases n with
  | existing id => exact ⟨r, fun _ _ => rfl, rfl⟩
  | combined ms =>
    have hrename := hwrap.rename r.toFun ms
    have := r.intern hs ht (k := wrap ms) (by rwa [hwrap.children]) (hwrap.shared ms)
    rwa [hrename] at this

end combine

/-! ## Unions -/

theorem nodup_unionMembers (hs : WellFormed s) {m : TypeId} (hm : s.Contains m) :
    (s.unionMembers m).Nodup := by
  unfold unionMembers
  split
  · next nested hkind => exact (hs.unions m nested hm hkind).1
  · exact List.nodup_singleton m

/-- Errors are listed themselves: no union contains one. -/
theorem mem_flatMap_unionMembers_of_isError (hs : WellFormed s) {members : List TypeId}
    (hmembers : ∀ m ∈ members, s.Contains m) {e : TypeId} (he : (s.kind e).isError) :
    e ∈ members.flatMap s.unionMembers ↔ e ∈ members := by
  constructor
  · intro h
    obtain ⟨m, hm, hem⟩ := List.mem_flatMap.mp h
    unfold unionMembers at hem
    split at hem
    · next nested hkind =>
      have := ((hs.unions m nested (hmembers m hm) hkind).2 e hem).error
      simp [he] at this
    · rwa [List.mem_singleton.mp hem]
  · intro h
    refine List.mem_flatMap.mpr ⟨e, h, ?_⟩
    unfold unionMembers
    cases hkind : s.kind e <;> simp_all [TypeKind.isError]

/-- No other kind has the key of `boolean`. -/
theorem kind_of_stableOrderKey_boolean {id : TypeId}
    (h : s.stableOrderKey id 0 = TypeOrderKey.variant .boolean []) : s.kind id = .boolean := by
  rw [stableOrderKey_root] at h
  cases hkind : s.kind id with
  | boolean => rfl
  | invalid reason =>
    rw [hkind] at h
    cases reason <;> simp [TypeKind.orderKey, TypeOrderKey.variant, TypeOrderVariant.ctorIdx] at h
  | _ =>
    rw [hkind] at h
    simp [TypeKind.orderKey, TypeOrderKey.variant, TypeOrderVariant.ctorIdx] at h

theorem unionList_eq_iff (hs : WellFormed s) {flattened flattened' : List TypeId}
    (hperm : flattened'.Perm flattened) :
    s.unionList .canonical flattened' = s.unionList .canonical flattened ↔
      (sortByKey (s.stableOrderKey · 0) (flattened'.filter (s.survives flattened))).eraseDups =
        (sortByKey (s.stableOrderKey · 0) (flattened.filter (s.survives flattened))).eraseDups := by
  unfold unionList mergedBoolean arrange
  rw [survives_perm hperm, mergesBooleans_perm hperm]
  cases hmerges : s.mergesBooleans flattened with
  | false => simp
  | true =>
    have hkey : s.stableOrderKey s.builtins.boolean 0 = TypeOrderKey.variant .boolean [] := by
      rw [stableOrderKey_root, hs.grown.builtins, (hs.builtin (by decide)).2]
      rfl
    have hne : ∀ id ∈ flattened, s.stableOrderKey id 0 ≠ s.stableOrderKey s.builtins.boolean 0 := by
      intro id hid h
      have hkind := kind_of_stableOrderKey_boolean (h.trans hkey)
      have : s.anyKind flattened (· = .boolean) := anyKind_eq_true.mpr ⟨id, hid, by simp [hkind]⟩
      simp [mergesBooleans, this] at hmerges
    simp only [if_true]
    exact eraseDups_sortByKey_append_singleton_iff
      (fun id hid => hne id (hperm.subset (List.mem_of_mem_filter hid)))
      fun id hid => hne id (List.mem_of_mem_filter hid)

/-- Neither `any` nor `unknown` is listed. -/
def Unabsorbed (s : TypeStore) (members : List TypeId) : Prop :=
  ∀ members' : List TypeId, members'.Perm members →
    s.normalizeUnion members' .canonical =
      match (members'.flatMap s.unionMembers).find? fun id => (s.kind id).isError with
      | some error => .existing error
      | none => .ofList s.builtins.never
          (s.unionList .canonical (members'.flatMap s.unionMembers))

/-- The first error is the result. -/
theorem normalizeUnion_perm_iff_of_error (hs : WellFormed s) {members : List TypeId}
    (hmembers : ∀ m ∈ members, s.Contains m) (heq : Unabsorbed s members)
    (herror : s.anyKind members (·.isError)) :
    (∀ members' : List TypeId, members'.Perm members →
        s.normalizeUnion members' .canonical = s.normalizeUnion members .canonical) ↔
      ∀ e ∈ members, ∀ e' ∈ members, (s.kind e).isError → (s.kind e').isError → e = e' := by
  constructor
  · intro h
    have hfirst : ∀ e ∈ members, (s.kind e).isError →
        s.normalizeUnion members .canonical = .existing e := by
      intro e he hkind
      obtain ⟨before, after, rfl⟩ := List.append_of_mem he
      have hp : (e :: (before ++ after)).Perm (before ++ e :: after) := List.perm_middle.symm
      have hself : s.unionMembers e = [e] := by
        unfold unionMembers
        cases hk : s.kind e <;> simp_all [TypeKind.isError]
      rw [← h _ hp, heq _ hp, List.flatMap_cons, hself, List.singleton_append]
      simp [hkind]
    intro e he e' he' hkind hkind'
    simpa using (hfirst e he hkind).symm.trans (hfirst e' he' hkind')
  · intro h members' hp
    have hfound : ∀ members' : List TypeId, members'.Perm members →
        ∃ e ∈ members, (s.kind e).isError ∧
          s.normalizeUnion members' .canonical = .existing e := by
      intro members' hp
      have hmembers' : ∀ m ∈ members', s.Contains m := fun m hm => hmembers m (hp.subset hm)
      obtain ⟨e, he, hkind⟩ := anyKind_eq_true.mp herror
      have hsome : ((members'.flatMap s.unionMembers).find?
          fun id => (s.kind id).isError).isSome := by
        rw [List.find?_isSome]
        exact ⟨e, (mem_flatMap_unionMembers_of_isError hs hmembers' hkind).mpr
          (hp.symm.subset he), hkind⟩
      obtain ⟨d, hd⟩ := Option.isSome_iff_exists.mp hsome
      have hdkind : (s.kind d).isError := by simpa using List.find?_some hd
      refine ⟨d, hp.subset ?_, hdkind, by rw [heq members' hp, hd]⟩
      exact (mem_flatMap_unionMembers_of_isError hs hmembers' hdkind).mp
        (List.mem_of_find?_eq_some hd)
    obtain ⟨e, he, hkind, hn⟩ := hfound members' hp
    obtain ⟨e', he', hkind', hn'⟩ := hfound members (.refl members)
    rw [hn, hn', h e he e' he' hkind hkind']

/-- The survivors are sorted by their keys. -/
theorem normalizeUnion_perm_iff_of_no_error (hs : WellFormed s) {members : List TypeId}
    (hmembers : ∀ m ∈ members, s.Contains m) (heq : Unabsorbed s members)
    (herror : s.anyKind members (·.isError) = false) :
    (∀ members' : List TypeId, members'.Perm members →
        s.normalizeUnion members' .canonical = s.normalizeUnion members .canonical) ↔
      ∀ key, ∀ m ∈ members, ∀ m' ∈ members,
        s.contribution members key m <+: s.contribution members key m' ∨
          s.contribution members key m' <+: s.contribution members key m := by
  have hlist : ∀ members' : List TypeId, members'.Perm members →
      s.normalizeUnion members' .canonical = .ofList s.builtins.never
        (s.unionList .canonical (members'.flatMap s.unionMembers)) := by
    intro members' hp
    have hnone : (members'.flatMap s.unionMembers).find?
        (fun id => (s.kind id).isError) = none := by
      rw [List.find?_eq_none]
      intro id hid hkind
      have hmembers' : ∀ m ∈ members', s.Contains m := fun m hm => hmembers m (hp.subset hm)
      have hid' := (mem_flatMap_unionMembers_of_isError hs hmembers' hkind).mp hid
      have := anyKind_eq_false.mp herror id (hp.subset hid')
      simp [hkind] at this
    rw [heq members' hp, hnone]
  have hsorted : ∀ members' : List TypeId, members'.Perm members →
      (s.normalizeUnion members' .canonical = s.normalizeUnion members .canonical ↔
        (sortByKey (s.stableOrderKey · 0) (members'.flatMap fun m =>
            (s.unionMembers m).filter (s.survives (members.flatMap s.unionMembers)))).eraseDups =
          (sortByKey (s.stableOrderKey · 0) (members.flatMap fun m =>
            (s.unionMembers m).filter (s.survives (members.flatMap s.unionMembers)))).eraseDups) := by
    intro members' hp
    have hflat : (members'.flatMap s.unionMembers).Perm (members.flatMap s.unionMembers) :=
      hp.flatMap_right _
    rw [hlist members' hp, hlist members (.refl members), Normalized.ofList_eq_iff,
      unionList_eq_iff hs hflat, List.filter_flatMap, List.filter_flatMap]
    simp only [List.eq_nil_iff_forall_not_mem, mem_unionList, hflat.mem_iff, survives_perm hflat,
      mergedBoolean, mergesBooleans_perm hflat]
  have hnodup : ∀ m ∈ members, ((s.unionMembers m).filter
      (s.survives (members.flatMap s.unionMembers))).Nodup :=
    fun m hm => (nodup_unionMembers hs (hmembers m hm)).filter _
  refine Iff.trans ?_ (eraseDups_sortByKey_perm_iff hnodup)
  exact forall_congr' fun members' => forall_congr' fun hp => hsorted members' hp

/-- The normal form of a union depends on the order of the listed types exactly when the
condition fails. -/
theorem normalizeUnion_perm_iff (hs : WellFormed s) {members : List TypeId}
    (hmembers : ∀ m ∈ members, s.Contains m) :
    (∀ members' : List TypeId, members'.Perm members →
        s.normalizeUnion members' .canonical = s.normalizeUnion members .canonical) ↔
      UnionDetermined s members := by
  have hflat : ∀ members' : List TypeId, members'.Perm members →
      (members'.flatMap s.unionMembers).Perm (members.flatMap s.unionMembers) :=
    fun _ h => h.flatMap_right _
  unfold UnionDetermined
  cases hany : s.anyKind (members.flatMap s.unionMembers) (· = .any) with
  | true =>
    refine ⟨fun _ => .inl rfl, fun _ members' hp => ?_⟩
    rw [normalizeUnion_eq, normalizeUnion_eq, anyKind_perm (hflat members' hp), hany]
    rfl
  | false =>
    cases hunknown : s.anyKind (members.flatMap s.unionMembers) (· = .unknown) with
    | true =>
      refine ⟨fun _ => .inr (.inl rfl), fun _ members' hp => ?_⟩
      rw [normalizeUnion_eq, normalizeUnion_eq, anyKind_perm (hflat members' hp),
        anyKind_perm (hflat members' hp), hany, hunknown]
      rfl
    | false =>
      have heq : ∀ members' : List TypeId, members'.Perm members →
          s.normalizeUnion members' .canonical =
            match (members'.flatMap s.unionMembers).find? fun id => (s.kind id).isError with
            | some error => .existing error
            | none => .ofList s.builtins.never
                (s.unionList .canonical (members'.flatMap s.unionMembers)) := by
        intro members' hp
        rw [normalizeUnion_eq, anyKind_perm (hflat members' hp), anyKind_perm (hflat members' hp),
          hany, hunknown]
        rfl
      simp only [Bool.false_eq_true, false_or]
      cases herror : s.anyKind members (·.isError) with
      | true => simpa using normalizeUnion_perm_iff_of_error hs hmembers heq herror
      | false => simpa using normalizeUnion_perm_iff_of_no_error hs hmembers heq herror

theorem isCombined_normalizeUnion {members members' : List TypeId}
    (hp : members'.Perm members) :
    (s.normalizeUnion members' .canonical).isCombined =
      (s.normalizeUnion members .canonical).isCombined := by
  have hflat : (members'.flatMap s.unionMembers).Perm (members.flatMap s.unionMembers) :=
    hp.flatMap_right _
  have hlength : (s.unionList .canonical (members'.flatMap s.unionMembers)).length =
      (s.unionList .canonical (members.flatMap s.unionMembers)).length := by
    refine length_eraseDups_of_perm ?_
    refine (arrange_perm _ _).trans (.trans ?_ (arrange_perm _ _).symm)
    rw [survives_perm hflat, mergedBoolean, mergesBooleans_perm hflat]
    exact (hflat.filter _).append_right _
  have hfind : ((members'.flatMap s.unionMembers).find? fun id => (s.kind id).isError).isSome =
      ((members.flatMap s.unionMembers).find? fun id => (s.kind id).isError).isSome := by
    rw [Bool.eq_iff_iff, List.find?_isSome, List.find?_isSome]
    simp only [hflat.mem_iff]
  rw [normalizeUnion_eq, normalizeUnion_eq, anyKind_perm hflat, anyKind_perm hflat]
  split
  · rfl
  split
  · rfl
  revert hfind
  cases (members'.flatMap s.unionMembers).find? fun id => (s.kind id).isError <;>
    cases (members.flatMap s.unionMembers).find? fun id => (s.kind id).isError <;>
    intro hfind
  · rw [Bool.eq_iff_iff, Normalized.isCombined_ofList, Normalized.isCombined_ofList, hlength]
  · cases hfind
  · cases hfind
  · rfl

/-- All unions of a store are free of repeated members. -/
theorem union_nodup (hs : WellFormed s) {members ms : List TypeId}
    (hmembers : ∀ m ∈ members, s.Contains m)
    (hms : (s.union members .canonical).2.kind (s.union members .canonical).1 = .union ms) :
    ms.Nodup := by
  have hwell : WellFormed (s.union members .canonical).2 := hs.union hmembers
  have hids : ∀ id ∈ (s.normalizeUnion members .canonical).ids, s.Contains id :=
    fun _ => contains_normalizeUnion hs hmembers
  exact (hwell.unions _ ms (contains_combine hs.toConsistent hids) hms).1

/-! ## Intersections -/

theorem normalizeIntersection_perm_iff {members : List TypeId} :
    (∀ members' : List TypeId, members'.Perm members →
        s.normalizeIntersection members' = s.normalizeIntersection members) ↔
      Set.InjOn (s.stableOrderKey · 0) {m | m ∈ members} := by
  refine Iff.trans ?_ destutter_sortByKey_perm_iff
  refine forall_congr' fun members' => forall_congr' fun hp => ?_
  refine Normalized.ofList_eq_iff ?_
  simp only [List.eq_nil_iff_forall_not_mem, mem_destutter, mem_sortByKey, hp.mem_iff]

/-- An intersection is new exactly when two different types are listed. -/
theorem isCombined_normalizeIntersection_iff {members : List TypeId} :
    (s.normalizeIntersection members).isCombined ↔ ∃ a ∈ members, ∃ b ∈ members, a ≠ b := by
  have hmem : ∀ m, m ∈ (sortByKey (s.stableOrderKey · 0) members).destutter (· ≠ ·) ↔
      m ∈ members := by
    simp [mem_destutter]
  have hchain := List.isChain_destutter (· ≠ ·) (sortByKey (s.stableOrderKey · 0) members)
  unfold normalizeIntersection
  rw [Normalized.isCombined_ofList]
  revert hmem hchain
  match (sortByKey (s.stableOrderKey · 0) members).destutter (· ≠ ·) with
  | [] =>
    intro hmem _
    simp [← hmem]
  | [c] =>
    intro hmem _
    simp [← hmem]
  | c :: d :: ds =>
    intro hmem hchain
    simp only [List.length_cons]
    refine ⟨fun _ => ⟨c, (hmem c).mp (by simp), d, (hmem d).mp (by simp), ?_⟩, fun _ => by omega⟩
    exact (List.isChain_cons_cons.mp hchain).1

theorem isCombined_normalizeIntersection {members members' : List TypeId}
    (hp : members'.Perm members) :
    (s.normalizeIntersection members').isCombined =
      (s.normalizeIntersection members).isCombined := by
  rw [Bool.eq_iff_iff, isCombined_normalizeIntersection_iff, isCombined_normalizeIntersection_iff]
  simp only [hp.mem_iff]

/-- A single listed type is its own intersection. -/
theorem normalizeIntersection_of_single {members : List TypeId} {m : TypeId} (hm : m ∈ members)
    (hall : ∀ m' ∈ members, m' = m) : s.normalizeIntersection members = .existing m := by
  have hnot : ¬ (s.normalizeIntersection members).isCombined := by
    rw [isCombined_normalizeIntersection_iff]
    rintro ⟨a, ha, b, hb, hab⟩
    exact hab ((hall a ha).trans (hall b hb).symm)
  have hmem : m ∈ (sortByKey (s.stableOrderKey · 0) members).destutter (· ≠ ·) := by
    simpa [mem_destutter] using hm
  have hsub : ∀ c ∈ (sortByKey (s.stableOrderKey · 0) members).destutter (· ≠ ·), c = m := by
    intro c hc
    exact hall c (by simpa [mem_destutter] using hc)
  revert hnot hmem hsub
  unfold normalizeIntersection
  match (sortByKey (s.stableOrderKey · 0) members).destutter (· ≠ ·) with
  | [] => simp
  | [c] =>
    intro _ _ hsub
    rw [hsub c (by simp)]
    rfl
  | c :: d :: ds =>
    intro hnot
    exact absurd rfl hnot

theorem intersection_nodup (hs : WellFormed s) {members : List TypeId}
    (h : IntersectionDetermined s members) {ms : List TypeId}
    (hms : (s.intersection members).2.kind (s.intersection members).1 = .intersection ms) :
    ms.Nodup := by
  obtain ⟨hkey, hsingle⟩ := h
  have hnodup := nodup_destutter_of_injOn hkey
  by_cases hcombined : ∃ a ∈ members, ∃ b ∈ members, a ≠ b
  · have hc := isCombined_normalizeIntersection_iff (s := s).mpr hcombined
    revert hms hc hnodup
    unfold intersection normalizeIntersection
    match (sortByKey (s.stableOrderKey · 0) members).destutter (· ≠ ·) with
    | [] => exact fun _ _ hc => by cases hc
    | [c] => exact fun _ _ hc => by cases hc
    | c :: d :: ds =>
      intro hms hnodup _
      have hkind := (hs.toConsistent.kind_intern (.intersection (c :: d :: ds))).2
      have : TypeKind.intersection ms = .intersection (c :: d :: ds) := hms.symm.trans hkind
      rwa [TypeKind.intersection.inj this]
  · push Not at hcombined
    cases members with
    | nil =>
      have : s.kind s.builtins.unknown = .unknown := by
        rw [hs.grown.builtins, (hs.builtin (by decide)).2]
        rfl
      cases this.symm.trans hms
    | cons m rest =>
      have hall : ∀ m' ∈ m :: rest, m' = m := fun m' hm' => hcombined m' hm' m (by simp)
      rw [intersection, normalizeIntersection_of_single List.mem_cons_self hall] at hms
      exact hsingle m List.mem_cons_self hall ms hms

/-! ## The condition is exact -/

theorem union_orderIndependent_iff (hs : Reachable s) {members : List TypeId}
    (hmembers : ∀ m ∈ members, s.Contains m) :
    OrderIndependent .union (fun s ms => s.union ms .canonical) s members ↔
      UnionDetermined s members := by
  have hwell := hs.wellFormed
  have hwell' : WellFormed (s.union members .canonical).2 := hwell.union hmembers
  have hids : ∀ id ∈ (s.normalizeUnion members .canonical).ids, s.Contains id :=
    fun _ => contains_normalizeUnion hwell hmembers
  have hgrow : Extends s (s.union members .canonical).2 := extends_combine _ _
  have hsame : ∀ members' : List TypeId, members'.Perm members →
      (((s.union members .canonical).2.union members' .canonical).1 =
          (s.union members .canonical).1 ↔
        s.normalizeUnion members' .canonical = s.normalizeUnion members .canonical) := by
    intro members' hp
    have hmembers' : ∀ m ∈ members', s.Contains m := fun m hm => hmembers m (hp.subset hm)
    rw [TypeStore.union, normalizeUnion_of_extends hgrow hwell hwell' hmembers']
    exact combine_combine_iff hwell.toConsistent (.inl rfl) hids (isCombined_normalizeUnion hp)
  rw [← normalizeUnion_perm_iff hwell hmembers]
  constructor
  · intro h members' hp
    exact (hsame members' hp).mp (h.permutation members' hp)
  · intro h
    refine ⟨fun members' hp => (hsame members' hp).mpr (h members' hp), fun t ht r => ?_,
      fun ms hms => union_nodup hwell hmembers hms⟩
    have := r.combine hwell.toConsistent ht.wellFormed.toConsistent (.inl rfl) hids
    rwa [← r.normalizeUnion_map hwell ht.wellFormed hmembers] at this

theorem intersection_orderIndependent_iff (hs : Reachable s) {members : List TypeId}
    (hmembers : ∀ m ∈ members, s.Contains m) :
    OrderIndependent .intersection intersection s members ↔
      IntersectionDetermined s members := by
  have hwell := hs.wellFormed
  have hwell' : WellFormed (s.intersection members).2 := hwell.intersection hmembers
  have hids : ∀ id ∈ (s.normalizeIntersection members).ids, s.Contains id :=
    fun _ => contains_normalizeIntersection hwell hmembers
  have hgrow : Extends s (s.intersection members).2 := extends_combine _ _
  have hsame : ∀ members' : List TypeId, members'.Perm members →
      (((s.intersection members).2.intersection members').1 = (s.intersection members).1 ↔
        s.normalizeIntersection members' = s.normalizeIntersection members) := by
    intro members' hp
    have hmembers' : ∀ m ∈ members', s.Contains m := fun m hm => hmembers m (hp.subset hm)
    rw [TypeStore.intersection, normalizeIntersection_of_extends hgrow hwell hwell' hmembers']
    exact combine_combine_iff hwell.toConsistent (.inr rfl) hids
      (isCombined_normalizeIntersection hp)
  constructor
  · intro h
    refine ⟨normalizeIntersection_perm_iff.mp fun members' hp =>
      (hsame members' hp).mp (h.permutation members' hp), fun m hm hall ms hms => ?_⟩
    refine h.nodup ms ?_
    rw [intersection, normalizeIntersection_of_single hm hall]
    exact hms
  · intro h
    refine ⟨fun members' hp => (hsame members' hp).mpr
      (normalizeIntersection_perm_iff.mpr h.1 members' hp), fun t ht r => ?_,
      fun ms hms => intersection_nodup hwell h hms⟩
    have := r.combine hwell.toConsistent ht.wellFormed.toConsistent (.inr rfl) hids
    rwa [← r.normalizeIntersection_map hwell ht.wellFormed hmembers] at this

/-- For every store of a run and every list of its types: the order of the members and the
way the store allocated them do not show in a union or an intersection, exactly when equal
ordering keys leave no choice. -/
theorem combinations_orderIndependent_iff (hs : Reachable s) {members : List TypeId}
    (hmembers : ∀ m ∈ members, s.Contains m) :
    (OrderIndependent .union (fun s ms => s.union ms .canonical) s members ↔
        UnionDetermined s members) ∧
      (OrderIndependent .intersection intersection s members ↔
        IntersectionDetermined s members) :=
  ⟨union_orderIndependent_iff hs hmembers, intersection_orderIndependent_iff hs hmembers⟩

/-- The shapes `{a: number; b: string}` and `{b: string; a: number}` after the builtin types. -/
def twoPropertyOrders : TypeStore :=
  let a : Property := { name := "a", ty := new.builtins.number, optional := false, readonly := false }
  let b : Property := { name := "b", ty := new.builtins.string, optional := false, readonly := false }
  ((new.intern (.object { properties := [a, b] })).2.intern (.object { properties := [b, a] })).2

theorem reachable_twoPropertyOrders : Reachable twoPropertyOrders :=
  .intern (.intern .new (by decide) nofun nofun) (by decide +kernel) nofun nofun

theorem combinations_orderIndependent_iff_twoPropertyOrders :
    (OrderIndependent .union (fun s ms => s.union ms .canonical) twoPropertyOrders [⟨13⟩, ⟨14⟩] ↔
        UnionDetermined twoPropertyOrders [⟨13⟩, ⟨14⟩]) ∧
      (OrderIndependent .intersection intersection twoPropertyOrders [⟨13⟩, ⟨14⟩] ↔
        IntersectionDetermined twoPropertyOrders [⟨13⟩, ⟨14⟩]) :=
  combinations_orderIndependent_iff reachable_twoPropertyOrders (by decide +kernel)

/-- Listed in the other order, the two shapes make another union. -/
theorem order_of_members_shows :
    ¬ ∀ s : TypeStore, Reachable s → ∀ members : List TypeId, (∀ m ∈ members, s.Contains m) →
      OrderIndependent .union (fun s ms => s.union ms .canonical) s members ∧
        OrderIndependent .intersection intersection s members := by
  intro h
  obtain ⟨hunion, -⟩ := h twoPropertyOrders reachable_twoPropertyOrders [⟨13⟩, ⟨14⟩]
    (by decide +kernel)
  have hperm : [(⟨14⟩ : TypeId), ⟨13⟩].Perm [⟨13⟩, ⟨14⟩] := .swap _ _ _
  exact absurd (hunion.permutation _ hperm) (by decide +kernel)

end TypeStore

end Tsz.Semantics
