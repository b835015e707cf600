import Tsz.Semantics.AliasSystem
import Tsz.Semantics.RelationRuns

/-!
# The relation decides alias systems

A run of the relation on two types of an alias system is a search of the structural rules,
so that it accepts what the greatest relation closed under the rules contains and refutes
the rest.
-/

namespace Tsz.Semantics

open Recursion TypeStore

variable {σ : Type}

/-! ## Runs -/

def outcome : Except RelationFailure Unit → Verdict
  | .ok _ => .ok
  | .error e => .failure e.kind.propagationRank

theorem outcome_eq_ok {result : Except RelationFailure Unit} :
    outcome result = .ok ↔ result = .ok () := by
  cases result with
  | ok _ => simp [outcome]
  | error e => simp [outcome]

/-- A run keeps the invariant, only adds types, and comes to a verdict with a property. -/
structure Leads (C : RelationContext σ) (I : σ → Prop) (s : σ) (m : RelationM σ Unit)
    (Q : Verdict → Prop) : Prop where
  inv : I (m.runFrom s).2
  grow : Extends (C.types s) (C.types (m.runFrom s).2)
  verdict : Q (outcome (m.runFrom s).1)

namespace Leads

variable {C : RelationContext σ} {I : σ → Prop} {s : σ} {m : RelationM σ Unit}
  {P Q : Verdict → Prop}

theorem of_run {result : Except RelationFailure Unit} {s' : σ} (h : m.runFrom s = (result, s'))
    (hs' : I s') (hgrow : Extends (C.types s) (C.types s')) (hQ : Q (outcome result)) :
    Leads C I s m Q := by
  constructor <;> rw [h] <;> assumption

theorem mono (h : Leads C I s m P) (hPQ : ∀ v, P v → Q v) : Leads C I s m Q :=
  ⟨h.inv, h.grow, hPQ _ h.verdict⟩

theorem pure (hs : I s) (hQ : Q .ok) : Leads C I s (pure ()) Q := ⟨hs, .refl _, hQ⟩

theorem throw {e : RelationFailure} (hs : I s) (hQ : Q (.failure e.kind.propagationRank)) :
    Leads C I s (throw e) Q := ⟨hs, .refl _, hQ⟩

/-- Later states only have more types. -/
theorem of_grown {s' : σ} (hs' : Extends (C.types s) (C.types s'))
    (h : Leads C I s' m Q) : I (m.runFrom s').2 ∧
      Extends (C.types s) (C.types (m.runFrom s').2) ∧ Q (outcome (m.runFrom s').1) :=
  ⟨h.inv, hs'.trans h.grow, h.verdict⟩

/-- A failure ends a sequence. -/
theorem andThen {f : Unit → RelationM σ Unit} (h : Leads C I s m P)
    (hfailure : ∀ rank, P (.failure rank) → Q (.failure rank))
    (hok : P .ok → ∀ s', I s' → Extends (C.types s) (C.types s') → Leads C I s' (f ()) Q) :
    Leads C I s (m >>= f) Q := by
  obtain ⟨hinv, hgrow, hverdict⟩ := h
  rcases hm : m.runFrom s with ⟨result, s'⟩
  rw [hm] at hinv hgrow hverdict
  cases result with
  | ok a =>
    obtain ⟨h₁, h₂, h₃⟩ := of_grown hgrow (hok hverdict s' hinv hgrow)
    constructor <;> rw [RelationM.runFrom_bind, hm] <;> assumption
  | error e =>
    constructor <;> rw [RelationM.runFrom_bind, hm]
    · exact hinv
    · exact hgrow
    · exact hfailure _ hverdict

theorem get_bind {f : σ → RelationM σ Unit} (h : Leads C I s (f s) Q) :
    Leads C I s (get >>= f) Q := ⟨h.inv, h.grow, h.verdict⟩

theorem wrapping (h : Leads C I s m Q) (source target : TypeId) (kind : RelationFailureKind)
    (hkind : kind.propagationRank = 0) :
    Leads C I s (Relation.wrapping source target kind m) Q := by
  obtain ⟨hinv, hgrow, hverdict⟩ := h
  rcases hm : m.runFrom s with ⟨result, s'⟩
  rw [hm] at hinv hgrow hverdict
  unfold Relation.wrapping
  constructor <;> rw [RelationM.runFrom_tryCatch, hm] <;> cases result <;>
    simp_all [outcome]

end Leads

/-! ## The arms of the match -/

namespace AliasSystem

/-- What kinds the comparisons of a system meet: those of its types, and unions of them. -/
structure Has (sys : AliasSystem) (k : TypeKind) : Prop where
  plain : k.isPlain
  children : ∀ c ∈ k.children, c ∈ sys.types
  body_mem : ∀ d, k = .deferred (.reference d []) → sys.body d ∈ sys.types
  body_resolved : ∀ d, k = .deferred (.reference d []) →
    (sys.store.kind (sys.body d)).isReference = false

theorem has_kind (sys : AliasSystem) {t : TypeId} (ht : t ∈ sys.types) :
    sys.Has (sys.store.kind t) :=
  ⟨sys.plain t ht, sys.children t ht, sys.body_mem t ht, sys.body_resolved t ht⟩

theorem has_of_isEmpty {sys : AliasSystem} {k : TypeKind} (hplain : k.isPlain)
    (hreference : k.isReference = false) (hchildren : k.children = []) : sys.Has k where
  plain := hplain
  children := by simp [hchildren]
  body_mem := by
    rintro d rfl
    cases hreference
  body_resolved := by
    rintro d rfl
    cases hreference

theorem mem_unionMembers (sys : AliasSystem) {members : List TypeId}
    (hmembers : ∀ m ∈ members, m ∈ sys.types) {id : TypeId}
    (hid : id ∈ members.flatMap sys.store.unionMembers) : id ∈ sys.types := by
  obtain ⟨m, hm, hid⟩ := List.mem_flatMap.mp hid
  unfold unionMembers at hid
  split at hid
  · next nested hkind =>
    exact sys.children m (hmembers m hm) id (hkind ▸ hid)
  · rw [List.mem_singleton.mp hid]
    exact hmembers m hm

/-- A union of types of the system is one of them, `any`, `unknown` or `never`, or has such
types as its members. -/
theorem normalizeUnion_ids (sys : AliasSystem) {members : List TypeId}
    (hmembers : ∀ m ∈ members, m ∈ sys.types) :
    match sys.store.normalizeUnion members .canonical with
    | .existing id => id ∈ sys.types ∨ id = sys.store.builtins.any ∨
        id = sys.store.builtins.unknown ∨ id = sys.store.builtins.never
    | .combined ms => ∀ m ∈ ms, m ∈ sys.types := by
  have hlist : ∀ id ∈ sys.store.unionList .canonical (members.flatMap sys.store.unionMembers),
      id ∈ sys.types := by
    intro id hid
    rcases mem_unionList.mp hid with ⟨hid, -⟩ | hid
    · exact sys.mem_unionMembers hmembers hid
    · unfold mergedBoolean at hid
      split at hid
      · rw [List.mem_singleton.mp hid]
        exact sys.boolean_mem
      · cases hid
  rw [normalizeUnion_eq]
  split_ifs
  · exact .inr (.inl rfl)
  · exact .inr (.inr (.inl rfl))
  · cases herror : (members.flatMap sys.store.unionMembers).find? fun id =>
        (sys.store.kind id).isError with
    | some id => exact .inl (sys.mem_unionMembers hmembers (List.mem_of_find?_eq_some herror))
    | none =>
      match hids : sys.store.unionList .canonical (members.flatMap sys.store.unionMembers) with
      | [] => exact .inr (.inr (.inr rfl))
      | [id] => exact .inl (hlist id (by simp [hids]))
      | id :: id' :: ids => exact fun m hm => hlist m (hids ▸ hm)

theorem has_unionKind (sys : AliasSystem) {members : List TypeId}
    (hmembers : ∀ m ∈ members, m ∈ sys.types) : sys.Has (sys.unionKind members) := by
  have hids := sys.normalizeUnion_ids hmembers
  have hb : sys.store.builtins = new.builtins := sys.wellFormed.grown.builtins
  have hbuiltin (id : TypeId) (hid : id.index < 13) (hplain : (new.kind id).isPlain)
      (hreference : (new.kind id).isReference = false) (hchildren : (new.kind id).children = []) :
      sys.Has (sys.store.kind id) :=
    (sys.wellFormed.builtin hid).2 ▸ has_of_isEmpty hplain hreference hchildren
  unfold unionKind
  cases hn : sys.store.normalizeUnion members .canonical with
  | existing id =>
    rw [hn, hb] at hids
    rcases hids with hid | rfl | rfl | rfl
    · exact sys.has_kind hid
    all_goals exact hbuiltin _ (by decide) (by decide) (by decide) (by decide)
  | combined ms =>
    rw [hn] at hids
    exact ⟨rfl, hids, by simp, by simp⟩

end AliasSystem

section arms

variable {C : RelationContext σ} {I : σ → Prop} {sys : AliasSystem} {strict : Bool}

/-- The type has the kind in this state. -/
structure At (C : RelationContext σ) (s : σ) (t : TypeId) (k : TypeKind) : Prop where
  contains : (C.types s).Contains t
  kind : (C.types s).kind t = k

theorem At.grown {s s' : σ} {t : TypeId} {k : TypeKind} (h : At C s t k)
    (hs : Extends (C.types s) (C.types s')) : At C s' t k :=
  ⟨hs.contains h.contains, (hs.kind h.contains).trans h.kind⟩

theorem ResolvesAliases.at_kind (hC : ResolvesAliases C I sys strict) {s : σ} (hs : I s)
    {t : TypeId} (ht : t ∈ sys.types) : At C s t (sys.store.kind t) :=
  ⟨(hC.types_extend s hs).contains (sys.contains t ht),
    (hC.types_extend s hs).kind (sys.contains t ht)⟩

variable (hC : ResolvesAliases C I sys strict)
  {relate : TypeId → TypeId → RelationMode → RelationM σ Unit}
  {A : TypeKind × TypeKind → Verdict → Prop} {s₀ : σ}

/-- The comparisons a comparison leads to, from any later state. -/
def Answers (C : RelationContext σ) (I : σ → Prop) (sys : AliasSystem)
    (relate : TypeId → TypeId → RelationMode → RelationM σ Unit)
    (A : TypeKind × TypeKind → Verdict → Prop) (s₀ : σ) : Prop :=
  ∀ s a b k l, I s → Extends (C.types s₀) (C.types s) → At C s a k → At C s b l → sys.Has k →
    sys.Has l → Leads C I s (relate a b .subtype) (A (k, l))

include hC

theorem leads_relateUnionMembers (hA : Answers C I sys relate A s₀) {l : TypeKind}
    (hl : sys.Has l) (source : TypeId) {target : TypeId} : ∀ {members : List TypeId} {s : σ}, I s →
    Extends (C.types s₀) (C.types s) → At C s target l → (∀ m ∈ members, m ∈ sys.types) →
    Leads C I s (Relation.relateUnionMembers relate source target .subtype members)
      (AllOf A (members.map fun m => (sys.store.kind m, l)))
  | [], _, hs, _, _, _ => .pure hs .nil
  | m :: ms, s, hs, hgrow, htarget, hmembers => by
    have hm := hmembers m List.mem_cons_self
    have hrelated :=
      hA s m target _ l hs hgrow (hC.at_kind hs hm) htarget (sys.has_kind hm) hl
    refine (hrelated.wrapping _ _ _ rfl).andThen
      (fun rank h => .failure h) fun hok s' hs' hgrow' => ?_
    exact (leads_relateUnionMembers hA hl source hs' (hgrow.trans hgrow') (htarget.grown hgrow')
      fun m hm => hmembers m (.tail _ hm)).mono fun v hv => .ok hok hv

theorem leads_relateCovariantTypes (hA : Answers C I sys relate A s₀) {source target : TypeId}
    {part : Nat → RelationFailureKind} (hpart : ∀ i, (part i).propagationRank = 0) :
    ∀ {pairs : List (TypeId × TypeId)} {i : Nat} {s : σ}, I s →
    Extends (C.types s₀) (C.types s) → (∀ p ∈ pairs, p.1 ∈ sys.types ∧ p.2 ∈ sys.types) →
    Leads C I s (Relation.relateCovariantTypes relate source target .subtype part i pairs)
      (AllOf A (pairs.map fun p => (sys.store.kind p.1, sys.store.kind p.2)))
  | [], _, _, hs, _, _ => .pure hs .nil
  | (t, u) :: pairs, i, s, hs, hgrow, hpairs => by
    obtain ⟨ht, hu⟩ := hpairs _ List.mem_cons_self
    have hrelated := hA s t u _ _ hs hgrow (hC.at_kind hs ht) (hC.at_kind hs hu)
      (sys.has_kind ht) (sys.has_kind hu)
    refine (hrelated.wrapping _ _ _ (hpart i)).andThen
      (fun rank h => .failure h) fun hok s' hs' hgrow' => ?_
    exact (leads_relateCovariantTypes hA hpart hs' (hgrow.trans hgrow')
      fun p hp => hpairs p (.tail _ hp)).mono fun v hv => .ok hok hv

theorem leads_relateEachProperty (hA : Answers C I sys relate A s₀) (source target : TypeId)
    {sourceShape : ObjectShape} (hsource : ∀ p ∈ sourceShape.properties, p.ty ∈ sys.types) :
    ∀ {properties : List Property} {s : σ}, I s → Extends (C.types s₀) (C.types s) →
    (∀ p ∈ properties, p.ty ∈ sys.types) →
    Leads C I s
      (Relation.relateEachProperty relate source target (some sourceShape.properties) .subtype
        properties)
      (AllOf A (sys.commonProperties sourceShape { properties }))
  | [], _, hs, _, _ => .pure hs .nil
  | p :: ps, s, hs, hgrow, htarget => by
    have hrest {s' : σ} (hs' : I s') (hgrow' : Extends (C.types s) (C.types s')) :=
      leads_relateEachProperty hA source target hsource hs' (hgrow.trans hgrow')
        fun q hq => htarget q (.tail _ hq)
    have hp := htarget p List.mem_cons_self
    unfold Relation.relateEachProperty AliasSystem.commonProperties
    simp only [Option.bind_some, List.filterMap_cons]
    cases hfind : sourceShape.properties.find? fun property => property.name = p.name with
    | none => exact hrest hs (.refl _)
    | some q =>
      have hq := hsource q (List.mem_of_find?_eq_some hfind)
      have hrelated := hA s q.ty p.ty _ _ hs hgrow (hC.at_kind hs hq) (hC.at_kind hs hp)
        (sys.has_kind hq) (sys.has_kind hp)
      refine ((hrelated.wrapping _ _ _ rfl).wrapping _ _ _ rfl).andThen
        (fun rank h => .failure h) fun hok s' hs' hgrow' => ?_
      exact (hrest hs' hgrow').mono fun v hv => .ok hok hv

omit hC in
theorem rank_selectFailure (sourceMembers : Bool) (member : TypeId) (error : RelationFailure)
    (selected : Option (TypeId × RelationFailure)) :
    ∃ m e, Relation.selectFailure sourceMembers member error selected = some (m, e) ∧
      e.kind.propagationRank =
        max ((selected.map fun p => p.2.kind.propagationRank).getD 0)
          error.kind.propagationRank := by
  unfold Relation.selectFailure
  match selected with
  | none => exact ⟨_, _, rfl, by simp⟩
  | some (current, old) =>
    simp only [Option.map_some, Option.getD_some]
    split
    · next h =>
      refine ⟨_, _, rfl, ?_⟩
      simp only [Bool.or_eq_true, decide_eq_true_eq, Bool.and_eq_true] at h
      omega
    · next h =>
      refine ⟨_, _, rfl, ?_⟩
      simp only [Bool.or_eq_true, decide_eq_true_eq, Bool.and_eq_true] at h
      omega

/-- What trying alternatives returns, next to the verdict of the alternatives themselves. -/
def TriedFrom (selected : Option (TypeId × RelationFailure)) (v : Verdict) :
    Except RelationFailure (Option (Option (TypeId × RelationFailure))) → Prop
  | .ok none => v = .ok
  | .ok (some selected') => ∃ rank, v = .failure rank ∧
      (selected'.map fun p => p.2.kind.propagationRank).getD 0 =
        max ((selected.map fun p => p.2.kind.propagationRank).getD 0) rank
  | .error _ => False

omit hC in
theorem TriedFrom.select {sourceMembers : Bool} {member : TypeId} {error : RelationFailure}
    {selected : Option (TypeId × RelationFailure)} {v : Verdict}
    {result : Except RelationFailure (Option (Option (TypeId × RelationFailure)))}
    (h : TriedFrom (Relation.selectFailure sourceMembers member error selected) v result) :
    TriedFrom selected (v.orFailure error.kind.propagationRank) result := by
  obtain ⟨m, e, hselect, hrank⟩ := rank_selectFailure sourceMembers member error selected
  rw [hselect] at h
  match result with
  | .ok none =>
    obtain rfl : v = .ok := h
    rfl
  | .ok (some selected') =>
    obtain ⟨rank, rfl, hselected'⟩ := h
    refine ⟨_, rfl, ?_⟩
    simp only [Option.map_some, Option.getD_some] at hselected'
    omega
  | .error _ => exact h

theorem leads_tryAlternatives (hA : Answers C I sys relate A s₀) {k : TypeKind}
    (hk : sys.Has k) {source : TypeId} (target : TypeId) : ∀ {members : List TypeId}
    (selected : Option (TypeId × RelationFailure)) {s : σ}, I s →
    Extends (C.types s₀) (C.types s) → At C s source k → (∀ m ∈ members, m ∈ sys.types) →
    ∃ v, AnyOf A (members.map fun m => (k, sys.store.kind m)) v ∧
      TriedFrom selected v ((Relation.tryAlternatives relate source target .subtype false
        members selected).runFrom s).1 ∧
      I ((Relation.tryAlternatives relate source target .subtype false
        members selected).runFrom s).2 ∧
      Extends (C.types s) (C.types ((Relation.tryAlternatives relate source target .subtype false
        members selected).runFrom s).2)
  | [], _, s, hs, _, _, _ => ⟨.failure 0, .nil, ⟨0, rfl, by simp⟩, hs, .refl _⟩
  | m :: ms, selected, s, hs, hgrow, hsource, hmembers => by
    have hm := hmembers m List.mem_cons_self
    obtain ⟨hinv, hgrow', hverdict⟩ :=
      hA s source m k _ hs hgrow hsource (hC.at_kind hs hm) hk (sys.has_kind hm)
    rcases hrun : (relate source m .subtype).runFrom s with ⟨result, s'⟩
    rw [hrun] at hinv hgrow' hverdict
    unfold Relation.tryAlternatives
    simp only [Bool.false_eq_true, if_false, RelationM.runFrom_bind, RelationM.runFrom_tryCatch,
      hrun]
    cases result with
    | ok _ => exact ⟨.ok, .ok hverdict, rfl, hinv, hgrow'⟩
    | error e =>
      obtain ⟨v, hv, htried, hinv', hgrow''⟩ := leads_tryAlternatives hA hk target
        (Relation.selectFailure false m e selected) hinv (hgrow.trans hgrow') (hsource.grown hgrow') fun m hm => hmembers m (.tail _ hm)
      exact ⟨_, .failure hverdict hv, htried.select, hinv', hgrow'.trans hgrow''⟩

theorem leads_relateAlternatives (hA : Answers C I sys relate A s₀) {k : TypeKind}
    (hk : sys.Has k) {source target : TypeId} {members : List TypeId} {s : σ} (hs : I s)
    (hgrow : Extends (C.types s₀) (C.types s)) (hsource : At C s source k)
    (hmembers : ∀ m ∈ members, m ∈ sys.types) :
    Leads C I s (Relation.relateAlternatives relate source target members .subtype false)
      (AnyOf A (members.map fun m => (k, sys.store.kind m))) := by
  obtain ⟨v, hv, htried, hinv, hgrow'⟩ := leads_tryAlternatives hC hA hk target none hs hgrow hsource hmembers
  rcases hrun : (Relation.tryAlternatives relate source target .subtype false members
    none).runFrom s with ⟨result, s'⟩
  rw [hrun] at htried hinv hgrow'
  match result with
  | .error _ => exact htried.elim
  | .ok none =>
    obtain rfl : v = .ok := htried
    have hdone : (Relation.relateAlternatives relate source target members .subtype
        false).runFrom s = (.ok (), s') := by
      simp only [Relation.relateAlternatives, RelationM.runFrom_bind, hrun,
        RelationM.runFrom_pure]
    exact .of_run hdone hinv hgrow' hv
  | .ok (some selected) =>
    obtain ⟨rank, rfl, hrank⟩ := htried
    rcases hselected : selected.getD (target, failure source target .incompatible) with ⟨m, e⟩
    have he : e.kind.propagationRank = rank := by
      cases selected <;> simp_all
      cases hselected.2
      exact hrank
    have hthrown : ∃ e' : RelationFailure, e'.kind.propagationRank = rank ∧
        (Relation.relateAlternatives relate source target members .subtype false).runFrom s =
          (.error e', s') := by
      simp only [Relation.relateAlternatives, RelationM.runFrom_bind, hrun, Bool.false_eq_true,
        if_false, hselected, Bool.false_or]
      split
      · exact ⟨e, he, rfl⟩
      · refine ⟨_, ?_, rfl⟩
        rw [RelationFailure.rank_wrapped _ _ _ rfl]
        split
        · exact he
        · rw [RelationFailure.rank_wrapped _ _ _ rfl, he]
    obtain ⟨e', he', hrun'⟩ := hthrown
    exact .of_run hrun' hinv hgrow' (by rwa [outcome, he'])

/-- The union of the state has the kind of the union of the system. -/
theorem at_unionKind {s : σ} (hs : I s) {members : List TypeId}
    (hmembers : ∀ m ∈ members, m ∈ sys.types) :
    At C (C.canonicalUnion members s).2 (C.canonicalUnion members s).1
      (sys.unionKind members) := by
  have hcontains : ∀ m ∈ members, sys.store.Contains m := fun m hm => sys.contains m (hmembers m hm)
  have hextends := hC.types_extend s hs
  obtain ⟨-, hunion⟩ := hC.union s members hs hmembers
  have hnormalize : (C.types s).normalizeUnion members .canonical =
      sys.store.normalizeUnion members .canonical :=
    normalizeUnion_of_extends hextends sys.wellFormed (hC.wellFormed s hs) hcontains
  have hids : ∀ id ∈ (sys.store.normalizeUnion members .canonical).ids, sys.store.Contains id :=
    fun id => contains_normalizeUnion sys.wellFormed hcontains
  rw [TypeStore.union, hnormalize] at hunion
  have hid := congrArg Prod.fst hunion
  have htypes := congrArg Prod.snd hunion
  dsimp only at hid htypes
  have hconsistent := (hC.wellFormed s hs).toConsistent
  constructor <;> rw [hid, htypes]
  · exact contains_combine hconsistent fun id hid => hextends.contains (hids id hid)
  · rw [kind_combine hconsistent, AliasSystem.unionKind]
    cases hn : sys.store.normalizeUnion members .canonical with
    | existing id => exact hextends.kind (hids id (by simp [hn, Normalized.ids]))
    | combined ms => rfl

omit hC in
theorem sortMembers_of_extends {s : TypeStore} (h : Extends sys.store s) {members : List TypeId}
    (hmembers : ∀ m ∈ members, m ∈ sys.types) :
    Relation.sortMembers s members = Relation.sortMembers sys.store members := by
  have hpriority : ∀ m ∈ members, Relation.memberPriority s m =
      Relation.memberPriority sys.store m := by
    intro m hm
    unfold Relation.memberPriority
    rw [h.kind (sys.contains m (hmembers m hm))]
  have := List.map_insertionSort
    (fun m n => Relation.memberPriority s m ≤ Relation.memberPriority s n)
    (fun m n => Relation.memberPriority sys.store m ≤ Relation.memberPriority sys.store n)
    id members fun m hm n hn => by rw [hpriority m hm, hpriority n hn]; rfl
  simpa [Relation.sortMembers] using this

omit hC in
theorem mem_sortMembers {s : TypeStore} {members : List TypeId} {m : TypeId} :
    m ∈ Relation.sortMembers s members ↔ m ∈ members := List.mem_insertionSort _

omit hC in
theorem leads_decide {c : Prop} [Decidable c] {source target : TypeId}
    {kind : RelationFailureKind} {s : σ} (hs : I s) :
    Leads C I s (if c then pure () else throw (failure source target kind))
      ((Plan.decided (if c then .ok else .failure kind.propagationRank)).Evaluates A) := by
  split
  · exact .pure hs rfl
  · exact .throw hs rfl

/-- The arms of the match follow the plan. -/
theorem leads_relateKinds (hA : Answers C I sys relate A s₀) {k l : TypeKind} (hk : sys.Has k)
    (hl : sys.Has l) (hreference : k.isReference = false ∧ l.isReference = false)
    (hshape : Relation.objectShape k = none ∨ Relation.objectShape l = none)
    {source target : TypeId} {s : σ} (hs : I s) (hgrow : Extends (C.types s₀) (C.types s))
    (hsource : At C s source k) (htarget : At C s target l) :
    Leads C I s (Relation.relateKinds C relate source target .subtype k l)
      ((sys.matchRules k l).Evaluates A) := by
  have hall {a b : TypeId} (ha : a ∈ sys.types) (hb : b ∈ sys.types) :=
    hA s a b _ _ hs hgrow (hC.at_kind hs ha) (hC.at_kind hs hb) (sys.has_kind ha) (sys.has_kind hb)
  have hplain := hk.plain
  have hplain' := hl.plain
  unfold AliasSystem.matchRules
  split
  case h_17 =>
    have hdefault : ∃ kind : RelationFailureKind, kind.propagationRank = 0 ∧
        Relation.relateKinds C relate source target .subtype k l =
          throw (failure source target kind) := by
      obtain ⟨hk', hl'⟩ := hreference
      unfold Relation.relateKinds
      split
      all_goals first
        | exact ⟨_, by rfl, rfl⟩
        | (exfalso; simp_all [TypeKind.isPlain]; done)
        | (exfalso; grind)
    obtain ⟨kind, hkind, hthrow⟩ := hdefault
    rw [hthrow]
    exact .throw hs (congrArg Verdict.failure hkind)
  all_goals simp only [Relation.relateKinds]
  case h_7 | h_8 | h_9 => exact leads_decide hs
  case h_10 members =>
    have hmembers : ∀ m ∈ Relation.sortMembers sys.store members, m ∈ sys.types :=
      fun m hm => hk.children m (mem_sortMembers.mp hm)
    have hsort : Relation.sortMembers (C.types s) members =
        Relation.sortMembers sys.store members :=
      sortMembers_of_extends (hC.types_extend s hs) hk.children
    have := leads_relateUnionMembers hC hA hl source hs hgrow htarget hmembers
    rw [← hsort] at this ⊢
    exact ⟨this.inv, this.grow, this.verdict⟩
  case h_11 => exact leads_relateAlternatives hC hA hk hs hgrow hsource hl.children
  case h_12 => simp [Relation.objectShape] at hshape
  case h_13 left right =>
    have hrelated := hall (hk.children left (by simp [TypeKind.children]))
      (hl.children right (by simp [TypeKind.children]))
    exact (hrelated.wrapping _ _ _ rfl).mono fun v => .single
  case h_14 shape =>
    have hempty : shape.callSignatures = [] ∧ shape.constructSignatures = [] ∧
        shape.indexSignatures = [] := by
      simp only [TypeKind.isPlain, Bool.and_eq_true, List.isEmpty_iff] at hplain'
      exact ⟨hplain'.1.1.2, hplain'.1.2, hplain'.2⟩
    simp only [hempty, List.isEmpty_nil, Bool.and_true]
    exact leads_decide hs
  case h_15 left right =>
    split
    · refine leads_relateCovariantTypes hC hA (fun _ => rfl) hs hgrow fun p hp => ?_
      obtain ⟨h₁, h₂⟩ := List.of_mem_zip hp
      exact ⟨hk.children _ h₁, hl.children _ h₂⟩
    · exact .throw hs rfl
  case h_16 elements element =>
    obtain ⟨hs', hunion⟩ := hC.union s elements hs hk.children
    have hgrow' : Extends (C.types s) (C.types (C.canonicalUnion elements s).2) := by
      have htypes := congrArg Prod.snd hunion
      dsimp only at htypes
      rw [htypes]
      exact extends_combine _ _
    have hmem := hl.children element (by simp [TypeKind.children])
    have hrelated := hA _ _ element _ _ hs' (hgrow.trans hgrow') (at_unionKind hC hs hk.children)
      (hC.at_kind hs' hmem) (sys.has_unionKind hk.children) (sys.has_kind hmem)
    have := (hrelated.wrapping source target .arrayElement rfl).mono fun v => AllOf.single
    exact ⟨this.inv, hgrow'.trans this.grow, this.verdict⟩
  all_goals exact .pure hs rfl

theorem not_unsupported {source target : ObjectShape} (hk : sys.Has (.object source))
    (hl : sys.Has (.object target)) {s : σ} (hs : I s) :
    Relation.shapeHasUnsupportedCallableMembers (C.types s) target (some source) = false := by
  have hk' := hk.plain
  have hl' := hl.plain
  simp only [TypeKind.isPlain, Bool.and_eq_true, List.isEmpty_iff] at hk' hl'
  have hproperty : ∀ p : Property, p.ty ∈ sys.types → ∀ signature,
      (C.types s).kind p.ty ≠ .shapeFunction signature := by
    intro p hp signature hkind
    have hplain := sys.plain p.ty hp
    rw [← (hC.at_kind hs hp).kind, hkind] at hplain
    cases hplain
  have htarget : ∀ p ∈ target.properties, p.ty ∈ sys.types := fun p hp =>
    hl.children p.ty (by simp [TypeKind.children, ObjectShape.children]; exact .inl ⟨p, hp, rfl⟩)
  have hsource : ∀ p ∈ source.properties, p.ty ∈ sys.types := fun p hp =>
    hk.children p.ty (by simp [TypeKind.children, ObjectShape.children]; exact .inl ⟨p, hp, rfl⟩)
  unfold Relation.shapeHasUnsupportedCallableMembers
  simp only [hk', hl', List.isEmpty_nil, Bool.not_true, Bool.or_self, Option.any_some,
    Bool.false_eq_true, if_false, Option.bind_some, List.any_eq_false]
  intro p hp
  have hp' := hproperty p (htarget p hp)
  split
  · split
    · next signature hkind => exact absurd hkind (hp' signature)
    · simp
  · next q hq =>
    have hq' := hproperty q (hsource q (List.mem_of_find?_eq_some hq))
    split <;> simp_all

theorem leads_relateObjectShapes (hA : Answers C I sys relate A s₀) {source target : TypeId}
    {sourceShape targetShape : ObjectShape} (hk : sys.Has (.object sourceShape))
    (hl : sys.Has (.object targetShape)) {s : σ} (hs : I s)
    (hgrow : Extends (C.types s₀) (C.types s)) :
    Leads C I s
      (Relation.relateObjectShapes C relate source target sourceShape targetShape .subtype)
      ((sys.matchRules (.object sourceShape) (.object targetShape)).Evaluates A) := by
  have hplain := hk.plain
  have hplain' := hl.plain
  simp only [TypeKind.isPlain, Bool.and_eq_true, List.isEmpty_iff] at hplain hplain'
  have hsource : ∀ p ∈ sourceShape.properties, p.ty ∈ sys.types := fun p hp =>
    hk.children p.ty (by simp [TypeKind.children, ObjectShape.children]; exact .inl ⟨p, hp, rfl⟩)
  have htarget : ∀ p ∈ targetShape.properties, p.ty ∈ sys.types := fun p hp =>
    hl.children p.ty (by simp [TypeKind.children, ObjectShape.children]; exact .inl ⟨p, hp, rfl⟩)
  have hproperties : Leads C I s
      (Relation.relateProperties relate source target (some sourceShape.properties)
        targetShape.properties .subtype)
      ((sys.matchRules (.object sourceShape) (.object targetShape)).Evaluates A) := by
    simp only [AliasSystem.matchRules, Relation.relateProperties]
    split
    · next hmissing =>
      rw [if_pos hmissing]
      exact leads_relateEachProperty hC hA _ _ hsource hs hgrow htarget
    · next name hmissing =>
      rw [if_neg (by simp [hmissing])]
      exact .throw hs (congrArg Verdict.failure (RelationFailure.rank_wrapped _ _ _ rfl))
    · next names hnil _ =>
      rw [if_neg hnil]
      exact .throw hs (congrArg Verdict.failure (RelationFailure.rank_wrapped _ _ _ rfl))
  have hrun : ((Relation.relateObjectShapes C relate source target sourceShape targetShape
      .subtype).runFrom s) = ((Relation.relateProperties relate source target
        (some sourceShape.properties) targetShape.properties .subtype).runFrom s) := by
    simp only [Relation.relateObjectShapes, RelationM.runFrom_get_bind,
      not_unsupported hC hk hl hs, hplain, hplain', List.isEmpty_nil, Bool.not_true, Bool.or_self,
      Bool.false_eq_true, if_false]
    rw [RelationM.runFrom_bind]
    rcases RelationM.runFrom _ s with ⟨⟨_⟩ | ⟨_⟩, _⟩ <;> rfl
  exact ⟨hrun ▸ hproperties.inv, hrun ▸ hproperties.grow, hrun ▸ hproperties.verdict⟩

/-! ## Forcing -/

/-- The rank of giving up. -/
def limitRank : Nat := RelationFailureKind.complexityLimit.propagationRank

omit hC in
theorem AliasSystem.Has.resolve {k : TypeKind} (hk : sys.Has k) :
    sys.Has (sys.resolve k) ∧ (sys.resolve k).isReference = false := by
  by_cases h : ∃ d, k = .deferred (.reference d [])
  · obtain ⟨d, rfl⟩ := h
    exact ⟨sys.has_kind (hk.body_mem d rfl), hk.body_resolved d rfl⟩
  · have hresolve : sys.resolve k = k := by
      unfold AliasSystem.resolve
      split <;> simp_all
    have hplain := hk.plain
    rw [hresolve]
    refine ⟨hk, ?_⟩
    unfold TypeKind.isReference
    split
    · next d arguments =>
      cases arguments with
      | nil => exact absurd ⟨d, rfl⟩ h
      | cons _ _ => cases hplain
    · rfl

omit hC in
theorem AliasSystem.Has.resolve_of_not_reference {k : TypeKind} (hk : k.isReference = false) :
    sys.resolve k = k := by
  unfold AliasSystem.resolve
  split
  · cases hk
  · rfl

omit hC in
theorem AliasSystem.Has.not_deferred {k : TypeKind} (hk : sys.Has k)
    (hreference : k.isReference = false) (query : DeferredType TypeId) : k ≠ .deferred query := by
  rintro rfl
  have hplain := hk.plain
  cases query <;> simp_all [TypeKind.isReference, TypeKind.isPlain]

omit hC in
theorem AliasSystem.Has.exists_of_reference {k : TypeKind} (hk : sys.Has k)
    (hreference : k.isReference = true) : ∃ d, k = .deferred (.reference d []) := by
  have hplain := hk.plain
  unfold TypeKind.isReference at hreference
  split at hreference
  · next d arguments =>
    cases arguments with
    | nil => exact ⟨d, rfl⟩
    | cons _ _ => cases hplain
  · cases hreference

/-- A type is forced to what it stands for, or the budget runs out. -/
theorem force_cases {k : TypeKind} (hk : sys.Has k) (r : Relation) {t : TypeId}
    (source target : TypeId) {s : σ} (hs : I s) (ht : At C s t k) :
    ∃ s', I s' ∧ Extends (C.types s) (C.types s') ∧
      ((∃ t', (Relation.force C r t source target).runFrom s = (.ok t', s') ∧
        At C s' t' (sys.resolve k) ∧ (k.isReference = false → t' = t ∧ s' = s)) ∨
      (Relation.force C r t source target).runFrom s =
        (.error (failure source target .complexityLimit), s')) := by
  have hrun : (Relation.force C r t source target).runFrom s =
      (Relation.relationInput (C.forceType t r.evaluationDepth s).1 source target).runFrom
        (C.forceType t r.evaluationDepth s).2 := rfl
  cases hreference : k.isReference with
  | false =>
    have hforce := hC.force_resolved s t r.evaluationDepth hs fun query =>
      ht.kind ▸ hk.not_deferred hreference query
    refine ⟨s, hs, .refl _, .inl ⟨t, ?_, ?_, fun _ => ⟨rfl, rfl⟩⟩⟩
    · rw [hrun, hforce]
      rfl
    · rwa [AliasSystem.Has.resolve_of_not_reference hreference]
  | true =>
    obtain ⟨d, rfl⟩ := hk.exists_of_reference hreference
    obtain ⟨hanswer, hs', hgrow⟩ := hC.force_reference s t r.evaluationDepth d hs ht.kind
    refine ⟨_, hs', hgrow, ?_⟩
    rw [hrun]
    rcases hanswer with hanswer | hanswer <;> rw [hanswer]
    · exact .inl ⟨sys.body d, rfl, hC.at_kind hs' (hk.body_mem d rfl), by simp⟩
    · exact .inr rfl

omit hC in
theorem AliasSystem.Has.eq_object {k : TypeKind} (hk : sys.Has k) {shape : ObjectShape}
    (h : Relation.objectShape k = some shape) : k = .object shape := by
  have hplain := hk.plain
  unfold Relation.objectShape at h
  split at h
  · exact congrArg TypeKind.object (Option.some.inj h)
  · cases hplain
  · cases h

/-- Comparing two types that stand for themselves. -/
theorem leads_relateForced (hA : Answers C I sys relate A s₀) {k l : TypeKind} (hk : sys.Has k)
    (hl : sys.Has l) (hreference : k.isReference = false ∧ l.isReference = false)
    {source target : TypeId} {s : σ} (hs : I s) (hgrow : Extends (C.types s₀) (C.types s))
    (hsource : At C s source k) (htarget : At C s target l) :
    Leads C I s (Relation.relateForced C relate source target .subtype)
      ((sys.structuralRules strict k l).Evaluates A) := by
  have hplain := hk.plain
  have hplain' := hl.plain
  have hinvalid : ∀ k : TypeKind, k.isPlain → Relation.isInvalid k = false := by
    intro k hk
    cases k with
    | invalid _ => cases hk
    | _ => rfl
  have herror : ¬(k = .error ∨ l = .error) := by
    rintro (rfl | rfl)
    · cases hplain
    · cases hplain'
  have hstrict := hC.strictNullChecks s hs
  unfold Relation.relateForced
  refine .get_bind (.get_bind ?_)
  simp only [hsource.kind, htarget.kind, hinvalid k hplain, hinvalid l hplain', Bool.or_self,
    Bool.false_eq_true, if_false, herror, hC.strictNullChecks s hs, reduceCtorEq, false_and]
  unfold AliasSystem.structuralRules
  split_ifs
  · exact .pure hs rfl
  · exact .throw hs rfl
  · exact .pure hs rfl
  · split
    · next sourceShape targetShape hsourceShape htargetShape =>
      obtain rfl := hk.eq_object hsourceShape
      obtain rfl := hl.eq_object htargetShape
      exact leads_relateObjectShapes hC hA hk hl hs hgrow
    · next hshape =>
      refine leads_relateKinds hC hA hk hl hreference ?_ hs hgrow hsource htarget
      cases hk' : Relation.objectShape k with
      | none => exact .inl rfl
      | some sourceShape =>
        cases hl' : Relation.objectShape l with
        | none => exact .inr rfl
        | some targetShape => exact absurd hl' (hshape _ _ hk')

/-- Comparing two types that are not the same, up to the comparisons it leads to. -/
theorem leads_relateActive (hA : Answers C I sys relate A s₀) {k l : TypeKind} (hk : sys.Has k)
    (hl : sys.Has l) (hkl : k ≠ l) (r : Relation) {source target : TypeId} {s : σ} (hs : I s)
    (hgrow : Extends (C.types s₀) (C.types s)) (hsource : At C s source k)
    (htarget : At C s target l) :
    Leads C I s (Relation.relateActive C relate r source target .subtype)
      (fun v => v = .failure limitRank ∨ (sys.rules strict (k, l)).Evaluates A v) := by
  rcases force_cases hC hk r source target hs hsource with
    ⟨s₁, hs₁, hgrow₁, ⟨a, ha, hata, hsame₁⟩ | hlimit⟩
  swap
  · have hrun : (Relation.relateActive C relate r source target .subtype).runFrom s =
        (.error (failure source target .complexityLimit), s₁) := by
      rw [Relation.relateActive, RelationM.runFrom_bind, hlimit]
    exact .of_run hrun hs₁ hgrow₁ (.inl rfl)
  rcases force_cases hC hl r source target hs₁ (htarget.grown hgrow₁) with
    ⟨s₂, hs₂, hgrow₂, ⟨b, hb, hatb, hsame₂⟩ | hlimit⟩
  swap
  · have hrun : (Relation.relateActive C relate r source target .subtype).runFrom s =
        (.error (failure source target .complexityLimit), s₂) := by
      rw [Relation.relateActive, RelationM.runFrom_bind, ha]
      simp only
      rw [RelationM.runFrom_bind, hlimit]
    exact .of_run hrun hs₂ (hgrow₁.trans hgrow₂) (.inl rfl)
  have hrun : (Relation.relateActive C relate r source target .subtype).runFrom s =
      (if a ≠ source ∨ b ≠ target then relate a b .subtype
      else Relation.relateForced C relate source target .subtype).runFrom s₂ := by
    rw [Relation.relateActive, RelationM.runFrom_bind, ha]
    simp only
    rw [RelationM.runFrom_bind, hb]
  have hgrow' := hgrow₁.trans hgrow₂
  have hrules : sys.rules strict (k, l) =
      if k.isReference || l.isReference then .all [(sys.resolve k, sys.resolve l)]
      else sys.structuralRules strict k l := if_neg hkl
  rw [hrules]
  split
  · next hreference =>
    have hne : a ≠ source ∨ b ≠ target := by
      by_contra! hsame
      obtain ⟨rfl, rfl⟩ := hsame
      have hk' : k = sys.resolve k := (hsource.grown hgrow₁).kind.symm.trans hata.kind
      have hl' : l = sys.resolve l := (htarget.grown hgrow').kind.symm.trans hatb.kind
      rw [hk', hl', hk.resolve.2, hl.resolve.2] at hreference
      cases hreference
    rw [if_pos hne] at hrun
    have hlead := hA s₂ a b _ _ hs₂ (hgrow.trans hgrow') (hata.grown hgrow₂) hatb hk.resolve.1
      hl.resolve.1
    constructor <;> rw [hrun]
    · exact hlead.inv
    · exact hgrow'.trans hlead.grow
    · exact .inr (.single hlead.verdict)
  · next hreference =>
    simp only [Bool.or_eq_true, not_or, Bool.not_eq_true] at hreference
    obtain ⟨rfl, rfl⟩ := hsame₁ hreference.1
    obtain ⟨rfl, rfl⟩ := hsame₂ hreference.2
    simp only [ne_eq, not_true_eq_false, or_self, if_false] at hrun
    have hlead := leads_relateForced hC hA hk hl hreference hs hgrow hsource htarget
    constructor <;> rw [hrun]
    · exact hlead.inv
    · exact hlead.grow
    · exact .inr hlead.verdict

omit hC in
/-- References without arguments never grow. -/
theorem generativeExpansion_nil (s : TypeStore) (stack : ReferenceExpansionStack) (t : TypeId)
    (d : DeclId) : stack.generativeExpansion s t d [] = none := by
  unfold ReferenceExpansionStack.generativeExpansion
  rw [List.findSome?_eq_none_iff]
  rintro ⟨ancestor, index⟩ -
  have hdistinct : ReferenceExpansionKey.recursionFrom s
      { demand := stack.demand, reference := t, declaration := d, arguments := [] } ancestor ≠
        .generative := by
    unfold ReferenceExpansionKey.recursionFrom
    split_ifs with h₁ h₂ h₃
    · simp
    · simp
    · simp [TypeStore.argumentsGenerativelyExpand] at h₃
    · simp
  exact if_neg hdistinct

omit hC in
theorem AliasSystem.Has.deferredReference {k : TypeKind} (hk : sys.Has k) (d : DeclId)
    (arguments : List TypeId) (h : Relation.deferredReference k = some (d, arguments)) :
    arguments = [] := by
  have hplain := hk.plain
  unfold Relation.deferredReference at h
  split at h
  · next d' arguments' =>
    cases h
    cases arguments with
    | nil => rfl
    | cons _ _ => cases hplain
  · cases h

omit hC in
theorem AliasSystem.Has.not_generative {k : TypeKind} (hk : sys.Has k) (s : TypeStore)
    (stack : ReferenceExpansionStack) (t : TypeId) :
    ((Relation.deferredReference k).bind fun reference =>
      stack.generativeExpansion s t reference.1 reference.2) = none := by
  rw [Option.bind_eq_none_iff]
  rintro ⟨d, arguments⟩ h
  obtain rfl := hk.deferredReference d arguments h
  exact generativeExpansion_nil s stack t d

theorem leads_relateWithReferenceStacks {r : Relation}
    {relate : Relation → TypeId → TypeId → RelationMode → RelationM σ Unit}
    (hA : ∀ r', r'.active = r.active → Answers C I sys (relate r') A s₀) {k l : TypeKind}
    (hk : sys.Has k) (hl : sys.Has l) (hkl : k ≠ l) {source target : TypeId} {s : σ} (hs : I s)
    (hgrow : Extends (C.types s₀) (C.types s)) (hsource : At C s source k)
    (htarget : At C s target l) :
    Leads C I s (Relation.relateWithReferenceStacks C relate r source target .subtype)
      (fun v => v = .failure limitRank ∨ (sys.rules strict (k, l)).Evaluates A v) := by
  unfold Relation.relateWithReferenceStacks
  refine .get_bind ?_
  simp only [hsource.kind, hk.not_generative]
  refine leads_relateActive hC ?_ hk hl hkl _ hs hgrow hsource htarget
  exact hA _ rfl

/-! ## The search -/

/-- The pairs in progress are comparisons in progress. -/
def Tracks (C : RelationContext σ) (s : σ) (r : Relation)
    (active : List (TypeKind × TypeKind)) : Prop :=
  ∀ key ∈ r.active, ∃ k l, At C s key.source k ∧ At C s key.target l ∧ (k, l) ∈ active

omit hC in
theorem Tracks.grown {s s' : σ} {r : Relation} {active : List (TypeKind × TypeKind)}
    (h : Tracks C s r active) (hs : Extends (C.types s) (C.types s')) : Tracks C s' r active := by
  intro key hkey
  obtain ⟨k, l, hk, hl, hmem⟩ := h key hkey
  exact ⟨k, l, hk.grown hs, hl.grown hs, hmem⟩

omit hC in
theorem isFreshDeferred_of_isPlain {k : TypeKind} (hk : k.isPlain) :
    isFreshDeferred k = false := by
  unfold isFreshDeferred
  split <;> first | cases hk | rfl

omit hC in
theorem evaluates_rules_self (k : TypeKind) : (sys.rules strict (k, k)).Evaluates A .ok := by
  have hrules : sys.rules strict (k, k) = .decided .ok := if_pos rfl
  rw [hrules]
  rfl

/-- A run of the relation is a search of the rules. -/
theorem leads_relateInner (levels : Nat) (r : Relation) (active : List (TypeKind × TypeKind))
    {k l : TypeKind} (hk : sys.Has k) (hl : sys.Has l) {source target : TypeId} {s : σ}
    (hs : I s) (hactive : Tracks C s r active) (hsource : At C s source k)
    (htarget : At C s target l) :
    Leads C I s (Relation.relateInner C levels r source target .subtype)
      (Searches (sys.rules strict) limitRank levels active (k, l)) := by
  induction levels generalizing r active k l source target s with
  | zero =>
    unfold Relation.relateInner
    split_ifs with hsame
    · obtain rfl : k = l := hsource.kind.symm.trans (hsame ▸ htarget.kind)
      exact .pure hs (.inr (.inr (evaluates_rules_self k)))
    · exact .throw hs (.inl rfl)
  | succ levels ih =>
    unfold Relation.relateInner
    split_ifs with hsame
    · obtain rfl : k = l := hsource.kind.symm.trans (hsame ▸ htarget.kind)
      exact .pure hs (.inr (.inr (evaluates_rules_self k)))
    refine .get_bind ?_
    have hkl : k ≠ l := by
      rintro rfl
      refine hsame ((hC.wellFormed s hs).toConsistent.eq_of_kind_eq hsource.contains
        htarget.contains ?_ (hsource.kind.trans htarget.kind.symm))
      rw [hsource.kind]
      exact isFreshDeferred_of_isPlain hk.plain
    have hassignment : Relation.assignmentSource (C.types s) target .subtype
        ((C.types s).kinds.length + 1) source = source := by
      unfold Relation.assignmentSource
      rfl
    have hkeys : Relation.anyToKeysOfParameter (C.types s) source target .subtype = false := rfl
    simp only [hassignment, hsame, hkeys, if_false, Bool.false_eq_true]
    split_ifs with hkey
    · obtain ⟨k', l', hk', hl', hmem⟩ := hactive _ hkey
      obtain rfl := hk'.kind.symm.trans hsource.kind
      obtain rfl := hl'.kind.symm.trans htarget.kind
      exact .pure hs (.inr (.inl ⟨hmem, rfl⟩))
    · let key : RelationQueryKey := { source, target, mode := .subtype }
      have hanswers : ∀ r' : Relation, r'.active = key :: r.active →
          Answers C I sys (Relation.relateInner C levels r')
            (Searches (sys.rules strict) limitRank levels ((k, l) :: active)) s := by
        intro r' hr' s' a b k' l' hs' hgrow ha hb hk' hl'
        refine ih _ _ hk' hl' hs' ?_ ha hb
        intro key' hmem
        rw [hr'] at hmem
        rcases List.mem_cons.mp hmem with rfl | hmem
        · exact ⟨k, l, hsource.grown hgrow, htarget.grown hgrow, List.mem_cons_self⟩
        · obtain ⟨k'', l'', hk'', hl'', hmem'⟩ := hactive key' hmem
          exact ⟨k'', l'', hk''.grown hgrow, hl''.grown hgrow, .tail _ hmem'⟩
      have hleads := leads_relateWithReferenceStacks hC
        (r := { r with active := key :: r.active }) hanswers hk hl hkl hs (.refl _) hsource htarget
      exact hleads.mono fun v hv => hv.imp_right .inr

end arms

/-! ## The decision -/

namespace AliasSystem

/-- The match itself fails definitively, except that an array is not compared with the
properties of an object. -/
theorem failure_of_rules {sys : AliasSystem} {strict : Bool} {g : TypeKind × TypeKind} {rank : Nat}
    (h : sys.rules strict g = .decided (.failure rank)) :
    rank = 0 ∨ rank = RelationFailureKind.deferred.propagationRank ∧
      ∃ element shape, shape.properties ≠ [] ∧ g = (.array element, .object shape) := by
  obtain ⟨k, l⟩ := g
  unfold rules structuralRules at h
  simp only at h
  split_ifs at h
  · cases h
  · cases h
  · cases h
    exact .inl rfl
  · cases h
  · unfold matchRules at h
    split at h
    case h_14 =>
      split_ifs at h with hempty
      · cases h
      · cases h
        exact .inr ⟨rfl, _, _, by simpa using hempty, rfl⟩
    all_goals first
      | (cases h; done)
      | (split_ifs at h <;> cases h <;> exact .inl rfl)
      | (cases h; exact .inl rfl)

theorem within_rules {sys : AliasSystem} {strict : Bool} (g : TypeKind × TypeKind) (v : Verdict)
    (h : sys.rules strict g = .decided v) : Plan.Within limitRank v := by
  rintro rank rfl
  rcases failure_of_rules h with rfl | ⟨rfl, -⟩
  · exact Nat.zero_le _
  · decide

end AliasSystem

theorem RelationFailureKind.eq_of_propagationRank {kind kind' : RelationFailureKind}
    (h : kind.propagationRank = kind'.propagationRank) (hrank : 0 < kind'.propagationRank) :
    kind = kind' := by
  cases kind <;> cases kind' <;> simp_all [propagationRank]

/-- Unless the budget of levels runs out, a pair of the greatest relation closed under the
rules is accepted, and any other pair is refuted: definitively, except where an array is
compared with an object that has properties, which stays undecided. -/
theorem relateTypes_decides_greatest {C : RelationContext σ} {I : σ → Prop} {sys : AliasSystem}
    {strict : Bool} (hC : ResolvesAliases C I sys strict) {s : σ} (hs : I s)
    {source target : TypeId} (hsource : source ∈ sys.types) (htarget : target ∈ sys.types)
    (hlimit : ∀ e, ((relateTypes C source target .subtype).runFrom s).1 = .error e →
      e.kind ≠ .complexityLimit) :
    (sys.Related strict source target →
      ((relateTypes C source target .subtype).runFrom s).1 = .ok ()) ∧
    (¬ sys.Related strict source target →
      ∃ e, ((relateTypes C source target .subtype).runFrom s).1 = .error e ∧
        (e.kind.propagationRank = 0 ∨
          e.kind = .deferred ∧ sys.ComparesArrayWithObject strict source target)) := by
  have hrun := (leads_relateInner hC 101
    { active := []
      sourceReferences := .new .relationSource
      targetReferences := .new .relationTarget
      evaluationDepth := 0 } [] (sys.has_kind hsource) (sys.has_kind htarget) hs
    (by simp [Tracks]) (hC.at_kind hs hsource) (hC.at_kind hs htarget)).verdict
  change Searches _ _ _ _ _ (outcome ((relateTypes C source target .subtype).runFrom s).1) at hrun
  cases hresult : ((relateTypes C source target .subtype).runFrom s).1 with
  | ok u =>
    rw [hresult] at hrun
    exact ⟨fun _ => rfl, fun h => absurd hrun.sound h⟩
  | error e =>
    rw [hresult] at hrun
    have hnotLimit : e.kind.propagationRank ≠ limitRank := fun h =>
      hlimit e hresult (RelationFailureKind.eq_of_propagationRank h (by decide))
    refine ⟨fun h => ?_, fun _ => ⟨e, rfl, ?_⟩⟩
    · rcases hrun.complete AliasSystem.within_rules h with h | h
      · cases h
      · exact absurd (Verdict.failure.inj h) hnotLimit
    · rcases hrun.origin with h | h | ⟨g, hg, h⟩
      · exact .inl h
      · exact absurd h hnotLimit
      · rcases AliasSystem.failure_of_rules h with h | ⟨hrank, element, shape, hshape, rfl⟩
        · exact .inl h
        · exact .inr ⟨RelationFailureKind.eq_of_propagationRank hrank (by decide), element, shape,
            hshape, hg⟩

/-! ## Two recursive aliases -/

/-- `type A = { next: A; value: number }` (13 and 16), `type B = { next: B; value: number |
string }` (14 and 17), and `number[]` (18). -/
def twoListsStore : TypeStore :=
  let property (name : String) (ty : Nat) : Property :=
    { name, ty := ⟨ty⟩, optional := false, readonly := false }
  let s := (new.intern (.deferred (.reference ⟨⟨0⟩, 0⟩ []))).2
  let s := (s.intern (.deferred (.reference ⟨⟨0⟩, 1⟩ []))).2
  let s := (s.union [⟨8⟩, ⟨9⟩] .canonical).2
  let s := (s.intern (.object { properties := [property "next" 13, property "value" 8] })).2
  let s := (s.intern (.object { properties := [property "next" 14, property "value" 15] })).2
  (s.intern (.array ⟨8⟩)).2

theorem reachable_twoListsStore : Reachable twoListsStore :=
  .intern (.intern (.intern (.union (.intern (.intern .new (by decide) nofun nofun) (by decide)
    nofun nofun) (by decide +kernel)) (by decide +kernel) nofun nofun) (by decide +kernel) nofun
    nofun) (by decide +kernel) nofun nofun

def twoListsTypes : List TypeId :=
  [⟨7⟩, ⟨8⟩, ⟨9⟩, ⟨13⟩, ⟨14⟩, ⟨15⟩, ⟨16⟩, ⟨17⟩, ⟨18⟩]

def twoLists : AliasSystem where
  store := twoListsStore
  wellFormed := reachable_twoListsStore.wellFormed
  types := {t | t ∈ twoListsTypes}
  boolean_mem := (by decide +kernel : twoListsStore.builtins.boolean ∈ twoListsTypes)
  body d := if d.index = 0 then ⟨16⟩ else ⟨17⟩
  contains := (by decide +kernel : ∀ t ∈ twoListsTypes, twoListsStore.Contains t)
  plain := (by decide +kernel : ∀ t ∈ twoListsTypes, (twoListsStore.kind t).isPlain)
  children := (by decide +kernel :
    ∀ t ∈ twoListsTypes, ∀ c ∈ (twoListsStore.kind t).children, c ∈ twoListsTypes)
  body_mem _ _ d _ := by
    split
    · exact (by decide : (⟨16⟩ : TypeId) ∈ twoListsTypes)
    · exact (by decide : (⟨17⟩ : TypeId) ∈ twoListsTypes)
  body_resolved _ _ d _ := by split <;> decide +kernel

/-- A run of the relation on the two lists. -/
def compareLists (source target : TypeId) : Except RelationFailure Unit :=
  ((relateTypes (twoLists.context true) source target .subtype).runFrom twoListsStore).1

/-- The first list is related to the second, but not the other way round. -/
theorem relateTypes_decides_greatest_twoLists :
    twoLists.Related true ⟨13⟩ ⟨14⟩ ∧ ¬ twoLists.Related true ⟨14⟩ ⟨13⟩ := by
  have hI := And.intro reachable_twoListsStore.wellFormed (Extends.refl twoListsStore)
  have hmem : ∀ t ∈ twoListsTypes, t ∈ twoLists.types := fun _ ht => ht
  have hforward : outcome (compareLists ⟨13⟩ ⟨14⟩) = .ok := by decide +kernel
  have hbackward : outcome (compareLists ⟨14⟩ ⟨13⟩) = .failure 0 := by decide +kernel
  constructor
  · by_contra hunrelated
    obtain ⟨e, he, -⟩ := (relateTypes_decides_greatest (twoLists.resolvesAliases_context true) hI
      (hmem ⟨13⟩ (by decide)) (hmem ⟨14⟩ (by decide))
      fun e he => by simp_all [compareLists, outcome]).2 hunrelated
    simp_all [compareLists, outcome]
  · intro hrelated
    have hok := (relateTypes_decides_greatest (twoLists.resolvesAliases_context true) hI
      (hmem ⟨14⟩ (by decide)) (hmem ⟨13⟩ (by decide))
      fun e he hkind => by simp_all [compareLists, outcome, RelationFailureKind.propagationRank]).1
        hrelated
    simp_all [compareLists, outcome]

/-- Neither is an array related to the second list, but that is not said definitively. -/
theorem array_to_object_undecided :
    ¬ ∀ (sys : AliasSystem) (strict : Bool) (source target : TypeId), source ∈ sys.types →
      target ∈ sys.types → ∀ result : Except RelationFailure Unit,
      result = ((relateTypes (sys.context strict) source target .subtype).runFrom sys.store).1 →
      (∀ e, result = .error e → e.kind ≠ .complexityLimit) →
      (sys.Related strict source target → result = .ok ()) ∧
        (¬ sys.Related strict source target →
          ∃ e, result = .error e ∧ e.kind.propagationRank = 0) := by
  intro hclaim
  have houtcome : outcome (compareLists ⟨18⟩ ⟨17⟩) = .failure 2 := by decide +kernel
  have hmem : ∀ t ∈ twoListsTypes, t ∈ twoLists.types := fun _ ht => ht
  obtain ⟨hok, hfailure⟩ := hclaim twoLists true ⟨18⟩ ⟨17⟩ (hmem _ (by decide)) (hmem _ (by decide))
    (compareLists ⟨18⟩ ⟨17⟩) rfl fun e he hkind => by
      simp_all [outcome, RelationFailureKind.propagationRank]
  by_cases hrelated : twoLists.Related true ⟨18⟩ ⟨17⟩
  · simp [hok hrelated, outcome] at houtcome
  · obtain ⟨e, he, hrank⟩ := hfailure hrelated
    simp [he, outcome, hrank] at houtcome

end Tsz.Semantics
