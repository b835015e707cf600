import Tsz.Semantics.Decision

/-!
# Transitivity of subtyping

On types without references the greatest relation closed under the structural rules is
transitive, except that a tuple is related to an array, an array to the empty object type,
but no tuple to the empty object type.
-/

namespace Tsz.Semantics

open Recursion TypeStore

/-! ## The match on types that are not unions -/

def TypeKind.isUnion : TypeKind → Bool
  | .union _ => true
  | _ => false

/-- The object types, and those that have a place below `object`. -/
def TypeKind.isObjectLike : TypeKind → Bool
  | .object _ | .array _ | .tuple _ => true
  | _ => false

theorem eq_union_of_isUnion {k : TypeKind} (h : k.isUnion = true) : ∃ ms, k = .union ms := by
  cases k with
  | union ms => exact ⟨ms, rfl⟩
  | _ => cases h

namespace AliasSystem

/-- The ways in which one type that is not a union is related to another. -/
inductive Arm (sys : AliasSystem) (R : Set (TypeKind × TypeKind)) : TypeKind → TypeKind → Prop
  | string (v : String) (p : LiteralProvenance) : Arm sys R (.literalString v p) .string
  | number (v : NumericLiteral) (p : LiteralProvenance) : Arm sys R (.literalNumber v p) .number
  | boolean (v : Bool) (p : LiteralProvenance) : Arm sys R (.literalBoolean v p) .boolean
  | sameString (v : String) (p p' : LiteralProvenance) :
    Arm sys R (.literalString v p) (.literalString v p')
  | sameNumber (v : NumericLiteral) (p p' : LiteralProvenance) :
    Arm sys R (.literalNumber v p) (.literalNumber v p')
  | sameBoolean (v : Bool) (p p' : LiteralProvenance) :
    Arm sys R (.literalBoolean v p) (.literalBoolean v p')
  | objectKeyword {k : TypeKind} (hk : k.isObjectLike) : Arm sys R k .objectKeyword
  | object {source target : ObjectShape}
    (hmissing : Relation.missingProperties (some source.properties) target.properties = [])
    (h : ∀ g ∈ sys.commonProperties source target, g ∈ R) :
    Arm sys R (.object source) (.object target)
  | array {x y : TypeId} (h : (sys.store.kind x, sys.store.kind y) ∈ R) :
    Arm sys R (.array x) (.array y)
  | emptyObject {x : TypeId} {shape : ObjectShape} (hshape : shape.properties = []) :
    Arm sys R (.array x) (.object shape)
  | tuple {xs ys : List TypeId} (hlength : xs.length = ys.length)
    (h : ∀ p ∈ xs.zip ys, (sys.store.kind p.1, sys.store.kind p.2) ∈ R) :
    Arm sys R (.tuple xs) (.tuple ys)
  | tupleArray {xs : List TypeId} {y : TypeId} (h : (sys.unionKind xs, sys.store.kind y) ∈ R) :
    Arm sys R (.tuple xs) (.array y)

theorem arm_iff (sys : AliasSystem) {R : Set (TypeKind × TypeKind)} {k l : TypeKind}
    (hk : k.isUnion = false) (hl : l.isUnion = false) :
    (sys.matchRules k l).Holds R ↔ sys.Arm R k l := by
  constructor
  · intro h
    unfold matchRules at h
    split at h
    case h_1 => exact .string _ _
    case h_2 => exact .number _ _
    case h_3 => exact .boolean _ _
    case h_4 | h_5 | h_6 => exact .objectKeyword rfl
    case h_7 | h_8 | h_9 =>
      simp only [Plan.Holds, ite_eq_left_iff, reduceCtorEq, imp_false, not_not] at h
      subst h
      constructor
    case h_10 | h_11 => simp_all [TypeKind.isUnion]
    case h_12 =>
      split at h
      · next hmissing => exact .object hmissing h
      · simp [Plan.Holds] at h
    case h_13 => exact .array (h _ (by simp))
    case h_14 =>
      refine .emptyObject ?_
      by_contra hne
      simp [Plan.Holds, hne] at h
    case h_15 =>
      split at h
      · next hlength =>
        exact .tuple hlength fun p hp => h _ (List.mem_map.mpr ⟨p, hp, rfl⟩)
      · simp [Plan.Holds] at h
    case h_16 => exact .tupleArray (h _ (by simp))
    case h_17 => simp [Plan.Holds] at h
  · intro h
    cases h with
    | objectKeyword hk => cases k <;> first | rfl | cases hk
    | object hmissing h =>
      have hrules : sys.matchRules (.object _) (.object _) = .all _ := if_pos hmissing
      rwa [hrules]
    | tuple hlength h =>
      have hrules : sys.matchRules (.tuple _) (.tuple _) = .all _ := if_pos hlength
      rw [hrules]
      intro g hg
      obtain ⟨p, hp, rfl⟩ := List.mem_map.mp hg
      exact h p hp
    | _ => simp_all [matchRules, Plan.Holds]

/-! ## Ground types -/

/-- A system without `any` and without references, whose unions are those of the store. -/
structure IsGround (sys : AliasSystem) : Prop where
  reachable : Reachable sys.store
  any : ∀ t ∈ sys.types, sys.store.kind t ≠ .any
  reference : ∀ t ∈ sys.types, (sys.store.kind t).isReference = false

/-- The kinds the comparisons of such a system meet. -/
structure Ground (sys : AliasSystem) (k : TypeKind) : Prop extends sys.Has k where
  any : k ≠ .any
  reference : k.isReference = false
  flat : ∀ ms, k = .union ms → ∀ m ∈ ms, IsFlat (sys.store.kind m)
  booleans : ∀ ms, k = .union ms →
    ¬ (sys.store.anyKind ms (·.isBooleanLiteral true) ∧
      sys.store.anyKind ms (·.isBooleanLiteral false))

variable {sys : AliasSystem}

theorem IsGround.ground_kind (h : sys.IsGround) {t : TypeId} (ht : t ∈ sys.types) :
    sys.Ground (sys.store.kind t) where
  toHas := sys.has_kind ht
  any := h.any t ht
  reference := h.reference t ht
  flat ms hms m hm := (sys.wellFormed.unions t ms (sys.contains t ht) hms).2 m hm
  booleans ms hms := by
    obtain ⟨s₀, members, policy, hgrow, hs₀, hmembers, hcombined⟩ :=
      h.reachable.union_origin (sys.contains t ht) hms
    have hnot := not_both_booleans hs₀.wellFormed policy (members.flatMap s₀.unionMembers)
    rw [unionList_of_combined hcombined] at hnot
    have hcontains : ∀ m ∈ ms, s₀.Contains m :=
      contains_of_combined hcombined fun _ => contains_normalizeUnion hs₀.wellFormed hmembers
    have hkinds (p : TypeKind → Bool) : sys.store.anyKind ms p = s₀.anyKind ms p := by
      rw [Bool.eq_iff_iff, anyKind_eq_true, anyKind_eq_true]
      exact exists_congr fun m => and_congr_right fun hm => by rw [hgrow.kind (hcontains m hm)]
    rwa [hkinds, hkinds]

theorem Ground.member (h : sys.IsGround) {ms : List TypeId} (hk : sys.Ground (.union ms))
    {m : TypeId} (hm : m ∈ ms) :
    sys.Ground (sys.store.kind m) ∧ (sys.store.kind m).isUnion = false ∧
      sys.store.kind m ≠ .unknown := by
  have hflat := hk.flat ms rfl m hm
  refine ⟨h.ground_kind (hk.children m hm), ?_, hflat.unknown⟩
  unfold TypeKind.isUnion
  split
  · next ms' hms' => exact absurd hms' (hflat.union ms')
  · rfl

theorem holds_rules_iff {R : Set (TypeKind × TypeKind)} {k l : TypeKind}
    (hk : k.isReference = false) (hl : l.isReference = false) :
    (sys.rules true (k, l)).Holds R ↔
      k = l ∨ k = .never ∨ l = .unknown ∨ l ≠ .never ∧ (sys.matchRules k l).Holds R := by
  by_cases hkl : k = l
  · subst hkl
    simp [rules, Plan.Holds]
  · have hrules : sys.rules true (k, l) = sys.structuralRules true k l := by
      simp only [rules, hkl, hk, hl, Bool.or_self, Bool.false_eq_true, if_false]
    rw [hrules, structuralRules]
    split_ifs with hdone hnever hnull
    · simp [Plan.Holds, or_assoc.symm, hdone]
    · simp [Plan.Holds, not_or.mp hdone, hnever]
    · simp at hnull
    · simp [hkl, not_or.mp hdone, hnever]

/-- The greatest relation closed under the rules, on kinds. -/
def Le (sys : AliasSystem) (k l : TypeKind) : Prop := (k, l) ∈ Greatest (sys.rules true)

theorem le_iff {k l : TypeKind} (hk : sys.Ground k) (hl : sys.Ground l) :
    sys.Le k l ↔ k = l ∨ k = .never ∨ l = .unknown ∨
      l ≠ .never ∧ (sys.matchRules k l).Holds (Greatest (sys.rules true)) :=
  (mem_greatest_iff _).trans (holds_rules_iff hk.reference hl.reference)

theorem Ground.le_refl {k : TypeKind} (hk : sys.Ground k) : sys.Le k k :=
  (le_iff hk hk).mpr (.inl rfl)

theorem Ground.eq_never_of_le {k : TypeKind} (hk : sys.Ground k) (hnever : sys.Ground .never)
    (h : sys.Le k .never) : k = .never := by
  rcases (le_iff hk hnever).mp h with h | h | h | ⟨h, -⟩
  · exact h
  · exact h
  · cases h
  · exact absurd rfl h

theorem holds_union_source {R : Set (TypeKind × TypeKind)} {ms : List TypeId} {l : TypeKind} :
    (sys.matchRules (.union ms) l).Holds R ↔ ∀ m ∈ ms, (sys.store.kind m, l) ∈ R := by
  have hrules : sys.matchRules (.union ms) l = .all _ := rfl
  rw [hrules]
  simp only [Plan.Holds, List.forall_mem_map, mem_sortMembers]

theorem holds_union_target {R : Set (TypeKind × TypeKind)} {ms : List TypeId} {k : TypeKind}
    (hk : k.isUnion = false) :
    (sys.matchRules k (.union ms)).Holds R ↔ ∃ m ∈ ms, (k, sys.store.kind m) ∈ R := by
  have hrules : sys.matchRules k (.union ms) = .any (ms.map fun m => (k, sys.store.kind m)) := by
    cases k <;> first | rfl | cases hk
  simp [hrules, Plan.Holds]

section ground

variable {k l m : TypeKind}

/-- What is below a member of a union is below the union. -/
theorem Ground.le_union {ms : List TypeId} (hk : sys.Ground k) (hunion : k.isUnion = false)
    (hl : sys.Ground (.union ms)) {x : TypeId} (hx : x ∈ ms) (h : sys.Le k (sys.store.kind x)) :
    sys.Le k (.union ms) :=
  (le_iff hk hl).mpr (.inr (.inr (.inr ⟨nofun, (holds_union_target hunion).mpr ⟨x, hx, h⟩⟩)))

/-- A type that is not a union is only below a union when it is below a member. -/
theorem Ground.exists_of_le_union {ms : List TypeId} (hk : sys.Ground k)
    (hunion : k.isUnion = false) (hnever : k ≠ .never) (hl : sys.Ground (.union ms))
    (h : sys.Le k (.union ms)) : ∃ x ∈ ms, sys.Le k (sys.store.kind x) := by
  rcases (le_iff hk hl).mp h with rfl | h | h | ⟨-, h⟩
  · cases hunion
  · exact absurd h hnever
  · cases h
  · exact (holds_union_target hunion).mp h

/-- Different types that are not unions are related by an arm of the match. -/
theorem Ground.arm_of_le (hk : sys.Ground k) (hunion : k.isUnion = false) (hnever : k ≠ .never)
    (hl : sys.Ground l) (hunion' : l.isUnion = false) (hunknown : l ≠ .unknown) (hkl : k ≠ l)
    (h : sys.Le k l) : sys.Arm (Greatest (sys.rules true)) k l := by
  rcases (le_iff hk hl).mp h with h | h | h | ⟨-, h⟩
  · exact absurd h hkl
  · exact absurd h hnever
  · exact absurd h hunknown
  · exact (sys.arm_iff hunion hunion').mp h

variable (hground : sys.IsGround)

include hground

/-- The members of a union are below what the union is below. -/
theorem Ground.le_of_union_le {ms : List TypeId} (hk : sys.Ground (.union ms))
    (hl : sys.Ground l) (h : sys.Le (.union ms) l) {x : TypeId} (hx : x ∈ ms) :
    sys.Le (sys.store.kind x) l := by
  obtain ⟨hx', hunion, -⟩ := hk.member hground hx
  rcases (le_iff hk hl).mp h with rfl | h | h | ⟨-, h⟩
  · exact hx'.le_union hunion hk hx hx'.le_refl
  · cases h
  · exact (le_iff hx' hl).mpr (.inr (.inr (.inl h)))
  · exact holds_union_source.mp h x hx

/-- Only `unknown` is above `unknown`. -/
theorem Ground.eq_unknown_of_le (hk : sys.Ground .unknown) (hl : sys.Ground l)
    (h : sys.Le .unknown l) : l = .unknown := by
  have hmember {l : TypeKind} (hl : sys.Ground l) (hunion : l.isUnion = false)
      (h : sys.Le .unknown l) : l = .unknown := by
    by_contra hunknown
    cases hk.arm_of_le rfl nofun hl hunion hunknown (Ne.symm hunknown) h with
    | objectKeyword hlike => cases hlike
  cases hunion : l.isUnion with
  | false => exact hmember hl hunion h
  | true =>
    obtain ⟨ms, rfl⟩ := eq_union_of_isUnion hunion
    obtain ⟨x, hx, h⟩ := hk.exists_of_le_union rfl nofun hl h
    obtain ⟨hx', hunion, hunknown⟩ := hl.member hground hx
    exact absurd (hmember hx' hunion h) hunknown

end ground

/-! ## Parts of types -/

theorem mem_commonProperties {source target : ObjectShape} {g : TypeKind × TypeKind} :
    g ∈ sys.commonProperties source target ↔ ∃ p ∈ target.properties, ∃ q,
      source.properties.find? (fun property => property.name = p.name) = some q ∧
        g = (sys.store.kind q.ty, sys.store.kind p.ty) := by
  simp only [commonProperties, List.mem_filterMap, Option.map_eq_some_iff]
  exact exists_congr fun p => and_congr_right fun _ => exists_congr fun q =>
    and_congr_right fun _ => eq_comm

/-- No property is missing when each required one has a counterpart. -/
theorem missingProperties_eq_nil {source : List Property} {target : ObjectShape}
    (hplain : (TypeKind.object target).isPlain) :
    Relation.missingProperties (some source) target.properties = [] ↔
      ∀ p ∈ target.properties, ∃ q ∈ source, q.name = p.name := by
  simp only [TypeKind.isPlain, Bool.and_eq_true, List.all_eq_true, Bool.not_eq_true'] at hplain
  simp only [Relation.missingProperties, List.map_eq_nil_iff, List.filter_eq_nil_iff]
  refine forall₂_congr fun p hp => ?_
  simp [hplain.1.1.1 p hp]

section parts

variable (hground : sys.IsGround)

include hground

theorem Ground.element {x : TypeId} (hk : sys.Ground (.array x)) :
    sys.Ground (sys.store.kind x) :=
  hground.ground_kind (hk.children x (by simp [TypeKind.children]))

theorem Ground.tupleElement {xs : List TypeId} (hk : sys.Ground (.tuple xs)) {x : TypeId}
    (hx : x ∈ xs) : sys.Ground (sys.store.kind x) :=
  hground.ground_kind (hk.children x hx)

theorem Ground.property {shape : ObjectShape} (hk : sys.Ground (.object shape)) {p : Property}
    (hp : p ∈ shape.properties) : sys.Ground (sys.store.kind p.ty) :=
  hground.ground_kind (hk.children p.ty (by
    simp only [TypeKind.children, ObjectShape.children, List.mem_append, List.mem_map]
    exact .inl (.inl ⟨p, hp, rfl⟩)))

end parts

/-! ## Unions of ground types -/

theorem ground_primitive {k : TypeKind} (hplain : k.isPlain) (hany : k ≠ .any)
    (hreference : k.isReference = false) (hchildren : k.children = [])
    (hunion : k.isUnion = false) : sys.Ground k where
  toHas := has_of_isEmpty hplain hreference hchildren
  any := hany
  reference := hreference
  flat ms hms := by
    subst hms
    cases hunion
  booleans ms hms := by
    subst hms
    cases hunion

theorem ground_boolean : sys.Ground .boolean :=
  ground_primitive rfl nofun rfl rfl rfl

section literals

variable {k : TypeKind}

/-- What is below a literal is below its base type. -/
theorem Ground.le_of_le_literal {lit base : TypeKind} (hk : sys.Ground k)
    (hunion : k.isUnion = false) (hlit : sys.Ground lit) (hlitUnion : lit.isUnion = false)
    (hunknown : lit ≠ .unknown) (hbase : sys.Ground base) (hbaseUnion : base.isUnion = false)
    (hnever : base ≠ .never) (hself : sys.Arm (Greatest (sys.rules true)) lit base)
    (harm : ∀ k, sys.Arm (Greatest (sys.rules true)) k lit →
      sys.Arm (Greatest (sys.rules true)) k base) (h : sys.Le k lit) : sys.Le k base := by
  have hof {k : TypeKind} (hk : sys.Ground k) (hunion : k.isUnion = false)
      (h : sys.Arm (Greatest (sys.rules true)) k base) : sys.Le k base :=
    (le_iff hk hbase).mpr (.inr (.inr (.inr ⟨hnever, (sys.arm_iff hunion hbaseUnion).mpr h⟩)))
  by_cases hkn : k = .never
  · exact (le_iff hk hbase).mpr (.inr (.inl hkn))
  by_cases hkl : k = lit
  · subst hkl
    exact hof hk hunion hself
  · exact hof hk hunion (harm k (hk.arm_of_le hunion hkn hlit hlitUnion hunknown hkl h))

theorem Ground.le_string {v : String} {p : LiteralProvenance} (hk : sys.Ground k)
    (hunion : k.isUnion = false) (hlit : sys.Ground (.literalString v p))
    (h : sys.Le k (.literalString v p)) : sys.Le k .string := by
  refine hk.le_of_le_literal hunion hlit rfl nofun (ground_primitive rfl nofun rfl rfl rfl) rfl
    nofun (.string v p) (fun k harm => ?_) h
  cases harm
  exact .string _ _

theorem Ground.le_number {v : NumericLiteral} {p : LiteralProvenance} (hk : sys.Ground k)
    (hunion : k.isUnion = false) (hlit : sys.Ground (.literalNumber v p))
    (h : sys.Le k (.literalNumber v p)) : sys.Le k .number := by
  refine hk.le_of_le_literal hunion hlit rfl nofun (ground_primitive rfl nofun rfl rfl rfl) rfl
    nofun (.number v p) (fun k harm => ?_) h
  cases harm
  exact .number _ _

theorem Ground.le_boolean {v : Bool} {p : LiteralProvenance} (hk : sys.Ground k)
    (hunion : k.isUnion = false) (hlit : sys.Ground (.literalBoolean v p))
    (h : sys.Le k (.literalBoolean v p)) : sys.Le k .boolean := by
  refine hk.le_of_le_literal hunion hlit rfl nofun ground_boolean rfl
    nofun (.boolean v p) (fun k harm => ?_) h
  cases harm
  exact .boolean _ _

end literals

section unions

variable (hground : sys.IsGround) {members : List TypeId} {k l : TypeKind}

include hground

theorem IsGround.ground_of_mem_unionMembers {x : TypeId} (hx : x ∈ sys.types) {v : TypeId}
    (hv : v ∈ sys.store.unionMembers x) :
    sys.Ground (sys.store.kind v) ∧ (sys.store.kind v).isUnion = false := by
  unfold unionMembers at hv
  split at hv
  · next nested hkind =>
    have hk : sys.Ground (.union nested) := hkind ▸ hground.ground_kind hx
    obtain ⟨h, hunion, -⟩ := hk.member hground hv
    exact ⟨h, hunion⟩
  · next hunion =>
    obtain rfl := List.mem_singleton.mp hv
    refine ⟨hground.ground_kind hx, ?_⟩
    unfold TypeKind.isUnion
    split
    · next ms hms => exact absurd hms (hunion ms)
    · rfl

theorem IsGround.ground_flattened (hmembers : ∀ m ∈ members, m ∈ sys.types) {v : TypeId}
    (hv : v ∈ members.flatMap sys.store.unionMembers) :
    sys.Ground (sys.store.kind v) ∧ (sys.store.kind v).isUnion = false := by
  obtain ⟨x, hx, hv⟩ := List.mem_flatMap.mp hv
  exact hground.ground_of_mem_unionMembers (hmembers x hx) hv

/-- What the union of ground types is. -/
theorem IsGround.unionKind_cases (hmembers : ∀ m ∈ members, m ∈ sys.types) :
    let flattened := members.flatMap sys.store.unionMembers
    let left := sys.store.unionList .canonical flattened
    (∃ v ∈ flattened, sys.store.kind v = .unknown) ∧ sys.unionKind members = .unknown ∨
      left = [] ∧ sys.unionKind members = .never ∨
      (∃ x, left = [x] ∧ sys.unionKind members = sys.store.kind x) ∨
      left ≠ [] ∧ sys.store.normalizeUnion members .canonical = .combined left ∧
        sys.unionKind members = .union left := by
  have hany : sys.store.anyKind (members.flatMap sys.store.unionMembers) (· = .any) = false :=
    anyKind_eq_false.mpr fun v hv => by simpa using (hground.ground_flattened hmembers hv).1.any
  have herror : (members.flatMap sys.store.unionMembers).find? (fun id =>
      (sys.store.kind id).isError) = none := by
    refine List.find?_eq_none.mpr fun v hv => ?_
    have hplain := (hground.ground_flattened hmembers hv).1.plain
    cases hkind : sys.store.kind v <;> simp_all [TypeKind.isError, TypeKind.isPlain]
  have hb : sys.store.builtins = new.builtins := sys.wellFormed.grown.builtins
  intro flattened left
  have hnormalize : sys.store.normalizeUnion members .canonical =
      if sys.store.anyKind flattened (· = .unknown) then .existing sys.store.builtins.unknown
      else .ofList sys.store.builtins.never left := by
    rw [normalizeUnion_eq, hany, herror]
    rfl
  unfold unionKind
  rw [hnormalize]
  split_ifs with hunknown
  · obtain ⟨v, hv, hkind⟩ := anyKind_eq_true.mp hunknown
    refine .inl ⟨⟨v, hv, by simpa using hkind⟩, ?_⟩
    rw [hb]
    exact (sys.wellFormed.builtin (by decide)).2
  · rcases hleft : left with _ | ⟨x, _ | ⟨y, rest⟩⟩
    · refine .inr (.inl ⟨rfl, ?_⟩)
      rw [hb]
      exact (sys.wellFormed.builtin (by decide)).2
    · exact .inr (.inr (.inl ⟨x, rfl, rfl⟩))
    · exact .inr (.inr (.inr ⟨List.cons_ne_nil _ _, rfl, rfl⟩))

/-- What is left of a flattened list. -/
theorem IsGround.of_mem_unionList (hmembers : ∀ m ∈ members, m ∈ sys.types) {w : TypeId}
    (hw : w ∈ sys.store.unionList .canonical (members.flatMap sys.store.unionMembers)) :
    sys.Ground (sys.store.kind w) ∧ (sys.store.kind w).isUnion = false ∧
      sys.store.kind w ≠ .never ∧
      (w ∈ members.flatMap sys.store.unionMembers ∨
        sys.store.kind w = .boolean ∧ ∀ value, ∃ v ∈ members.flatMap sys.store.unionMembers,
          ∃ p, sys.store.kind v = .literalBoolean value p) := by
  rcases mem_unionList_cases sys.wellFormed hw with ⟨hw, hnever⟩ | ⟨hkind, hliterals⟩
  · obtain ⟨h, hunion⟩ := hground.ground_flattened hmembers hw
    exact ⟨h, hunion, hnever, .inl hw⟩
  · rw [hkind]
    exact ⟨ground_boolean, rfl, nofun, .inr ⟨rfl, hliterals⟩⟩

theorem IsGround.ground_unionKind (hmembers : ∀ m ∈ members, m ∈ sys.types) :
    sys.Ground (sys.unionKind members) := by
  rcases hground.unionKind_cases hmembers with ⟨-, h⟩ | ⟨-, h⟩ | ⟨x, hx, h⟩ | ⟨-, hn, h⟩
  · rw [h]
    exact ground_primitive rfl nofun rfl rfl rfl
  · rw [h]
    exact ground_primitive rfl nofun rfl rfl rfl
  · rw [h]
    exact (hground.of_mem_unionList hmembers (w := x) (by simp [hx])).1
  · have hhas := sys.has_unionKind hmembers
    rw [h] at hhas ⊢
    refine ⟨hhas, nofun, rfl, ?_, ?_⟩
    · rintro ms ⟨⟩
      exact (normalizeUnion_combined sys.wellFormed
        (fun m hm => sys.contains m (hmembers m hm)) hn).2
    · rintro ms ⟨⟩
      exact not_both_booleans sys.wellFormed _ _

/-- A type below something that is left is below the union. -/
theorem IsGround.le_unionKind_of_left (hmembers : ∀ m ∈ members, m ∈ sys.types)
    (hk : sys.Ground k) (hunion : k.isUnion = false) {w : TypeId}
    (hw : w ∈ sys.store.unionList .canonical (members.flatMap sys.store.unionMembers))
    (h : sys.Le k (sys.store.kind w)) : sys.Le k (sys.unionKind members) := by
  have hl := hground.ground_unionKind hmembers
  rcases hground.unionKind_cases hmembers with ⟨-, hu⟩ | ⟨hnil, -⟩ | ⟨x, hx, hu⟩ | ⟨-, -, hu⟩
  · exact (le_iff hk hl).mpr (.inr (.inr (.inl hu)))
  · simp [hnil] at hw
  · obtain rfl : w = x := by simpa [hx] using hw
    exact hu ▸ h
  · rw [hu] at hl ⊢
    exact hk.le_union hunion hl hw h

/-- A type below something listed is below the union. -/
theorem IsGround.le_unionKind (hmembers : ∀ m ∈ members, m ∈ sys.types) (hk : sys.Ground k)
    (hunion : k.isUnion = false) {v : TypeId}
    (hv : v ∈ members.flatMap sys.store.unionMembers) (h : sys.Le k (sys.store.kind v)) :
    sys.Le k (sys.unionKind members) := by
  have hleft {w : TypeId} := hground.le_unionKind_of_left hmembers hk hunion (w := w)
  by_cases hsurvives : sys.store.survives (members.flatMap sys.store.unionMembers) v
  · exact hleft (mem_unionList.mpr (.inl ⟨hv, hsurvives⟩)) h
  have hvGround := (hground.ground_flattened hmembers hv).1
  rcases absorbed sys.wellFormed .canonical hsurvives with hkind | ⟨a, p, hkind, w, hw, hbase⟩ |
    ⟨a, p, hkind, w, hw, hbase⟩ | ⟨a, p, hkind, w, hw, hbase⟩ <;> rw [hkind] at h hvGround
  · exact (le_iff hk (hground.ground_unionKind hmembers)).mpr
      (.inr (.inl (hk.eq_never_of_le hvGround h)))
  · exact hleft hw (hbase ▸ hk.le_string hunion hvGround h)
  · exact hleft hw (hbase ▸ hk.le_number hunion hvGround h)
  · exact hleft hw (hbase ▸ hk.le_boolean hunion hvGround h)

/-- What is above `true` and `false` is above `boolean`. -/
theorem IsGround.boolean_le {p p' : LiteralProvenance} (hl : sys.Ground l)
    (htrue : sys.Le (.literalBoolean true p) l) (hfalse : sys.Le (.literalBoolean false p') l) :
    sys.Le .boolean l := by
  have hliteral {value : Bool} {p : LiteralProvenance} :
      sys.Ground (.literalBoolean value p) := ground_primitive rfl nofun rfl rfl rfl
  -- a type that is not a union is either above `boolean` or the literal itself
  have hcases {value : Bool} {p : LiteralProvenance} {l : TypeKind} (hl : sys.Ground l)
      (hunion : l.isUnion = false) (h : sys.Le (.literalBoolean value p) l) :
      sys.Le .boolean l ∨ l.isBooleanLiteral value := by
    by_cases hunknown : l = .unknown
    · exact .inl ((le_iff ground_boolean hl).mpr (.inr (.inr (.inl hunknown))))
    by_cases hself : .literalBoolean value p = l
    · exact .inr (hself ▸ beq_self_eq_true value)
    cases hliteral.arm_of_le rfl nofun hl hunion hunknown hself h with
    | boolean => exact .inl ground_boolean.le_refl
    | sameBoolean => exact .inr (beq_self_eq_true value)
    | objectKeyword hlike => cases hlike
  cases hunion : l.isUnion with
  | false =>
    rcases hcases hl hunion htrue with h | h
    · exact h
    · rcases hcases hl hunion hfalse with h' | h'
      · exact h'
      · unfold TypeKind.isBooleanLiteral at h h'
        split at h <;> simp_all
  | true =>
    obtain ⟨ms, rfl⟩ := eq_union_of_isUnion hunion
    obtain ⟨x, hx, hx'⟩ := hliteral.exists_of_le_union rfl nofun hl htrue
    obtain ⟨y, hy, hy'⟩ := hliteral.exists_of_le_union rfl nofun hl hfalse
    obtain ⟨hxGround, hxUnion, -⟩ := hl.member hground hx
    obtain ⟨hyGround, hyUnion, -⟩ := hl.member hground hy
    rcases hcases hxGround hxUnion hx' with h | h
    · exact ground_boolean.le_union rfl hl hx h
    · rcases hcases hyGround hyUnion hy' with h' | h'
      · exact ground_boolean.le_union rfl hl hy h'
      · exact absurd ⟨anyKind_eq_true.mpr ⟨x, hx, h⟩, anyKind_eq_true.mpr ⟨y, hy, h'⟩⟩
          (hl.booleans ms rfl)

/-- The union is below what everything listed is below. -/
theorem IsGround.unionKind_le (hmembers : ∀ m ∈ members, m ∈ sys.types) (hl : sys.Ground l)
    (h : ∀ v ∈ members.flatMap sys.store.unionMembers, sys.Le (sys.store.kind v) l) :
    sys.Le (sys.unionKind members) l := by
  have hgroundUnion := hground.ground_unionKind hmembers
  have hleft : ∀ w ∈ sys.store.unionList .canonical (members.flatMap sys.store.unionMembers),
      sys.Le (sys.store.kind w) l := by
    intro w hw
    obtain ⟨-, -, -, hw | ⟨hkind, hvalues⟩⟩ := hground.of_mem_unionList hmembers hw
    · exact h w hw
    · obtain ⟨v, hv, p, hvkind⟩ := hvalues true
      obtain ⟨v', hv', p', hvkind'⟩ := hvalues false
      exact hkind ▸ hground.boolean_le hl (hvkind ▸ h v hv) (hvkind' ▸ h v' hv')
  rcases hground.unionKind_cases hmembers with ⟨⟨v, hv, hkind⟩, hu⟩ | ⟨-, hu⟩ | ⟨x, hx, hu⟩ |
    ⟨hne, -, hu⟩
  · rw [hu]
    exact hkind ▸ h v hv
  · rw [hu] at hgroundUnion ⊢
    exact (le_iff hgroundUnion hl).mpr (.inr (.inl rfl))
  · rw [hu]
    exact hleft x (by simp [hx])
  · rw [hu] at hgroundUnion ⊢
    refine (le_iff hgroundUnion hl).mpr (.inr (.inr (.inr ⟨?_, holds_union_source.mpr hleft⟩)))
    rintro rfl
    obtain ⟨w, hw⟩ := List.exists_mem_of_ne_nil _ hne
    obtain ⟨hw', -, hnever, -⟩ := hground.of_mem_unionList hmembers hw
    exact hnever (hw'.eq_never_of_le hl (hleft w hw))

/-- The union of types below those of another list is below their union. -/
theorem IsGround.unionKind_mono {xs ys : List TypeId} (hxs : ∀ x ∈ xs, x ∈ sys.types)
    (hys : ∀ y ∈ ys, y ∈ sys.types) (hlength : xs.length = ys.length)
    (h : ∀ p ∈ xs.zip ys, sys.Le (sys.store.kind p.1) (sys.store.kind p.2)) :
    sys.Le (sys.unionKind xs) (sys.unionKind ys) := by
  refine hground.unionKind_le hxs (hground.ground_unionKind hys) fun v hv => ?_
  obtain ⟨x, hx, hv⟩ := List.mem_flatMap.mp hv
  obtain ⟨hvGround, hvUnion⟩ := hground.ground_of_mem_unionMembers (hxs x hx) hv
  obtain ⟨y, hxy⟩ : ∃ y, (x, y) ∈ xs.zip ys := by
    obtain ⟨i, hi, rfl⟩ := List.mem_iff_getElem.mp hx
    refine ⟨ys[i], List.mem_iff_getElem.mpr ⟨i, by simpa [hlength] using hi, ?_⟩⟩
    rw [List.getElem_zip]
  have hy := (List.of_mem_zip hxy).2
  have hyGround := hground.ground_kind (hys y hy)
  have hvy : sys.Le (sys.store.kind v) (sys.store.kind y) := by
    have hxGround := hground.ground_kind (hxs x hx)
    have hxy := h _ hxy
    unfold unionMembers at hv
    split at hv
    · next nested hkind =>
      rw [hkind] at hxGround hxy
      exact hxGround.le_of_union_le hground hyGround hxy hv
    · rwa [List.mem_singleton.mp hv]
  by_cases hnever : sys.store.kind v = .never
  · exact (le_iff hvGround (hground.ground_unionKind hys)).mpr (.inr (.inl hnever))
  cases hkind : sys.store.kind y with
  | union ms =>
    rw [hkind] at hvy hyGround
    obtain ⟨z, hz, hvz⟩ := hvGround.exists_of_le_union hvUnion hnever hyGround hvy
    refine hground.le_unionKind hys hvGround hvUnion (List.mem_flatMap.mpr ⟨y, hy, ?_⟩) hvz
    simpa [unionMembers, hkind] using hz
  | _ =>
    refine hground.le_unionKind hys hvGround hvUnion (List.mem_flatMap.mpr ⟨y, hy, ?_⟩) hvy
    simp [unionMembers, hkind]

end unions

/-! ## Transitivity -/

section trans

variable (hground : sys.IsGround)

/-- Pairs with a type between them. -/
def Between (sys : AliasSystem) : Set (TypeKind × TypeKind) :=
  {g | ∃ l, sys.Ground g.1 ∧ sys.Ground l ∧ sys.Ground g.2 ∧ sys.Le g.1 l ∧ sys.Le l g.2}

theorem Ground.between {k l m : TypeKind} (hk : sys.Ground k) (hl : sys.Ground l)
    (hm : sys.Ground m) (hkl : sys.Le k l) (hlm : sys.Le l m) : (k, m) ∈ sys.Between :=
  ⟨l, hk, hl, hm, hkl, hlm⟩

include hground

/-- Objects compare property by property. -/
theorem Arm.object_trans {source middle target : ObjectShape} (hk : sys.Ground (.object source))
    (hl : sys.Ground (.object middle)) (hm : sys.Ground (.object target))
    (hmissing : Relation.missingProperties (some source.properties) middle.properties = [])
    (h : ∀ g ∈ sys.commonProperties source middle, g ∈ Greatest (sys.rules true))
    (hmissing' : Relation.missingProperties (some middle.properties) target.properties = [])
    (h' : ∀ g ∈ sys.commonProperties middle target, g ∈ Greatest (sys.rules true)) :
    sys.Arm sys.Between (.object source) (.object target) := by
  rw [missingProperties_eq_nil hl.plain] at hmissing
  rw [missingProperties_eq_nil hm.plain] at hmissing'
  -- the counterpart of a property in the middle
  have hfind {p : Property} (hp : p ∈ target.properties) : ∃ q ∈ middle.properties,
      q.name = p.name ∧ middle.properties.find? (fun property => property.name = p.name) =
        some q := by
    obtain ⟨q, hq, hname⟩ := hmissing' p hp
    cases hfind : middle.properties.find? fun property => property.name = p.name with
    | none => simpa [hname] using List.find?_eq_none.mp hfind q hq
    | some q' =>
      exact ⟨q', List.mem_of_find?_eq_some hfind, by simpa using List.find?_some hfind, rfl⟩
  refine .object ((missingProperties_eq_nil hm.plain).mpr fun p hp => ?_) fun g hg => ?_
  · obtain ⟨q, hq, hname⟩ := hmissing' p hp
    obtain ⟨r, hr, hname'⟩ := hmissing q hq
    exact ⟨r, hr, hname'.trans hname⟩
  · obtain ⟨p, hp, r, hr, rfl⟩ := mem_commonProperties.mp hg
    obtain ⟨q, hq, hname, hfind⟩ := hfind hp
    have hrq := h _ (mem_commonProperties.mpr ⟨q, hq, r, hname ▸ hr, rfl⟩)
    have hqp := h' _ (mem_commonProperties.mpr ⟨p, hp, q, hfind, rfl⟩)
    exact (hk.property hground (List.mem_of_find?_eq_some hr)).between (hl.property hground hq)
      (hm.property hground hp) hrq hqp

/-- One arm after another is one arm, unless a tuple gets to the empty object type. -/
theorem Arm.trans {k l m : TypeKind} (hk : sys.Ground k) (hl : sys.Ground l) (hm : sys.Ground m)
    (hkl : sys.Arm (Greatest (sys.rules true)) k l) (hlm : sys.Arm (Greatest (sys.rules true)) l m)
    (htuple : ∀ xs shape, shape.properties = [] → (k, m) ≠ (.tuple xs, .object shape)) :
    sys.Arm sys.Between k m := by
  cases hkl with
  | string v p | number v p | boolean v p =>
    cases hlm with
    | objectKeyword hlike => cases hlike
  | sameString v p p' =>
    cases hlm with
    | string => exact .string _ _
    | sameString => exact .sameString _ _ _
    | objectKeyword hlike => cases hlike
  | sameNumber v p p' =>
    cases hlm with
    | number => exact .number _ _
    | sameNumber => exact .sameNumber _ _ _
    | objectKeyword hlike => cases hlike
  | sameBoolean v p p' =>
    cases hlm with
    | boolean => exact .boolean _ _
    | sameBoolean => exact .sameBoolean _ _ _
    | objectKeyword hlike => cases hlike
  | objectKeyword hlike =>
    cases hlm with
    | objectKeyword hlike' => cases hlike'
  | @object source middle hmissing h =>
    cases hlm with
    | objectKeyword => exact .objectKeyword rfl
    | object hmissing' h' => exact object_trans hground hk hl hm hmissing h hmissing' h'
  | @array x y h =>
    cases hlm with
    | objectKeyword => exact .objectKeyword rfl
    | array h' => exact .array ((hk.element hground).between (hl.element hground)
        (hm.element hground) h h')
    | emptyObject hshape => exact .emptyObject hshape
  | @emptyObject x shape hshape =>
    cases hlm with
    | objectKeyword => exact .objectKeyword rfl
    | object hmissing _ =>
      refine .emptyObject (List.eq_nil_iff_forall_not_mem.mpr fun p hp => ?_)
      obtain ⟨q, hq, -⟩ := (missingProperties_eq_nil hm.plain).mp hmissing p hp
      simp [hshape] at hq
  | @tuple xs ys hlength h =>
    cases hlm with
    | objectKeyword => exact .objectKeyword rfl
    | @tuple _ zs hlength' h' =>
      refine .tuple (hlength.trans hlength') fun p hp => ?_
      obtain ⟨i, hi, rfl⟩ := List.mem_iff_getElem.mp hp
      have hi : i < xs.length ∧ i < ys.length ∧ i < zs.length := by
        rw [List.length_zip] at hi
        omega
      have hxy := h (xs[i], ys[i]) (List.mem_iff_getElem.mpr
        ⟨i, by simp [hi], List.getElem_zip⟩)
      have hyz := h' (ys[i], zs[i]) (List.mem_iff_getElem.mpr
        ⟨i, by simp [hi], List.getElem_zip⟩)
      rw [List.getElem_zip]
      exact (hk.tupleElement hground (List.getElem_mem _)).between
        (hl.tupleElement hground (List.getElem_mem _))
        (hm.tupleElement hground (List.getElem_mem _)) hxy hyz
    | @tupleArray _ z h' =>
      exact .tupleArray ((hground.ground_unionKind hk.children).between
        (hground.ground_unionKind hl.children) (hm.element hground)
        (hground.unionKind_mono hk.children hl.children hlength h) h')
  | @tupleArray xs y h =>
    cases hlm with
    | objectKeyword => exact .objectKeyword rfl
    | array h' => exact .tupleArray ((hground.ground_unionKind hk.children).between
        (hl.element hground) (hm.element hground) h h')
    | emptyObject hshape => exact absurd rfl (htuple _ _ hshape)

/-- What an arm needs is enough for a type between. -/
theorem Arm.between {k l : TypeKind} (hk : sys.Ground k) (hl : sys.Ground l)
    (h : sys.Arm (Greatest (sys.rules true)) k l) : sys.Arm sys.Between k l := by
  cases h with
  | string => exact .string _ _
  | number => exact .number _ _
  | boolean => exact .boolean _ _
  | sameString => exact .sameString _ _ _
  | sameNumber => exact .sameNumber _ _ _
  | sameBoolean => exact .sameBoolean _ _ _
  | objectKeyword hlike => exact .objectKeyword hlike
  | object hmissing h =>
    refine .object hmissing fun g hg => ?_
    have hg' := h g hg
    obtain ⟨p, hp, q, hq, rfl⟩ := mem_commonProperties.mp hg
    have hq := hk.property hground (List.mem_of_find?_eq_some hq)
    exact hq.between hq (hl.property hground hp) hq.le_refl hg'
  | array h =>
    have hx := hk.element hground
    exact .array (hx.between hx (hl.element hground) hx.le_refl h)
  | emptyObject hshape => exact .emptyObject hshape
  | tuple hlength h =>
    refine .tuple hlength fun p hp => ?_
    have hx := hk.tupleElement hground (List.of_mem_zip hp).1
    exact hx.between hx (hl.tupleElement hground (List.of_mem_zip hp).2) hx.le_refl (h p hp)
  | tupleArray h =>
    have hx := hground.ground_unionKind hk.children
    exact .tupleArray (hx.between hx (hl.element hground) hx.le_refl h)

/-- Unfolding a pair with a type between leads to pairs with a type between. -/
theorem Ground.holds_between {k l m : TypeKind} (hk : sys.Ground k) (hl : sys.Ground l)
    (hm : sys.Ground m) (hkl : sys.Le k l) (hlm : sys.Le l m)
    (htuple : ∀ xs shape, shape.properties = [] → (k, m) ≠ (.tuple xs, .object shape)) :
    (sys.rules true (k, m)).Holds sys.Between := by
  rw [holds_rules_iff hk.reference hm.reference]
  by_cases hkm : k = m
  · exact .inl hkm
  by_cases hkn : k = .never
  · exact .inr (.inl hkn)
  by_cases hmu : m = .unknown
  · exact .inr (.inr (.inl hmu))
  refine .inr (.inr (.inr ⟨?_, ?_⟩))
  · rintro rfl
    obtain rfl := hl.eq_never_of_le hm hlm
    exact hkn (hk.eq_never_of_le hl hkl)
  cases hkUnion : k.isUnion with
  | true =>
    obtain ⟨ks, rfl⟩ := eq_union_of_isUnion hkUnion
    refine holds_union_source.mpr fun x hx => ?_
    exact (hk.member hground hx).1.between hl hm (hk.le_of_union_le hground hl hkl hx) hlm
  | false =>
  -- a union in the middle is left for one of its members
  obtain ⟨l, hl, hlUnion, hkl, hlm⟩ : ∃ l, sys.Ground l ∧ l.isUnion = false ∧ sys.Le k l ∧
      sys.Le l m := by
    cases hlUnion : l.isUnion with
    | false => exact ⟨l, hl, hlUnion, hkl, hlm⟩
    | true =>
      obtain ⟨ls, rfl⟩ := eq_union_of_isUnion hlUnion
      obtain ⟨x, hx, hkx⟩ := hk.exists_of_le_union hkUnion hkn hl hkl
      obtain ⟨hx', hxUnion, -⟩ := hl.member hground hx
      exact ⟨_, hx', hxUnion, hkx, hl.le_of_union_le hground hm hlm hx⟩
  have hln : l ≠ .never := by
    rintro rfl
    exact hkn (hk.eq_never_of_le hl hkl)
  have hlu : l ≠ .unknown := by
    rintro rfl
    exact hmu (hl.eq_unknown_of_le hground hm hlm)
  cases hmUnion : m.isUnion with
  | true =>
    obtain ⟨ms, rfl⟩ := eq_union_of_isUnion hmUnion
    obtain ⟨x, hx, hlx⟩ := hl.exists_of_le_union hlUnion hln hm hlm
    exact (holds_union_target hkUnion).mpr
      ⟨x, hx, hk.between hl (hm.member hground hx).1 hkl hlx⟩
  | false =>
    refine (sys.arm_iff hkUnion hmUnion).mpr ?_
    by_cases hkl' : k = l
    · subst hkl'
      exact (hk.arm_of_le hkUnion hkn hm hmUnion hmu hkm hlm).between hground hk hm
    · have harm := hk.arm_of_le hkUnion hkn hl hlUnion hlu hkl' hkl
      by_cases hlm' : l = m
      · subst hlm'
        exact harm.between hground hk hl
      · exact harm.trans hground hk hl hm
          (hl.arm_of_le hlUnion hln hm hmUnion hmu hlm' hlm) htuple

/-- Some comparison that the two types lead to is one of a tuple with the empty object type. -/
def ComparesTupleWithEmptyObject (sys : AliasSystem) (strict : Bool) (source target : TypeId) :
    Prop :=
  ∃ elements shape, shape.properties = [] ∧
    Unfolds (sys.rules strict) (sys.store.kind source, sys.store.kind target)
      (.tuple elements, .object shape)

theorem related_trans {a b c : TypeId} (ha : a ∈ sys.types) (hb : b ∈ sys.types)
    (hc : c ∈ sys.types) (hab : sys.Related true a b) (hbc : sys.Related true b c)
    (htuple : ¬ sys.ComparesTupleWithEmptyObject true a c) : sys.Related true a c := by
  let avoiding : Set (TypeKind × TypeKind) := {g | ∀ elements shape,
    shape.properties = [] → ¬ Unfolds (sys.rules true) g (.tuple elements, .object shape)}
  have hclosed : ∀ g ∈ sys.Between ∩ avoiding,
      (sys.rules true g).Holds (sys.Between ∩ avoiding) := by
    rintro ⟨k, m⟩ ⟨⟨l, hk, hl, hm, hkl, hlm⟩, havoids⟩
    have hholds := hk.holds_between hground hl hm hkl hlm fun elements shape hshape heq =>
      havoids elements shape hshape (heq ▸ .refl)
    have hasks : sys.Between ∩ (sys.rules true (k, m)).asks ⊆ sys.Between ∩ avoiding :=
      fun g hg => ⟨hg.1, fun elements shape hshape hreaches =>
        havoids elements shape hshape (.head hg.2 hreaches)⟩
    exact hholds.inter_asks.mono hasks
  have hbetween := (hground.ground_kind ha).between (hground.ground_kind hb)
    (hground.ground_kind hc) hab hbc
  have havoids : (sys.store.kind a, sys.store.kind c) ∈ avoiding :=
    fun elements shape hshape hreaches => htuple ⟨elements, shape, hshape, hreaches⟩
  exact subset_greatest _ hclosed ⟨hbetween, havoids⟩

end trans

end AliasSystem

/-- `[number]` (13), `number[]` (14) and the empty object type (15). -/
def tupleStore : TypeStore :=
  let s := (new.intern (.tuple [⟨8⟩])).2
  let s := (s.intern (.array ⟨8⟩)).2
  (s.intern (.object {})).2

theorem reachable_tupleStore : Reachable tupleStore :=
  .intern (.intern (.intern .new (by decide +kernel) nofun nofun) (by decide +kernel) nofun nofun)
    (by decide +kernel) nofun nofun

def tupleTypes : List TypeId := [⟨7⟩, ⟨8⟩, ⟨11⟩, ⟨13⟩, ⟨14⟩, ⟨15⟩]

def tuples : AliasSystem where
  store := tupleStore
  wellFormed := reachable_tupleStore.wellFormed
  types := {t | t ∈ tupleTypes}
  boolean_mem := (by decide +kernel : tupleStore.builtins.boolean ∈ tupleTypes)
  body _ := ⟨8⟩
  contains := (by decide +kernel : ∀ t ∈ tupleTypes, tupleStore.Contains t)
  plain := (by decide +kernel : ∀ t ∈ tupleTypes, (tupleStore.kind t).isPlain)
  children := (by decide +kernel :
    ∀ t ∈ tupleTypes, ∀ c ∈ (tupleStore.kind t).children, c ∈ tupleTypes)
  body_mem _ _ _ _ := (by decide : (⟨8⟩ : TypeId) ∈ tupleTypes)
  body_resolved _ _ _ _ := by decide +kernel

theorem isGround_tuples : tuples.IsGround where
  reachable := reachable_tupleStore
  any := (by decide +kernel : ∀ t ∈ tupleTypes, tupleStore.kind t ≠ .any)
  reference := (by decide +kernel : ∀ t ∈ tupleTypes, (tupleStore.kind t).isReference = false)

def compareTuples (source target : TypeId) : Except RelationFailure Unit :=
  ((relateTypes (tuples.context true) source target .subtype).runFrom tupleStore).1

end Tsz.Semantics
