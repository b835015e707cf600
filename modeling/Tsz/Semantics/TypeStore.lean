import Mathlib.Data.List.GetD
import Tsz.Semantics.TypeKind

/-!
# The type store

Ids index the list of kinds. Interning looks a kind up before it allocates; the
incomplete kinds of `freshDeferred` are never shared.
-/

namespace Tsz.Semantics

structure BuiltinTypes where
  error : TypeId
  any : TypeId
  unknown : TypeId
  never : TypeId
  void : TypeId
  undefined : TypeId
  null : TypeId
  boolean : TypeId
  number : TypeId
  string : TypeId
  bigInt : TypeId
  object : TypeId
  symbol : TypeId
deriving DecidableEq, Repr

def BuiltinTypes.default : BuiltinTypes where
  error := ⟨0⟩
  any := ⟨0⟩
  unknown := ⟨0⟩
  never := ⟨0⟩
  void := ⟨0⟩
  undefined := ⟨0⟩
  null := ⟨0⟩
  boolean := ⟨0⟩
  number := ⟨0⟩
  string := ⟨0⟩
  bigInt := ⟨0⟩
  object := ⟨0⟩
  symbol := ⟨0⟩

structure TypeStore where
  kinds : List TypeKind
  interned : List (TypeKind × TypeId)
  builtins : BuiltinTypes

namespace TypeStore

def Contains (s : TypeStore) (id : TypeId) : Prop := id.index < s.kinds.length

instance (s : TypeStore) (id : TypeId) : Decidable (s.Contains id) :=
  inferInstanceAs (Decidable (id.index < s.kinds.length))

/-- Reading an id the store did not give out panics in the source; callers never do. -/
def kind (s : TypeStore) (id : TypeId) : TypeKind := s.kinds.getD id.index .error

/-- Append a kind without looking for an equal one. -/
def push (s : TypeStore) (k : TypeKind) : TypeStore := { s with kinds := s.kinds ++ [k] }

def intern (s : TypeStore) (k : TypeKind) : TypeId × TypeStore :=
  match s.interned.lookup k with
  | some id => (id, s)
  | none =>
    let id : TypeId := ⟨s.kinds.length⟩
    (id, { s.push k with interned := (k, id) :: s.interned })

def freshDeferred (s : TypeStore) (d : DeferredType TypeId) : TypeId × TypeStore :=
  (⟨s.kinds.length⟩, s.push (.deferred d))

def new : TypeStore :=
  let s : TypeStore := { kinds := [], interned := [], builtins := .default }
  let (error, s) := s.intern .error
  let (any, s) := s.intern .any
  let (unknown, s) := s.intern .unknown
  let (never, s) := s.intern .never
  let (void, s) := s.intern .void
  let (undefined, s) := s.intern .undefined
  let (null, s) := s.intern .null
  let (boolean, s) := s.intern .boolean
  let (number, s) := s.intern .number
  let (string, s) := s.intern .string
  let (bigInt, s) := s.intern .bigInt
  let (object, s) := s.intern .objectKeyword
  let (symbol, s) := s.intern .symbol
  { s with
    builtins := {
      error, any, unknown, never, void, undefined, null, boolean, number, string, bigInt,
      object, symbol } }

/-- The incomplete kinds of which every use gets an id of its own. -/
def isFreshDeferred : TypeKind → Bool
  | .deferred .objectShape | .deferred .genericFunction | .deferred .genericCall
  | .deferred .uniqueSymbol | .deferred .bigIntLiteral | .deferred .numericRecovery
  | .deferred .utf16StringLiteral | .deferred .templateValue => true
  | _ => false

/-! ## Invariants -/

/-- What every operation keeps: types refer to types of the store, the table of interned
kinds agrees with the list, and equal kinds share an id unless they are incomplete. -/
structure Consistent (s : TypeStore) : Prop where
  children : ∀ id, s.Contains id → ∀ c ∈ (s.kind id).children, s.Contains c
  interned : ∀ k id, s.interned.lookup k = some id → s.Contains id ∧ s.kind id = k
  shared : ∀ id, s.Contains id → isFreshDeferred (s.kind id) = false →
    s.interned.lookup (s.kind id) = some id

/-- The second store has the types of the first under the same ids. -/
structure Extends (s t : TypeStore) : Prop where
  kinds : s.kinds <+: t.kinds
  interned : ∀ k id, s.interned.lookup k = some id → t.interned.lookup k = some id
  builtins : t.builtins = s.builtins

namespace Extends

@[refl]
theorem refl (s : TypeStore) : Extends s s := ⟨List.prefix_rfl, fun _ _ => id, rfl⟩

theorem trans {s t u : TypeStore} (h : Extends s t) (h' : Extends t u) : Extends s u :=
  ⟨h.kinds.trans h'.kinds, fun k id hk => h'.interned k id (h.interned k id hk),
    h'.builtins.trans h.builtins⟩

theorem contains {s t : TypeStore} (h : Extends s t) {id : TypeId} (hid : s.Contains id) :
    t.Contains id :=
  Nat.lt_of_lt_of_le hid h.kinds.length_le

theorem kind {s t : TypeStore} (h : Extends s t) {id : TypeId} (hid : s.Contains id) :
    t.kind id = s.kind id := by
  obtain ⟨more, hmore⟩ := h.kinds
  unfold TypeStore.kind
  rw [← hmore, List.getD_append _ _ _ _ hid]

end Extends

section push

variable {s : TypeStore} {k : TypeKind}

theorem contains_push {id : TypeId} {interned : List (TypeKind × TypeId)} :
    Contains { s.push k with interned := interned } id ↔
      s.Contains id ∨ id.index = s.kinds.length := by
  simp only [Contains, push, List.length_append, List.length_singleton]
  omega

theorem kind_push_of_contains {id : TypeId} (h : s.Contains id) : (s.push k).kind id = s.kind id :=
  List.getD_append _ _ _ _ h

@[simp]
theorem kind_push_last : (s.push k).kind ⟨s.kinds.length⟩ = k := by
  simp [kind, push]

end push

theorem lookup_cons_of_ne {k l : TypeKind} {id : TypeId} {table : List (TypeKind × TypeId)}
    (h : l ≠ k) : ((k, id) :: table).lookup l = table.lookup l := by
  rw [List.lookup_cons, beq_false_of_ne h]

/-- Interning finds the id of an equal kind, or appends the kind. -/
theorem intern_cases (s : TypeStore) (k : TypeKind) :
    (∃ id, s.interned.lookup k = some id ∧ s.intern k = (id, s)) ∨
    (s.interned.lookup k = none ∧ s.intern k = (⟨s.kinds.length⟩,
      { s.push k with interned := (k, ⟨s.kinds.length⟩) :: s.interned })) := by
  unfold intern
  cases h : s.interned.lookup k with
  | some id => exact .inl ⟨id, rfl, rfl⟩
  | none => exact .inr ⟨rfl, rfl⟩

theorem extends_intern (s : TypeStore) (k : TypeKind) : Extends s (s.intern k).2 := by
  rcases s.intern_cases k with ⟨id, -, h⟩ | ⟨hnone, h⟩
  · rw [h]
  · rw [h]
    refine ⟨List.prefix_append _ _, fun l id hl => ?_, rfl⟩
    have hlk : l ≠ k := by
      rintro rfl
      simp [hnone] at hl
    rwa [lookup_cons_of_ne hlk]

theorem extends_freshDeferred (s : TypeStore) (d : DeferredType TypeId) :
    Extends s (s.freshDeferred d).2 :=
  ⟨List.prefix_append _ _, fun _ _ h => h, rfl⟩

theorem lookup_intern (s : TypeStore) (k : TypeKind) :
    (s.intern k).2.interned.lookup k = some (s.intern k).1 := by
  rcases s.intern_cases k with ⟨id, hid, h⟩ | ⟨-, h⟩
  · rw [h, hid]
  · simp [h]

/-- Interning a kind once more gives the id it has. -/
theorem intern_of_extends {s t : TypeStore} {k : TypeKind} (h : Extends (s.intern k).2 t) :
    t.intern k = ((s.intern k).1, t) := by
  unfold intern
  rw [h.interned k _ (s.lookup_intern k)]
  rfl

namespace Consistent

theorem push {s : TypeStore} (h : Consistent s) {k : TypeKind}
    (hk : ∀ c ∈ k.children, s.Contains c) {interned : List (TypeKind × TypeId)}
    (hinterned : ∀ l id, interned.lookup l = some id →
      s.interned.lookup l = some id ∨ l = k ∧ id = ⟨s.kinds.length⟩)
    (hold : ∀ l id, s.interned.lookup l = some id → interned.lookup l = some id)
    (hnew : isFreshDeferred k = false → interned.lookup k = some ⟨s.kinds.length⟩) :
    Consistent { s.push k with interned := interned } where
  children := by
    intro id hid c hc
    refine contains_push.mpr (.inl ?_)
    rcases contains_push.mp hid with hid | hid
    · exact h.children id hid c (kind_push_of_contains hid ▸ hc)
    · obtain rfl : id = ⟨s.kinds.length⟩ := congrArg TypeId.mk hid
      have hkind : (s.push k).kind ⟨s.kinds.length⟩ = k := kind_push_last
      exact hk c (hkind ▸ hc)
  interned := by
    intro l id hl
    rcases hinterned l id hl with hl | ⟨rfl, rfl⟩
    · obtain ⟨hid, hkind⟩ := h.interned l id hl
      exact ⟨contains_push.mpr (.inl hid), (kind_push_of_contains hid).trans hkind⟩
    · exact ⟨contains_push.mpr (.inr rfl), kind_push_last⟩
  shared := by
    intro id hid hfresh
    rcases contains_push.mp hid with hid | hid
    · have hkind : s.kind id = (s.push k).kind id := (kind_push_of_contains hid).symm
      exact hkind ▸ hold _ _ (h.shared id hid (hkind ▸ hfresh))
    · obtain rfl : id = ⟨s.kinds.length⟩ := congrArg TypeId.mk hid
      have hkind : (s.push k).kind ⟨s.kinds.length⟩ = k := kind_push_last
      exact hkind.symm ▸ hnew (hkind ▸ hfresh)

theorem empty : Consistent { kinds := [], interned := [], builtins := .default } where
  children _ hid := absurd hid (Nat.not_lt_zero _)
  interned := by simp
  shared _ hid := absurd hid (Nat.not_lt_zero _)

theorem intern {s : TypeStore} (h : Consistent s) {k : TypeKind}
    (hk : ∀ c ∈ k.children, s.Contains c) : Consistent (s.intern k).2 := by
  rcases s.intern_cases k with ⟨id, -, heq⟩ | ⟨hnone, heq⟩
  · rwa [heq]
  · rw [heq]
    refine h.push hk ?_ ?_ (by simp)
    · intro l id hl
      by_cases hlk : l = k
      · subst hlk
        exact .inr ⟨rfl, by simpa using hl.symm⟩
      · exact .inl (lookup_cons_of_ne hlk ▸ hl)
    · intro l id hl
      have hlk : l ≠ k := by
        rintro rfl
        simp [hnone] at hl
      rwa [lookup_cons_of_ne hlk]

theorem kind_intern {s : TypeStore} (h : Consistent s) (k : TypeKind) :
    (s.intern k).2.Contains (s.intern k).1 ∧ (s.intern k).2.kind (s.intern k).1 = k := by
  rcases s.intern_cases k with ⟨id, hid, heq⟩ | ⟨-, heq⟩
  · rw [heq]
    exact h.interned k id hid
  · rw [heq]
    exact ⟨contains_push.mpr (.inr rfl), kind_push_last⟩

theorem freshDeferred {s : TypeStore} (h : Consistent s) {d : DeferredType TypeId}
    (hd : isFreshDeferred (.deferred d)) : Consistent (s.freshDeferred d).2 := by
  refine h.push ?_ (fun _ _ hl => .inl hl) (fun _ _ hl => hl) (by simp [hd])
  cases d <;> simp_all [TypeKind.children, DeferredType.children, isFreshDeferred]

theorem new : Consistent new := by
  have hstep {s : TypeStore} {k : TypeKind} (h : Consistent s) (hk : k.children = []) :
      Consistent (s.intern k).2 := h.intern (by simp [hk])
  have h := hstep (hstep (hstep (hstep (hstep (hstep (hstep (hstep (hstep (hstep (hstep (hstep
    (hstep empty (k := .error) rfl) (k := .any) rfl) (k := .unknown) rfl) (k := .never) rfl)
    (k := .void) rfl) (k := .undefined) rfl) (k := .null) rfl) (k := .boolean) rfl)
    (k := .number) rfl) (k := .string) rfl) (k := .bigInt) rfl) (k := .objectKeyword) rfl)
    (k := .symbol) rfl
  exact ⟨h.children, h.interned, h.shared⟩

/-- Two ids of one kind are the same id, unless every use of the kind gets an id of its own. -/
theorem eq_of_kind_eq {s : TypeStore} (h : Consistent s) {i j : TypeId} (hi : s.Contains i)
    (hj : s.Contains j) (hfresh : isFreshDeferred (s.kind i) = false)
    (hij : s.kind i = s.kind j) : i = j := by
  have hlookup := h.shared i hi hfresh
  rw [hij, h.shared j hj (hij ▸ hfresh)] at hlookup
  exact (Option.some.inj hlookup).symm

end Consistent

/-- A store that grew out of the initial one knows the builtin types by their ids. -/
theorem kind_of_extends_new {s : TypeStore} (h : Extends new s) {id : TypeId}
    (hid : new.Contains id) : s.Contains id ∧ s.kind id = new.kind id :=
  ⟨h.contains hid, h.kind hid⟩

end TypeStore

end Tsz.Semantics
