import Mathlib.Order.RelClasses
import Tsz.Recursion.GraphSearch
import Tsz.Recursion.Growth
import Tsz.Semantics.References
import Tsz.Semantics.Widening

/-!
# Generative growth

A reference that comes back with grown arguments is cut off as generative. Types refer to earlier
ones, so nesting is a strict order, and argument lists grow as finite sets do: a list with nested
arguments grows into every list with the same outermost arguments that nests as well, into itself
for one.

## Main definitions

* `TypeStore.Nested` — a type occurs below another one.
* `StrictGrowth` — growth in one direction only, and never by repeating or shrinking.

## Main results

* `argumentsGenerativelyExpand_iff` — the comparison is growth in the order of nesting.
* `strictGrowth_iff` — for which argument lists growth is strict.
-/

namespace Tsz.Semantics

open Recursion Growth

namespace TypeStore

variable (s : TypeStore)

/-! ## Nesting -/

/-- The pairs of a type and one it is made of. -/
def edges : List (TypeId × TypeId) :=
  (List.range s.kinds.length).flatMap fun i => (s.kind ⟨i⟩).children.map fun child => (⟨i⟩, child)

/-- The inner type occurs strictly below the outer one. -/
def Nested (inner outer : TypeId) : Prop := Relation.TransGen (Edge s.edges) outer inner

theorem mem_edges {outer inner : TypeId} :
    (outer, inner) ∈ s.edges ↔ s.Contains outer ∧ inner ∈ (s.kind outer).children := by
  simp only [edges, List.mem_flatMap, List.mem_range, List.mem_map, Prod.mk.injEq]
  constructor
  · rintro ⟨i, hi, child, hchild, rfl, rfl⟩
    exact ⟨hi, hchild⟩
  · rintro ⟨hi, hchild⟩
    exact ⟨outer.index, hi, inner, hchild, rfl, rfl⟩

theorem index_lt_of_nested (hs : ChildrenEarlier s) {inner outer : TypeId}
    (h : s.Nested inner outer) : inner.index < outer.index := by
  have hedge : ∀ {i j : TypeId}, Edge s.edges i j → j.index < i.index := fun h =>
    have ⟨hi, hj⟩ := s.mem_edges.mp h
    hs _ hi _ hj
  induction h with
  | single h => exact hedge h
  | tail _ h ih => exact (hedge h).trans ih

theorem isStrictOrder_nested (hs : ChildrenEarlier s) : IsStrictOrder TypeId s.Nested where
  irrefl _ h := Nat.lt_irrefl _ (s.index_lt_of_nested hs h)
  trans _ _ _ h h' := h'.trans h

theorem children_of_not_contains {id : TypeId} (h : ¬s.Contains id) :
    (s.kind id).children = [] := by
  rw [kind, List.getD_eq_default _ _ (Nat.le_of_not_lt h)]
  rfl

theorem flatMap_range_ite {β : Type} (f : Nat → List β) (n j : Nat) :
    ((List.range n).flatMap fun i => if i = j then f i else []) = if j < n then f j else [] := by
  induction n with
  | zero => rfl
  | succ n ih =>
    rw [List.range_succ, List.flatMap_append, ih]
    rcases Nat.lt_trichotomy j n with h | rfl | h
    · simp [h, Nat.lt_succ_of_lt h, (Nat.ne_of_lt h).symm]
    · simp
    · simp [Nat.not_lt.mpr (Nat.le_of_lt h), Nat.not_lt.mpr h, Nat.ne_of_lt h]

theorem successors_edges (id : TypeId) : successors s.edges id = (s.kind id).children := by
  have hmap : ∀ i, (((s.kind ⟨i⟩).children.map fun child => ((⟨i⟩ : TypeId), child)).filter
      (·.1 = id)).map (·.2) = if i = id.index then (s.kind ⟨i⟩).children else [] := by
    intro i
    by_cases h : i = id.index
    · subst h
      simp [List.filter_map, Function.comp_def]
    · have hne : (⟨i⟩ : TypeId) ≠ id := fun heq => h (congrArg TypeId.index heq)
      simp [List.filter_map, Function.comp_def, hne, h]
  simp only [successors, edges, List.filter_flatMap, List.map_flatMap, hmap]
  rw [flatMap_range_ite fun i => (s.kind ⟨i⟩).children]
  split_ifs with h
  · rfl
  · exact (s.children_of_not_contains h).symm

theorem length_edges : s.edges.length = (s.kinds.map fun k => k.children.length).sum := by
  have hkinds : (List.range s.kinds.length).map (fun i => s.kind ⟨i⟩) = s.kinds := by
    refine List.ext_getElem (by simp) fun i hi hi' => ?_
    simp [kind, hi']
  rw [edges, List.length_flatMap]
  simp only [List.length_map]
  conv_rhs => rw [← hkinds, List.map_map]
  rfl

/-! ## The walk -/

/-- The walk of the code is a search for the needle along the edges. -/
theorem walkContains_eq {root needle : TypeId} (hne : needle ≠ root) (steps : Nat)
    (pending seen : List TypeId) (hseen : needle ∉ seen)
    (hsteps : pending.length + (openEdges s.edges seen).length ≤ steps) :
    s.walkContains root needle steps pending seen = searchFrom s.edges needle pending seen := by
  fun_induction searchFrom s.edges needle pending seen generalizing steps with
  | case1 => cases steps <;> rfl
  | case2 seen rest =>
    obtain ⟨steps, rfl⟩ : ∃ k, steps = k + 1 := ⟨steps - 1, by simp at hsteps; omega⟩
    simp [walkContains, hseen, hne]
  | case3 seen current rest hcurrent hmem ih =>
    obtain ⟨steps, rfl⟩ : ∃ k, steps = k + 1 := ⟨steps - 1, by simp at hsteps; omega⟩
    rw [walkContains, if_pos hmem]
    exact ih steps hseen (by simp at hsteps; omega)
  | case4 seen current rest hcurrent hnew ih =>
    obtain ⟨steps, rfl⟩ : ∃ k, steps = k + 1 := ⟨steps - 1, by simp at hsteps; omega⟩
    have hlength := length_openEdges s.edges hnew
    rw [walkContains, if_neg hnew, if_neg fun h => hcurrent h.1, ← successors_edges]
    refine ih steps (by simp [hseen, Ne.symm hcurrent]) ?_
    simp at hsteps ⊢
    omega

theorem typeContainsNested_iff {outer inner : TypeId} (hne : inner ≠ outer) :
    s.typeContainsNested outer inner = true ↔ s.Nested inner outer := by
  have hopen : (openEdges s.edges []).length = s.edges.length := by simp [openEdges]
  rw [Nested, ← pathExists_iff, typeContainsNested,
    s.walkContains_eq hne _ _ _ List.not_mem_nil (by simp [hopen, length_edges, walkBound]),
    searchFrom, if_neg hne.symm, if_neg List.not_mem_nil, List.append_nil, pathExists]

end TypeStore

/-! ## Growth -/

section

variable {s : TypeStore} {a b : List TypeId}

/-- Nesting as the order of the types of a store. -/
abbrev nestingOrder (hs : TypeStore.ChildrenEarlier s) : PartialOrder TypeId :=
  letI := s.isStrictOrder_nested hs
  partialOrderOfSO s.Nested

theorem argumentsGenerativelyExpand_iff (hs : TypeStore.ChildrenEarlier s) :
    s.argumentsGenerativelyExpand a b = true ↔
      letI := nestingOrder hs
      Grows (entries a) (entries b) := by
  let := nestingOrder hs
  have hle : ∀ prior next, next = prior ∨ s.typeContainsNested next prior = true ↔ prior ≤ next := by
    intro prior next
    by_cases h : next = prior
    · simp [h]
    · rw [s.typeContainsNested_iff (Ne.symm h)]
      simp [h, le_iff_eq_or_lt, Ne.symm h]
      rfl
  have hlt : ∀ prior next, next ≠ prior ∧ s.typeContainsNested next prior = true ↔
      prior < next := by
    intro prior next
    constructor
    · rintro ⟨hne, h⟩
      exact (s.typeContainsNested_iff hne.symm).mp h
    · intro h
      exact ⟨ne_of_gt h, (s.typeContainsNested_iff (ne_of_lt h)).mpr h⟩
  have hgrows : Grows (entries a) (entries b) ↔
      (∀ prior ∈ a, ∃ next ∈ b, prior ≤ next) ∧ ∃ prior ∈ a, ∃ next ∈ b, prior < next :=
    ⟨fun h => ⟨h.cofinal, h.strict⟩, fun h => ⟨h.1, h.2⟩⟩
  rw [hgrows, TypeStore.argumentsGenerativelyExpand]
  split_ifs with hempty
  · refine ⟨nofun, ?_⟩
    rintro ⟨-, prior, hprior, next, hnext, -⟩
    rcases Bool.or_eq_true .. ▸ hempty with h | h
    · rw [List.isEmpty_iff.mp h] at hprior
      cases hprior
    · rw [List.isEmpty_iff.mp h] at hnext
      cases hnext
  · simp [← hle, ← hlt]

/-! ## Strict growth -/

/-- Some argument occurs below another one. -/
def NestsArguments (s : TypeStore) (arguments : List TypeId) : Prop :=
  ∃ inner ∈ arguments, ∃ outer ∈ arguments, s.Nested inner outer

/-- The arguments that occur below no other one. -/
def outermostArguments (s : TypeStore) (arguments : List TypeId) : Set TypeId :=
  {t | t ∈ arguments ∧ ∀ outer ∈ arguments, ¬s.Nested t outer}

/-- Every position keeps its argument or goes on with a part of it. -/
def ShrinksArguments (s : TypeStore) : List TypeId → List TypeId → Prop :=
  List.Forall₂ fun prior next => next = prior ∨ s.Nested next prior

/-- The arguments come back, in another order or smaller. -/
def Repeats (s : TypeStore) (a b : List TypeId) : Prop := a.Perm b ∨ ShrinksArguments s a b

/-- Growth goes in one direction, and arguments that come back do not grow. -/
structure StrictGrowth (s : TypeStore) (a b : List TypeId) : Prop where
  asymmetric :
    ¬(s.argumentsGenerativelyExpand a b = true ∧ s.argumentsGenerativelyExpand b a = true)
  irreflexive : a = b → s.argumentsGenerativelyExpand a b = false
  permuted : a.Perm b → s.argumentsGenerativelyExpand a b = false
  shrunk : ShrinksArguments s a b → s.argumentsGenerativelyExpand a b = false

/-- The lists that grow into each other. -/
structure GrowBothWays (s : TypeStore) (a b : List TypeId) : Prop where
  outermost_eq : outermostArguments s a = outermostArguments s b
  nests_left : NestsArguments s a
  nests_right : NestsArguments s b

theorem growBothWays_iff (hs : TypeStore.ChildrenEarlier s) :
    s.argumentsGenerativelyExpand a b = true ∧ s.argumentsGenerativelyExpand b a = true ↔
      GrowBothWays s a b := by
  let := nestingOrder hs
  have houtermost : ∀ arguments, outermost (entries arguments) = outermostArguments s arguments := by
    intro arguments
    ext t
    constructor
    · intro h
      exact ⟨h.prop, fun outer houter hlt => h.not_gt houter hlt⟩
    · rintro ⟨ht, hnot⟩
      refine ⟨ht, fun outer houter hle => ?_⟩
      obtain heq | hlt := eq_or_lt_of_le hle
      · exact heq.ge
      · exact absurd hlt (hnot outer houter)
  rw [argumentsGenerativelyExpand_iff hs, argumentsGenerativelyExpand_iff hs,
    grows_both_iff (finite_entries a) (finite_entries b), houtermost, houtermost]
  exact ⟨fun h => ⟨h.1, h.2.1, h.2.2⟩, fun h => ⟨h.1, h.2, h.3⟩⟩

/-- Arguments that come back and grow do so in both directions. -/
theorem expand_symm_of_repeats (hs : TypeStore.ChildrenEarlier s) (hrepeats : Repeats s a b)
    (h : s.argumentsGenerativelyExpand a b = true) :
    s.argumentsGenerativelyExpand b a = true := by
  let := nestingOrder hs
  rw [argumentsGenerativelyExpand_iff hs] at h ⊢
  rcases hrepeats with hperm | hshrinks
  · have heq : entries a = entries b := Set.ext fun _ => hperm.mem_iff
    rw [heq] at h
    rwa [heq]
  · refine h.symm_of_shrinks (hshrinks.imp fun prior next hnext => ?_)
    rcases hnext with rfl | hnext
    · exact le_rfl
    · exact le_of_lt hnext

theorem expand_eq_false_of_repeats (hs : TypeStore.ChildrenEarlier s) (hrepeats : Repeats s a b)
    (hstrict : ¬GrowBothWays s a b) : s.argumentsGenerativelyExpand a b = false := by
  by_contra h
  rw [Bool.not_eq_false] at h
  exact hstrict ((growBothWays_iff hs).mp ⟨h, expand_symm_of_repeats hs hrepeats h⟩)

theorem strictGrowth_iff (hs : TypeStore.ChildrenEarlier s) :
    StrictGrowth s a b ↔ ¬GrowBothWays s a b := by
  constructor
  · intro h hboth
    exact h.asymmetric ((growBothWays_iff hs).mpr hboth)
  · intro h
    refine ⟨fun hboth => h ((growBothWays_iff hs).mp hboth), fun heq => ?_, fun hperm => ?_,
      fun hshrinks => ?_⟩
    · exact expand_eq_false_of_repeats hs (.inl (heq ▸ .refl a)) h
    · exact expand_eq_false_of_repeats hs (.inl hperm) h
    · exact expand_eq_false_of_repeats hs (.inr hshrinks) h

/-! ## Stacks -/

/-- The frames that an instantiation is compared with by its arguments. -/
def ComparesArguments (key frame : ReferenceExpansionKey) : Prop :=
  frame.demand = key.demand ∧ frame.declaration = key.declaration ∧
    frame.reference ≠ key.reference ∧ frame.arguments ≠ key.arguments

theorem recursionFrom_eq_generative_iff {key frame : ReferenceExpansionKey} :
    key.recursionFrom s frame = .generative ↔
      ComparesArguments key frame ∧
        s.argumentsGenerativelyExpand frame.arguments key.arguments = true := by
  unfold ReferenceExpansionKey.recursionFrom ComparesArguments
  split_ifs with hdistinct hexact hgrows <;> simp_all <;> grind

/-- An instantiation that repeats or shrinks the ones it is expanded in is generative exactly if
it grows into one of them and back. -/
theorem generativeExpansion_eq_none_iff (hs : TypeStore.ChildrenEarlier s)
    (stack : ReferenceExpansionStack) (reference : TypeId) (declaration : DeclId)
    (hrepeats : ∀ frame ∈ stack.frames, Repeats s frame.arguments b) :
    stack.generativeExpansion s reference declaration b = none ↔
      ∀ frame ∈ stack.frames, ComparesArguments ⟨stack.demand, reference, declaration, b⟩ frame →
        ¬GrowBothWays s frame.arguments b := by
  have hgenerative : ∀ frame ∈ stack.frames,
      ReferenceExpansionKey.recursionFrom s ⟨stack.demand, reference, declaration, b⟩ frame =
          .generative ↔
        ComparesArguments ⟨stack.demand, reference, declaration, b⟩ frame ∧
          GrowBothWays s frame.arguments b := by
    intro frame hframe
    rw [recursionFrom_eq_generative_iff, ← growBothWays_iff hs]
    refine and_congr_right fun _ => ⟨fun h => ?_, fun h => h.1⟩
    exact ⟨h, expand_symm_of_repeats hs (hrepeats frame hframe) h⟩
  simp only [ReferenceExpansionStack.generativeExpansion, List.findSome?_eq_none_iff,
    List.mem_reverse, Prod.forall, ite_eq_right_iff, reduceCtorEq, imp_false]
  constructor
  · intro h frame hframe hcompares hboth
    obtain ⟨i, hi⟩ := List.mem_iff_getElem?.mp hframe
    exact h frame i (List.mk_mem_zipIdx_iff_getElem?.mpr hi)
      ((hgenerative frame hframe).mpr ⟨hcompares, hboth⟩)
  · intro h frame i hmem hrec
    have hframe := List.fst_mem_of_mem_zipIdx hmem
    obtain ⟨hcompares, hboth⟩ := (hgenerative frame hframe).mp hrec
    exact h frame hframe hcompares hboth

/-- Growth is strict except between lists with the same outermost arguments that nest both, and an
instantiation that comes back is generative in that case only. -/
theorem generativeGrowth_strict_iff (hs : s.Reachable) :
    (∀ a b, StrictGrowth s a b ↔ ¬GrowBothWays s a b) ∧
      ∀ (stack : ReferenceExpansionStack) (reference : TypeId) (declaration : DeclId) (b),
        (∀ frame ∈ stack.frames, Repeats s frame.arguments b) →
          (stack.generativeExpansion s reference declaration b = none ↔
            ∀ frame ∈ stack.frames,
              ComparesArguments ⟨stack.demand, reference, declaration, b⟩ frame →
                ¬GrowBothWays s frame.arguments b) :=
  ⟨fun _ _ => strictGrowth_iff hs.childrenEarlier, fun stack reference declaration _ hrepeats =>
    generativeExpansion_eq_none_iff hs.childrenEarlier stack reference declaration hrepeats⟩

def swapDeclaration : DeclId := ⟨⟨0⟩, 0⟩

/-- `number[]` (13), and references to a declaration with `number` (8) and `number[]` as its
arguments (14) and with the two swapped (15). -/
def swapStore : TypeStore :=
  let s := (TypeStore.new.intern (.array ⟨8⟩)).2
  let s := (s.intern (.deferred (.reference swapDeclaration [⟨8⟩, ⟨13⟩]))).2
  (s.intern (.deferred (.reference swapDeclaration [⟨13⟩, ⟨8⟩]))).2

theorem reachable_swapStore : swapStore.Reachable :=
  .intern (.intern (.intern .new (by decide +kernel) nofun nofun) (by decide +kernel) nofun nofun)
    (by decide +kernel) nofun nofun

theorem generativeGrowth_strict_iff_swapStore :
    swapStore.Reachable ∧ StrictGrowth swapStore [⟨13⟩] [⟨8⟩] := by
  refine ⟨reachable_swapStore,
    ((generativeGrowth_strict_iff reachable_swapStore).1 _ _).mpr fun h => ?_⟩
  obtain ⟨inner, hinner, outer, houter, hnested⟩ := h.nests_left
  obtain rfl := List.mem_singleton.mp hinner
  obtain rfl := List.mem_singleton.mp houter
  exact Nat.lt_irrefl _
    (swapStore.index_lt_of_nested reachable_swapStore.childrenEarlier hnested)

/-- The arguments `number` and `number[]` grow into the same two in the other order, and a reference
to them is generative. -/
theorem not_strictGrowth_swapStore :
    swapStore.Reachable ∧ ¬StrictGrowth swapStore [⟨8⟩, ⟨13⟩] [⟨13⟩, ⟨8⟩] ∧
      ((ReferenceExpansionStack.new .relationSource).push ⟨14⟩ swapDeclaration
        [⟨8⟩, ⟨13⟩]).generativeExpansion swapStore ⟨15⟩ swapDeclaration [⟨13⟩, ⟨8⟩] ≠ none := by
  refine ⟨reachable_swapStore, fun h => ?_, by decide +kernel⟩
  have hgrows : swapStore.argumentsGenerativelyExpand [⟨8⟩, ⟨13⟩] [⟨13⟩, ⟨8⟩] = true := by
    decide +kernel
  rw [h.permuted (List.Perm.swap _ _ _)] at hgrows
  cases hgrows

end

end Tsz.Semantics
