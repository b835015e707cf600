import Mathlib.Data.List.OfFn
import Tsz.Recursion.Elimination
import Tsz.Semantics.TypeStore
import Tsz.Syntax.SourceUnit

/-!
# The member of a union that an object literal selects

An object literal in the context of a union of object types is compared with the members, and the
context of its properties is taken from the member that remains. Declared names exclude members
first. The literal values exclude more of them, one property after the other.

## Main definitions

* `literalMatchesType` — whether a literal has a type, as far as the type is ready.
* `contextuallyApplicableMembers` — the member that remains.
* `OrderIndependent` — properties and members can be written in any order.

## Main results

* `contextuallyApplicableMembers_eq_some_iff` — the selection as an elimination.
* `orderIndependent_iff` — exactly when the order does not matter.
-/

namespace Tsz.Semantics

open Syntax

/-- The state of a force query. -/
inductive QueryState
  | computing
  | ready (result : TypeId)
deriving DecidableEq, Repr

/-- What the selection reads of the checker. The value of a number token is parsed outside. -/
structure ContextualView where
  types : TypeStore
  forceQueries : TypeId → Option QueryState
  numericLiteral : String → Option NumericLiteral

/-- All neighbours are equal. -/
def allEqual {α : Type} [DecidableEq α] (values : List α) : Bool :=
  (values.zip values.tail).all fun pair => pair.1 = pair.2

namespace ContextualView

variable (C : ContextualView)

def readyTypeForDisplay (ty : TypeId) : Completion TypeId :=
  match C.types.kind ty with
  | .deferred _ =>
    match C.forceQueries ty with
    | some (.ready result) => .complete result
    | some .computing => .cycle
    | none => .deferred
  | _ => .complete ty

/-- The members of a union are compared one level below. -/
def literalMatchesTypeWithin : Nat → Literal → TypeId → Option Bool
  | 0, _, _ => none
  | levels + 1, literal, target =>
    match C.readyTypeForDisplay target with
    | .complete target =>
      match literal, C.types.kind target with
      | .string (.plain left), .literalString right _ => some (left = right)
      | .string (.extended _), .literalString _ _ => none
      | .noSubstitutionTemplate left, .literalString right _ => some (left.cooked = right)
      | .number left, .literalNumber right _ =>
        match left with
        | .recovery _ => none
        | left => (C.numericLiteral left.semanticText).map fun left => left = right
      | .bigInt _, .bigInt | .null, .null => some true
      | .boolean left, .literalBoolean right _ => some (left = right)
      | _, .union members => members.anyM (literalMatchesTypeWithin levels literal)
      | _, .literalString _ _ | _, .literalNumber _ _ | _, .literalBoolean _ _ | _, .null =>
        some false
      | _, _ => none
    | _ => none

/-- More levels than types are only needed by a type that is a member of itself. -/
def literalMatchesType : Literal → TypeId → Option Bool :=
  C.literalMatchesTypeWithin (C.types.kinds.length + 1)

variable {C}

theorem anyM_mono {α : Type} {f g : α → Option Bool} (h : ∀ a b, f a = some b → g a = some b)
    {values : List α} {b : Bool} (hf : values.anyM f = some b) : values.anyM g = some b := by
  induction values with
  | nil => exact hf
  | cons a values ih =>
    rw [List.anyM_cons] at hf ⊢
    cases ha : f a with
    | none => simp [ha] at hf
    | some c =>
      rw [ha] at hf
      rw [h a c ha]
      cases c with
      | true => exact hf
      | false => exact ih hf

/-- An answer does not change with more levels. -/
theorem literalMatchesTypeWithin_succ {levels : Nat} {literal : Literal} {target : TypeId}
    {b : Bool} (h : C.literalMatchesTypeWithin levels literal target = some b) :
    C.literalMatchesTypeWithin (levels + 1) literal target = some b := by
  induction levels generalizing literal target b with
  | zero => cases h
  | succ levels ih =>
    revert h
    rw [literalMatchesTypeWithin, literalMatchesTypeWithin]
    cases C.readyTypeForDisplay target with
    | complete target =>
      dsimp only
      split <;> first | exact id | exact anyM_mono fun _ _ => ih
    | deferred => exact id
    | cycle => exact id
    | limit => exact id

end ContextualView

/-- The literal a property is set to. -/
def sourceLiteral (p : ObjectProperty) : Option Literal :=
  match p.value.peelParentheses.kind with
  | .literal literal => some literal
  | _ => none

section selection

variable (members : List (List Property)) (p : ObjectProperty)

def declaresName (properties : List Property) : Bool :=
  properties.any fun property => property.name = p.name

/-- The type that a member declares for the property. -/
def declaredType (index : Nat) : Option TypeId :=
  (members[index]?.getD []).find? (fun property => property.name = p.name) |>.map (·.ty)

/-- A uniquely declared source property excludes the other members. -/
def applicableByNames : List ObjectProperty → List Nat → Bool → Option (List Nat × Bool)
  | [], applicable, evidence => some (applicable, evidence)
  | p :: rest, applicable, evidence =>
    let declared := members.map (declaresName p)
    if allEqual declared then applicableByNames rest applicable evidence
    else
      let applicable := applicable.filter fun index => declared[index]?.getD false
      if applicable = [] then none else applicableByNames rest applicable true

def applicableByLiterals (C : ContextualView) :
    List ObjectProperty → List Nat → Bool → Option (List Nat × Bool)
  | [], applicable, evidence => some (applicable, evidence)
  | p :: rest, applicable, evidence =>
    match sourceLiteral p with
    | none => applicableByLiterals C rest applicable evidence
    | some literal =>
      match applicable.mapM (declaredType members p) with
      | none => applicableByLiterals C rest applicable evidence
      | some targetTypes =>
        if allEqual targetTypes then applicableByLiterals C rest applicable evidence
        else
          match targetTypes.mapM (C.literalMatchesType literal) with
          | none => none
          | some matched =>
            if matched.all (!·) then applicableByLiterals C rest applicable evidence
            else
              let applicable := (applicable.zip matched).filterMap fun (index, matched) =>
                if matched then some index else none
              if applicable = [] then none else applicableByLiterals C rest applicable true

def contextuallyApplicableMembers (C : ContextualView) (source : Expression) :
    Option (List Nat) :=
  match source.peelParentheses.kind with
  | .object sourceProperties =>
    match applicableByNames members sourceProperties (List.range members.length) false with
    | none => none
    | some (applicable, evidence) =>
      match applicableByLiterals members C sourceProperties applicable evidence with
      | none => none
      | some (applicable, evidence) =>
        if evidence ∧ applicable.length = 1 then some applicable else none
  | _ => none

end selection

/-! ## The selection as an elimination -/

theorem allEqual_iff {α : Type} [DecidableEq α] {values : List α} :
    allEqual values = true ↔ ∀ a ∈ values, ∀ b ∈ values, a = b := by
  unfold allEqual
  induction values with
  | nil => simp
  | cons a values ih =>
    cases values with
    | nil => simp
    | cons b values =>
      simp only [List.tail_cons, List.zip_cons_cons, List.all_cons, Bool.and_eq_true,
        decide_eq_true_eq] at ih ⊢
      rw [ih]
      constructor
      · rintro ⟨rfl, h⟩ x hx y hy
        have hmem : ∀ z ∈ a :: a :: values, z ∈ a :: values := by simp
        exact h x (hmem x hx) y (hmem y hy)
      · intro h
        exact ⟨h a (by simp) b (by simp), fun x hx y hy =>
          h x (List.mem_cons_of_mem a hx) y (List.mem_cons_of_mem a hy)⟩

theorem mapM_eq_none_iff {α β : Type} {f : α → Option β} {values : List α} :
    values.mapM f = none ↔ ∃ a ∈ values, f a = none := by
  induction values with
  | nil => simp
  | cons a values ih =>
    rw [List.mapM_cons]
    cases h : f a with
    | none => simp [h]
    | some b =>
      cases hrest : values.mapM f with
      | none => simpa [h, hrest] using ih
      | some rest => simpa [h, hrest] using ih

theorem map_eq_of_mapM {α β : Type} {f : α → Option β} {values : List α} {found : List β}
    (h : values.mapM f = some found) : values.map f = found.map some := by
  induction values generalizing found with
  | nil =>
    cases h
    rfl
  | cons a values ih =>
    rw [List.mapM_cons] at h
    cases ha : f a with
    | none => simp [ha] at h
    | some b =>
      cases hrest : values.mapM f with
      | none => simp [ha, hrest] at h
      | some rest =>
        simp only [ha, hrest, Option.bind_eq_bind, Option.bind_some, Option.pure_def,
          Option.some.injEq] at h
        rw [← h, List.map_cons, List.map_cons, ih hrest, ha]

theorem filterMap_zip_eq_filter {f : Nat → Option Bool} {applicable : List Nat}
    {matched : List Bool} (h : applicable.map f = matched.map some) :
    (applicable.zip matched).filterMap
        (fun (index, matched) => if matched then some index else none) =
      applicable.filter fun index => f index = some true := by
  induction applicable generalizing matched with
  | nil => rfl
  | cons index applicable ih =>
    cases matched with
    | nil => cases h
    | cons b matched =>
      simp only [List.map_cons, List.cons.injEq] at h
      rw [List.zip_cons_cons, List.filterMap_cons, List.filter_cons, ih h.2, h.1]
      cases b <;> simp

section elimination

variable {C : ContextualView} {members : List (List Property)} {p : ObjectProperty}
  {properties : List ObjectProperty} {current left : List Nat} {evidence : Bool} {i : Nat}

/-- What a literal property finds in a member; other properties find nothing. -/
def contextualValue (members : List (List Property)) (p : ObjectProperty) (index : Nat) :
    Option TypeId :=
  (sourceLiteral p).bind fun _ => declaredType members p index

def contextualVerdict (C : ContextualView) (p : ObjectProperty) : Option TypeId → Option Bool
  | none => some false
  | some ty => (sourceLiteral p).bind fun literal => C.literalMatchesType literal ty

/-- The members do not disagree on the name, or this one declares it. -/
def keepsMember (members : List (List Property)) (p : ObjectProperty) (index : Nat) : Bool :=
  allEqual (members.map (declaresName p)) || declaresName p (members[index]?.getD [])

/-- The members that are left once the names have been compared. -/
def applicableMembers (members : List (List Property)) (properties : List ObjectProperty) :
    List Nat :=
  (List.range members.length).filter fun index => properties.all (keepsMember members · index)

abbrev eliminate (C : ContextualView) (members : List (List Property)) :
    List ObjectProperty → List Nat → Option (List Nat) :=
  Elimination.run (contextualValue members) (contextualVerdict C)

variable (properties evidence) in
theorem applicableByNames_eq (hcurrent : ∀ index ∈ current, index < members.length) :
    (∃ evidence', applicableByNames members properties current evidence =
        some (current.filter fun index => properties.all (keepsMember members · index), evidence') ∧
        ((∃ p ∈ properties, allEqual (members.map (declaresName p)) = false) →
          evidence' = true) ∧
        ((∀ p ∈ properties, allEqual (members.map (declaresName p)) = true) →
          evidence' = evidence)) ∨
      (applicableByNames members properties current evidence = none ∧
        current.filter (fun index => properties.all (keepsMember members · index)) = []) := by
  induction properties generalizing current evidence with
  | nil => exact .inl ⟨evidence, by simp [applicableByNames]⟩
  | cons p properties ih =>
    by_cases hsame : allEqual (members.map (declaresName p)) = true
    · have hkeeps : (fun index => (p :: properties).all (keepsMember members · index)) =
          fun index => properties.all (keepsMember members · index) := by
        funext index
        simp [keepsMember, hsame]
      rw [applicableByNames, if_pos hsame, hkeeps]
      simpa [hsame] using ih evidence hcurrent
    · have hfilter : (current.filter fun index =>
          (members.map (declaresName p))[index]?.getD false) =
            current.filter (keepsMember members p) := by
        refine List.filter_congr fun index hindex => ?_
        simp [keepsMember, hsame, hcurrent index hindex]
      have hkeeps : (current.filter fun index =>
          (p :: properties).all (keepsMember members · index)) =
            (current.filter (keepsMember members p)).filter fun index =>
              properties.all (keepsMember members · index) := by
        rw [List.filter_filter]
        exact List.filter_congr fun index _ => by rw [List.all_cons, Bool.and_comm]
      rw [applicableByNames, if_neg hsame, hkeeps]
      simp only [hfilter]
      by_cases hempty : current.filter (keepsMember members p) = []
      · rw [if_pos hempty, hempty]
        exact .inr ⟨rfl, rfl⟩
      · rw [if_neg hempty]
        have hfiltered : ∀ index ∈ current.filter (keepsMember members p),
            index < members.length := fun index hindex =>
          hcurrent index (List.mem_of_mem_filter hindex)
        rcases ih true hfiltered with
          ⟨evidence', heq, hfound, hkept⟩ | hnone
        · refine .inl ⟨evidence', heq, fun _ => ?_, fun hall => ?_⟩
          · by_cases hrest : ∃ q ∈ properties, allEqual (members.map (declaresName q)) = false
            · exact hfound hrest
            · refine hkept fun q hq => ?_
              by_contra hne
              exact hrest ⟨q, hq, Bool.eq_false_of_not_eq_true hne⟩
          · exact absurd (hall p (List.mem_cons_self ..)) hsame
        · exact .inr hnone

theorem declaredType_eq_none_iff {index : Nat} :
    declaredType members p index = none ↔
      declaresName p (members[index]?.getD []) = false := by
  simp [declaredType, declaresName]

theorem discriminates_iff {literal : Literal} (hliteral : sourceLiteral p = some literal)
    {targetTypes : List TypeId} (htypes : current.map (declaredType members p) =
      targetTypes.map some) :
    Elimination.Discriminates (contextualValue members) p current ↔
      allEqual targetTypes = false := by
  have hvalue : ∀ index, contextualValue members p index = declaredType members p index := by
    intro index
    simp [contextualValue, hliteral]
  have hmem : ∀ ty, (∃ index ∈ current, declaredType members p index = some ty) ↔
      ty ∈ targetTypes := by
    intro ty
    rw [← List.mem_map, htypes]
    simp
  have hsome : ∀ index ∈ current, ∃ ty ∈ targetTypes, declaredType members p index = some ty := by
    intro index hindex
    have hin := htypes ▸ List.mem_map.mpr ⟨index, hindex, rfl⟩
    obtain ⟨ty, hty, heq⟩ := List.mem_map.mp hin
    exact ⟨ty, hty, heq.symm⟩
  rw [← Bool.not_eq_true, allEqual_iff]
  simp only [Elimination.Discriminates, hvalue]
  push Not
  constructor
  · rintro ⟨i, hi, j, hj, hne⟩
    obtain ⟨a, ha, hia⟩ := hsome i hi
    obtain ⟨b, hb, hjb⟩ := hsome j hj
    refine ⟨a, ha, b, hb, fun hab => hne ?_⟩
    rw [hia, hjb, hab]
  · rintro ⟨a, ha, b, hb, hne⟩
    obtain ⟨i, hi, hia⟩ := (hmem a).mpr ha
    obtain ⟨j, hj, hjb⟩ := (hmem b).mpr hb
    refine ⟨i, hi, j, hj, ?_⟩
    rw [hia, hjb]
    simpa using hne

theorem two_le_length_of_discriminates
    (h : Elimination.Discriminates (contextualValue members) p current) :
    2 ≤ current.length := by
  obtain ⟨i, hi, j, hj, hne⟩ := h
  cases current with
  | nil => cases hi
  | cons a current =>
    cases current with
    | nil => simp_all
    | cons b current => simp

variable (C properties evidence) in
/-- What one literal property does. -/
theorem applicableByLiterals_cases
    (huniform : (∀ index ∈ current, declaredType members p index ≠ none) ∨
      ∀ index ∈ current, declaredType members p index = none) :
    let next := Elimination.step (contextualValue members) (contextualVerdict C) p current
    let result := applicableByLiterals members C (p :: properties) current evidence
    (next = none ∧ result = none) ∨
      (next = some current ∧
        result = applicableByLiterals members C properties current evidence) ∨
      (∃ applicable, next = some applicable ∧ 2 ≤ current.length ∧
        result = applicableByLiterals members C properties applicable true) := by
  intro next result
  have hskip : ¬ Elimination.Discriminates (contextualValue members) p current →
      next = some current := fun h => if_pos h
  cases hliteral : sourceLiteral p with
  | none =>
    refine .inr (.inl ⟨hskip ?_, ?_⟩)
    · rintro ⟨i, _, j, _, hne⟩
      simp [contextualValue, hliteral] at hne
    · simp only [result, applicableByLiterals, hliteral]
  | some literal =>
    cases htypes : current.mapM (declaredType members p) with
    | none =>
      obtain ⟨k, hk, hnone⟩ := mapM_eq_none_iff.mp htypes
      have hall : ∀ index ∈ current, declaredType members p index = none := by
        rcases huniform with hsome | hall
        · exact absurd hnone (hsome k hk)
        · exact hall
      refine .inr (.inl ⟨hskip ?_, ?_⟩)
      · rintro ⟨i, hi, j, hj, hne⟩
        simp [contextualValue, hliteral, hall i hi, hall j hj] at hne
      · simp only [result, applicableByLiterals, hliteral, htypes]
    | some targetTypes =>
      have hmap := map_eq_of_mapM htypes
      have hdisc := discriminates_iff hliteral hmap
      cases hequal : allEqual targetTypes with
      | true =>
        refine .inr (.inl ⟨hskip (by simp [hdisc, hequal]), ?_⟩)
        simp only [result, applicableByLiterals, hliteral, htypes, hequal, if_true]
      | false =>
        have hdiscriminates := hdisc.mpr hequal
        have hanswer : ∀ index ∈ current, Elimination.answer (contextualValue members)
            (contextualVerdict C) p index =
              (declaredType members p index).bind (C.literalMatchesType literal) := by
          intro index hindex
          have hin := hmap ▸ List.mem_map.mpr ⟨index, hindex, rfl⟩
          obtain ⟨ty, _, heq⟩ := List.mem_map.mp hin
          simp [Elimination.answer, contextualValue, contextualVerdict, hliteral, ← heq]
        have hanswers : current.map (Elimination.answer (contextualValue members)
            (contextualVerdict C) p) = targetTypes.map (C.literalMatchesType literal) := by
          rw [List.map_congr_left hanswer]
          have := congrArg (List.map (Option.bind · (C.literalMatchesType literal))) hmap
          simpa [Function.comp_def] using this
        cases hmatched : targetTypes.mapM (C.literalMatchesType literal) with
        | none =>
          refine .inl ⟨?_, ?_⟩
          · obtain ⟨ty, hty, hnone⟩ := mapM_eq_none_iff.mp hmatched
            have hin : none ∈ current.map (Elimination.answer (contextualValue members)
                (contextualVerdict C) p) := by
              rw [hanswers]
              exact List.mem_map.mpr ⟨ty, hty, hnone⟩
            obtain ⟨k, hk, hknone⟩ := List.mem_map.mp hin
            simp only [next, Elimination.step]
            rw [if_neg (not_not_intro hdiscriminates), if_pos ⟨k, hk, hknone⟩]
          · simp [result, applicableByLiterals, hliteral, htypes, hequal, hmatched]
        | some matched =>
          have hmatches : current.map (Elimination.answer (contextualValue members)
              (contextualVerdict C) p) = matched.map some := by
            rw [hanswers, map_eq_of_mapM hmatched]
          have hknown : ¬ ∃ k ∈ current, Elimination.answer (contextualValue members)
              (contextualVerdict C) p k = none := by
            rintro ⟨k, hk, hnone⟩
            have := hmatches ▸ List.mem_map.mpr ⟨k, hk, hnone⟩
            simp at this
          have hfalse : (∀ k ∈ current, Elimination.answer (contextualValue members)
              (contextualVerdict C) p k ≠ some true) ↔ matched.all (!·) = true := by
            have : (∃ k ∈ current, Elimination.answer (contextualValue members)
                (contextualVerdict C) p k = some true) ↔ true ∈ matched := by
              rw [← List.mem_map, hmatches]
              simp
            rw [← not_iff_not]
            push Not
            rw [this]
            simp
          cases hall : matched.all (!·) with
          | true =>
            refine .inr (.inl ⟨?_, ?_⟩)
            · simp only [next, Elimination.step]
              rw [if_neg (not_not_intro hdiscriminates), if_neg hknown, if_pos (hfalse.mpr hall)]
            · simp [result, applicableByLiterals, hliteral, htypes, hequal, hmatched, hall]
          | false =>
            have hsome : ¬ ∀ k ∈ current, Elimination.answer (contextualValue members)
                (contextualVerdict C) p k ≠ some true := by
              rw [hfalse, hall]
              simp
            have hfilter := filterMap_zip_eq_filter hmatches
            refine .inr (.inr ⟨current.filter fun k => Elimination.answer
              (contextualValue members) (contextualVerdict C) p k = some true, ?_,
              two_le_length_of_discriminates hdiscriminates, ?_⟩)
            · simp only [next, Elimination.step]
              rw [if_neg (not_not_intro hdiscriminates), if_neg hknown, if_neg hsome]
            · have hne : current.filter (fun k => Elimination.answer (contextualValue members)
                  (contextualVerdict C) p k = some true) ≠ [] := by
                push Not at hsome
                obtain ⟨k, hk, htrue⟩ := hsome
                exact List.ne_nil_of_mem (List.mem_filter.mpr ⟨hk, by simpa using htrue⟩)
              simp only [result, applicableByLiterals, hliteral, htypes, hequal, hmatched, hall,
                hfilter]
              simp only [Bool.false_eq_true, if_false, if_neg hne]

/-- A property is declared by all of the members that are left, or by none. -/
def Uniform (members : List (List Property)) (properties : List ObjectProperty)
    (current : List Nat) : Prop :=
  ∀ p ∈ properties, (∀ index ∈ current, declaredType members p index ≠ none) ∨
    ∀ index ∈ current, declaredType members p index = none

theorem Uniform.mono (h : Uniform members properties current) (hsub : left ⊆ current) :
    Uniform members properties left := by
  intro p hp
  rcases h p hp with hall | hnone
  · exact .inl fun index hindex => hall index (hsub hindex)
  · exact .inr fun index hindex => hnone index (hsub hindex)

theorem uniform_applicableMembers (members : List (List Property))
    (properties : List ObjectProperty) :
    Uniform members properties (applicableMembers members properties) := by
  intro p hp
  by_cases hsame : allEqual (members.map (declaresName p)) = true
  · have hequal := allEqual_iff.mp hsame
    have hmem : ∀ index ∈ applicableMembers members properties,
        declaresName p (members[index]?.getD []) ∈ members.map (declaresName p) := by
      intro index hindex
      have hlt := List.mem_range.mp (List.mem_of_mem_filter hindex)
      rw [List.getElem?_eq_getElem hlt, Option.getD_some]
      exact List.mem_map.mpr ⟨_, List.getElem_mem hlt, rfl⟩
    by_cases hsome : ∃ k ∈ applicableMembers members properties,
        declaredType members p k = none
    · obtain ⟨k, hk, hnone⟩ := hsome
      refine .inr fun index hindex => declaredType_eq_none_iff.mpr ?_
      rw [hequal _ (hmem index hindex) _ (hmem k hk)]
      exact declaredType_eq_none_iff.mp hnone
    · push Not at hsome
      exact .inl hsome
  · refine .inl fun index hindex hnone => ?_
    have hkeeps := List.all_eq_true.mp (List.mem_filter.mp hindex).2 p hp
    rw [keepsMember, declaredType_eq_none_iff.mp hnone, Bool.or_false] at hkeeps
    exact hsame hkeeps

variable (C evidence) in
theorem applicableByLiterals_eq (h : Uniform members properties current) :
    (eliminate C members properties current = none ∧
        applicableByLiterals members C properties current evidence = none) ∨
      ∃ left evidence', eliminate C members properties current = some left ∧
        applicableByLiterals members C properties current evidence = some (left, evidence') ∧
        ((evidence' = evidence ∧ left = current) ∨ (evidence' = true ∧ 2 ≤ current.length)) := by
  induction properties generalizing current evidence with
  | nil => exact .inr ⟨current, evidence, rfl, rfl, .inl ⟨rfl, rfl⟩⟩
  | cons p properties ih =>
    have hrest : Uniform members properties current :=
      fun q hq => h q (List.mem_cons_of_mem p hq)
    rw [eliminate, Elimination.run_cons]
    rcases applicableByLiterals_cases C properties evidence (h p (List.mem_cons_self ..)) with ⟨hstep, hresult⟩ | ⟨hstep, hresult⟩ |
        ⟨applicable, hstep, htwo, hresult⟩
    · exact .inl ⟨by rw [hstep, Option.bind_none], hresult⟩
    · rw [hstep, Option.bind_some, hresult]
      exact ih evidence hrest
    · rw [hstep, Option.bind_some, hresult]
      rcases ih true (hrest.mono (Elimination.sublist_of_step hstep).subset) with
        hnone | ⟨left, evidence', hrun, hleft, hevidence⟩
      · exact .inl hnone
      · refine .inr ⟨left, evidence', hrun, hleft, .inr ⟨?_, htwo⟩⟩
        rcases hevidence with ⟨htrue, _⟩ | ⟨htrue, _⟩ <;> exact htrue

theorem length_applicableMembers_le (members : List (List Property))
    (properties : List ObjectProperty) :
    (applicableMembers members properties).length ≤ members.length := by
  have h := List.length_filter_le (fun index => properties.all (keepsMember members · index))
    (List.range members.length)
  rwa [List.length_range] at h

theorem allEqual_of_length_le_one {α : Type} [DecidableEq α] {values : List α}
    (h : values.length ≤ 1) : allEqual values = true := by
  refine allEqual_iff.mpr fun a ha b hb => ?_
  match values, h with
  | [], _ => cases ha
  | [c], _ =>
    rw [List.mem_singleton] at ha hb
    rw [ha, hb]

theorem applicableMembers_eq_range
    (h : ∀ p ∈ properties, allEqual (members.map (declaresName p)) = true) :
    applicableMembers members properties = List.range members.length := by
  refine List.filter_eq_self.mpr fun index _ => List.all_eq_true.mpr fun p hp => ?_
  rw [keepsMember, h p hp, Bool.true_or]

/-- The selection is the only member that the elimination leaves of two or more. -/
theorem contextuallyApplicableMembers_eq_some_iff {source : Expression}
    (hsource : source.peelParentheses.kind = .object properties) {selected : List Nat} :
    contextuallyApplicableMembers members C source = some selected ↔
      ∃ i, selected = [i] ∧ 2 ≤ members.length ∧
        eliminate C members properties (applicableMembers members properties) = some [i] := by
  have hrange : ∀ index ∈ List.range members.length, index < members.length :=
    fun index hindex => List.mem_range.mp hindex
  rw [contextuallyApplicableMembers, hsource]
  dsimp only
  rcases applicableByNames_eq properties false hrange with
    ⟨evidence, hnames, hfound, hkept⟩ | ⟨hnames, hempty⟩
  · change applicableByNames _ _ _ _ = some (applicableMembers members properties, _) at hnames
    rw [hnames]
    dsimp only
    rcases applicableByLiterals_eq C evidence (uniform_applicableMembers members properties) with
      ⟨hrun, hnone⟩ | ⟨left, evidence', hrun, hleft, hevidence⟩
    · rw [hnone, hrun]
      simp
    · rw [hleft, hrun]
      dsimp only
      constructor
      · intro hselected
        split at hselected
        next hone =>
          cases hselected
          obtain ⟨i, rfl⟩ := List.length_eq_one_iff.mp hone.2
          refine ⟨i, rfl, ?_, rfl⟩
          by_contra hlt
          have hlength := length_applicableMembers_le members properties
          rcases hevidence with ⟨heq, _⟩ | ⟨_, htwo⟩
          · have hfalse : evidence = false := hkept fun p _ =>
              allEqual_of_length_le_one (by rw [List.length_map]; omega)
            rw [heq, hfalse] at hone
            exact Bool.false_ne_true hone.1
          · omega
        next => cases hselected
      · rintro ⟨i, rfl, htwo, hi⟩
        obtain rfl := Option.some.inj hi
        refine if_pos ⟨?_, rfl⟩
        rcases hevidence with ⟨heq, hsame⟩ | ⟨htrue, _⟩
        · rw [heq]
          refine hfound ?_
          by_contra hno
          have hequal : ∀ p ∈ properties, allEqual (members.map (declaresName p)) = true := by
            intro p hp
            by_contra hne
            exact hno ⟨p, hp, Bool.eq_false_of_not_eq_true hne⟩
          have hlength := congrArg List.length
            (hsame.trans (applicableMembers_eq_range hequal))
          rw [List.length_singleton, List.length_range] at hlength
          omega
        · exact htrue
  · change applicableMembers members properties = [] at hempty
    rw [hnames, hempty, eliminate, Elimination.run_nil_candidates]
    simp

end elimination

/-! ## Other orders -/

section order

variable {C : ContextualView} {members : List (List Property)}
  {properties properties' : List ObjectProperty} {source source' : Expression}

/-- The members of the union in another order. -/
def permuteMembers (members : List (List Property)) (σ : Equiv.Perm (Fin members.length)) :
    List (List Property) :=
  List.ofFn fun i => members.get (σ i)

/-- The same member is selected for every order of the properties and of the members. -/
def OrderIndependent (C : ContextualView) (members : List (List Property))
    (properties : List ObjectProperty) : Prop :=
  ∀ source source' properties', source.peelParentheses.kind = .object properties →
    source'.peelParentheses.kind = .object properties' → properties'.Perm properties →
    ∀ σ : Equiv.Perm (Fin members.length),
      (contextuallyApplicableMembers (permuteMembers members σ) C source' = none ↔
        contextuallyApplicableMembers members C source = none) ∧
      ∀ i : Fin members.length,
        contextuallyApplicableMembers (permuteMembers members σ) C source' = some [i.val] ↔
          contextuallyApplicableMembers members C source = some [(σ i).val]

/-- The permutation of the positions; positions outside are kept. -/
def movedTo {n : Nat} (σ : Equiv.Perm (Fin n)) (index : Nat) : Nat :=
  if h : index < n then σ ⟨index, h⟩ else index

theorem movedTo_val {n : Nat} (σ : Equiv.Perm (Fin n)) (i : Fin n) : movedTo σ i = σ i := by
  simp [movedTo]

theorem movedTo_injective {n : Nat} (σ : Equiv.Perm (Fin n)) : (movedTo σ).Injective := by
  intro a b h
  unfold movedTo at h
  split at h <;> split at h
  next ha hb =>
    have := σ.injective (Fin.val_injective h)
    exact congrArg Fin.val this
  next ha hb => omega
  next ha hb => omega
  next => exact h

theorem getElem?_permuteMembers (σ : Equiv.Perm (Fin members.length)) (index : Nat) :
    (permuteMembers members σ)[index]? = members[movedTo σ index]? := by
  unfold permuteMembers movedTo
  rw [List.getElem?_ofFn]
  split
  next h => simp
  next h => rw [List.getElem?_eq_none (by omega)]

theorem allEqual_permuteMembers (σ : Equiv.Perm (Fin members.length)) (p : ObjectProperty) :
    allEqual ((permuteMembers members σ).map (declaresName p)) =
      allEqual (members.map (declaresName p)) := by
  have hmem : ∀ b, b ∈ (permuteMembers members σ).map (declaresName p) ↔
      b ∈ members.map (declaresName p) := by
    intro b
    simp only [permuteMembers, List.map_ofFn, List.mem_ofFn, List.mem_map, Function.comp_apply]
    constructor
    · rintro ⟨i, rfl⟩
      exact ⟨_, List.get_mem members (σ i), rfl⟩
    · rintro ⟨m, hm, rfl⟩
      obtain ⟨i, rfl⟩ := List.get_of_mem hm
      exact ⟨σ.symm i, by rw [Equiv.apply_symm_apply]⟩
  rw [Bool.eq_iff_iff, allEqual_iff, allEqual_iff]
  simp only [hmem]

theorem keepsMember_permuteMembers (σ : Equiv.Perm (Fin members.length)) (p : ObjectProperty)
    (index : Nat) :
    keepsMember (permuteMembers members σ) p index = keepsMember members p (movedTo σ index) := by
  rw [keepsMember, keepsMember, allEqual_permuteMembers, getElem?_permuteMembers]

theorem applicableMembers_permute (σ : Equiv.Perm (Fin members.length))
    (hperm : properties'.Perm properties) :
    ((applicableMembers (permuteMembers members σ) properties').map (movedTo σ)).Perm
      (applicableMembers members properties) := by
  have hlength : (permuteMembers members σ).length = members.length := List.length_ofFn
  refine (List.perm_ext_iff_of_nodup ?_ (List.nodup_range.filter _)).mpr fun j => ?_
  · exact (List.nodup_range.filter _).map (movedTo_injective σ)
  · simp only [applicableMembers, List.mem_map, List.mem_filter, List.mem_range, hlength,
      List.all_eq_true, keepsMember_permuteMembers, hperm.mem_iff]
    constructor
    · rintro ⟨i, ⟨hi, hall⟩, rfl⟩
      refine ⟨?_, hall⟩
      rw [movedTo, dif_pos hi]
      exact (σ ⟨i, hi⟩).isLt
    · rintro ⟨hj, hall⟩
      have hmoved : movedTo σ (σ.symm ⟨j, hj⟩) = j := by
        rw [movedTo_val, Equiv.apply_symm_apply]
      exact ⟨σ.symm ⟨j, hj⟩, ⟨Fin.isLt _, by rwa [hmoved]⟩, hmoved⟩

/-- Another order of the members leaves the member in its new position. -/
theorem eliminate_permute (σ : Equiv.Perm (Fin members.length))
    (hperm : properties'.Perm properties) (i : Nat) :
    eliminate C (permuteMembers members σ) properties'
        (applicableMembers (permuteMembers members σ) properties') = some [i] ↔
      eliminate C members properties' (applicableMembers members properties) =
        some [movedTo σ i] := by
  have hvalue : contextualValue (permuteMembers members σ) =
      fun p index => contextualValue members p (movedTo σ index) := by
    funext p index
    rw [contextualValue, contextualValue, declaredType, declaredType, getElem?_permuteMembers]
  rw [eliminate, hvalue, ← Elimination.run_eq_singleton_of_perm _ _
    (applicableMembers_permute σ hperm), ← Elimination.run_map, Option.map_eq_some_iff]
  constructor
  · intro h
    exact ⟨[i], h, rfl⟩
  · rintro ⟨left, hleft, hmap⟩
    rw [hleft]
    exact congrArg some (List.map_injective_iff.mpr (movedTo_injective σ) hmap)

theorem selects_iff (hsource : source.peelParentheses.kind = .object properties)
    (htwo : 2 ≤ members.length) {i : Nat} :
    contextuallyApplicableMembers members C source = some [i] ↔
      eliminate C members properties (applicableMembers members properties) = some [i] := by
  rw [contextuallyApplicableMembers_eq_some_iff hsource]
  constructor
  · rintro ⟨j, hj, _, hrun⟩
    rwa [hj]
  · intro h
    exact ⟨i, rfl, htwo, h⟩

theorem lt_length_of_eliminate {order : List ObjectProperty} {i : Nat}
    (h : eliminate C members order (applicableMembers members properties) = some [i]) :
    i < members.length :=
  List.mem_range.mp
    (List.mem_of_mem_filter ((Elimination.sublist_of_run h).subset (List.mem_singleton_self i)))

theorem exists_eq_of_ne_none (hsource : source.peelParentheses.kind = .object properties)
    (h : contextuallyApplicableMembers members C source ≠ none) :
    ∃ i : Fin members.length, contextuallyApplicableMembers members C source = some [i.val] := by
  obtain ⟨selected, hselected⟩ := Option.ne_none_iff_exists'.mp h
  obtain ⟨i, rfl, _, hrun⟩ := (contextuallyApplicableMembers_eq_some_iff hsource).mp hselected
  exact ⟨⟨i, lt_length_of_eliminate hrun⟩, hselected⟩

/-- The results correspond when each selected member does. -/
theorem eq_none_iff_of_selects {members' : List (List Property)}
    (hlength : members'.length = members.length) (σ : Equiv.Perm (Fin members.length))
    (hsource : source.peelParentheses.kind = .object properties)
    (hsource' : source'.peelParentheses.kind = .object properties')
    (h : ∀ i : Fin members.length,
      contextuallyApplicableMembers members' C source' = some [i.val] ↔
        contextuallyApplicableMembers members C source = some [(σ i).val]) :
    contextuallyApplicableMembers members' C source' = none ↔
      contextuallyApplicableMembers members C source = none := by
  rw [← not_iff_not]
  constructor
  · intro hne hnone
    obtain ⟨i, hi⟩ := exists_eq_of_ne_none hsource' hne
    have := (h (i.cast hlength)).mp hi
    rw [hnone] at this
    cases this
  · intro hne hnone
    obtain ⟨i, hi⟩ := exists_eq_of_ne_none hsource hne
    have := (h (σ.symm i)).mpr (by rwa [Equiv.apply_symm_apply])
    rw [hnone] at this
    cases this

/-- The order does not matter if and only if the union has one member at most, or the literal
properties can isolate no member, or they isolate one in every order. -/
theorem orderIndependent_iff (C : ContextualView) (members : List (List Property))
    (properties : List ObjectProperty) :
    OrderIndependent C members properties ↔
      members.length ≤ 1 ∨
        (∀ i, ¬ Elimination.Isolable (contextualValue members) (contextualVerdict C) properties
          (applicableMembers members properties) i) ∨
        ∃ i, Elimination.Decisive (contextualValue members) (contextualVerdict C) properties
          (applicableMembers members properties) i := by
  have hnodup : (applicableMembers members properties).Nodup := List.nodup_range.filter _
  by_cases hone : members.length ≤ 1
  · refine ⟨fun _ => .inl hone, fun _ source source' properties' hsource hsource' _ σ => ?_⟩
    have hlength : (permuteMembers members σ).length = members.length := List.length_ofFn
    have hselects : ∀ i : Fin members.length,
        contextuallyApplicableMembers (permuteMembers members σ) C source' = some [i.val] ↔
          contextuallyApplicableMembers members C source = some [(σ i).val] := by
      intro i
      rw [contextuallyApplicableMembers_eq_some_iff hsource,
        contextuallyApplicableMembers_eq_some_iff hsource']
      constructor
      · rintro ⟨_, _, htwo, _⟩
        omega
      · rintro ⟨_, _, htwo, _⟩
        omega
    exact ⟨eq_none_iff_of_selects hlength σ hsource hsource' hselects, hselects⟩
  · have htwo : 2 ≤ members.length := by omega
    rw [or_iff_right hone, ← Elimination.order_irrelevant_iff hnodup]
    constructor
    · intro h order hperm i
      have hidentity : permuteMembers members (Equiv.refl _) = members := List.ofFn_get members
      have hobject : ∀ listed : List ObjectProperty,
          (⟨⟨0⟩, ⟨⟨0⟩, 0, 0⟩, .object listed⟩ : Expression).peelParentheses.kind = .object listed :=
        fun _ => rfl
      have hsame := (h _ _ order (hobject properties) (hobject order) hperm (Equiv.refl _)).2
      rw [hidentity] at hsame
      have hmembers : applicableMembers members order = applicableMembers members properties := by
        refine List.filter_congr fun index _ => ?_
        rw [Bool.eq_iff_iff, List.all_eq_true, List.all_eq_true]
        simp only [hperm.mem_iff]
      constructor
      · intro hrun
        have hi := hsame ⟨i, lt_length_of_eliminate hrun⟩
        rw [selects_iff (hobject order) htwo, selects_iff (hobject properties) htwo,
          hmembers] at hi
        exact hi.mp hrun
      · intro hrun
        have hi := hsame ⟨i, lt_length_of_eliminate hrun⟩
        rw [selects_iff (hobject order) htwo, selects_iff (hobject properties) htwo,
          hmembers] at hi
        exact hi.mpr hrun
    · intro h source source' properties' hsource hsource' hperm σ
      have hlength : (permuteMembers members σ).length = members.length := List.length_ofFn
      have hselects : ∀ i : Fin members.length,
          contextuallyApplicableMembers (permuteMembers members σ) C source' = some [i.val] ↔
            contextuallyApplicableMembers members C source = some [(σ i).val] := by
        intro i
        rw [selects_iff hsource htwo, selects_iff hsource' (by omega), eliminate_permute σ hperm,
          movedTo_val]
        exact h properties' hperm _
      exact ⟨eq_none_iff_of_selects hlength σ hsource hsource' hselects, hselects⟩

/-- The types `"x"`, `"q"` and `"y"`. -/
def literalTypes : ContextualView where
  types := ((TypeStore.new.intern (.literalString "x" .regular)).2.intern
    (.literalString "q" .regular)).2.intern (.literalString "y" .regular) |>.2
  forceQueries _ := none
  numericLiteral _ := none

def requiredProperty (name : String) (ty : TypeId) : Property :=
  { name, ty, optional := false, readonly := false }

/-- `{ a: "x", b: "q", f: number } | { a: "y", b: string, f: string } | { g: number }` -/
def contextMembers : List (List Property) :=
  [[requiredProperty "a" ⟨13⟩, requiredProperty "b" ⟨14⟩,
      requiredProperty "f" TypeStore.new.builtins.number],
    [requiredProperty "a" ⟨15⟩, requiredProperty "b" TypeStore.new.builtins.string,
      requiredProperty "f" TypeStore.new.builtins.string],
    [requiredProperty "g" TypeStore.new.builtins.number]]

def namedProperty (name : String) (kind : ExpressionKind) : ObjectProperty :=
  ⟨name, ⟨⟨0⟩, 0, 0⟩, .identifier, false, none, ⟨⟨0⟩, ⟨⟨0⟩, 0, 0⟩, kind⟩, ⟨⟨0⟩, 0, 0⟩, false, false,
    false⟩

def stringProperty (name value : String) : ObjectProperty :=
  namedProperty name (.literal (.string (.plain value)))

/-- `f: h` -/
def callbackProperty : ObjectProperty :=
  namedProperty "f" (.identifier "h" ⟨⟨0⟩, 0, 0⟩ true)

/-- In `{ a: "x", b: "q", f: h }` the first property leaves one member. When `b` comes first, it is
compared with `string`, which has no answer. -/
theorem not_orderIndependent_contextMembers :
    ([stringProperty "a" "x", stringProperty "b" "q", callbackProperty].map (·.name)).Nodup ∧
      ¬ OrderIndependent literalTypes contextMembers
        [stringProperty "a" "x", stringProperty "b" "q", callbackProperty] := by
  refine ⟨by decide, fun h => ?_⟩
  have hperm : [stringProperty "b" "q", stringProperty "a" "x", callbackProperty].Perm
      [stringProperty "a" "x", stringProperty "b" "q", callbackProperty] := .swap ..
  have hsame := (h ⟨⟨0⟩, ⟨⟨0⟩, 0, 0⟩, .object _⟩ ⟨⟨0⟩, ⟨⟨0⟩, 0, 0⟩, .object _⟩ _ rfl rfl hperm
    (Equiv.refl _)).1
  have hgivesUp : contextuallyApplicableMembers (permuteMembers contextMembers (Equiv.refl _))
      literalTypes ⟨⟨0⟩, ⟨⟨0⟩, 0, 0⟩,
        .object [stringProperty "b" "q", stringProperty "a" "x", callbackProperty]⟩ = none := by
    decide +kernel
  have hselects : contextuallyApplicableMembers contextMembers literalTypes ⟨⟨0⟩, ⟨⟨0⟩, 0, 0⟩,
      .object [stringProperty "a" "x", stringProperty "b" "q", callbackProperty]⟩ = some [0] := by
    decide +kernel
  rw [hsame.mp hgivesUp] at hselects
  cases hselects

end order

end Tsz.Semantics
