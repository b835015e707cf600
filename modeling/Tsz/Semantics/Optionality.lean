import Tsz.Semantics.RelationRuns

/-!
# Optional properties

Object types are compared property by property. A property that the target requires must be
there, but nothing asks whether the source may leave it out.

## Main definitions

* `RespectsOptionality` — what the comparison of two object types promises.
* `TypeStore.normalizeObjectLiteralUnion` — object literals get the properties of each other.

## Main results

* `relateTypes_respectsOptionality_iff` — when the comparison keeps the promise.
-/

namespace Tsz.Semantics

variable {σ : Type}

/-! ## Lookup by name -/

def ObjectShape.property? (shape : ObjectShape) (name : String) : Option Property :=
  shape.properties.find? fun property => property.name = name

namespace ObjectShape

variable {shape : ObjectShape} {name : String} {property : Property}

theorem name_of_property? (h : shape.property? name = some property) : property.name = name := by
  simpa using List.find?_some h

theorem mem_of_property? (h : shape.property? name = some property) :
    property ∈ shape.properties :=
  List.mem_of_find?_eq_some h

end ObjectShape

/-! ## What the comparison promises -/

/-- The comparison of two types succeeds, in a state that the run goes through. -/
def Compares (C : RelationContext σ) (levels : Nat) (r : Relation) (s : σ)
    (source target : TypeId) (mode : RelationMode) : Prop :=
  ∃ before, Later C s before ∧ Relates C levels r before source target mode

/-- A property that the target requires is one that the source requires, of a type that compares;
a property that is optional in the target compares if the source has it. -/
def RespectsOptionality (compares : TypeId → TypeId → Prop) (source target : ObjectShape) : Prop :=
  ∀ name targetProperty, target.property? name = some targetProperty →
    (targetProperty.optional = false →
      ∃ sourceProperty, source.property? name = some sourceProperty ∧
        sourceProperty.optional = false ∧ compares sourceProperty.ty targetProperty.ty) ∧
    (targetProperty.optional = true →
      ∀ sourceProperty, source.property? name = some sourceProperty →
        compares sourceProperty.ty targetProperty.ty)

/-- No property that the target requires is optional in the source. -/
def RequiresRequired (source target : ObjectShape) : Prop :=
  ∀ name sourceProperty targetProperty, source.property? name = some sourceProperty →
    target.property? name = some targetProperty → targetProperty.optional = false →
      sourceProperty.optional = false

/-- What the comparison of the properties does establish: presence and the types. -/
structure ComparesProperties (compares : TypeId → TypeId → Prop) (source target : ObjectShape) :
    Prop where
  present : ∀ name targetProperty, target.property? name = some targetProperty →
    targetProperty.optional = false → ∃ sourceProperty, source.property? name = some sourceProperty
  types : ∀ name sourceProperty targetProperty, source.property? name = some sourceProperty →
    target.property? name = some targetProperty → compares sourceProperty.ty targetProperty.ty

theorem ComparesProperties.respectsOptionality_iff {compares : TypeId → TypeId → Prop}
    {source target : ObjectShape} (h : ComparesProperties compares source target) :
    RespectsOptionality compares source target ↔ RequiresRequired source target := by
  constructor
  · intro hrespects name sourceProperty targetProperty hsource htarget hrequired
    obtain ⟨found, hfound, hoptional, -⟩ := (hrespects name targetProperty htarget).1 hrequired
    rw [hsource] at hfound
    rwa [Option.some.inj hfound]
  · intro hrequires name targetProperty htarget
    constructor
    · intro hrequired
      obtain ⟨sourceProperty, hsource⟩ := h.present name targetProperty htarget hrequired
      exact ⟨sourceProperty, hsource,
        hrequires name sourceProperty targetProperty hsource htarget hrequired,
        h.types name sourceProperty targetProperty hsource htarget⟩
    · intro _ sourceProperty hsource
      exact h.types name sourceProperty targetProperty hsource htarget

/-! ## The comparison of properties -/

namespace Relation

variable {C : RelationContext σ} {relate : TypeId → TypeId → RelationMode → RelationM σ Unit}
  {source target : TypeId} {mode : RelationMode} {s t : σ}

theorem exists_of_missingProperties_eq_nil {sourceProperties targetProperties : List Property}
    (h : missingProperties (some sourceProperties) targetProperties = [])
    {targetProperty : Property} (hmem : targetProperty ∈ targetProperties)
    (hrequired : targetProperty.optional = false) :
    ∃ sourceProperty ∈ sourceProperties, sourceProperty.name = targetProperty.name := by
  rw [missingProperties, List.map_eq_nil_iff, List.filter_eq_nil_iff] at h
  have hpresent := h targetProperty hmem
  simpa [hrequired] using hpresent

/-- Every property that both sides have was compared in some state of the run. -/
theorem compared_of_relateEachProperty
    (hrelate : ∀ source target mode, Advances C (relate source target mode))
    {sourceProperties targetProperties : List Property}
    (hrun : (relateEachProperty relate source target (some sourceProperties) mode
      targetProperties).runFrom s = (.ok (), t))
    {sourceProperty targetProperty : Property} (hmem : targetProperty ∈ targetProperties)
    (hfind : sourceProperties.find? (fun property => property.name = targetProperty.name) =
      some sourceProperty) :
    ∃ before, Later C s before ∧ ∃ after,
      (relate sourceProperty.ty targetProperty.ty mode).runFrom before = (.ok (), after) := by
  induction targetProperties generalizing s with
  | nil => cases hmem
  | cons first rest ih =>
    unfold relateEachProperty at hrun
    cases hfirst : sourceProperties.find? fun property => property.name = first.name with
    | none =>
      simp only [Option.bind_some, hfirst] at hrun
      rcases List.mem_cons.mp hmem with rfl | hmem
      · rw [hfind] at hfirst
        cases hfirst
      · exact ih hrun hmem
    | some property =>
      simp only [Option.bind_some, hfirst] at hrun
      obtain ⟨_, middle, hcompared, hrun⟩ := RelationM.runFrom_bind_eq_ok.mp hrun
      rw [RelationM.runFrom_wrapping_eq_ok, RelationM.runFrom_wrapping_eq_ok] at hcompared
      rcases List.mem_cons.mp hmem with rfl | hmem
      · rw [hfind] at hfirst
        obtain rfl := Option.some.inj hfirst
        exact ⟨s, .refl, middle, hcompared⟩
      · obtain ⟨before, hlater, hcompares⟩ := ih hrun hmem
        have hmiddle := hrelate property.ty first.ty mode s
        rw [hcompared] at hmiddle
        exact ⟨before, hmiddle.trans hlater, hcompares⟩

theorem relateProperties_of_relateObjectShapes {sourceShape targetShape : ObjectShape}
    (hrun : (relateObjectShapes C relate source target sourceShape targetShape mode).runFrom s =
      (.ok (), t)) :
    ∃ u, (relateProperties relate source target (some sourceShape.properties)
      targetShape.properties mode).runFrom s = (.ok (), u) := by
  unfold relateObjectShapes at hrun
  rw [RelationM.runFrom_get_bind] at hrun
  dsimp only at hrun
  by_cases hunsupported : (shapeHasUnsupportedCallableMembers (C.types s) targetShape
      (some sourceShape) || !sourceShape.indexSignatures.isEmpty) = true
  · rw [if_pos hunsupported] at hrun
    cases hrun
  · rw [if_neg hunsupported] at hrun
    obtain ⟨_, u, hproperties, -⟩ := RelationM.runFrom_bind_eq_ok.mp hrun
    exact ⟨u, hproperties⟩

theorem comparesProperties_of_relateObjectShapes
    (hrelate : ∀ source target mode, Advances C (relate source target mode))
    {sourceShape targetShape : ObjectShape}
    (hrun : (relateObjectShapes C relate source target sourceShape targetShape mode).runFrom s =
      (.ok (), t)) :
    ComparesProperties (fun a b => ∃ before, Later C s before ∧
      ∃ after, (relate a b mode).runFrom before = (.ok (), after)) sourceShape targetShape := by
  obtain ⟨middle, hproperties⟩ := relateProperties_of_relateObjectShapes hrun
  unfold relateProperties at hproperties
  split at hproperties
  next hmissing =>
    refine ⟨fun name targetProperty htarget hrequired => ?_,
      fun name sourceProperty targetProperty hsource htarget => ?_⟩
    · obtain ⟨sourceProperty, hmem, hname⟩ := exists_of_missingProperties_eq_nil hmissing
        (ObjectShape.mem_of_property? htarget) hrequired
      rw [ObjectShape.name_of_property? htarget] at hname
      have hfound := List.find?_isSome (p := fun property => decide (property.name = name)) |>.mpr
        ⟨sourceProperty, hmem, by simpa using hname⟩
      exact Option.isSome_iff_exists.mp hfound
    · refine compared_of_relateEachProperty hrelate hproperties
        (ObjectShape.mem_of_property? htarget) ?_
      rw [ObjectShape.name_of_property? htarget]
      exact hsource
  all_goals cases hproperties

end Relation

section

variable {C : RelationContext σ} {source target : TypeId} {mode : RelationMode} {s t : σ}
  {sourceShape targetShape : ObjectShape}

/-- The comparison of two object types at any depth, and with any pairs in progress, keeps the
promise exactly when no property that the target requires is optional in the source. -/
theorem relateInner_respectsOptionality_iff (hC : ForcesDeferred C) {levels : Nat} {r : Relation}
    (hactive : { source, target, mode } ∉ r.active)
    (hsource : Relation.objectShape ((C.types s).kind source) = some sourceShape)
    (htarget : Relation.objectShape ((C.types s).kind target) = some targetShape)
    (hrun : (Relation.relateInner C (levels + 1) r source target mode).runFrom s = (.ok (), t)) :
    RespectsOptionality
        (Compares C levels (Relation.inside r source target mode) s · · mode)
        sourceShape targetShape ↔
      RequiresRequired sourceShape targetShape := by
  refine ComparesProperties.respectsOptionality_iff ?_
  by_cases hne : source = target
  · subst hne
    obtain rfl : sourceShape = targetShape := Option.some.inj (hsource.symm.trans htarget)
    refine ⟨fun name property hproperty _ => ⟨property, hproperty⟩, ?_⟩
    intro name property property' hproperty hproperty'
    obtain rfl : property = property' := Option.some.inj (hproperty.symm.trans hproperty')
    refine ⟨s, .refl, s, ?_⟩
    unfold Relation.relateInner
    rw [if_pos rfl]
    rfl
  · rw [Relation.runFrom_relateInner_of_settled hC levels hne hactive
      (Relation.settled_of_objectShape hsource) (Relation.settled_of_objectShape htarget),
      Relation.runFrom_relateForced_of_objectShape hsource htarget] at hrun
    exact Relation.comparesProperties_of_relateObjectShapes (Advances.relateInner levels _) hrun

theorem relateTypes_respectsOptionality_iff (hC : ForcesDeferred C) (evaluationDepth : Nat)
    (hsource : Relation.objectShape ((C.types s).kind source) = some sourceShape)
    (htarget : Relation.objectShape ((C.types s).kind target) = some targetShape)
    (hrun : (relateTypesAtEvaluationDepth C source target mode evaluationDepth).runFrom s =
      (.ok (), t)) :
    RespectsOptionality
        (Compares C 100 (Relation.inside (.root evaluationDepth) source target mode) s · · mode)
        sourceShape targetShape ↔
      RequiresRequired sourceShape targetShape :=
  relateInner_respectsOptionality_iff hC (by simp [Relation.root]) hsource htarget hrun

end

/-! ## Unions of object literals -/

def IndexKeyKind.rank : IndexKeyKind → Nat
  | .string => 0
  | .number => 1

/-- The shape of an object type that has properties only. -/
def propertiesOnly : TypeKind → Option ObjectShape
  | .object shape =>
    if shape.callSignatures.isEmpty && shape.constructSignatures.isEmpty &&
        shape.indexSignatures.isEmpty then some shape
    else none
  | _ => none

namespace ObjectShape

/-- Add the names the shape lacks as optional properties of a type. -/
def pad (ty : TypeId) (shape : ObjectShape) (names : List String) : ObjectShape :=
  names.foldl
    (fun shape name =>
      if shape.properties.any fun property => property.name = name then shape
      else { shape with
        properties := shape.properties ++ [{ name, ty, optional := true, readonly := false }] })
    shape

variable {ty : TypeId} {shape : ObjectShape} {names : List String} {name : String}

theorem property?_append (property : Property) :
    property? { shape with properties := shape.properties ++ [property] } name =
      (shape.property? name).or (if property.name = name then some property else none) := by
  rw [property?, List.find?_append]
  congr 1
  by_cases h : property.name = name <;> simp [h]

theorem property?_eq_none_iff :
    shape.property? name = none ↔ ¬ shape.properties.any fun property => property.name = name := by
  simp [property?]

/-- What a shape lacked it has as an optional property, and nothing else changes. -/
theorem property?_pad :
    (shape.pad ty names).property? name =
      (shape.property? name).or
        (if name ∈ names then some { name, ty, optional := true, readonly := false } else none) := by
  induction names generalizing shape with
  | nil => simp [pad]
  | cons first rest ih =>
    rw [pad, List.foldl_cons]
    split
    next hpresent =>
      rw [← pad, ih]
      by_cases hname : name = first
      · subst hname
        have hsome : shape.property? name ≠ none := fun h => property?_eq_none_iff.mp h hpresent
        obtain ⟨property, hproperty⟩ := Option.ne_none_iff_exists'.mp hsome
        simp [hproperty]
      · simp [hname]
    next =>
      rw [← pad, ih, property?_append, Option.or_assoc]
      congr 1
      by_cases hname : name = first
      · subst hname
        simp
      · simp [hname, Ne.symm hname]

/-- A padded shape may lack what it was padded with, so that no target may require it. -/
theorem not_requiresRequired_pad {target : ObjectShape} {property : Property}
    (hlacks : shape.property? name = none) (hname : name ∈ names)
    (htarget : target.property? name = some property) (hrequired : property.optional = false) :
    ¬ RequiresRequired (shape.pad ty names) target := by
  intro h
  have hpadded : (shape.pad ty names).property? name =
      some { name, ty, optional := true, readonly := false } := by
    rw [property?_pad, hlacks, if_pos hname]
    rfl
  have := h name _ property hpadded htarget hrequired
  cases this

end ObjectShape

namespace TypeStore

def objectShape (s : TypeStore) (shape : ObjectShape) : TypeId × TypeStore :=
  s.intern (.object { shape with
    indexSignatures :=
      shape.indexSignatures.insertionSort fun i j => i.key.rank ≤ j.key.rank })

def normalizeMembers (names : List String) : List ObjectShape → TypeStore → List TypeId × TypeStore
  | [], s => ([], s)
  | shape :: rest, s =>
    let (id, s) := s.objectShape (shape.pad s.builtins.undefined names)
    let (ids, s) := normalizeMembers names rest s
    (id :: ids, s)

/-- Every object literal of a union gets the properties of the others. -/
def normalizeObjectLiteralUnion (s : TypeStore) (members : List TypeId) :
    List TypeId × TypeStore :=
  match members.mapM fun member => propertiesOnly (s.kind member) with
  | none => (members, s)
  | some shapes =>
    let names := ((shapes.flatMap (·.properties)).map (·.name)).eraseDups
    normalizeMembers names shapes s

end TypeStore

/-- The members of the union for `[{ a: 1 }, {}]`. -/
def literals : List TypeId × TypeStore :=
  let s := TypeStore.new
  let (withA, s) := s.objectShape { properties := [⟨"a", s.builtins.number, false, false⟩] }
  let (empty, s) := s.objectShape {}
  s.normalizeObjectLiteralUnion [withA, empty]

def numberOrUndefined : TypeId × TypeStore :=
  literals.2.union [literals.2.builtins.number, literals.2.builtins.undefined] .canonical

def requiresAShape : ObjectShape where
  properties := [⟨"a", numberOrUndefined.1, false, false⟩]

/-- `{ a: number | undefined }`. -/
def requiresA : TypeId × TypeStore := numberOrUndefined.2.objectShape requiresAShape

def withALiteral : TypeId := literals.1.getD 0 ⟨0⟩

def withALiteralShape : ObjectShape where
  properties := [⟨"a", TypeStore.new.builtins.number, false, false⟩]

def emptyLiteral : TypeId := literals.1.getD 1 ⟨0⟩

def emptyLiteralShape : ObjectShape :=
  ObjectShape.pad TypeStore.new.builtins.undefined {} ["a"]

theorem objectShape_requiresA :
    Relation.objectShape (requiresA.2.kind requiresA.1) = some requiresAShape := by
  decide +kernel

theorem relateTypes_respectsOptionality_withALiteral :
    RespectsOptionality
        (Compares (inertContext true) 100
          (Relation.inside (.root 0) withALiteral requiresA.1 .subtype) requiresA.2 · · .subtype)
        withALiteralShape requiresAShape ↔
      RequiresRequired withALiteralShape requiresAShape := by
  obtain ⟨t, hrun⟩ := RelationM.exists_of_isOk (by decide +kernel :
    ((relateTypesAtEvaluationDepth (inertContext true) withALiteral requiresA.1 .subtype 0).runFrom
      requiresA.2).1.isOk = true)
  exact relateTypes_respectsOptionality_iff (forcesDeferred_inertContext true) 0
    (by decide +kernel) objectShape_requiresA hrun

/-- The second literal of `[{ a: 1 }, {}]` compares with a type that requires `a`. -/
theorem relateTypes_emptyLiteral :
    ¬ ∀ t, (relateTypes (inertContext true) emptyLiteral requiresA.1 .subtype).runFrom requiresA.2 =
        (.ok (), t) →
      ∀ sourceShape targetShape,
        Relation.objectShape (requiresA.2.kind emptyLiteral) = some sourceShape →
        Relation.objectShape (requiresA.2.kind requiresA.1) = some targetShape →
        RespectsOptionality
          (Compares (inertContext true) 100
            (Relation.inside (.root 0) emptyLiteral requiresA.1 .subtype) requiresA.2 · · .subtype)
          sourceShape targetShape := by
  intro h
  obtain ⟨t, hrun⟩ := RelationM.exists_of_isOk (by decide +kernel :
    ((relateTypes (inertContext true) emptyLiteral requiresA.1 .subtype).runFrom
      requiresA.2).1.isOk = true)
  have hrespects := h t hrun emptyLiteralShape requiresAShape (by decide +kernel)
    objectShape_requiresA
  obtain ⟨property, hfound, hoptional, -⟩ := (hrespects "a" _ rfl).1 rfl
  have hpadded : emptyLiteralShape.property? "a" =
      some ⟨"a", TypeStore.new.builtins.undefined, true, false⟩ := by decide
  rw [hpadded] at hfound
  cases hfound
  cases hoptional

end Tsz.Semantics
