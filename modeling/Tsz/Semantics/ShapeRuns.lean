import Tsz.Semantics.ObjectShapes

/-!
# The names of the properties of a program

A check of a program enters object shapes into the type store one after the other. Every producer
of shapes is one kind of event; what other parts of the checker enter has no properties. The names
of a shape are distinct unless its producer copies repeated names from the syntax.

## Main definitions

* `ShapeEvent` — what can be entered into the store.
* `TypeStore.DistinctNames` — no shape of the store repeats a name.
* `ShapeEvent.Meets` — the event does not copy a repeated name.

## Main results

* `distinctNames_run` — a run of events that copy no repeated name keeps all names distinct.
-/

namespace Tsz.Semantics

open Tsz.Bind Syntax

namespace TypeStore

/-- Every object of the store has distinct property names. -/
def DistinctNames (s : TypeStore) : Prop :=
  ∀ id shape, Relation.objectShape (s.kind id) = some shape → shape.DistinctNames

theorem DistinctNames.push {s : TypeStore} (h : s.DistinctNames) {k : TypeKind}
    (hk : ∀ shape, Relation.objectShape k = some shape → shape.DistinctNames)
    {interned : List (TypeKind × TypeId)} :
    DistinctNames { s.push k with interned := interned } := by
  intro id shape hshape
  change Relation.objectShape ((s.push k).kind id) = some shape at hshape
  by_cases hid : s.Contains id
  · rw [kind_push_of_contains hid] at hshape
    exact h id shape hshape
  · by_cases hlast : id = ⟨s.kinds.length⟩
    · rw [hlast, kind_push_last] at hshape
      exact hk shape hshape
    · have hout : (s.push k).kind id = .error := by
        have hne : id.index ≠ s.kinds.length := fun heq => hlast (congrArg TypeId.mk heq)
        have hge : s.kinds.length ≤ id.index := Nat.le_of_not_lt hid
        rw [TypeStore.kind, TypeStore.push, List.getD_eq_default]
        rw [List.length_append, List.length_singleton]
        omega
      rw [hout] at hshape
      cases hshape

theorem DistinctNames.intern {s : TypeStore} (h : s.DistinctNames) {k : TypeKind}
    (hk : ∀ shape, Relation.objectShape k = some shape → shape.DistinctNames) :
    (s.intern k).2.DistinctNames := by
  rcases s.intern_cases k with ⟨id, -, heq⟩ | ⟨-, heq⟩
  · rwa [heq]
  · rw [heq]
    exact h.push hk

/-- An object is entered with its shape only. -/
theorem DistinctNames.internObject {s : TypeStore} (h : s.DistinctNames) {shape : ObjectShape}
    (hshape : shape.DistinctNames) : (s.intern (.object shape)).2.DistinctNames := by
  refine h.intern fun found hfound => ?_
  cases hfound
  exact hshape

theorem distinctNames_new : TypeStore.new.DistinctNames := by
  intro id shape hshape
  have hplain : ∀ k ∈ TypeStore.new.kinds, Relation.objectShape k = none := by decide
  by_cases hid : TypeStore.new.Contains id
  · have hmem : TypeStore.new.kind id ∈ TypeStore.new.kinds := by
      rw [TypeStore.kind, List.getD_eq_getElem _ _ hid]
      exact List.getElem_mem hid
    rw [hplain _ hmem] at hshape
    cases hshape
  · rw [TypeStore.kind, List.getD_eq_default _ _ (Nat.le_of_not_lt hid)] at hshape
    cases hshape

end TypeStore

/-- One entry into the type store. The events on member lists come with what the binder recorded,
those on JavaScript values with the groups of their assignments. -/
inductive ShapeEvent [NumberFormat]
  | other (kind : TypeKind) (plain : Relation.objectShape kind = none)
  | freshDeferred (query : DeferredType TypeId)
  | objectLiteral (inferred : ObjectProperty → TypeId) (properties : List ObjectProperty)
  | destructuring (target : Expression → Option TypeId) (properties : List ObjectProperty)
  | typeLiteral (T : MemberTypes) (bound : BoundFile) (container : ScopeId)
      (members : List TypeMember) (recorded : RecordsMembers bound container members)
  | interface (T : MemberTypes) (bound : BoundFile) (container : ScopeId)
      (declaration : InterfaceDeclaration) (bases : List (Completion ObjectShape))
      (recorded : RecordsMembers bound container declaration.members)
  | classInstance (typeNode : TypeNode → TypeId) (declaration : DeclId) (cls : ClassDeclaration)
      (arguments : List TypeId)
  | javascriptValue (G : JavaScriptGroups) (name : DeclId → Option String)
      (grouped : G.WellFormed name) (valueType : DeclId → Completion TypeId) (base : TypeKind)
      (signature : Option Signature) (declaration : DeclId)
  | literalUnion (members : List TypeId)
  | narrowing (narrowed : TypeId) (name : String) (ty : TypeId)
  | contextualMethod (name : String) (ty : TypeId)
  | stringIndex (value : TypeId)

namespace ShapeEvent

def enterCompleted (completion : Completion TypeKind) (s : TypeStore) : TypeStore :=
  match completion with
  | .complete kind => (s.intern kind).2
  | .deferred | .cycle | .limit => s

/-- The narrowed object keeps its kind. -/
def narrowedKind (kind : TypeKind) (name : String) (ty : TypeId) : Completion TypeKind :=
  match kind with
  | .object shape =>
    match narrowPredicateShape shape name ty with
    | some shape => .complete (.object shape)
    | none => .deferred
  | .classInstance declaration className arguments shape =>
    match narrowPredicateShape shape name ty with
    | some shape => .complete (.classInstance declaration className arguments shape)
    | none => .deferred
  | _ => .deferred

variable {s : TypeStore}

theorem distinctNames_enterCompleted (hs : s.DistinctNames) {completion : Completion TypeKind}
    (h : ∀ kind, completion = .complete kind → ∀ shape,
      Relation.objectShape kind = some shape → shape.DistinctNames) :
    (enterCompleted completion s).DistinctNames := by
  cases completion with
  | complete kind => exact hs.intern (h kind rfl)
  | deferred => exact hs
  | cycle => exact hs
  | limit => exact hs

theorem distinctNames_enterShape (hs : s.DistinctNames) {completion : Completion ObjectShape}
    (h : ∀ shape, completion = .complete shape → shape.DistinctNames) :
    (enterCompleted (.object <$> completion) s).DistinctNames := by
  cases completion with
  | complete shape => exact hs.internObject (h shape rfl)
  | deferred => exact hs
  | cycle => exact hs
  | limit => exact hs

theorem distinctNames_normalizeMembers (hs : s.DistinctNames) (names : List String)
    (members : List TypeId) : (normalizeMembers names members s).2.DistinctNames := by
  induction members generalizing s with
  | nil => exact hs
  | cons member members ih =>
    rw [normalizeMembers]
    split
    next shape hkind =>
      refine ih (hs.internObject (distinctNames_normalizedShape _ names ?_))
      exact hs member shape (by rw [hkind]; rfl)
    next => exact hs

theorem distinctNames_narrowedKind (hs : s.DistinctNames) {narrowed : TypeId} {name : String}
    {ty : TypeId} {kind : TypeKind} (h : narrowedKind (s.kind narrowed) name ty = .complete kind)
    {shape : ObjectShape} (hshape : Relation.objectShape kind = some shape) :
    shape.DistinctNames := by
  have hnarrowed := hs narrowed
  have hsame : ∀ {found found' : ObjectShape},
      Relation.objectShape (s.kind narrowed) = some found →
        narrowPredicateShape found name ty = some found' → found'.DistinctNames := by
    intro found found' hfound hshape
    rw [ObjectShape.DistinctNames, names_narrowPredicateShape hshape]
    exact hnarrowed found hfound
  generalize s.kind narrowed = k at h hsame
  unfold narrowedKind at h
  split at h
  · split at h
    next hfound =>
      cases h
      cases hshape
      exact hsame rfl hfound
    next => cases h
  · split at h
    next hfound =>
      cases h
      cases hshape
      exact hsame rfl hfound
    next => cases h
  · cases h

section run

variable [NumberFormat]

def apply : ShapeEvent → TypeStore → TypeStore
  | .other kind _, s => (s.intern kind).2
  | .freshDeferred query, s => (s.freshDeferred query).2
  | .objectLiteral inferred properties, s =>
    (s.intern (.object (objectLiteralShape inferred properties))).2
  | .destructuring target properties, s =>
    match destructuringShape target properties with
    | some shape => (s.intern (.object shape)).2
    | none => s
  | .typeLiteral T bound _ members _, s =>
    enterCompleted (.object <$> resolveObjectMembers T bound members) s
  | .interface T bound _ declaration bases _, s =>
    enterCompleted (.object <$> resolveInterfaceShape T bound declaration bases) s
  | .classInstance typeNode declaration cls arguments, s =>
    enterCompleted (evaluateClassInstance typeNode declaration cls arguments) s
  | .javascriptValue G name _ valueType base signature declaration, s =>
    enterCompleted (.object <$> javascriptExpandoShape name valueType base signature
      (G.children declaration)) s
  | .literalUnion members, s => (normalizeObjectLiteralUnion members s).2
  | .narrowing narrowed name ty, s => enterCompleted (narrowedKind (s.kind narrowed) name ty) s
  | .contextualMethod name ty, s => (s.intern (.object (contextualMethodShape name ty))).2
  | .stringIndex value, s =>
    (s.intern (.object { indexSignatures := [⟨.string, value, false⟩] })).2

/-- An object literal, a pattern whose targets all have a type, or a class of which an instance is
built does not repeat a name. -/
def Meets : ShapeEvent → Prop
  | .objectLiteral _ properties => (properties.map (·.name)).Nodup
  | .destructuring target properties =>
    (∀ property ∈ properties, (target property.value).isSome) → (properties.map (·.name)).Nodup
  | .classInstance _ _ cls _ =>
    cls.extendsType = none → (∀ member ∈ cls.members, isPlainProperty member) →
      (cls.members.map (·.name)).Nodup
  | _ => True

def run (events : List ShapeEvent) (s : TypeStore) : TypeStore :=
  events.foldl (fun s event => event.apply s) s

/-- An event that copies no repeated name keeps the names distinct. -/
theorem distinctNames_apply (hs : s.DistinctNames) {event : ShapeEvent} (h : event.Meets) :
    (event.apply s).DistinctNames := by
  cases event with
  | other kind plain =>
    refine hs.intern fun shape hshape => ?_
    rw [plain] at hshape
    cases hshape
  | freshDeferred query => exact hs.push fun shape hshape => by cases hshape
  | objectLiteral inferred properties =>
    refine hs.internObject ?_
    rw [ObjectShape.DistinctNames, names_objectLiteralShape]
    exact h
  | destructuring target properties =>
    simp only [apply]
    split
    next shape hshape =>
      obtain ⟨htargets, hnames⟩ := names_destructuringShape hshape
      refine hs.internObject ?_
      rw [ObjectShape.DistinctNames, hnames]
      exact h htargets
    next => exact hs
  | typeLiteral T bound container members recorded =>
    exact distinctNames_enterShape hs fun _ => distinctNames_resolveObjectMembers recorded
  | interface T bound container declaration bases recorded =>
    exact distinctNames_enterShape hs fun _ => distinctNames_resolveInterfaceShape recorded
  | classInstance typeNode declaration cls arguments =>
    refine distinctNames_enterCompleted hs fun kind hkind shape hshape => ?_
    obtain ⟨hextends, hplain, found, rfl, hnames⟩ := names_evaluateClassInstance hkind
    cases hshape
    exact hnames.nodup_iff.mpr (h hextends hplain)
  | javascriptValue G name grouped valueType base signature declaration =>
    refine distinctNames_enterShape hs fun shape hshape => ?_
    rw [ObjectShape.DistinctNames, names_javascriptExpandoShape hshape]
    exact grouped.nodup_children declaration
  | literalUnion members =>
    simp only [apply, normalizeObjectLiteralUnion]
    split
    · exact hs
    · exact distinctNames_normalizeMembers hs _ members
  | narrowing narrowed name ty =>
    exact distinctNames_enterCompleted hs fun kind hkind shape hshape =>
      distinctNames_narrowedKind hs hkind hshape
  | contextualMethod name ty => exact hs.internObject (List.nodup_singleton name)
  | stringIndex value => exact hs.internObject List.nodup_nil

end run

/-- `name: 1` -/
def numberProperty (name : String) : ObjectProperty :=
  ⟨name, ⟨⟨0⟩, 0, 0⟩, .identifier, false, none,
    ⟨⟨0⟩, ⟨⟨0⟩, 0, 0⟩, .literal (.number (.plain "1"))⟩, ⟨⟨0⟩, 0, 0⟩, false, false, false⟩

/-- The object literal of some properties with the value 1. -/
def numberLiteral [NumberFormat] (names : List String) : ShapeEvent :=
  .objectLiteral (fun _ => TypeStore.new.builtins.number) (names.map numberProperty)

end ShapeEvent

end Tsz.Semantics
