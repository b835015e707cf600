import Mathlib.Data.String.Basic
import Tsz.Bind.BoundFile
import Tsz.Semantics.Relation
import Tsz.Sorting.StableSort

/-!
# The shapes of objects

The shapes that the checker builds from syntax, each with the names of its properties. Types of
properties are resolved elsewhere; they are given as functions of the syntax they are read from.

## Main definitions

* `resolveObjectMembers`, `resolveInterfaceShape` — type literals and interfaces.
* `evaluateClassInstance` — the instance of a class.
* `objectLiteralShape`, `destructuringShape` — expressions.
* `JavaScriptGroups.children` — the properties assigned to a JavaScript value.
* `normalizedShape` — an object literal in a union of object literals.
-/

namespace Tsz.Semantics

open Tsz.Bind Syntax Sorting

instance : Monad Completion where
  pure := .complete
  bind c next :=
    match c with
    | .complete a => next a
    | .deferred => .deferred
    | .cycle => .cycle
    | .limit => .limit

instance : LawfulMonad Completion :=
  LawfulMonad.mk' Completion (fun c => by cases c <;> rfl) (fun _ _ => rfl)
    (fun c _ _ => by cases c <;> rfl)

namespace Completion

variable {α β : Type} {c : Completion α} {next : α → Completion β} {b : β}

theorem bind_eq_complete_iff :
    c >>= next = .complete b ↔ ∃ a, c = .complete a ∧ next a = .complete b := by
  cases c <;> simp [bind]

@[simp]
theorem pure_eq_complete_iff {a a' : α} : (pure a : Completion α) = .complete a' ↔ a = a' := by
  simp [pure]

end Completion

namespace ObjectShape

def names (shape : ObjectShape) : List String := shape.properties.map (·.name)

/-- Two properties do not have one name. -/
def DistinctNames (shape : ObjectShape) : Prop := shape.names.Nodup

def withProperty (shape : ObjectShape) (property : Property) : ObjectShape :=
  { shape with properties := shape.properties ++ [property] }

@[simp]
theorem names_withProperty (shape : ObjectShape) (property : Property) :
    (shape.withProperty property).names = shape.names ++ [property.name] := by
  simp [withProperty, names]

theorem DistinctNames.withProperty {shape : ObjectShape} (h : shape.DistinctNames)
    {property : Property} (hnew : property.name ∉ shape.names) :
    (shape.withProperty property).DistinctNames := by
  rw [DistinctNames, names_withProperty, List.nodup_append]
  refine ⟨h, List.nodup_singleton _, fun name hname added hadded heq => hnew ?_⟩
  rwa [← List.mem_singleton.mp hadded, ← heq]

end ObjectShape

/-! ## Type members -/

/-- What the checker resolves for the types of a member. -/
structure MemberTypes where
  typeNode : TypeNode → TypeId
  supported : TypeId → Completion Unit
  signature : List Parameter → Option TypeNode → Completion Signature
  shapeFunction : Signature → TypeId
  any : TypeId
  noImplicitAny : Bool

def unsupportedModifiers (modifiers : TypeMemberModifiers) : Bool :=
  let repeated := (List.range modifiers.nodes.length).any fun index =>
    (modifiers.nodes.take index).any fun prior =>
      (modifiers.nodes[index]?).any fun modifier => prior.kind = modifier.kind
  repeated || modifiers.isPublic || modifiers.isProtected || modifiers.isPrivate ||
    modifiers.staticMember || modifiers.abstractMember || modifiers.declared ||
    modifiers.accessor || modifiers.asyncMember || modifiers.constMember ||
    modifiers.defaultMember || modifiers.exported || modifiers.inVariance ||
    modifiers.outVariance || modifiers.overrideMember

def semanticName (name : TypeMemberName) : Option String :=
  match name.kind with
  | .identifier name => some name
  | .stringLiteral _ _ | .numericLiteral _ | .bigIntLiteral _ | .computed _ => none

namespace MemberTypes

variable (T : MemberTypes)

def supportedTypeNode (node : TypeNode) : Completion TypeId := do
  T.supported (T.typeNode node)
  pure (T.typeNode node)

def memberType : Option TypeNode → Completion TypeId
  | some node => T.supportedTypeNode node
  | none => if T.noImplicitAny then .deferred else pure T.any

def propertyMember (name : TypeMemberName) (ty : Option TypeNode) (optional : Bool)
    (initializer : Option Expression) (readonly : Bool) (shape : ObjectShape) :
    Completion ObjectShape :=
  if optional || initializer.isSome then .deferred
  else
    match semanticName name with
    | none => .deferred
    | some name => do
      let ty ← T.memberType ty
      pure (shape.withProperty { name, ty, optional, readonly })

def methodMember (name : TypeMemberName) (optional : Bool)
    (typeParameters : List TypeParameterDeclaration) (parameters : List Parameter)
    (returnType : Option TypeNode) (readonly : Bool) (shape : ObjectShape) :
    Completion ObjectShape :=
  if optional || readonly || !typeParameters.isEmpty then .deferred
  else
    match semanticName name with
    | none => .deferred
    | some name => do
      let signature ← T.signature parameters returnType
      pure (shape.withProperty
        { name, ty := T.shapeFunction signature, optional, readonly := false })

/-- A call and a construct signature are added in the same way. -/
def signatureMember (typeParameters : List TypeParameterDeclaration)
    (parameters : List Parameter) (returnType : Option TypeNode) (readonly : Bool)
    (add : Signature → ObjectShape) : Completion ObjectShape :=
  if readonly || !typeParameters.isEmpty then .deferred
  else do
    let signature ← T.signature parameters returnType
    pure (add signature)

def indexMember (parameters : List Parameter) (valueType : Option TypeNode) (readonly : Bool)
    (shape : ObjectShape) : Completion ObjectShape :=
  if readonly then .deferred
  else
    match parameters with
    | [parameter] =>
      if parameter.optional || parameter.initializer.isSome || parameter.rest ||
          !parameter.modifiers.isEmpty then .deferred
      else
        match parameter.annotation with
        -- The key of a numeric index is not canonicalized yet.
        | some ⟨_, .keyword .string⟩ =>
          if shape.indexSignatures.any (·.key = .string) then .deferred
          else
            match valueType with
            | none => .deferred
            | some node => do
              let value ← T.supportedTypeNode node
              pure { shape with
                indexSignatures := shape.indexSignatures ++ [⟨.string, value, readonly⟩] }
        | _ => .deferred
    | _ => .deferred

def addMember (shape : ObjectShape) (member : TypeMember) : Completion ObjectShape :=
  if unsupportedModifiers member.modifiers then .deferred
  else
    let readonly := member.modifiers.readonly
    match member.kind with
    | .property name ty optional initializer =>
      T.propertyMember name ty optional initializer readonly shape
    | .method name optional typeParameters parameters returnType =>
      T.methodMember name optional typeParameters parameters returnType readonly shape
    | .call typeParameters parameters returnType =>
      T.signatureMember typeParameters parameters returnType readonly fun signature =>
        { shape with callSignatures := shape.callSignatures ++ [signature] }
    | .construct typeParameters parameters returnType =>
      T.signatureMember typeParameters parameters returnType readonly fun signature =>
        { shape with constructSignatures := shape.constructSignatures ++ [signature] }
    | .index parameters valueType => T.indexMember parameters valueType readonly shape
    | .accessor _ _ _ _ => .deferred

def addMembers (shape : ObjectShape) (members : List TypeMember) : Completion ObjectShape :=
  members.foldlM T.addMember shape

end MemberTypes

/-- The members that are read: recovered ones are not. -/
def readMembers (members : List TypeMember) : List TypeMember :=
  members.filter fun member => !member.recovered

def typeMemberGroup (bound : BoundFile) (node : NodeId) : Option (List DeclId) := do
  let member ← bound.typeMembers node
  let symbol ← member.symbol
  bound.typeMemberGroups.lookup (member.container, symbol)

/-- Some member other than an index signature shares its symbol with another one. -/
def sharesSymbol (bound : BoundFile) (member : TypeMember) : Bool :=
  (bound.typeMembers member.id).any fun found =>
    found.symbol ≠ some .index &&
      (typeMemberGroup bound member.id).any fun group => group.length > 1

def resolveObjectMembers (T : MemberTypes) (bound : BoundFile) (members : List TypeMember) :
    Completion ObjectShape :=
  if (readMembers members).any (sharesSymbol bound) then .deferred
  else do
    let shape ← T.addMembers {} (readMembers members)
    if shape.indexSignatures.length > 1 ||
        !shape.indexSignatures.isEmpty && !shape.properties.isEmpty then .deferred
    else pure shape

/-! ## Heritage -/

/-- A shape under construction and the positions of its properties. -/
structure MergedShape where
  shape : ObjectShape := {}
  propertyIndices : List (String × Nat) := []

def mergeProperty (target : MergedShape) (property : Property) : Option MergedShape :=
  if property.optional || property.readonly then none
  else
    match target.propertyIndices.lookup property.name with
    | some index =>
      if target.shape.properties[index]? = some property then some target else none
    | none => some
        { shape := target.shape.withProperty property
          propertyIndices := target.propertyIndices ++
            [(property.name, target.shape.properties.length)] }

def mergePlainPropertyShape (target : MergedShape) (source : ObjectShape) : Option MergedShape :=
  if !source.callSignatures.isEmpty || !source.constructSignatures.isEmpty ||
      !source.indexSignatures.isEmpty then none
  else source.properties.foldlM mergeProperty target

def mergeCompleted (target : MergedShape) (source : Completion ObjectShape) :
    Completion MergedShape := do
  match mergePlainPropertyShape target (← source) with
  | some merged => pure merged
  | none => .deferred

/-- The shape of an interface. The shapes of the bases come in the order of their declarations. -/
def resolveInterfaceShape (T : MemberTypes) (bound : BoundFile) (interface : InterfaceDeclaration)
    (bases : List (Completion ObjectShape)) : Completion ObjectShape :=
  if interface.extendsTypes.isEmpty then resolveObjectMembers T bound interface.members
  else do
    let merged ← (resolveObjectMembers T bound interface.members :: bases).foldlM
      mergeCompleted {}
    pure merged.shape

/-! ## Classes -/

def isPlainProperty (member : ClassMember) : Bool :=
  !(member.modifiers.isPrivate || member.modifiers.isProtected ||
    member.modifiers.staticMember) &&
    match member.kind with
    | .property (some _) _ _ _ => true
    | _ => false

def classProperty (typeNode : TypeNode → TypeId) (member : ClassMember) : Option Property :=
  match member.kind with
  | .property (some annotation) _ optional _ => some
      { name := member.name, ty := typeNode annotation, optional,
        readonly := member.modifiers.readonly }
  | _ => none

def evaluateClassInstance (typeNode : TypeNode → TypeId) (declaration : DeclId)
    (cls : ClassDeclaration) (arguments : List TypeId) : Completion TypeKind :=
  if cls.extendsType.isSome then .deferred
  else if cls.members.any (!isPlainProperty ·) then .deferred
  else
    let properties := (sortByKey (·.name) cls.members).filterMap (classProperty typeNode)
    .complete (.classInstance declaration cls.name arguments { properties })

/-! ## Expressions -/

def objectLiteralShape (inferred : ObjectProperty → TypeId) (properties : List ObjectProperty) :
    ObjectShape where
  properties := properties.map fun property =>
    { name := property.name, ty := inferred property, optional := false, readonly := false }

/-- The shape of an assignment pattern, if all of its targets have a type. -/
def destructuringShape (target : Expression → Option TypeId)
    (properties : List ObjectProperty) : Option ObjectShape :=
  let targets := properties.filterMap fun property =>
    (target property.value).map fun ty =>
      ({ name := property.name, ty, optional := false, readonly := false } : Property)
  if targets.length = properties.length then some { properties := targets } else none

/-- The context that an object type with one method gives. -/
def contextualMethodShape (name : String) (ty : TypeId) : ObjectShape where
  properties := [{ name, ty, optional := false, readonly := false }]

/-! ## Properties of JavaScript values -/

/-- The assignments to one path of properties under one root. -/
structure JavaScriptGroup where
  root : DeclId
  properties : List String
  candidates : List DeclId

structure JavaScriptGroups where
  groups : List JavaScriptGroup
  roots : DeclId → List DeclId
  isExpando : DeclId → Bool

namespace JavaScriptGroups

variable (G : JavaScriptGroups)

def find (root : DeclId) (properties : List String) : Option JavaScriptGroup :=
  G.groups.find? fun group => group.root = root ∧ group.properties = properties

/-- The roots and all values on the path can take properties. -/
def parentsAreExpando (group : JavaScriptGroup) : Bool :=
  (G.roots group.root).all G.isExpando &&
    (List.range group.properties.length).all fun length =>
      length = 0 || (G.find group.root (group.properties.take length)).any fun parents =>
        parents.candidates.all G.isExpando

/-- The values that the properties of a group are assigned to. -/
def parents (group : JavaScriptGroup) : List DeclId :=
  if group.properties.length = 1 then G.roots group.root
  else ((G.find group.root group.properties.dropLast).bind (·.candidates.head?)).toList

/-- The first assignment of each group of properties of the declaration. -/
def children (declaration : DeclId) : List DeclId :=
  (G.groups.filter G.parentsAreExpando).flatMap fun group =>
    ((G.parents group).filter (· = declaration)).filterMap fun _ => group.candidates.head?

end JavaScriptGroups

def expandoProperty (name : DeclId → Option String) (valueType : DeclId → Completion TypeId)
    (child : DeclId) : Completion Property :=
  match name child with
  | none => .deferred
  | some name => do
    let ty ← valueType child
    pure { name, ty, optional := false, readonly := false }

/-- The shape of a value that properties are assigned to: an object or a function. -/
def javascriptExpandoShape (name : DeclId → Option String)
    (valueType : DeclId → Completion TypeId) (base : TypeKind) (signature : Option Signature)
    (children : List DeclId) : Completion ObjectShape := do
  let properties ← children.mapM (expandoProperty name valueType)
  match base with
  | .object _ => pure { properties }
  | .function _ | .shapeFunction _ =>
    match signature with
    | none => .deferred
    | some signature =>
      let parameters := signature.parameters.map fun parameter => { parameter with name := none }
      pure { properties, callSignatures :=
        [{ signature with genericDeclaration := none, parameters }] }
  | _ => .deferred

/-! ## Unions of object literals -/

/-- The names of the members, each once, unless a member is not a plain object. -/
def literalNames (s : TypeStore) : List TypeId → List String → Option (List String)
  | [], names => some names
  | member :: members, names =>
    match s.kind member with
    | .object shape =>
      if !shape.callSignatures.isEmpty || !shape.constructSignatures.isEmpty ||
          !shape.indexSignatures.isEmpty then none
      else literalNames s members
        (shape.names.foldl
          (fun names name => if names.contains name then names else names ++ [name]) names)
    | _ => none

def addMissing (undefined : TypeId) (shape : ObjectShape) (name : String) : ObjectShape :=
  if shape.names.contains name then shape
  else shape.withProperty { name, ty := undefined, optional := true, readonly := false }

def normalizedShape (undefined : TypeId) (names : List String) (shape : ObjectShape) :
    ObjectShape :=
  names.foldl (addMissing undefined) shape

def normalizeMembers (names : List String) :
    List TypeId → TypeStore → List TypeId × TypeStore
  | [], s => ([], s)
  | member :: members, s =>
    match s.kind member with
    | .object shape =>
      let (id, s) := s.intern (.object (normalizedShape s.builtins.undefined names shape))
      let (ids, s) := normalizeMembers names members s
      (id :: ids, s)
    | _ => (member :: members, s)

def normalizeObjectLiteralUnion (members : List TypeId) (s : TypeStore) :
    List TypeId × TypeStore :=
  match literalNames s members [] with
  | none => (members, s)
  | some names => normalizeMembers names members s

/-! ## Narrowed properties -/

/-- The shape with another type for the required property of a name. -/
def narrowPredicateShape (shape : ObjectShape) (name : String) (narrowed : TypeId) :
    Option ObjectShape :=
  match shape.properties.findIdx? fun property => property.name = name ∧ !property.optional with
  | none => none
  | some index => some { shape with
      properties := shape.properties.modify index fun property => { property with ty := narrowed } }

/-! ## Names of the members -/

/-- The property that a member adds. -/
def memberName (member : TypeMember) : Option String :=
  match member.kind with
  | .property name _ _ _ | .method name _ _ _ _ => semanticName name
  | .accessor _ _ _ _ | .call _ _ _ | .construct _ _ _ | .index _ _ => none

section members

variable {T : MemberTypes} {shape shape' : ObjectShape}

theorem names_propertyMember {name : TypeMemberName} {ty : Option TypeNode} {optional : Bool}
    {initializer : Option Expression} {readonly : Bool}
    (h : T.propertyMember name ty optional initializer readonly shape = .complete shape') :
    shape'.names = shape.names ++ (semanticName name).toList := by
  unfold MemberTypes.propertyMember at h
  split at h
  · cases h
  · cases hname : semanticName name with
    | none => simp [hname] at h
    | some text =>
      simp only [hname, Completion.bind_eq_complete_iff, Completion.pure_eq_complete_iff] at h
      obtain ⟨_, _, rfl⟩ := h
      simp

theorem names_methodMember {name : TypeMemberName} {optional : Bool}
    {typeParameters : List TypeParameterDeclaration} {parameters : List Parameter}
    {returnType : Option TypeNode} {readonly : Bool}
    (h : T.methodMember name optional typeParameters parameters returnType readonly shape =
      .complete shape') :
    shape'.names = shape.names ++ (semanticName name).toList := by
  unfold MemberTypes.methodMember at h
  split at h
  · cases h
  · cases hname : semanticName name with
    | none => simp [hname] at h
    | some text =>
      simp only [hname, Completion.bind_eq_complete_iff, Completion.pure_eq_complete_iff] at h
      obtain ⟨_, _, rfl⟩ := h
      simp

theorem names_signatureMember {typeParameters : List TypeParameterDeclaration}
    {parameters : List Parameter} {returnType : Option TypeNode} {readonly : Bool}
    {add : Signature → ObjectShape}
    (h : T.signatureMember typeParameters parameters returnType readonly add =
      .complete shape') (hadd : ∀ signature, (add signature).names = shape.names) :
    shape'.names = shape.names := by
  unfold MemberTypes.signatureMember at h
  split at h
  · cases h
  · simp only [Completion.bind_eq_complete_iff, Completion.pure_eq_complete_iff] at h
    obtain ⟨signature, _, rfl⟩ := h
    exact hadd signature

theorem names_indexMember {parameters : List Parameter} {valueType : Option TypeNode}
    {readonly : Bool} (h : T.indexMember parameters valueType readonly shape =
      .complete shape') : shape'.names = shape.names := by
  unfold MemberTypes.indexMember at h
  split at h
  · cases h
  · split at h
    · split at h
      · cases h
      · split at h
        · split at h
          · cases h
          · split at h
            · cases h
            · simp only [Completion.bind_eq_complete_iff, Completion.pure_eq_complete_iff] at h
              obtain ⟨_, _, rfl⟩ := h
              rfl
        · cases h
    · cases h

/-- A member adds its own name, or no name. -/
theorem names_addMember {member : TypeMember} (h : T.addMember shape member = .complete shape') :
    shape'.names = shape.names ++ (memberName member).toList := by
  unfold MemberTypes.addMember at h
  split at h
  · cases h
  · unfold memberName
    cases hkind : member.kind with
    | property name ty optional initializer =>
      simp only [hkind] at h
      exact names_propertyMember h
    | method name optional typeParameters parameters returnType =>
      simp only [hkind] at h
      exact names_methodMember h
    | accessor => simp [hkind] at h
    | call =>
      simp only [hkind] at h
      have hnames : shape'.names = shape.names := names_signatureMember h fun _ => rfl
      rw [hnames, Option.toList_none, List.append_nil]
    | construct =>
      simp only [hkind] at h
      have hnames : shape'.names = shape.names := names_signatureMember h fun _ => rfl
      rw [hnames, Option.toList_none, List.append_nil]
    | index =>
      simp only [hkind] at h
      rw [names_indexMember h, Option.toList_none, List.append_nil]

theorem names_addMembers {members : List TypeMember}
    (h : T.addMembers shape members = .complete shape') :
    shape'.names = shape.names ++ members.filterMap memberName := by
  induction members generalizing shape with
  | nil =>
    rw [MemberTypes.addMembers, List.foldlM_nil, Completion.pure_eq_complete_iff] at h
    simp [h]
  | cons member members ih =>
    rw [MemberTypes.addMembers, List.foldlM_cons, Completion.bind_eq_complete_iff] at h
    obtain ⟨next, hnext, hrest⟩ := h
    rw [ih hrest, names_addMember hnext, List.filterMap_cons]
    cases memberName member <;> simp

/-- The binder has recorded every member in the scope of the list: under its node, with a
declaration of its own, and in the group of its symbol. -/
structure RecordsMembers [NumberFormat] (bound : BoundFile) (container : ScopeId)
    (members : List TypeMember) : Prop where
  entry : ∀ member ∈ readMembers members, ∃ declaration,
    bound.typeMembers member.id =
        some ⟨declaration, container, typeMemberSymbol member.kind⟩ ∧
      ∀ symbol, typeMemberSymbol member.kind = some symbol →
        ∃ group, bound.typeMemberGroups.lookup (container, symbol) = some group ∧
          declaration ∈ group
  distinct : ((readMembers members).map fun member =>
    (bound.typeMembers member.id).map (·.declaration)).Nodup

theorem typeMemberSymbol_of_memberName [NumberFormat] {member : TypeMember} {name : String}
    (h : memberName member = some name) :
    typeMemberSymbol member.kind = some (.named (encodeUtf16 name)) := by
  have hname : ∀ {n : TypeMemberName}, semanticName n = some name →
      typeMemberNameSymbol n.kind = some (.named (encodeUtf16 name)) := by
    intro n hn
    unfold semanticName at hn
    cases hkind : n.kind <;> simp_all [typeMemberNameSymbol]
  unfold memberName at h
  unfold typeMemberSymbol
  cases hkind : member.kind with
  | property => simp only [hkind] at h ⊢; exact hname h
  | method => simp only [hkind] at h ⊢; exact hname h
  | accessor => simp [hkind] at h
  | call => simp [hkind] at h
  | construct => simp [hkind] at h
  | index => simp [hkind] at h

theorem one_lt_length_of_ne {α : Type} {l : List α} {a b : α} (ha : a ∈ l) (hb : b ∈ l)
    (h : a ≠ b) : 1 < l.length := by
  match l with
  | [] => cases ha
  | [c] =>
    rw [List.mem_singleton] at ha hb
    exact absurd (ha.trans hb.symm) h
  | _ :: _ :: _ => simp

/-- A name that occurs twice is found in the group of its symbol. -/
theorem nodup_memberNames [NumberFormat] {bound : BoundFile} {container : ScopeId}
    {members : List TypeMember} (hbound : RecordsMembers bound container members)
    (hshared : (readMembers members).any (sharesSymbol bound) = false) :
    ((readMembers members).filterMap memberName).Nodup := by
  rw [List.any_eq_false] at hshared
  have hdistinct := hbound.distinct
  rw [List.Nodup, List.pairwise_map] at hdistinct
  rw [List.Nodup, List.pairwise_filterMap]
  refine hdistinct.imp_of_mem fun {member other} hmember hother hne name hname name' hname' => ?_
  rintro rfl
  obtain ⟨declaration, hentry, hgroup⟩ := hbound.entry member hmember
  obtain ⟨declaration', hentry', hgroup'⟩ := hbound.entry other hother
  obtain ⟨group, hlookup, hin⟩ := hgroup _ (typeMemberSymbol_of_memberName hname)
  obtain ⟨group', hlookup', hin'⟩ := hgroup' _ (typeMemberSymbol_of_memberName hname')
  obtain rfl : group = group' := Option.some.inj (hlookup.symm.trans hlookup')
  have hdeclarations : declaration ≠ declaration' := by
    rintro rfl
    exact hne (by rw [hentry, hentry']; rfl)
  have hfound : typeMemberGroup bound member.id = some group := by
    simp [typeMemberGroup, hentry, typeMemberSymbol_of_memberName hname, hlookup]
  refine hshared member hmember ?_
  simp [sharesSymbol, hentry, hfound, typeMemberSymbol_of_memberName hname,
    one_lt_length_of_ne hin hin' hdeclarations]

/-- The members of a type literal or an interface have distinct names. -/
theorem distinctNames_resolveObjectMembers [NumberFormat] {bound : BoundFile}
    {container : ScopeId} {members : List TypeMember}
    (hbound : RecordsMembers bound container members)
    (h : resolveObjectMembers T bound members = .complete shape) : shape.DistinctNames := by
  unfold resolveObjectMembers at h
  split at h
  · cases h
  next hshared =>
    rw [Completion.bind_eq_complete_iff] at h
    obtain ⟨found, hfound, h⟩ := h
    split at h
    · cases h
    · rw [Completion.pure_eq_complete_iff] at h
      subst h
      rw [ObjectShape.DistinctNames, names_addMembers hfound]
      exact nodup_memberNames hbound (Bool.eq_false_of_not_eq_true hshared)

end members

/-! ## Names of merged shapes -/

namespace MergedShape

/-- The positions are those of the names, and no name occurs twice. -/
structure Indexed (merged : MergedShape) : Prop where
  indices : merged.propertyIndices.map (·.1) = merged.shape.names
  distinct : merged.shape.DistinctNames

theorem indexed_empty : ({} : MergedShape).Indexed := ⟨rfl, List.nodup_nil⟩

variable {target merged : MergedShape}

theorem Indexed.mergeProperty {property : Property} (h : target.Indexed)
    (hmerge : mergeProperty target property = some merged) : merged.Indexed := by
  unfold Semantics.mergeProperty at hmerge
  split at hmerge
  · cases hmerge
  · cases hlookup : target.propertyIndices.lookup property.name with
    | some index =>
      simp only [hlookup] at hmerge
      split at hmerge
      · cases hmerge
        exact h
      · cases hmerge
    | none =>
      simp only [hlookup, Option.some.injEq] at hmerge
      subst hmerge
      have hnew : property.name ∉ target.shape.names := by
        rw [← h.indices, List.mem_map]
        rintro ⟨⟨name, index⟩, hmem, heq⟩
        have hne := List.lookup_eq_none_iff.mp hlookup ⟨name, index⟩ hmem
        simp [← heq] at hne
      exact ⟨by simp [h.indices], h.distinct.withProperty hnew⟩

theorem Indexed.mergeShape {source : ObjectShape} (h : target.Indexed)
    (hmerge : mergePlainPropertyShape target source = some merged) : merged.Indexed := by
  unfold mergePlainPropertyShape at hmerge
  split at hmerge
  · cases hmerge
  · generalize source.properties = properties at hmerge
    induction properties generalizing target with
    | nil =>
      cases hmerge
      exact h
    | cons property properties ih =>
      rw [List.foldlM_cons] at hmerge
      obtain ⟨next, hnext, hrest⟩ := Option.bind_eq_some_iff.mp hmerge
      exact ih (h.mergeProperty hnext) hrest

theorem Indexed.mergeAll {sources : List (Completion ObjectShape)} (h : target.Indexed)
    (hmerge : sources.foldlM mergeCompleted target = .complete merged) : merged.Indexed := by
  induction sources generalizing target with
  | nil =>
    rw [List.foldlM_nil, Completion.pure_eq_complete_iff] at hmerge
    rwa [← hmerge]
  | cons source sources ih =>
    rw [List.foldlM_cons, Completion.bind_eq_complete_iff] at hmerge
    obtain ⟨next, hnext, hrest⟩ := hmerge
    refine ih ?_ hrest
    rw [mergeCompleted, Completion.bind_eq_complete_iff] at hnext
    obtain ⟨shape, _, hshape⟩ := hnext
    cases hfound : mergePlainPropertyShape target shape with
    | none => simp [hfound] at hshape
    | some found =>
      simp only [hfound, Completion.pure_eq_complete_iff] at hshape
      subst hshape
      exact h.mergeShape hfound

end MergedShape

/-- Heritage keeps one property for each name, whatever the members are. -/
theorem distinctNames_resolveInterfaceShape [NumberFormat] {T : MemberTypes} {bound : BoundFile}
    {interface : InterfaceDeclaration} {bases : List (Completion ObjectShape)}
    {container : ScopeId} {shape : ObjectShape}
    (hbound : RecordsMembers bound container interface.members)
    (h : resolveInterfaceShape T bound interface bases = .complete shape) :
    shape.DistinctNames := by
  unfold resolveInterfaceShape at h
  split at h
  · exact distinctNames_resolveObjectMembers hbound h
  · rw [Completion.bind_eq_complete_iff] at h
    obtain ⟨merged, hmerged, h⟩ := h
    rw [Completion.pure_eq_complete_iff] at h
    rw [← h]
    exact (MergedShape.indexed_empty.mergeAll hmerged).distinct

/-! ## Names that syntax repeats -/

/-- The names of an object literal are those of its syntax. -/
theorem names_objectLiteralShape (inferred : ObjectProperty → TypeId)
    (properties : List ObjectProperty) :
    (objectLiteralShape inferred properties).names = properties.map (·.name) := by
  simp [objectLiteralShape, ObjectShape.names]

/-- Properties that are named after their syntax have the names of some of it, and all of them if
no property is left out. -/
theorem names_filterMap {α : Type} {property : α → Option Property} {name : α → String}
    (hname : ∀ a found, property a = some found → found.name = name a) {syntaxes : List α}
    (hall : ∀ a ∈ syntaxes, (property a).isSome) :
    (syntaxes.filterMap property).map (·.name) = syntaxes.map name := by
  induction syntaxes with
  | nil => rfl
  | cons a rest ih =>
    obtain ⟨found, hfound⟩ := Option.isSome_iff_exists.mp (hall a (List.mem_cons_self ..))
    rw [List.filterMap_cons, hfound, List.map_cons, List.map_cons, hname a found hfound,
      ih fun b hb => hall b (List.mem_cons_of_mem a hb)]

theorem names_destructuringShape {target : Expression → Option TypeId}
    {properties : List ObjectProperty} {shape : ObjectShape}
    (h : destructuringShape target properties = some shape) :
    (∀ property ∈ properties, (target property.value).isSome) ∧
      shape.names = properties.map (·.name) := by
  simp only [destructuringShape] at h
  split at h
  next hlength =>
    cases h
    have hall := List.filterMap_length_eq_length.mp hlength
    simp only [Option.isSome_map] at hall
    refine ⟨hall, names_filterMap (fun property found hfound => ?_) fun property hproperty => ?_⟩
    · obtain ⟨ty, _, rfl⟩ := Option.map_eq_some_iff.mp hfound
      rfl
    · rw [Option.isSome_map]
      exact hall property hproperty
  next => cases h

/-- The instance of a class has the names of its members, in their order. -/
theorem names_evaluateClassInstance {typeNode : TypeNode → TypeId} {declaration : DeclId}
    {cls : ClassDeclaration} {arguments : List TypeId} {kind : TypeKind}
    (h : evaluateClassInstance typeNode declaration cls arguments = .complete kind) :
    cls.extendsType = none ∧ (∀ member ∈ cls.members, isPlainProperty member) ∧
      ∃ shape, kind = .classInstance declaration cls.name arguments shape ∧
        shape.names.Perm (cls.members.map (·.name)) := by
  unfold evaluateClassInstance at h
  split at h
  · cases h
  next hextends =>
    split at h
    · cases h
    next hplain =>
      cases h
      have hall : ∀ member ∈ cls.members, isPlainProperty member := by
        simpa using hplain
      refine ⟨by simpa using hextends, hall, _, rfl, ?_⟩
      rw [ObjectShape.names, names_filterMap (fun member found hfound => ?_) fun member hmember => ?_]
      · exact (sortByKey_perm _ cls.members).map _
      · unfold classProperty at hfound
        split at hfound
        · cases hfound
          rfl
        · cases hfound
      · have hmember := hall member ((mem_sortByKey _).mp hmember)
        unfold isPlainProperty at hmember
        unfold classProperty
        split
        · rfl
        next hne =>
          rw [Bool.and_eq_true] at hmember
          have := hmember.2
          split at this
          next hkind => exact absurd hkind (hne _ _ _ _)
          next => cases this

/-! ## Names of other shapes -/

section others

variable {shape : ObjectShape}

theorem distinctNames_addMissing (undefined : TypeId) (h : shape.DistinctNames) (name : String) :
    (addMissing undefined shape name).DistinctNames := by
  unfold addMissing
  split
  · exact h
  next hnew =>
    rw [List.contains_iff_mem] at hnew
    exact h.withProperty hnew

theorem distinctNames_normalizedShape (undefined : TypeId) (names : List String)
    (h : shape.DistinctNames) : (normalizedShape undefined names shape).DistinctNames := by
  induction names generalizing shape with
  | nil => exact h
  | cons name names ih => exact ih (distinctNames_addMissing undefined h name)

theorem names_narrowPredicateShape {name : String} {narrowed : TypeId} {shape' : ObjectShape}
    (h : narrowPredicateShape shape name narrowed = some shape') : shape'.names = shape.names := by
  unfold narrowPredicateShape at h
  split at h
  · cases h
  · cases h
    simp only [ObjectShape.names]
    refine List.ext_getElem? fun i => ?_
    rw [List.getElem?_map, List.getElem?_map, List.getElem?_modify]
    cases shape.properties[i]? with
    | none => rfl
    | some property => simp only [Option.map_some]; split <;> rfl

theorem names_of_expandoProperties {name : DeclId → Option String}
    {valueType : DeclId → Completion TypeId} {children : List DeclId}
    {properties : List Property}
    (h : children.mapM (expandoProperty name valueType) = .complete properties) :
    properties.map (·.name) = children.filterMap name := by
  induction children generalizing properties with
  | nil =>
    rw [List.mapM_nil, Completion.pure_eq_complete_iff] at h
    rw [← h]
    rfl
  | cons child children ih =>
    simp only [List.mapM_cons, Completion.bind_eq_complete_iff,
      Completion.pure_eq_complete_iff] at h
    obtain ⟨property, hproperty, rest, hrest, rfl⟩ := h
    unfold expandoProperty at hproperty
    cases hname : name child with
    | none => simp [hname] at hproperty
    | some text =>
      simp only [hname, Completion.bind_eq_complete_iff,
        Completion.pure_eq_complete_iff] at hproperty
      obtain ⟨ty, _, rfl⟩ := hproperty
      rw [List.map_cons, ih hrest, List.filterMap_cons, hname]

theorem names_javascriptExpandoShape {name : DeclId → Option String}
    {valueType : DeclId → Completion TypeId} {base : TypeKind} {signature : Option Signature}
    {children : List DeclId} (h : javascriptExpandoShape name valueType base signature children =
      .complete shape) : shape.names = children.filterMap name := by
  unfold javascriptExpandoShape at h
  rw [Completion.bind_eq_complete_iff] at h
  obtain ⟨properties, hproperties, h⟩ := h
  have hnames := names_of_expandoProperties hproperties
  split at h
  · rw [Completion.pure_eq_complete_iff] at h
    rw [← h]
    exact hnames
  · split at h
    · cases h
    · rw [Completion.pure_eq_complete_iff] at h
      rw [← h]
      exact hnames
  · split at h
    · cases h
    · rw [Completion.pure_eq_complete_iff] at h
      rw [← h]
      exact hnames
  · cases h

end others

/-! ## Names of the properties of JavaScript values -/

namespace JavaScriptGroups

/-- What binding and grouping establish: each path of properties under a root has one group, a
declaration assigns to the last property of one path, and roots are no such declarations. -/
structure WellFormed (G : JavaScriptGroups) (name : DeclId → Option String) : Prop where
  keys : G.groups.Pairwise fun g h => ¬ (g.root = h.root ∧ g.properties = h.properties)
  roots : ∀ root, (G.roots root).Nodup
  sameRoot : ∀ g ∈ G.groups, ∀ h ∈ G.groups, ∀ d, d ∈ G.roots g.root → d ∈ G.roots h.root →
    g.root = h.root
  samePath : ∀ g ∈ G.groups, ∀ h ∈ G.groups, ∀ d, d ∈ g.candidates → d ∈ h.candidates →
    g.root = h.root ∧ g.properties = h.properties
  notRoot : ∀ g ∈ G.groups, ∀ h ∈ G.groups, ∀ d, d ∈ g.candidates → d ∉ G.roots h.root
  named : ∀ g ∈ G.groups, ∀ d ∈ g.candidates, name d = g.properties.getLast?

variable {G : JavaScriptGroups} {name : DeclId → Option String} {g h : JavaScriptGroup}
  {d : DeclId}

theorem mem_parents (hd : d ∈ G.parents g) :
    (g.properties.length = 1 ∧ d ∈ G.roots g.root) ∨
      (g.properties.length ≠ 1 ∧ ∃ prior ∈ G.groups, prior.root = g.root ∧
        prior.properties = g.properties.dropLast ∧ d ∈ prior.candidates) := by
  unfold parents at hd
  split at hd
  next hone => exact .inl ⟨hone, hd⟩
  next hone =>
    rw [Option.mem_toList, Option.bind_eq_some_iff] at hd
    obtain ⟨prior, hprior, hhead⟩ := hd
    have hkey := List.find?_some hprior
    rw [decide_eq_true_eq] at hkey
    exact .inr ⟨hone, prior, List.mem_of_find?_eq_some hprior, hkey.1, hkey.2,
      List.mem_of_head? hhead⟩

/-- Two groups of properties of one value that have one name are the same group. -/
theorem WellFormed.eq_of_parents (hG : G.WellFormed name) (hg : g ∈ G.groups) (hh : h ∈ G.groups)
    (hdg : d ∈ G.parents g) (hdh : d ∈ G.parents h) {last : String}
    (hlast : g.properties.getLast? = some last) (hlast' : h.properties.getLast? = some last) :
    g.root = h.root ∧ g.properties = h.properties := by
  have hsplit : ∀ {properties : List String}, properties.getLast? = some last →
      properties = properties.dropLast ++ [last] := by
    intro properties hl
    exact (List.dropLast_append_getLast? last hl).symm
  have hprior : ∀ prior : List String, prior = g.properties.dropLast →
      prior = h.properties.dropLast → g.properties = h.properties := by
    intro prior hpg hph
    rw [hsplit hlast, hsplit hlast', ← hpg, ← hph]
  rcases mem_parents hdg with ⟨hone, hroot⟩ | ⟨_, p, hp, hproot, hpath, hcandidate⟩ <;>
    rcases mem_parents hdh with ⟨hone', hroot'⟩ | ⟨_, q, hq, hqroot, hqpath, hcandidate'⟩
  · refine ⟨hG.sameRoot g hg h hh d hroot hroot', hprior [] ?_ ?_⟩
    · exact (List.length_eq_zero_iff.mp (by simp [hone])).symm
    · exact (List.length_eq_zero_iff.mp (by simp [hone'])).symm
  · exact absurd hroot (hG.notRoot q hq g hg d hcandidate')
  · exact absurd hroot' (hG.notRoot p hp h hh d hcandidate)
  · obtain ⟨hroots, hpaths⟩ := hG.samePath p hp q hq d hcandidate hcandidate'
    exact ⟨hproot ▸ hqroot ▸ hroots, hprior _ hpath (hpaths.trans hqpath)⟩

theorem WellFormed.nodup_parents (hG : G.WellFormed name) (g : JavaScriptGroup) :
    (G.parents g).Nodup := by
  unfold parents
  split
  · exact hG.roots g.root
  · generalize (G.find g.root g.properties.dropLast).bind (·.candidates.head?) = found
    cases found <;> simp

/-- The properties of a JavaScript value have distinct names. -/
theorem WellFormed.nodup_children (hG : G.WellFormed name) (d : DeclId) :
    ((G.children d).filterMap name).Nodup := by
  unfold children
  rw [List.filterMap_flatMap, List.nodup_flatMap]
  constructor
  · intro g _
    rw [List.filterMap_filterMap, List.Nodup, List.pairwise_filterMap]
    refine ((hG.nodup_parents g).filter _).imp_of_mem fun ha hb hne => absurd ?_ hne
    have ha' := (List.mem_filter.mp ha).2
    have hb' := (List.mem_filter.mp hb).2
    rw [decide_eq_true_eq] at ha' hb'
    rw [ha', hb']
  · refine (hG.keys.filter _).imp_of_mem fun {g h} hg hh hkey last hlast hlast' => hkey ?_
    have hg' := (List.mem_filter.mp hg).1
    have hh' := (List.mem_filter.mp hh).1
    have hname : ∀ {k : JavaScriptGroup}, k ∈ G.groups →
        last ∈ (((G.parents k).filter (· = d)).filterMap fun _ => k.candidates.head?).filterMap
          name → d ∈ G.parents k ∧ k.properties.getLast? = some last := by
      intro k hk hin
      obtain ⟨child, hchild, hnamed⟩ := List.mem_filterMap.mp hin
      obtain ⟨parent, hparent, hhead⟩ := List.mem_filterMap.mp hchild
      obtain ⟨hparents, heq⟩ := List.mem_filter.mp hparent
      rw [decide_eq_true_eq] at heq
      subst heq
      rw [← hG.named k hk child (List.mem_of_head? hhead)]
      exact ⟨hparents, hnamed⟩
    obtain ⟨hdg, hlast⟩ := hname hg' hlast
    obtain ⟨hdh, hlast'⟩ := hname hh' hlast'
    exact hG.eq_of_parents hg' hh' hdg hdh hlast hlast'

end JavaScriptGroups

end Tsz.Semantics
