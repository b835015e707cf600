import Tsz.Semantics.UnionLaws
import Tsz.Semantics.UnionNormalForm
import Tsz.Semantics.Widening
import Tsz.Syntax.Parser.Literals

/-!
# Resolution of type nodes

The types that the checker gives to closed type nodes, and the types that are written there.

## Main definitions

* `resolveTypeNode` — the type of a node in a store.
* `authored` — the type that is written in a node.

## Main results

* `resolveTypeNode_separates` — nodes with one type are the same up to the laws of unions,
  `readonly` and `new`.
-/

namespace Tsz.Semantics

open Syntax

/-- What the resolution of nodes takes from the rest of the checker. -/
structure NodeContext where
  numericLiteral : String → Option NumericLiteral
  initializerType : Expression → TypeStore → Option TypeId × TypeStore
  /-- The type of a node of one of the remaining kinds. -/
  other : TypeNodeKind → TypeStore → TypeId × TypeStore

/-! ## The nodes in the checker -/

def BuiltinTypes.keyword (builtins : BuiltinTypes) : KeywordType → Option TypeId
  | .any => some builtins.any
  | .unknown => some builtins.unknown
  | .never => some builtins.never
  | .void => some builtins.void
  | .undefined => some builtins.undefined
  | .null => some builtins.null
  | .boolean => some builtins.boolean
  | .number => some builtins.number
  | .string => some builtins.string
  | .bigInt => some builtins.bigInt
  | .object => some builtins.object
  | .symbol => some builtins.symbol
  | .uniqueSymbol => none

/-- The text of a string literal, unless it has a lone surrogate or was not scanned to its end. -/
def stringLiteralValue : StringLiteral → Option String
  | .plain value => some value
  | .extended literal =>
    if literal.terminated && !literal.containsInvalidEscape then literal.cooked.asString else none

/-- The text a number literal is read from, unless the scanner only recovered from it. -/
def numberLiteralSource : NumberLiteral → Option String
  | .plain value => some value
  | .separated value => some value.raw
  | .recovery value => if value.validationSupported then some value.semanticText else none

namespace TypeStore

def numericLiteral (s : TypeStore) (C : NodeContext) (source : String)
    (provenance : LiteralProvenance) : TypeId × TypeStore :=
  match C.numericLiteral source with
  | some value => s.intern (.literalNumber value provenance)
  | none => (s.builtins.error, s)

def literalType (s : TypeStore) (C : NodeContext) (literal : Literal)
    (provenance : LiteralProvenance) : TypeId × TypeStore :=
  match literal with
  | .string value =>
    match stringLiteralValue value with
    | some text => s.intern (.literalString text provenance)
    | none => s.freshDeferred .utf16StringLiteral
  | .noSubstitutionTemplate value => s.intern (.literalString value.cooked provenance)
  | .number value =>
    match numberLiteralSource value with
    | some source => s.numericLiteral C source provenance
    | none => s.freshDeferred .numericRecovery
  | .bigInt _ => s.freshDeferred .bigIntLiteral
  | .boolean value => s.intern (.literalBoolean value provenance)
  | .null => (s.builtins.null, s)

def function (s : TypeStore) (parameters : List ParameterType) (returnType : TypeId) :
    TypeId × TypeStore :=
  s.intern (.function ⟨none, false, parameters, returnType⟩)

end TypeStore

mutual

def authoredStructuralUnionMember : TypeNode → Bool
  | ⟨_, kind⟩ => authoredStructuralKind kind

def authoredStructuralKind : TypeNodeKind → Bool
  | .object _ => true
  | .array element | .readonly element | .parenthesized element =>
    authoredStructuralUnionMember element
  | .tuple elements => !elements.isEmpty && authoredStructuralMembers elements
  | _ => false

def authoredStructuralMembers : List TypeNode → Bool
  | [] => true
  | element :: elements =>
    authoredStructuralUnionMember element && authoredStructuralMembers elements

end

def prependParameter (parameter : ParameterType)
    (result : Option (List ParameterType) × TypeStore) : Option (List ParameterType) × TypeStore :=
  (result.1.map (parameter :: ·), result.2)

mutual

def resolveTypeNode (C : NodeContext) : TypeNode → TypeStore → TypeId × TypeStore
  | ⟨_, kind⟩, s => resolveTypeNodeKind C kind s

def resolveTypeNodeKind (C : NodeContext) : TypeNodeKind → TypeStore → TypeId × TypeStore
  | .keyword keyword, s =>
    match s.builtins.keyword keyword with
    | some id => (id, s)
    | none => s.freshDeferred .uniqueSymbol
  | .literal literal, s => s.literalType C literal .regular
  | .array element, s =>
    let (element, s) := resolveTypeNode C element s
    s.intern (.array element)
  | .tuple elements, s =>
    let (elements, s) := resolveTypeNodes C elements s
    s.intern (.tuple elements)
  | .union members, s =>
    let policy := if authoredStructuralMembers members then
      UnionPolicy.preserveAuthoredStructuralOrder else .canonical
    let (members, s) := resolveTypeNodes C members s
    s.union members policy
  | .function _ typeParameters parameters _ returnType, s
  | .constructor _ typeParameters parameters _ returnType _, s =>
    if !typeParameters.isEmpty || parameters.any (·.nameKind == .this) then
      s.freshDeferred .genericFunction
    else
      match anonymousSignatureParameters C parameters s with
      | (none, s) => s.freshDeferred .genericFunction
      | (some parameters, s) =>
        let (returnType, s) := resolveTypeNode C returnType s
        s.function parameters returnType
  | .readonly inner, s | .parenthesized inner, s => resolveTypeNode C inner s
  | kind, s => C.other kind s

def resolveTypeNodes (C : NodeContext) : List TypeNode → TypeStore → List TypeId × TypeStore
  | [], s => ([], s)
  | node :: nodes, s =>
    let (id, s) := resolveTypeNode C node s
    let (ids, s) := resolveTypeNodes C nodes s
    (id :: ids, s)

/-- The parameters in order, up to one without a complete type. -/
def anonymousSignatureParameters (C : NodeContext) :
    List Parameter → TypeStore → Option (List ParameterType) × TypeStore
  | [], s => (some [], s)
  | ⟨name, _, _, _, some annotation, initializer, isOptional, _, rest, _, _, _, _, _⟩ ::
      parameters, s =>
    let (ty, s) := resolveTypeNode C annotation s
    prependParameter ⟨some name, ty, isOptional || initializer.isSome, rest⟩
      (anonymousSignatureParameters C parameters s)
  | ⟨name, _, _, _, none, some initializer, _, _, rest, _, _, _, _, _⟩ :: parameters, s =>
    match C.initializerType initializer s with
    | (none, s) => (none, s)
    | (some ty, s) =>
      prependParameter ⟨some name, ty, true, rest⟩ (anonymousSignatureParameters C parameters s)
  | ⟨name, _, _, _, none, none, isOptional, _, rest, _, _, _, _, _⟩ :: parameters, s =>
    prependParameter ⟨some name, s.builtins.any, isOptional, rest⟩
      (anonymousSignatureParameters C parameters s)

end

/-! ## The nodes as they are written -/

def authoredLiteral (C : NodeContext) (literal : Literal) : Option AuthoredLiteral :=
  match literal with
  | .string value => some ((stringLiteralValue value).elim (.token literal) .string)
  | .noSubstitutionTemplate value => some (.string value.cooked)
  | .number value =>
    match numberLiteralSource value with
    | some source => (C.numericLiteral source).map .number
    | none => some (.token literal)
  | .bigInt _ => some (.token literal)
  | .boolean value => some (.boolean value)
  | .null => none

def authoredSignature (form : SignatureForm) (typeParameters : List TypeParameterDeclaration)
    (parameters : Option (List (ParameterForm × AuthoredType)))
    (returnType : Option AuthoredType) : Option AuthoredType := do
  let parameters ← parameters
  let returnType ← returnType
  if typeParameters.isEmpty then
    some (.signature form (parameters.map (·.1)) (parameters.map (·.2)) returnType)
  else none

mutual

/-- The type written in a closed node, `none` for what else there is. -/
def authored (C : NodeContext) : TypeNode → Option AuthoredType
  | ⟨_, kind⟩ => authoredKind C kind

def authoredKind (C : NodeContext) : TypeNodeKind → Option AuthoredType
  | .keyword keyword => some (.keyword keyword)
  | .literal .null => some (.keyword .null)
  | .literal literal => (authoredLiteral C literal).map .literal
  | .array element => (authored C element).map .array
  | .readonly inner => (authored C inner).map .readonly
  | .parenthesized inner => authored C inner
  | .tuple elements => (authoredAll C elements).map .tuple
  | .union members => (authoredAll C members).map .union
  | .function _ typeParameters parameters _ returnType =>
    authoredSignature .function typeParameters (authoredParameters C parameters)
      (authored C returnType)
  | .constructor _ typeParameters parameters _ returnType isAbstract =>
    authoredSignature (.constructor isAbstract) typeParameters (authoredParameters C parameters)
      (authored C returnType)
  | _ => none

def authoredAll (C : NodeContext) : List TypeNode → Option (List AuthoredType)
  | [] => some []
  | node :: nodes => do
    let type ← authored C node
    let types ← authoredAll C nodes
    return type :: types

def authoredParameters (C : NodeContext) :
    List Parameter → Option (List (ParameterForm × AuthoredType))
  | [] => some []
  | ⟨name, _, _, _, some annotation, initializer, isOptional, _, rest, _, _, _, _, _⟩ ::
      parameters => do
    let type ← authored C annotation
    let types ← authoredParameters C parameters
    return (⟨some name, isOptional || initializer.isSome, rest⟩, type) :: types
  | ⟨_, _, _, _, none, some _, _, _, _, _, _, _, _, _⟩ :: _ => none
  | ⟨name, _, _, _, none, none, isOptional, _, rest, _, _, _, _, _⟩ :: parameters => do
    let types ← authoredParameters C parameters
    return (⟨some name, isOptional, rest⟩, .keyword .any) :: types

end

/-! ## The types of a store, read back -/

def ParameterType.form (parameter : ParameterType) : ParameterForm :=
  ⟨parameter.name, parameter.optional, parameter.rest⟩

/-- The type of a kind whose parts are read by `read`. -/
def TypeKind.written (incomplete : AuthoredType) (read : TypeId → AuthoredType) :
    TypeKind → AuthoredType
  | .any => .keyword .any
  | .unknown => .keyword .unknown
  | .never => .keyword .never
  | .void => .keyword .void
  | .undefined => .keyword .undefined
  | .null => .keyword .null
  | .boolean => .keyword .boolean
  | .number => .keyword .number
  | .string => .keyword .string
  | .bigInt => .keyword .bigInt
  | .objectKeyword => .keyword .object
  | .symbol => .keyword .symbol
  | .literalBoolean value _ => .literal (.boolean value)
  | .literalNumber value _ => .literal (.number value)
  | .literalString value _ => .literal (.string value)
  | .array element => .array (read element)
  | .tuple elements => .tuple (elements.map read)
  | .union members => .union (members.map read)
  | .function signature =>
    .signature .function (signature.parameters.map (·.form))
      (signature.parameters.map fun parameter => read parameter.ty) (read signature.returnType)
  | _ => incomplete

theorem TypeKind.written_congr {k : TypeKind} {incomplete : AuthoredType}
    {read read' : TypeId → AuthoredType} (h : ∀ c ∈ k.children, read c = read' c) :
    k.written incomplete read = k.written incomplete read' := by
  cases k with
  | array element => exact congrArg AuthoredType.array (h element (by simp [TypeKind.children]))
  | tuple elements => exact congrArg AuthoredType.tuple (List.map_congr_left h)
  | union members => exact congrArg AuthoredType.union (List.map_congr_left h)
  | function signature =>
    have hparameters : ∀ parameter ∈ signature.parameters,
        read parameter.ty = read' parameter.ty :=
      fun parameter hp => h _ (List.mem_append_left _ (List.mem_map_of_mem hp))
    have hreturn := h signature.returnType (by simp [TypeKind.children, Signature.children])
    simp only [TypeKind.written, List.map_congr_left hparameters, hreturn]
  | _ => rfl

namespace TypeStore

/-- The type an id stands for, up to a nesting level. `fresh` says what the ids stand for whose
kind is not complete. -/
def denote (s : TypeStore) (fresh : TypeId → AuthoredType) : Nat → TypeId → AuthoredType
  | 0, id => fresh id
  | level + 1, id => (s.kind id).written (fresh id) (s.denote fresh level)

/-- Types refer to types before them, so this is all of the type. -/
def read (s : TypeStore) (fresh : TypeId → AuthoredType) (id : TypeId) : AuthoredType :=
  s.denote fresh (id.index + 1) id

variable {s t : TypeStore} {fresh fresh' : TypeId → AuthoredType} {id : TypeId}

/-- Levels beyond the index of a type do not matter. -/
theorem denote_eq_read (hs : Consistent s) (hearlier : ChildrenEarlier s) {level : Nat}
    (hid : s.Contains id) (hlevel : id.index < level) :
    s.denote fresh level id = s.read fresh id := by
  induction hk : id.index using Nat.strongRecOn generalizing id level with
  | ind k ih =>
    subst hk
    obtain ⟨more, rfl⟩ := Nat.exists_eq_add_of_lt hlevel
    refine TypeKind.written_congr fun c hc => ?_
    have hlt := hearlier id hid c hc
    have hcontains := hs.children id hid c hc
    rw [ih c.index hlt hcontains (by omega) rfl, ih c.index hlt hcontains (by omega) rfl]

/-- A type is written as its kind says. -/
theorem read_eq (hs : Consistent s) (hearlier : ChildrenEarlier s) (hid : s.Contains id) :
    s.read fresh id = (s.kind id).written (fresh id) (s.read fresh) :=
  TypeKind.written_congr fun c hc =>
    denote_eq_read hs hearlier (hs.children id hid c hc) (hearlier id hid c hc)

theorem denote_of_extends (hs : Consistent s) (hgrow : Extends s t)
    (hfresh : ∀ id, s.Contains id → fresh' id = fresh id) (level : Nat) (hid : s.Contains id) :
    t.denote fresh' level id = s.denote fresh level id := by
  induction level generalizing id with
  | zero => exact hfresh id hid
  | succ level ih =>
    rw [denote, denote, hgrow.kind hid, hfresh id hid]
    exact TypeKind.written_congr fun c hc => ih (hs.children id hid c hc)

/-- A type reads the same in a larger store. -/
theorem read_of_extends (hs : Consistent s) (hgrow : Extends s t)
    (hfresh : ∀ id, s.Contains id → fresh' id = fresh id) (hid : s.Contains id) :
    t.read fresh' id = s.read fresh id :=
  denote_of_extends hs hgrow hfresh _ hid

end TypeStore

/-! ## Unions -/

/-- The ids of a store can be read: it is one of a run, and what has no complete kind stands for a
type of its own. -/
structure Readable (s : TypeStore) (fresh : TypeId → AuthoredType) : Prop where
  reachable : TypeStore.Reachable s
  plain : ∀ id, (fresh id).IsPlain

/-- A later store, in which the ids of the first one stand for the same types. -/
structure ReadsOn (s : TypeStore) (fresh : TypeId → AuthoredType) (t : TypeStore)
    (fresh' : TypeId → AuthoredType) : Prop extends Readable t fresh' where
  grown : TypeStore.Extends s t
  fresh : ∀ id, s.Contains id → fresh' id = fresh id

/-- The id stands for the type, up to the laws of unions. -/
structure Reads (s : TypeStore) (fresh : TypeId → AuthoredType) (id : TypeId)
    (type : AuthoredType) : Prop where
  contains : s.Contains id
  notError : (s.kind id).isError = false
  same : SameType type (s.read fresh id)

section Union

open TypeStore

variable {s : TypeStore} {fresh : TypeId → AuthoredType} {ids : List TypeId}

theorem Readable.read_eq (h : Readable s fresh) {id : TypeId} (hid : s.Contains id) :
    s.read fresh id = (s.kind id).written (fresh id) (s.read fresh) :=
  TypeStore.read_eq h.reachable.wellFormed.toConsistent h.reachable.childrenEarlier hid

theorem Readable.isPlain_read (h : Readable s fresh) {id : TypeId} (hid : s.Contains id)
    (hunion : ∀ ms, s.kind id ≠ .union ms) (hany : s.kind id ≠ .any) :
    (s.read fresh id).IsPlain := by
  rw [h.read_eq hid]
  have hplain := h.plain id
  cases hk : s.kind id <;>
    first
      | exact absurd hk (hunion _)
      | exact absurd hk hany
      | exact hplain
      | trivial

/-- What stays of a flattened list: no unions, no error types. -/
def IsFlattened (s : TypeStore) (ids : List TypeId) : Prop :=
  ∀ id ∈ ids, s.Contains id ∧ (∀ ms, s.kind id ≠ .union ms) ∧ (s.kind id).isError = false

theorem isFlattened_unionMembers (h : Readable s fresh)
    (hids : ∀ id ∈ ids, s.Contains id ∧ (s.kind id).isError = false) :
    IsFlattened s (ids.flatMap s.unionMembers) := by
  intro id hid
  obtain ⟨m, hm, hid⟩ := List.mem_flatMap.mp hid
  obtain ⟨hcontains, herror⟩ := hids m hm
  have hwell := h.reachable.wellFormed
  unfold unionMembers at hid
  split at hid
  · next nested hkind =>
    have hflat := (hwell.unions m nested hcontains hkind).2 id hid
    exact ⟨hwell.children m hcontains id (by rwa [hkind]), hflat.union, hflat.error⟩
  · next hnot =>
    obtain rfl := List.mem_singleton.mp hid
    exact ⟨hcontains, hnot, herror⟩

theorem sameType_unionMembers (h : Readable s fresh) (hids : ∀ id ∈ ids, s.Contains id) :
    SameType (.union (ids.map (s.read fresh)))
      (.union ((ids.flatMap s.unionMembers).map (s.read fresh))) := by
  rw [List.map_flatMap]
  refine SameType.union_flatMap fun id hid => ?_
  unfold unionMembers
  split
  · next nested hkind =>
    rw [h.read_eq (hids id hid), hkind]
    exact .refl _
  · exact (SameType.single _).symm

/-- How the normal form of a union reads. -/
def Normalized.read (s : TypeStore) (fresh : TypeId → AuthoredType) : Normalized → AuthoredType
  | .existing id => s.read fresh id
  | .combined members => .union (members.map (s.read fresh))

theorem sameType_ofList (h : Readable s fresh) :
    SameType (.union (ids.map (s.read fresh)))
      (Normalized.read s fresh (.ofList s.builtins.never ids)) := by
  match ids with
  | [] =>
    obtain ⟨hcontains, hkind⟩ :=
      h.reachable.wellFormed.kind_builtin (·.never) (k := .never) (by decide)
    rw [Normalized.ofList, Normalized.read, h.read_eq hcontains, hkind]
    exact .empty
  | [only] => exact .single _
  | first :: second :: rest => exact .refl _

theorem Readable.read_kind (h : Readable s fresh) {id : TypeId} {k : TypeKind}
    (hid : s.Contains id) (hkind : s.kind id = k) :
    s.read fresh id = k.written (fresh id) (s.read fresh) := by
  rw [h.read_eq hid, hkind]

theorem Readable.read_boolean (h : Readable s fresh) :
    s.read fresh s.builtins.boolean = .keyword .boolean := by
  obtain ⟨hcontains, hkind⟩ :=
    h.reachable.wellFormed.kind_builtin (·.boolean) (k := .boolean) (by decide)
  exact h.read_kind hcontains hkind

/-- What the kind `base` of a listed type absorbs, in the list and in its union. -/
theorem absorbs_of_anyKind (h : Readable s fresh) (policy : UnionPolicy)
    (hflat : IsFlattened s ids) {keyword : KeywordType} (base : TypeKind)
    {value : AuthoredLiteral} (hany : s.anyKind ids (· = base) = true)
    (hbase : ∀ id, base.written (fresh id) (s.read fresh) = .keyword keyword)
    (hsurvives : ∀ id, s.kind id = base → s.survives ids id = true)
    (hvalue : AuthoredType.primitive value = some keyword) :
    ∃ t ∈ (s.unionList policy ids).map (s.read fresh), SameType.Absorbs t (.literal value) := by
  obtain ⟨id, hid, hkind⟩ := anyKind_eq_true.mp hany
  have hkind : s.kind id = base := by simpa using hkind
  refine ⟨s.read fresh id, List.mem_map_of_mem (mem_unionList.mpr (.inl ⟨hid, hsurvives id hkind⟩)),
    ?_⟩
  rw [h.read_kind (hflat id hid).1 hkind, hbase]
  exact SameType.absorbs_primitive hvalue

/-- A member that is left out is `never`, or a literal next to its primitive type. -/
theorem absorbs_of_not_survives (h : Readable s fresh) (policy : UnionPolicy)
    (hflat : IsFlattened s ids) {id : TypeId} (hid : id ∈ ids)
    (hout : s.survives ids id = false) :
    s.read fresh id = .keyword .never ∨
      ∃ t ∈ (s.unionList policy ids).map (s.read fresh),
        SameType.Absorbs t (s.read fresh id) := by
  have hread := h.read_eq (hflat id hid).1
  rw [survives_eq] at hout
  cases hk : s.kind id with
  | never => exact .inl (by rw [hread, hk]; rfl)
  | literalString value provenance =>
    refine .inr ?_
    rw [hread, hk]
    refine absorbs_of_anyKind h policy hflat .string ?_ (fun _ => rfl)
      (fun _ hkind => survives_of_kind hkind (by simp) rfl rfl rfl) rfl
    simpa [hk, TypeKind.isLiteralString, TypeKind.isLiteralNumber, TypeKind.isLiteralBoolean]
      using hout
  | literalNumber value provenance =>
    refine .inr ?_
    rw [hread, hk]
    refine absorbs_of_anyKind h policy hflat .number ?_ (fun _ => rfl)
      (fun _ hkind => survives_of_kind hkind (by simp) rfl rfl rfl) rfl
    simpa [hk, TypeKind.isLiteralString, TypeKind.isLiteralNumber, TypeKind.isLiteralBoolean]
      using hout
  | literalBoolean value provenance =>
    refine .inr ?_
    rw [hread, hk]
    cases hboolean : s.anyKind ids (· = .boolean) with
    | true =>
      exact absorbs_of_anyKind h policy hflat .boolean hboolean (fun _ => rfl)
        (fun _ hkind => survives_of_kind hkind (by simp) rfl rfl rfl) rfl
    | false =>
      have hmerges : s.mergesBooleans ids = true := by
        rw [mergesBooleans_eq, hboolean]
        simpa [hk, TypeKind.isLiteralString, TypeKind.isLiteralNumber, TypeKind.isLiteralBoolean,
          -anyKind_eq_true] using hout
      refine ⟨.keyword .boolean, List.mem_map.mpr ⟨s.builtins.boolean, ?_, h.read_boolean⟩,
        SameType.absorbs_primitive rfl⟩
      exact mem_unionList.mpr (.inr (mem_mergedBoolean.mpr ⟨hmerges, rfl⟩))
  | _ =>
    simp [hk, TypeKind.isLiteralString, TypeKind.isLiteralNumber, TypeKind.isLiteralBoolean]
      at hout

/-- The members that are left out of a union are absorbed by others. -/
theorem sameType_unionList (h : Readable s fresh) (policy : UnionPolicy)
    (hflat : IsFlattened s ids) :
    SameType (.union (ids.map (s.read fresh)))
      (.union ((s.unionList policy ids).map (s.read fresh))) := by
  have hforward : ∀ t ∈ ids.map (s.read fresh), t = .keyword .never ∨
      ∃ base ∈ (s.unionList policy ids).map (s.read fresh), SameType.Absorbs base t := by
    intro t ht
    obtain ⟨id, hid, rfl⟩ := List.mem_map.mp ht
    cases hs : s.survives ids id with
    | true =>
      exact .inr ⟨_, List.mem_map_of_mem (mem_unionList.mpr (.inl ⟨hid, hs⟩)),
        SameType.absorbs_self _⟩
    | false => exact absorbs_of_not_survives h policy hflat hid hs
  cases hmerges : s.mergesBooleans ids with
  | false =>
    refine SameType.union_of_absorbs hforward fun t ht => ?_
    obtain ⟨id, hid, rfl⟩ := List.mem_map.mp ht
    rcases mem_unionList.mp hid with ⟨hid, -⟩ | hid
    · exact .inr ⟨_, List.mem_map_of_mem hid, SameType.absorbs_self _⟩
    · simp [mem_mergedBoolean, hmerges] at hid
  | true =>
    have hliteral : ∀ value, s.anyKind ids (·.isBooleanLiteral value) = true →
        AuthoredType.literal (.boolean value) ∈ ids.map (s.read fresh) := by
      intro value hvalue
      obtain ⟨id, hid, hkind⟩ := anyKind_eq_true.mp hvalue
      refine List.mem_map.mpr ⟨id, hid, ?_⟩
      rw [h.read_eq (hflat id hid).1]
      cases hk : s.kind id <;> simp_all [TypeKind.isBooleanLiteral, TypeKind.written]
    have hboth : s.anyKind ids (·.isBooleanLiteral true) = true ∧
        s.anyKind ids (·.isBooleanLiteral false) = true := by
      simp only [mergesBooleans, Bool.and_eq_true] at hmerges
      exact ⟨hmerges.1.2, hmerges.2⟩
    have hboolean : AuthoredType.keyword .boolean ∈
        (s.unionList policy ids).map (s.read fresh) :=
      List.mem_map.mpr ⟨_, mem_unionList.mpr (.inr (mem_mergedBoolean.mpr ⟨hmerges, rfl⟩)),
        h.read_boolean⟩
    refine (SameType.union_boolean (hliteral true hboth.1) (hliteral false hboth.2)).symm.trans
      (SameType.union_of_absorbs ?_ fun t ht => ?_)
    · intro t ht
      rcases List.mem_cons.mp ht with rfl | ht
      · exact .inr ⟨_, hboolean, SameType.absorbs_self _⟩
      · exact hforward t ht
    · obtain ⟨id, hid, rfl⟩ := List.mem_map.mp ht
      refine .inr ⟨s.read fresh id, ?_, SameType.absorbs_self _⟩
      rcases mem_unionList.mp hid with ⟨hid, -⟩ | hid
      · exact List.mem_cons_of_mem _ (List.mem_map_of_mem hid)
      · rw [(mem_mergedBoolean.mp hid).2, h.read_boolean]
        exact List.mem_cons_self ..

theorem sameType_of_anyKind (h : Readable s fresh) (hflat : IsFlattened s ids)
    {keyword : KeywordType} {base : TypeKind} (hany : s.anyKind ids (· = base) = true)
    (hbase : ∀ id, base.written (fresh id) (s.read fresh) = .keyword keyword)
    (habsorbs : ∀ id ∈ ids, SameType.Absorbs (.keyword keyword) (s.read fresh id)) :
    SameType (.union (ids.map (s.read fresh))) (.keyword keyword) := by
  obtain ⟨id, hid, hkind⟩ := anyKind_eq_true.mp hany
  have hkind : s.kind id = base := by simpa using hkind
  refine SameType.union_of_absorber (List.mem_map.mpr ⟨id, hid, ?_⟩) fun t ht => ?_
  · rw [h.read_kind (hflat id hid).1 hkind, hbase]
  · obtain ⟨other, hother, rfl⟩ := List.mem_map.mp ht
    exact habsorbs other hother

theorem sameType_normalizeUnion (h : Readable s fresh) (policy : UnionPolicy)
    (hflat : IsFlattened s (ids.flatMap s.unionMembers)) :
    SameType (.union ((ids.flatMap s.unionMembers).map (s.read fresh)))
      (Normalized.read s fresh (s.normalizeUnion ids policy)) := by
  generalize hall : ids.flatMap s.unionMembers = all at hflat ⊢
  have hwell := h.reachable.wellFormed
  rw [normalizeUnion_eq, hall]
  by_cases hany : s.anyKind all (· = .any) = true
  · obtain ⟨hcontains, hkind⟩ := hwell.kind_builtin (·.any) (k := .any) (by decide)
    rw [if_pos hany, Normalized.read, h.read_kind hcontains hkind]
    exact sameType_of_anyKind h hflat hany (fun _ => rfl) fun id _ members => .any _ members
  rw [if_neg hany]
  by_cases hunknown : s.anyKind all (· = .unknown) = true
  · obtain ⟨hcontains, hkind⟩ := hwell.kind_builtin (·.unknown) (k := .unknown) (by decide)
    rw [if_pos hunknown, Normalized.read, h.read_kind hcontains hkind]
    refine sameType_of_anyKind h hflat hunknown (fun _ => rfl) fun id hid members =>
      .unknown _ members ?_
    refine h.isPlain_read (hflat id hid).1 (hflat id hid).2.1 fun hkind => hany ?_
    exact anyKind_eq_true.mpr ⟨id, hid, by simp [hkind]⟩
  rw [if_neg hunknown]
  have hnone : all.find? (fun id => (s.kind id).isError) = none :=
    List.find?_eq_none.mpr fun id hid => by simp [(hflat id hid).2.2]
  rw [hnone]
  exact (sameType_unionList h policy hflat).trans (sameType_ofList h)

/-- Without error types among the members there is none in the union. -/
theorem isError_normalizeUnion (h : Readable s fresh) (policy : UnionPolicy)
    (hflat : IsFlattened s (ids.flatMap s.unionMembers)) :
    ∀ id ∈ (s.normalizeUnion ids policy).ids, (s.kind id).isError = false := by
  have hwell := h.reachable.wellFormed
  have hbuiltin : ∀ (name : BuiltinTypes → TypeId) (k : TypeKind), k.isError = false →
      (new.Contains (name new.builtins) ∧ new.kind (name new.builtins) = k) →
        (s.kind (name s.builtins)).isError = false := by
    intro name k hk hnew
    rw [(hwell.kind_builtin name hnew).2, hk]
  have hnone : (ids.flatMap s.unionMembers).find? (fun id => (s.kind id).isError) = none :=
    List.find?_eq_none.mpr fun id hid => by simp [(hflat id hid).2.2]
  intro id hid
  rw [normalizeUnion_eq, hnone] at hid
  split at hid
  · rw [List.mem_singleton.mp hid]
    exact hbuiltin (·.any) .any rfl (by decide)
  split at hid
  · rw [List.mem_singleton.mp hid]
    exact hbuiltin (·.unknown) .unknown rfl (by decide)
  rcases Normalized.mem_ids_ofList hid with rfl | hid
  · exact hbuiltin (·.never) .never rfl (by decide)
  rcases mem_unionList.mp hid with ⟨hid, -⟩ | hid
  · exact (hflat id hid).2.2
  · rw [(mem_mergedBoolean.mp hid).2]
    exact hbuiltin (·.boolean) .boolean rfl (by decide)

/-! ## Steps of a run -/

variable {t u : TypeStore} {fresh' fresh'' : TypeId → AuthoredType}

theorem ReadsOn.refl (h : Readable s fresh) : ReadsOn s fresh s fresh :=
  { toReadable := h, grown := .refl s, fresh := fun _ _ => rfl }

theorem ReadsOn.trans (h : ReadsOn s fresh t fresh') (h' : ReadsOn t fresh' u fresh'') :
    ReadsOn s fresh u fresh'' :=
  { toReadable := h'.toReadable
    grown := h.grown.trans h'.grown
    fresh := fun id hid => (h'.fresh id (h.grown.contains hid)).trans (h.fresh id hid) }

theorem Reads.later {id : TypeId} {type : AuthoredType} (hs : Readable s fresh)
    (h : Reads s fresh id type) (hgrow : ReadsOn s fresh t fresh') : Reads t fresh' id type where
  contains := hgrow.grown.contains h.contains
  notError := by rw [hgrow.grown.kind h.contains, h.notError]
  same := by
    rw [read_of_extends hs.reachable.wellFormed.toConsistent hgrow.grown hgrow.fresh h.contains]
    exact h.same

theorem Readable.intern (h : Readable s fresh) {k : TypeKind}
    (hk : ∀ c ∈ k.children, s.Contains c) (hunion : ∀ ms, k ≠ .union ms)
    (hintersection : ∀ ms, k ≠ .intersection ms) (herror : k.isError = false)
    {type : AuthoredType} (hread : SameType type (k.written (fresh (s.intern k).1) (s.read fresh))) :
    ReadsOn s fresh (s.intern k).2 fresh ∧ Reads (s.intern k).2 fresh (s.intern k).1 type := by
  have hcons := h.reachable.wellFormed.toConsistent
  have hlater : Readable (s.intern k).2 fresh := ⟨h.reachable.intern hk hunion hintersection, h.plain⟩
  obtain ⟨hcontains, hkind⟩ := hcons.kind_intern k
  have hgrow : Extends s (s.intern k).2 := s.extends_intern k
  refine ⟨{ toReadable := hlater, grown := hgrow, fresh := fun _ _ => rfl }, hcontains, ?_, ?_⟩
  · rw [hkind, herror]
  · rw [hlater.read_kind hcontains hkind]
    rw [TypeKind.written_congr fun c hc =>
      read_of_extends hcons hgrow (fun _ _ => rfl) (hk c hc)]
    exact hread

/-- A type that is not complete is given an id that stands for it. -/
theorem Readable.freshDeferred (h : Readable s fresh) {d : DeferredType TypeId}
    (hd : isFreshDeferred (.deferred d) = true) {type : AuthoredType} (htype : type.IsPlain) :
    ∃ fresh', ReadsOn s fresh (s.freshDeferred d).2 fresh' ∧
      Reads (s.freshDeferred d).2 fresh' (s.freshDeferred d).1 type := by
  let id : TypeId := ⟨s.kinds.length⟩
  have hgrow : Extends s (s.freshDeferred d).2 := s.extends_freshDeferred d
  have hlater : Readable (s.freshDeferred d).2 (Function.update fresh id type) := by
    refine ⟨h.reachable.freshDeferred hd, fun other => ?_⟩
    by_cases hother : other = id
    · rwa [hother, Function.update_self]
    · rw [Function.update_of_ne hother]
      exact h.plain other
  have hcontains : (s.freshDeferred d).2.Contains id := by
    simp [TypeStore.freshDeferred, Contains, push, id]
  have hkind : (s.freshDeferred d).2.kind id = .deferred d := kind_push_last
  refine ⟨Function.update fresh id type, ?_, hcontains, ?_, ?_⟩
  · refine { toReadable := hlater, grown := hgrow, fresh := fun other hother => ?_ }
    refine Function.update_of_ne ?_ _ _
    rintro rfl
    exact absurd hother (Nat.lt_irrefl _)
  · exact (congrArg TypeKind.isError hkind).trans rfl
  · have hread : (s.freshDeferred d).2.read (Function.update fresh id type) id =
        Function.update fresh id type id := hlater.read_kind hcontains hkind
    rw [Function.update_self] at hread
    change SameType type ((s.freshDeferred d).2.read (Function.update fresh id type) id)
    rw [hread]
    exact .refl type

theorem Readable.read_combine (h : Readable s fresh) {n : Normalized}
    (hn : ∀ id ∈ n.ids, s.Contains id) (hlater : Readable (s.combine .union n).2 fresh) :
    (s.combine .union n).2.read fresh (s.combine .union n).1 = Normalized.read s fresh n := by
  have hcons := h.reachable.wellFormed.toConsistent
  cases n with
  | existing id => rfl
  | combined members =>
    change Readable (s.intern (.union members)).2 fresh at hlater
    obtain ⟨hcontains, hkind⟩ := hcons.kind_intern (.union members)
    change (s.intern (.union members)).2.read fresh (s.intern (.union members)).1 = _
    rw [hlater.read_kind hcontains hkind]
    exact congrArg AuthoredType.union (List.map_congr_left fun id hid =>
      read_of_extends hcons (s.extends_intern _) (fun _ _ => rfl) (hn id hid))

/-- The union of ids that stand for types stands for the union of these types. -/
theorem Readable.union (h : Readable s fresh) {types : List AuthoredType}
    (hids : List.Forall₂ (Reads s fresh) ids types) (policy : UnionPolicy) :
    ReadsOn s fresh (s.union ids policy).2 fresh ∧
      Reads (s.union ids policy).2 fresh (s.union ids policy).1 (.union types) := by
  have hwell := h.reachable.wellFormed
  have hmembers : ∀ id ∈ ids, s.Contains id ∧ (s.kind id).isError = false :=
    ((List.forall₂_and_left _ _).mp
      (hids.imp fun _ _ hreads => ⟨⟨hreads.contains, hreads.notError⟩, hreads⟩)).1
  have hcontains : ∀ id ∈ ids, s.Contains id := fun id hid => (hmembers id hid).1
  have hflat := isFlattened_unionMembers h hmembers
  have hlisted : ∀ id ∈ (s.normalizeUnion ids policy).ids, s.Contains id :=
    fun id hid => contains_normalizeUnion hwell hcontains hid
  have hsame : SameType (.union types) (Normalized.read s fresh (s.normalizeUnion ids policy)) := by
    have hcongr : SameType (.union types) (.union (ids.map (s.read fresh))) := by
      refine SameType.union_congr ?_
      rw [List.forall₂_map_right_iff]
      exact hids.flip.imp fun _ _ hreads => hreads.same
    exact (hcongr.trans (sameType_unionMembers h hcontains)).trans
      (sameType_normalizeUnion h policy hflat)
  have hgrow : ReadsOn s fresh (s.union ids policy).2 fresh :=
    { reachable := h.reachable.union hcontains, plain := h.plain, grown := extends_combine _ _,
      fresh := fun _ _ => rfl }
  refine ⟨hgrow, contains_combine hwell.toConsistent hlisted, ?_, ?_⟩
  · have hkind := kind_combine hwell.toConsistent .union (s.normalizeUnion ids policy)
    rw [TypeStore.union, hkind]
    split
    · next id hn => exact isError_normalizeUnion h policy hflat id (by simp [hn, Normalized.ids])
    · rfl
  · rw [TypeStore.union, h.read_combine hlisted hgrow.toReadable]
    exact hsame

/-! ## Closed nodes -/

/-- The result of a resolution stands for the type. -/
def Resolves (s : TypeStore) (fresh : TypeId → AuthoredType) (result : TypeId × TypeStore)
    (type : AuthoredType) : Prop :=
  ∃ fresh', ReadsOn s fresh result.2 fresh' ∧ Reads result.2 fresh' result.1 type

theorem Readable.reads_builtin (h : Readable s fresh) (name : BuiltinTypes → TypeId)
    (k : TypeKind) (hk : new.Contains (name new.builtins) ∧ new.kind (name new.builtins) = k)
    (herror : k.isError = false) :
    Reads s fresh (name s.builtins) (k.written (fresh (name s.builtins)) (s.read fresh)) := by
  obtain ⟨hcontains, hkind⟩ := h.reachable.wellFormed.kind_builtin name hk
  refine ⟨hcontains, by rw [hkind, herror], ?_⟩
  rw [h.read_kind hcontains hkind]
  exact .refl _

theorem Readable.resolves_builtin (h : Readable s fresh) (name : BuiltinTypes → TypeId)
    (k : TypeKind) (hk : new.Contains (name new.builtins) ∧ new.kind (name new.builtins) = k)
    (herror : k.isError = false) :
    Resolves s fresh (name s.builtins, s)
      (k.written (fresh (name s.builtins)) (s.read fresh)) :=
  ⟨fresh, .refl h, h.reads_builtin name k hk herror⟩

theorem Readable.resolves_intern (h : Readable s fresh) {k : TypeKind}
    (hk : ∀ c ∈ k.children, s.Contains c) (hunion : ∀ ms, k ≠ .union ms)
    (hintersection : ∀ ms, k ≠ .intersection ms) (herror : k.isError = false)
    {type : AuthoredType} (hread : SameType type (k.written (fresh (s.intern k).1) (s.read fresh))) :
    Resolves s fresh (s.intern k) type :=
  ⟨fresh, h.intern hk hunion hintersection herror hread⟩

theorem ReadsOn.resolves (h : ReadsOn s fresh t fresh') {result : TypeId × TypeStore}
    {type : AuthoredType} (hresult : Resolves t fresh' result type) :
    Resolves s fresh result type := by
  obtain ⟨later, hgrow, hreads⟩ := hresult
  exact ⟨later, h.trans hgrow, hreads⟩

theorem resolves_keyword (C : NodeContext) (h : Readable s fresh) (keyword : KeywordType) :
    Resolves s fresh (resolveTypeNodeKind C (.keyword keyword) s) (.keyword keyword) := by
  rw [resolveTypeNodeKind]
  cases keyword with
  | any => exact h.resolves_builtin (·.any) .any (by decide) rfl
  | unknown => exact h.resolves_builtin (·.unknown) .unknown (by decide) rfl
  | never => exact h.resolves_builtin (·.never) .never (by decide) rfl
  | void => exact h.resolves_builtin (·.void) .void (by decide) rfl
  | undefined => exact h.resolves_builtin (·.undefined) .undefined (by decide) rfl
  | null => exact h.resolves_builtin (·.null) .null (by decide) rfl
  | boolean => exact h.resolves_builtin (·.boolean) .boolean (by decide) rfl
  | number => exact h.resolves_builtin (·.number) .number (by decide) rfl
  | string => exact h.resolves_builtin (·.string) .string (by decide) rfl
  | bigInt => exact h.resolves_builtin (·.bigInt) .bigInt (by decide) rfl
  | object => exact h.resolves_builtin (·.object) .objectKeyword (by decide) rfl
  | symbol => exact h.resolves_builtin (·.symbol) .symbol (by decide) rfl
  | uniqueSymbol => exact h.freshDeferred (d := .uniqueSymbol) rfl trivial

theorem resolves_literal (C : NodeContext) (h : Readable s fresh) {literal : Literal}
    {value : AuthoredLiteral} (hvalue : authoredLiteral C literal = some value) :
    Resolves s fresh (s.literalType C literal .regular) (.literal value) := by
  have hleaf : ∀ k : TypeKind, k.children = [] → (∀ ms, k ≠ .union ms) →
      (∀ ms, k ≠ .intersection ms) → k.isError = false →
        k.written (fresh (s.intern k).1) (s.read fresh) = .literal value →
          Resolves s fresh (s.intern k) (.literal value) := by
    intro k hk hunion hintersection herror hread
    exact h.resolves_intern (by simp [hk]) hunion hintersection herror (hread ▸ .refl _)
  unfold TypeStore.literalType
  cases literal with
  | string literal =>
    cases hs : stringLiteralValue literal with
    | some text =>
      simp only [authoredLiteral, hs, Option.elim_some, Option.some.injEq] at hvalue
      simp only [hs]
      exact hleaf _ rfl nofun nofun rfl (by rw [← hvalue]; rfl)
    | none =>
      simp only [authoredLiteral, hs, Option.elim_none, Option.some.injEq] at hvalue
      simp only [hs]
      exact h.freshDeferred rfl (by rw [← hvalue]; trivial)
  | noSubstitutionTemplate literal =>
    simp only [authoredLiteral, Option.some.injEq] at hvalue
    exact hleaf _ rfl nofun nofun rfl (by rw [← hvalue]; rfl)
  | number literal =>
    cases hs : numberLiteralSource literal with
    | some source =>
      simp only [authoredLiteral, hs, Option.map_eq_some_iff] at hvalue
      obtain ⟨number, hnumber, rfl⟩ := hvalue
      simp only [hs, TypeStore.numericLiteral, hnumber]
      exact hleaf _ rfl nofun nofun rfl rfl
    | none =>
      simp only [hs]
      exact h.freshDeferred rfl trivial
  | bigInt text => exact h.freshDeferred rfl trivial
  | boolean value' =>
    simp only [authoredLiteral, Option.some.injEq] at hvalue
    exact hleaf _ rfl nofun nofun rfl (by rw [← hvalue]; rfl)
  | null => simp [authoredLiteral] at hvalue

theorem blurAll_eq_map (types : List AuthoredType) :
    AuthoredType.blurAll types = types.map AuthoredType.blur := by
  induction types with
  | nil => rfl
  | cons t types ih => rw [AuthoredType.blurAll, ih, List.map_cons]

theorem Readable.resolves_tuple (h : Readable s fresh) {types : List AuthoredType}
    (hids : List.Forall₂ (Reads s fresh) ids (types.map (·.blur))) :
    Resolves s fresh (s.intern (.tuple ids)) (AuthoredType.tuple types).blur := by
  have hcontains : ∀ id ∈ ids, s.Contains id :=
    ((List.forall₂_and_left _ _).mp (hids.imp fun _ _ hreads => ⟨hreads.contains, hreads⟩)).1
  refine h.resolves_intern (k := .tuple ids) hcontains (by nofun) (by nofun) rfl ?_
  rw [AuthoredType.blur, blurAll_eq_map]
  refine SameType.tuple_congr ?_
  rw [List.forall₂_map_right_iff]
  exact hids.flip.imp fun _ _ hreads => hreads.same

/-- A signature stands for its type once its parameters and its return type do. -/
theorem Readable.resolves_function (h : Readable s fresh) {form : SignatureForm}
    {parameters : List ParameterType} {types : List (ParameterForm × AuthoredType)}
    {returnType : TypeId} {type : AuthoredType}
    (hforms : parameters.map (·.form) = types.map (·.1))
    (htypes : List.Forall₂ (Reads s fresh) (parameters.map (·.ty)) (types.map (·.2.blur)))
    (hreturn : Reads s fresh returnType type.blur) :
    Resolves s fresh (s.function parameters returnType)
      (AuthoredType.signature form (types.map (·.1)) (types.map (·.2)) type).blur := by
  have hcontains : ∀ id ∈ parameters.map (·.ty), s.Contains id :=
    ((List.forall₂_and_left _ _).mp (htypes.imp fun _ _ hreads => ⟨hreads.contains, hreads⟩)).1
  have hsame : List.Forall₂ SameType (types.map (·.2.blur))
      ((parameters.map (·.ty)).map (s.read fresh)) := by
    rw [List.forall₂_map_right_iff]
    exact htypes.flip.imp fun _ _ hreads => hreads.same
  refine h.resolves_intern ?_ (by nofun) (by nofun) rfl ?_
  · intro c hc
    rcases List.mem_append.mp hc with hc | hc
    · exact hcontains c hc
    · rw [List.mem_singleton.mp hc]
      exact hreturn.contains
  · rw [AuthoredType.blur, blurAll_eq_map, List.map_map, TypeKind.written, hforms]
    have hmap : parameters.map (fun parameter => s.read fresh parameter.ty) =
        (parameters.map (·.ty)).map (s.read fresh) := by
      rw [List.map_map]
      rfl
    rw [hmap]
    exact SameType.signature_congr .function _ hsame hreturn.same

/-- The parameters of a signature have types that stand for the written ones. -/
def ResolvesParameters (s : TypeStore) (fresh : TypeId → AuthoredType)
    (result : Option (List ParameterType) × TypeStore)
    (types : List (ParameterForm × AuthoredType)) : Prop :=
  ∃ parameters fresh', result.1 = some parameters ∧ ReadsOn s fresh result.2 fresh' ∧
    parameters.map (·.form) = types.map (·.1) ∧
    List.Forall₂ (Reads result.2 fresh') (parameters.map (·.ty)) (types.map (·.2.blur))

/-- One more parameter in front. -/
theorem resolvesParameters_cons {C : NodeContext} {result : TypeId × TypeStore}
    {parameters : List Parameter} {types : List (ParameterForm × AuthoredType)}
    (form : ParameterForm) {type : AuthoredType} (hhead : Resolves s fresh result type.blur)
    (hrest : ∀ {fresh'}, Readable result.2 fresh' →
      ResolvesParameters result.2 fresh' (anonymousSignatureParameters C parameters result.2)
        types) :
    ResolvesParameters s fresh
      (prependParameter ⟨form.name, result.1, form.optional, form.rest⟩
        (anonymousSignatureParameters C parameters result.2)) ((form, type) :: types) := by
  obtain ⟨fresh', hgrow, hreads⟩ := hhead
  obtain ⟨resolved, fresh'', hresolved, hgrow', hforms, hreads'⟩ := hrest hgrow.toReadable
  refine ⟨_, fresh'', by rw [prependParameter, hresolved]; rfl, hgrow.trans hgrow', ?_, ?_⟩
  · rw [List.map_cons, List.map_cons, hforms]
    rfl
  · exact .cons (hreads.later hgrow.toReadable hgrow') hreads'

theorem resolves_signature {C : NodeContext} (id : NodeId) {form : SignatureForm}
    {typeParameters : List TypeParameterDeclaration} {parameters : List Parameter}
    (recovered : Bool) {returnType : TypeNode} {type : AuthoredType} (h : Readable s fresh)
    (htype : authoredSignature form typeParameters (authoredParameters C parameters)
      (authored C returnType) = some type)
    (hparameters : ∀ {types}, authoredParameters C parameters = some types →
      ResolvesParameters s fresh (anonymousSignatureParameters C parameters s) types)
    (hreturn : ∀ {type t fresh'}, authored C returnType = some type → Readable t fresh' →
      Resolves t fresh' (resolveTypeNode C returnType t) type.blur) :
    Resolves s fresh
      (resolveTypeNodeKind C (.function id typeParameters parameters recovered returnType) s)
      type.blur := by
  obtain ⟨types, htypes, htype⟩ := Option.bind_eq_some_iff.mp htype
  obtain ⟨written, hwritten, htype⟩ := Option.bind_eq_some_iff.mp htype
  split_ifs at htype with hempty
  cases htype
  rw [resolveTypeNodeKind]
  split_ifs with hgeneric
  · exact h.freshDeferred rfl trivial
  · obtain ⟨resolved, fresh', hresolved, hgrow, hforms, hreads⟩ := hparameters htypes
    generalize anonymousSignatureParameters C parameters s = result at *
    obtain ⟨_, t⟩ := result
    cases hresolved
    obtain ⟨fresh'', hgrow', hreads'⟩ := hreturn hwritten hgrow.toReadable
    have hlater := hreads.imp fun _ _ hread => hread.later hgrow.toReadable hgrow'
    exact (hgrow.trans hgrow').resolves
      (hgrow'.toReadable.resolves_function hforms hlater hreads')

mutual

theorem resolveTypeNode_reads (C : NodeContext) : ∀ (node : TypeNode) {type : AuthoredType}
    {s : TypeStore} {fresh : TypeId → AuthoredType}, authored C node = some type →
      Readable s fresh → Resolves s fresh (resolveTypeNode C node s) type.blur
  | ⟨_, kind⟩, _, _, _, htype, h => resolveTypeNodeKind_reads C kind htype h

theorem resolveTypeNodeKind_reads (C : NodeContext) : ∀ (kind : TypeNodeKind) {type : AuthoredType}
    {s : TypeStore} {fresh : TypeId → AuthoredType}, authoredKind C kind = some type →
      Readable s fresh → Resolves s fresh (resolveTypeNodeKind C kind s) type.blur
  | .keyword keyword, _, _, _, htype, h => by
    cases htype
    exact resolves_keyword C h keyword
  | .array element, _, _, _, htype, h => by
    obtain ⟨type, hinner, rfl⟩ := Option.map_eq_some_iff.mp htype
    obtain ⟨fresh', hgrow, hreads⟩ := resolveTypeNode_reads C element hinner h
    refine hgrow.resolves (hgrow.toReadable.resolves_intern ?_ (by nofun) (by nofun) rfl ?_)
    · intro c hc
      rw [List.mem_singleton.mp hc]
      exact hreads.contains
    · exact .array hreads.same
  | .readonly inner, _, _, _, htype, h => by
    obtain ⟨type, hinner, rfl⟩ := Option.map_eq_some_iff.mp htype
    have hreads := resolveTypeNode_reads C inner hinner h
    exact hreads
  | .parenthesized inner, _, _, _, htype, h => resolveTypeNode_reads C inner htype h
  | .tuple elements, _, _, _, htype, h => by
    obtain ⟨types, hinner, rfl⟩ := Option.map_eq_some_iff.mp htype
    obtain ⟨fresh', hgrow, hreads⟩ := resolveTypeNodes_reads C elements hinner h
    exact hgrow.resolves (hgrow.toReadable.resolves_tuple hreads)
  | .union members, _, _, _, htype, h => by
    obtain ⟨types, hinner, rfl⟩ := Option.map_eq_some_iff.mp htype
    obtain ⟨fresh', hgrow, hreads⟩ := resolveTypeNodes_reads C members hinner h
    rw [AuthoredType.blur, blurAll_eq_map]
    exact hgrow.resolves ⟨_, hgrow.toReadable.union hreads _⟩
  | .literal literal, _, _, _, htype, h => by
    cases literal with
    | null =>
      cases htype
      exact h.resolves_builtin (·.null) .null (by decide) rfl
    | _ =>
      simp only [authoredKind] at htype
      obtain ⟨value, hvalue, rfl⟩ := Option.map_eq_some_iff.mp htype
      exact resolves_literal C h hvalue
  | .function id _ parameters recovered returnType, _, _, _, htype, h =>
    resolves_signature id recovered h htype
      (fun hparameters => anonymousSignatureParameters_reads C parameters hparameters h)
      (fun hreturn ht => resolveTypeNode_reads C returnType hreturn ht)
  | .constructor id _ parameters recovered returnType _, _, _, _, htype, h =>
    resolves_signature id recovered h htype
      (fun hparameters => anonymousSignatureParameters_reads C parameters hparameters h)
      (fun hreturn ht => resolveTypeNode_reads C returnType hreturn ht)
  | .intersection _, _, _, _, htype, _ | .object _, _, _, _, htype, _
  | .reference _ _ _, _, _, _, htype, _ | .this, _, _, _, htype, _
  | .typeQuery _ _ _, _, _, _, htype, _ | .infer _ _ _, _, _, _, htype, _
  | .predicate _ _ _ _, _, _, _, htype, _ | .keyOf _, _, _, _, htype, _
  | .conditional _ _ _ _, _, _, _, htype, _ | .mapped _ _ _ _ _ _ _ _, _, _, _, htype, _
  | .indexedAccess _ _, _, _, _, htype, _ | .missing, _, _, _, htype, _ => by
    cases htype

theorem resolveTypeNodes_reads (C : NodeContext) : ∀ (nodes : List TypeNode)
    {types : List AuthoredType} {s : TypeStore} {fresh : TypeId → AuthoredType},
    authoredAll C nodes = some types → Readable s fresh →
      ∃ fresh', ReadsOn s fresh (resolveTypeNodes C nodes s).2 fresh' ∧
        List.Forall₂ (Reads (resolveTypeNodes C nodes s).2 fresh')
          (resolveTypeNodes C nodes s).1 (types.map (·.blur))
  | [], _, _, _, htypes, h => by
    cases htypes
    exact ⟨_, .refl h, .nil⟩
  | node :: nodes, _, _, _, htypes, h => by
    rw [authoredAll] at htypes
    obtain ⟨type, htype, htypes⟩ := Option.bind_eq_some_iff.mp htypes
    obtain ⟨types, hrest, htypes⟩ := Option.bind_eq_some_iff.mp htypes
    cases htypes
    obtain ⟨fresh', hgrow, hreads⟩ := resolveTypeNode_reads C node htype h
    obtain ⟨fresh'', hgrow', hreads'⟩ := resolveTypeNodes_reads C nodes hrest hgrow.toReadable
    exact ⟨fresh'', hgrow.trans hgrow', .cons (hreads.later hgrow.toReadable hgrow') hreads'⟩

theorem anonymousSignatureParameters_reads (C : NodeContext) : ∀ (parameters : List Parameter)
    {types : List (ParameterForm × AuthoredType)} {s : TypeStore} {fresh : TypeId → AuthoredType},
    authoredParameters C parameters = some types → Readable s fresh →
      ResolvesParameters s fresh (anonymousSignatureParameters C parameters s) types
  | [], _, _, _, htypes, h => by
    cases htypes
    exact ⟨[], _, rfl, .refl h, rfl, .nil⟩
  | ⟨name, _, _, _, some annotation, initializer, isOptional, _, rest, _, _, _, _, _⟩ ::
      parameters, _, _, _, htypes, h => by
    rw [authoredParameters] at htypes
    obtain ⟨type, htype, htypes⟩ := Option.bind_eq_some_iff.mp htypes
    obtain ⟨types, hrest, htypes⟩ := Option.bind_eq_some_iff.mp htypes
    cases htypes
    exact resolvesParameters_cons ⟨some name, isOptional || initializer.isSome, rest⟩
      (resolveTypeNode_reads C annotation htype h) fun ht =>
        anonymousSignatureParameters_reads C parameters hrest ht
  | ⟨_, _, _, _, none, some _, _, _, _, _, _, _, _, _⟩ :: _, _, _, _, htypes, _ => by
    cases htypes
  | ⟨name, _, _, _, none, none, isOptional, _, rest, _, _, _, _, _⟩ :: parameters,
      _, s, fresh, htypes, h => by
    rw [authoredParameters] at htypes
    obtain ⟨types, hrest, htypes⟩ := Option.bind_eq_some_iff.mp htypes
    cases htypes
    have hany : Resolves s fresh (s.builtins.any, s) (AuthoredType.keyword .any).blur :=
      h.resolves_builtin (·.any) .any (by decide) rfl
    exact resolvesParameters_cons ⟨some name, isOptional, rest⟩ hany fun ht =>
      anonymousSignatureParameters_reads C parameters hrest ht

end

end Union

/-! ## Nodes with one type -/

section Nodes

/-- A checker without number literals. -/
def plainContext : NodeContext where
  numericLiteral _ := none
  initializerType _ s := (none, s)
  other _ s := (s.builtins.error, s)

def nodeOf (kind : TypeNodeKind) : TypeNode := ⟨⟨⟨0⟩, 0, 0⟩, kind⟩

/-- `readonly number[]` is resolved as `number[]`. -/
theorem not_separates_readonly :
    ∃ n₁ n₂ a₁ a₂, authored plainContext n₁ = some a₁ ∧ authored plainContext n₂ = some a₂ ∧
      (resolveTypeNode plainContext n₁ .new).1 =
        (resolveTypeNode plainContext n₂ (resolveTypeNode plainContext n₁ .new).2).1 ∧
      ¬ SameType a₁ a₂ :=
  ⟨nodeOf (.readonly (nodeOf (.array (nodeOf (.keyword .number))))),
    nodeOf (.array (nodeOf (.keyword .number))), _, _, rfl, rfl, by decide +kernel,
    not_sameType_readonly⟩

end Nodes

end Tsz.Semantics
