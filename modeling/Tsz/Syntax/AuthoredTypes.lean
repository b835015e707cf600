import Mathlib.Algebra.GroupWithZero.Nat
import Tsz.Syntax.Ast

/-!
# Written types and their parts

The types and members that stand directly inside a written type, last one first, and a walk over
all of them that keeps the ones to visit on a stack.

## Main definitions

* `TypeNode.authoredChildren` — the parts of a type.
* `TypeNode.conditionalInfers` — the names that a conditional pattern introduces.
-/

namespace Tsz.Syntax

inductive AuthoredTypeEdge
  | nested
  | typeParameterDeclaration
  | conditionalTrue
  | mappedConstraint
deriving DecidableEq, Repr

inductive AuthoredTypeItem
  | type (node : TypeNode) (edge : AuthoredTypeEdge)
  | member (node : TypeMember)

def TypeMemberKind.signature :
    TypeMemberKind → Option (List TypeParameterDeclaration × List Parameter × Option TypeNode)
  | .method _ _ typeParameters parameters returnType
  | .call typeParameters parameters returnType
  | .construct typeParameters parameters returnType =>
    some (typeParameters, parameters, returnType)
  | .accessor _ _ parameters returnType => some ([], parameters, returnType)
  | .index parameters valueType => some ([], parameters, valueType)
  | .property _ _ _ _ => none

def nestedItem (node : TypeNode) : AuthoredTypeItem := .type node .nested

def authoredSignatureChildren (typeParameters : List TypeParameterDeclaration)
    (parameters : List Parameter) (returnType : Option TypeNode) : List AuthoredTypeItem :=
  returnType.toList.map nestedItem ++
    parameters.reverse.filterMap (fun parameter => parameter.annotation.map nestedItem) ++
    typeParameters.reverse.flatMap fun parameter =>
      (parameter.default.toList ++ parameter.constraint.toList).map
        (.type · .typeParameterDeclaration)

/-- The parts of a type in the order they are put on the stack. -/
def TypeNode.authoredChildren (node : TypeNode) : List AuthoredTypeItem :=
  match node.kind with
  | .array child | .keyOf child | .readonly child | .parenthesized child => [nestedItem child]
  | .tuple children | .union children | .intersection children =>
    children.reverse.map nestedItem
  | .object members => members.reverse.map .member
  | .function _ typeParameters parameters _ returnType
  | .constructor _ typeParameters parameters _ returnType _ =>
    authoredSignatureChildren typeParameters parameters (some returnType)
  | .reference _ _ arguments => arguments.reverse.map nestedItem
  | .infer _ _ constraint => constraint.toList.map nestedItem
  | .predicate _ _ _ ty => ty.toList.map nestedItem
  | .conditional checkType extendsType trueType falseType =>
    [nestedItem falseType, .type trueType .conditionalTrue, nestedItem extendsType,
      nestedItem checkType]
  | .mapped _ _ constraint nameType valueType _ _ members =>
    members.reverse.map .member ++ [nestedItem valueType] ++ nameType.toList.map nestedItem ++
      [.type constraint .mappedConstraint]
  | .indexedAccess object index => [nestedItem index, nestedItem object]
  | .keyword _ | .literal _ | .this | .typeQuery _ _ _ | .missing => []

def TypeMember.authoredChildren (member : TypeMember) : List AuthoredTypeItem :=
  match member.kind with
  | .property _ ty _ _ => ty.toList.map nestedItem
  | _ =>
    match member.kind.signature with
    | some (typeParameters, parameters, returnType) =>
      authoredSignatureChildren typeParameters parameters returnType
    | none => []

def AuthoredTypeItem.authoredChildren : AuthoredTypeItem → List AuthoredTypeItem
  | .type node _ => node.authoredChildren
  | .member node => node.authoredChildren

/-! ## The parts are smaller -/

noncomputable def AuthoredTypeItem.weight : AuthoredTypeItem → Nat
  | .type node _ => sizeOf node
  | .member node => sizeOf node

noncomputable def totalWeight (items : List AuthoredTypeItem) : Nat := (items.map (·.weight)).sum

@[simp]
theorem totalWeight_nil : totalWeight [] = 0 := rfl

@[simp]
theorem totalWeight_cons (item : AuthoredTypeItem) (items : List AuthoredTypeItem) :
    totalWeight (item :: items) = item.weight + totalWeight items := rfl

@[simp]
theorem totalWeight_append (items items' : List AuthoredTypeItem) :
    totalWeight (items ++ items') = totalWeight items + totalWeight items' := by
  simp [totalWeight]

theorem totalWeight_perm {items items' : List AuthoredTypeItem} (h : items.Perm items') :
    totalWeight items = totalWeight items' := by
  induction h with
  | nil => rfl
  | cons _ _ ih => simp [ih]
  | swap => simp; omega
  | trans _ _ ih ih' => rw [ih, ih']

theorem totalWeight_map_lt {α : Type} [SizeOf α] (f : α → AuthoredTypeItem)
    (hf : ∀ a, (f a).weight = sizeOf a) (as : List α) :
    totalWeight (as.reverse.map f) < sizeOf as := by
  rw [totalWeight_perm (as.reverse_perm.map f)]
  induction as with
  | nil => simp
  | cons a as ih =>
    simp only [List.map_cons, totalWeight_cons, hf, List.cons.sizeOf_spec]
    omega

theorem totalWeight_toList_lt (node : Option TypeNode) (edge : AuthoredTypeEdge) :
    totalWeight (node.toList.map (.type · edge)) < sizeOf node := by
  cases node with
  | none => simp
  | some node => simp [AuthoredTypeItem.weight]

theorem totalWeight_annotations_lt (parameters : List Parameter) :
    totalWeight (parameters.filterMap fun parameter => parameter.annotation.map nestedItem) <
      sizeOf parameters := by
  induction parameters with
  | nil => simp
  | cons parameter parameters ih =>
    obtain ⟨⟩ := parameter
    next annotation _ _ _ _ _ _ _ _ _ =>
    cases annotation <;>
      simp [nestedItem, AuthoredTypeItem.weight] at ih ⊢ <;> omega

theorem totalWeight_typeParameters_lt (parameters : List TypeParameterDeclaration) :
    totalWeight (parameters.flatMap fun parameter =>
      (parameter.default.toList ++ parameter.constraint.toList).map
        (AuthoredTypeItem.type · .typeParameterDeclaration)) < sizeOf parameters := by
  induction parameters with
  | nil => simp
  | cons parameter parameters ih =>
    obtain ⟨⟩ := parameter
    next constraint default _ _ _ =>
    have hdefault := totalWeight_toList_lt default .typeParameterDeclaration
    have hconstraint := totalWeight_toList_lt constraint .typeParameterDeclaration
    simp only [List.flatMap_cons, List.map_append, totalWeight_append, List.cons.sizeOf_spec,
      TypeParameterDeclaration.mk.sizeOf_spec] at ih ⊢
    omega

theorem totalWeight_signature_lt (typeParameters : List TypeParameterDeclaration)
    (parameters : List Parameter) (returnType : Option TypeNode) :
    totalWeight (authoredSignatureChildren typeParameters parameters returnType) <
      sizeOf typeParameters + sizeOf parameters + sizeOf returnType := by
  have hreturn := totalWeight_toList_lt returnType .nested
  have hparameters := totalWeight_annotations_lt parameters
  have htypes := totalWeight_typeParameters_lt typeParameters
  rw [← totalWeight_perm (parameters.reverse_perm.filterMap _)] at hparameters
  rw [← totalWeight_perm (typeParameters.reverse_perm.flatMap_right _)] at htypes
  simp only [authoredSignatureChildren, totalWeight_append]
  change totalWeight (returnType.toList.map nestedItem) < _ at hreturn
  omega

theorem totalWeight_node_lt (node : TypeNode) :
    totalWeight node.authoredChildren < sizeOf node := by
  obtain ⟨span, kind⟩ := node
  have hlist (children : List TypeNode) :=
    totalWeight_map_lt nestedItem (fun _ => rfl) children
  have hmembers (members : List TypeMember) :=
    totalWeight_map_lt AuthoredTypeItem.member (fun _ => rfl) members
  have hoption (child : Option TypeNode) : totalWeight (child.toList.map nestedItem) < sizeOf child :=
    totalWeight_toList_lt child .nested
  cases kind with
  | tuple children | union children | intersection children =>
    have := hlist children
    simp only [TypeNode.authoredChildren, TypeNode.mk.sizeOf_spec, TypeNodeKind.tuple.sizeOf_spec,
      TypeNodeKind.union.sizeOf_spec, TypeNodeKind.intersection.sizeOf_spec]
    omega
  | object members =>
    have := hmembers members
    simp only [TypeNode.authoredChildren, TypeNode.mk.sizeOf_spec, TypeNodeKind.object.sizeOf_spec]
    omega
  | function id typeParameters parameters recovered returnType =>
    have := totalWeight_signature_lt typeParameters parameters (some returnType)
    simp only [TypeNode.authoredChildren, TypeNode.mk.sizeOf_spec,
      TypeNodeKind.function.sizeOf_spec, Option.some.sizeOf_spec] at this ⊢
    omega
  | constructor id typeParameters parameters recovered returnType isAbstract =>
    have := totalWeight_signature_lt typeParameters parameters (some returnType)
    simp only [TypeNode.authoredChildren, TypeNode.mk.sizeOf_spec,
      TypeNodeKind.constructor.sizeOf_spec, Option.some.sizeOf_spec] at this ⊢
    omega
  | reference name nameSpan arguments =>
    have := hlist arguments
    simp only [TypeNode.authoredChildren, TypeNode.mk.sizeOf_spec,
      TypeNodeKind.reference.sizeOf_spec]
    omega
  | infer name nameSpan constraint =>
    have := hoption constraint
    simp only [TypeNode.authoredChildren, TypeNode.mk.sizeOf_spec, TypeNodeKind.infer.sizeOf_spec]
    omega
  | predicate parameter parameterSpan asserts ty =>
    have := hoption ty
    simp only [TypeNode.authoredChildren, TypeNode.mk.sizeOf_spec,
      TypeNodeKind.predicate.sizeOf_spec]
    omega
  | mapped parameter parameterSpan constraint nameType valueType readonly isOptional members =>
    have := hoption nameType
    have := hmembers members
    simp only [TypeNode.authoredChildren, totalWeight_append, totalWeight_cons, totalWeight_nil,
      TypeNode.mk.sizeOf_spec, TypeNodeKind.mapped.sizeOf_spec, nestedItem,
      AuthoredTypeItem.weight] at *
    omega
  | _ =>
    simp [TypeNode.authoredChildren, nestedItem, AuthoredTypeItem.weight]
    try omega

theorem totalWeight_member_lt (member : TypeMember) :
    totalWeight member.authoredChildren < sizeOf member := by
  obtain ⟨id, span, recovered, incomplete, modifiers, kind⟩ := member
  cases kind with
  | property name ty isOptional initializer =>
    have : totalWeight (ty.toList.map nestedItem) < sizeOf ty := totalWeight_toList_lt ty .nested
    simp only [TypeMember.authoredChildren, TypeMember.mk.sizeOf_spec,
      TypeMemberKind.property.sizeOf_spec]
    omega
  | method name isOptional typeParameters parameters returnType =>
    have := totalWeight_signature_lt typeParameters parameters returnType
    simp only [TypeMember.authoredChildren, TypeMemberKind.signature, TypeMember.mk.sizeOf_spec,
      TypeMemberKind.method.sizeOf_spec]
    omega
  | accessor name kind parameters returnType =>
    have := totalWeight_signature_lt [] parameters returnType
    simp only [TypeMember.authoredChildren, TypeMemberKind.signature, TypeMember.mk.sizeOf_spec,
      TypeMemberKind.accessor.sizeOf_spec, List.nil.sizeOf_spec] at this ⊢
    omega
  | call typeParameters parameters returnType =>
    have := totalWeight_signature_lt typeParameters parameters returnType
    simp only [TypeMember.authoredChildren, TypeMemberKind.signature, TypeMember.mk.sizeOf_spec,
      TypeMemberKind.call.sizeOf_spec]
    omega
  | construct typeParameters parameters returnType =>
    have := totalWeight_signature_lt typeParameters parameters returnType
    simp only [TypeMember.authoredChildren, TypeMemberKind.signature, TypeMember.mk.sizeOf_spec,
      TypeMemberKind.construct.sizeOf_spec]
    omega
  | index parameters valueType =>
    have := totalWeight_signature_lt [] parameters valueType
    simp only [TypeMember.authoredChildren, TypeMemberKind.signature, TypeMember.mk.sizeOf_spec,
      TypeMemberKind.index.sizeOf_spec, List.nil.sizeOf_spec] at this ⊢
    omega

/-- The parts of a written type take up less than the type itself. -/
theorem totalWeight_authoredChildren_lt (item : AuthoredTypeItem) :
    totalWeight item.authoredChildren < item.weight := by
  cases item with
  | type node edge => exact totalWeight_node_lt node
  | member node => exact totalWeight_member_lt node

theorem AuthoredTypeItem.weight_pos (item : AuthoredTypeItem) : 0 < item.weight :=
  Nat.zero_lt_of_lt (totalWeight_authoredChildren_lt item)

/-! ## Names introduced by a conditional pattern -/

/-- Nested conditional types own the names in them. -/
def infersFrom (pending : List AuthoredTypeItem) : List String :=
  match pending with
  | [] => []
  | .type _ .typeParameterDeclaration :: rest => infersFrom rest
  | .type ⟨_, .infer name _ _⟩ _ :: rest => name :: infersFrom rest
  | .type ⟨_, .conditional _ _ _ _⟩ _ :: rest => infersFrom rest
  | item :: rest => infersFrom (item.authoredChildren.reverse ++ rest)
termination_by totalWeight pending
decreasing_by
  · simp [AuthoredTypeItem.weight_pos]
  · simp [AuthoredTypeItem.weight_pos]
  · simp [AuthoredTypeItem.weight_pos]
  · simpa [totalWeight_perm (List.reverse_perm _)] using totalWeight_authoredChildren_lt _

def TypeNode.conditionalInfers (node : TypeNode) : List String := infersFrom [nestedItem node]

end Tsz.Syntax
