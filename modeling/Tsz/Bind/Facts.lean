import Mathlib.Data.List.AList
import Mathlib.Logic.Function.Basic
import Tsz.Syntax.SourceUnit

/-!
# Binder facts

Scopes, declarations and the tables one file's binding produces. Ordered maps are association
lists with distinct keys, hash maps are functions.
-/

namespace Tsz.Bind

open Syntax

structure ScopeId where
  index : Nat
deriving DecidableEq, Repr

inductive DeclarationKind
  | variable | parameter | import | function | functionExpression | javaScriptPropertyAssignment
  | «class» | typeAlias | interface | typeParameter | typeMember | anonymousSignature
  | anonymousType | unmodeledHost
deriving DecidableEq, Repr

inductive Meaning
  | value | type
deriving DecidableEq, Repr

inductive TypeMemberSymbol
  | named (name : List UInt16)
  | call | construct | index
deriving DecidableEq, Repr

inductive ClassMemberSymbol
  | constructor
  | reservedPrivateConstructor
  | reservedStaticPrototype
  | named (name : List UInt16) (staticMember privateIdentifier : Bool)
deriving DecidableEq, Repr

structure BoundClassMember where
  container : ScopeId
  symbol : ClassMemberSymbol
deriving DecidableEq, Repr

structure ClassMemberGroupFacts where
  declarations : List DeclId := []
  callables : Nat := 0
  implementations : Nat := 0
  getters : Nat := 0
  setters : Nat := 0
  properties : Nat := 0
  privateCallable : Bool := false
deriving DecidableEq, Repr

structure BoundTypeMember where
  declaration : DeclId
  container : ScopeId
  symbol : Option TypeMemberSymbol
deriving DecidableEq, Repr

/-- The lexical `this`: arrows and blocks inherit it, functions and classes reset it. -/
inductive LexicalThisOwner
  | classInstance (declaration : DeclId)
  | classConstructor (declaration : DeclId)
deriving DecidableEq, Repr

structure BoundDeclaration where
  id : DeclId
  scope : ScopeId
  owner : NodeId
  name : String
  nameSpan : Span
  kind : DeclarationKind
  meaning : Meaning
deriving DecidableEq, Repr

/-! ## Flow facts -/

inductive FlowContainerKind
  | ordinary | creation
deriving DecidableEq, Repr

structure FlowContainer where
  owner : NodeId
  kind : FlowContainerKind
deriving DecidableEq, Repr

structure FlowPathSegment where
  text : String
deriving DecidableEq, Repr

/-- The property path an expression reads below its root, outermost segment last. -/
structure FlowDemandPath where
  knownPrefix : List FlowPathSegment
  complete : Bool
deriving DecidableEq, Repr

inductive FlowAssignmentSource (T : Type)
  | reference (target : T)
  | literal (value : Literal)
  | directCall (callee argument : T)
  | logicalOrConstruct (left callee : T)
  | join (first second : FlowAssignmentSource T)
deriving DecidableEq, Repr

abbrev PendingFlowAssignmentSource := FlowAssignmentSource NodeId

structure PendingFlowReference where
  expression : NodeId
  span : Span
  scope : ScopeId
  name : String
  demand : FlowDemandPath
deriving DecidableEq, Repr

structure PendingFlowMutation where
  target : NodeId
  source : Option PendingFlowAssignmentSource
  control : Option NodeId
  effectSpan : Span
deriving DecidableEq, Repr

structure PendingFlowFacts where
  references : List PendingFlowReference := []
  initializers : List (DeclId × Literal × Span) := []
  mutations : List PendingFlowMutation := []
  evolvingArrayDeclarations : List DeclId := []
  evolvingArrayWrites : List NodeId := []
deriving DecidableEq, Repr

/-- The text of a string literal or template without substitutions. -/
def literalValue (expression : Expression) : Option String :=
  match expression.peelParentheses.kind with
  | .literal (.string (.plain value)) => some value
  | .literal (.noSubstitutionTemplate value) => some value.cooked
  | _ => none

def flowPathKey [NumberFormat] (expression : Expression) : Option String :=
  match expression.peelParentheses.kind with
  | .literal (.number value) =>
    if value.validationSupported then NumberFormat.display value.semanticText
    else literalValue expression
  | _ => literalValue expression

namespace FlowDemandPath

def root : FlowDemandPath := ⟨[], true⟩

def member (path : FlowDemandPath) (name : String) : FlowDemandPath :=
  { path with knownPrefix := ⟨name⟩ :: path.knownPrefix }

def element [NumberFormat] (path : FlowDemandPath) (index : Expression) : FlowDemandPath :=
  match flowPathKey index with
  | some name => { path with knownPrefix := ⟨name⟩ :: path.knownPrefix }
  | none => { path with knownPrefix := [], complete := false }

end FlowDemandPath

namespace PendingFlowAssignmentSource

def entityReference (expression : Expression) : Option NodeId :=
  match expression.peelParentheses with
  | ⟨id, _, .identifier _ _ true⟩ => some id
  | _ => none

/-- The sources an assignment keeps: a name, a literal, a one-argument call of a name, and
`left || new Callee()`. -/
def fromExpression (expression : Expression) : Option PendingFlowAssignmentSource :=
  match expression.peelParentheses with
  | ⟨id, _, .identifier _ _ true⟩ => some (.reference id)
  | ⟨_, _, .literal value⟩ => some (.literal value)
  | ⟨_, _, .call callee none [argument]⟩ => do
    let callee ← entityReference callee
    let argument ← entityReference argument
    return .directCall callee argument
  | ⟨_, _, .binary left .logicalOr _ right⟩ =>
    match right.peelParentheses.kind with
    | .new callee [] none [] _ => do
      let left ← entityReference left
      let callee ← entityReference callee
      return .logicalOrConstruct left callee
    | _ => none
  | _ => none

end PendingFlowAssignmentSource

/-! ## Pending references -/

structure PendingReferenceFact where
  span : Span
  scope : ScopeId
  name : String
  meaning : Meaning
  isWriteAccess : Bool
  typeQueryRoot : Bool
deriving DecidableEq, Repr

def PendingReferenceFact.ofName (name : String) (span : Span) (scope : ScopeId)
    (meaning : Meaning) (isWriteAccess : Bool) : PendingReferenceFact :=
  ⟨span, scope, name, meaning, isWriteAccess, false⟩

def PendingReferenceFact.ofTypeQueryRoot (name : String) (span : Span) (scope : ScopeId) :
    PendingReferenceFact :=
  ⟨span, scope, name, .value, false, true⟩

/-! ## JavaScript property assignments -/

inductive JavaScriptPropertyAssignmentTarget
  | namedMember | canonicalElementProperty | ordinaryIndex
deriving DecidableEq, Repr

structure BoundJavaScriptPropertyAssignment where
  left : NodeId
  right : NodeId
  scope : ScopeId
  declaration : Option DeclId
  root : Option String
  properties : List String
  target : JavaScriptPropertyAssignmentTarget
deriving DecidableEq, Repr

/-! ## Scopes -/

structure Scope where
  id : ScopeId
  parent : Option ScopeId
  owner : Option NodeId
  names : AList (fun _ : String => List DeclId) := ∅
  lexicalThis : Option LexicalThisOwner
  thisTypeOwner : Option DeclId
  flowContainer : Option FlowContainer

end Tsz.Bind
