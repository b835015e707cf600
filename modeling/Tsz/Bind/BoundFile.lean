import Tsz.Bind.Walk

/-!
# Bound files

Name resolution through the scopes of a bound file, and the binding of a whole source unit.
-/

namespace Tsz.Bind

open Syntax

inductive BoundReferenceTarget
  | declaration (id : DeclId)
  | programGlobal (name : String) (meaning : Meaning)
deriving DecidableEq, Repr

structure BoundReferenceFact where
  span : Span
  isWriteAccess : Bool
  target : BoundReferenceTarget
deriving DecidableEq, Repr

structure BoundFile where
  file : FileId
  declarations : List BoundDeclaration
  scopes : List Scope
  scopeForNode : NodeId → Option ScopeId
  typeMembers : NodeId → Option BoundTypeMember
  anonymousSignatures : NodeId → Option DeclId
  referenceFacts : List BoundReferenceFact
  thisTypeReferences : Span → Option DeclId
  exportSpecifierTargets : Span → Option DeclId
  typeMemberGroups : AList (fun _ : ScopeId × TypeMemberSymbol => List DeclId)
  classMembers : NodeId → Option BoundClassMember
  classMemberGroups : AList (fun _ : ScopeId × ClassMemberSymbol => ClassMemberGroupFacts)
  javascriptPropertyAssignments : List BoundJavaScriptPropertyAssignment
  javascriptPropertyUses : List NodeId
  javascriptExpandoInitializers : List DeclId
  flowFacts : PendingFlowFacts

namespace BoundFile

variable (bound : BoundFile)

def declaration (id : DeclId) : Option BoundDeclaration :=
  if id.file = bound.file then bound.declarations[id.index]? else none

/-- The last declaration of a name and meaning in one scope. -/
def declaredIn (scope : Scope) (name : String) (meaning : Meaning) : Option DeclId :=
  ((scope.names.lookup name).getD []).reverse.find? fun id =>
    (bound.declaration id).any fun declaration => declaration.meaning = meaning

/-- The walk through the enclosing scopes; `fuel` bounds the number of scopes visited. -/
def resolveWithin : Nat → ScopeId → String → Meaning → Option DeclId
  | 0, _, _, _ => none
  | fuel + 1, scope, name, meaning => do
    let current ← bound.scopes[scope.index]?
    match bound.declaredIn current name meaning with
    | some id => some id
    | none => resolveWithin fuel (← current.parent) name meaning

def resolve (scope : ScopeId) (name : String) (meaning : Meaning) : Option DeclId :=
  bound.resolveWithin bound.scopes.length scope name meaning

/-- The declaration a pending reference means: a type query may also start at an import. -/
def resolveReference (reference : PendingReferenceFact) : Option DeclId :=
  if reference.typeQueryRoot then
    bound.resolve reference.scope reference.name .value <|>
      (bound.resolve reference.scope reference.name .type).filter fun id =>
        (bound.declaration id).any fun declaration => declaration.kind = .import
  else bound.resolve reference.scope reference.name reference.meaning

def finishReference (reference : PendingReferenceFact) : BoundReferenceFact where
  span := reference.span
  isWriteAccess := reference.isWriteAccess
  target := match bound.resolveReference reference with
    | some id => .declaration id
    | none => .programGlobal reference.name reference.meaning

def specifierTargets (specifiers : List ExportSpecifier) (targets : Span → Option DeclId) :
    Span → Option DeclId :=
  (specifiers.filter fun specifier => !specifier.typeOnly).foldl (fun targets specifier =>
    match bound.resolve ⟨0⟩ specifier.localName .value with
    | some target => Function.update targets specifier.localSpan (some target)
    | none => targets) targets

/-- The value targets of the local export specifiers of a unit. -/
def exportTargets (statements : List Statement) : Span → Option DeclId :=
  statements.foldl (fun targets statement =>
    match statement.kind with
    | .export declaration =>
      if declaration.moduleSpecifier.isSome then targets
      else bound.specifierTargets declaration.specifiers targets
    | _ => targets) fun _ => none

end BoundFile

def rootScope : Scope where
  id := ⟨0⟩
  parent := none
  owner := none
  lexicalThis := none
  thisTypeOwner := none
  flowContainer := none

def initialBinder (file : FileId) (sourceKind : SourceKind) (unit : SourceUnit) : Binder where
  file := file
  sourceKind := sourceKind
  scopes := [rootScope]
  unmodeledDeclarationHosts := unit.unmodeledDeclarationHosts

/-- The tables of the walk, before references and export specifiers are resolved. -/
def Binder.toBoundFile (b : Binder) : BoundFile where
  file := b.file
  declarations := b.declarations
  scopes := b.scopes
  scopeForNode := b.scopeForNode
  typeMembers := b.typeMembers
  anonymousSignatures := b.anonymousSignatures
  referenceFacts := []
  thisTypeReferences := b.thisTypeReferences
  exportSpecifierTargets := fun _ => none
  typeMemberGroups := b.typeMemberGroups
  classMembers := b.classMembers
  classMemberGroups := b.classMemberGroups
  javascriptPropertyAssignments := b.javascriptPropertyAssignments
  javascriptPropertyUses := b.javascriptPropertyUses
  javascriptExpandoInitializers := b.javascriptExpandoInitializers
  flowFacts := b.flowFacts

def bindSourceWithKind [NumberFormat] (file : FileId) (sourceKind : SourceKind)
    (unit : SourceUnit) : Option BoundFile := do
  let (_, b) ← (bindStatements unit.statements ⟨0⟩ none).run (initialBinder file sourceKind unit)
  let bound := b.toBoundFile
  return { bound with
    referenceFacts := b.referenceFacts.map bound.finishReference
    exportSpecifierTargets := bound.exportTargets unit.statements }

end Tsz.Bind
