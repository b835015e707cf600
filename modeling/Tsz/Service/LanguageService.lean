import Tsz.Diagnostics
import Tsz.Program.StandardLibrary
import Tsz.Project.ConfigLoading
import Tsz.Sorting.SortedMap
import Tsz.Syntax.Coordinates

/-!
# The language service

The service owns the texts that are open and the options, and asks the compiler about them. What
was compiled last is kept until a text or the options change.

## Main definitions

* `LanguageService` — the state, with an operation for each of its changes.
* `LanguageService.withCompiledSnapshot` — a question to the compiler.
* `LanguageService.IsCurrent` — what is kept belongs to the texts and the options.
-/

namespace Tsz.Service

open Sorting (SortedMap)
open Tsz.Diagnostics (Diagnostic)
open Tsz.Program (CompilerOptions)
open Tsz.Project (Name)
open Tsz.Syntax (SourceCoordinateIndex)

structure TextSpan where
  start : Nat
  length : Nat
deriving DecidableEq

inductive SemanticCompletion
  | complete | deferred | cycle | limit
deriving DecidableEq

namespace SemanticCompletion

def isComplete : SemanticCompletion → Bool
  | complete => true
  | _ => false

def asStr : SemanticCompletion → Name
  | complete => "complete".toList
  | deferred => "deferred".toList
  | cycle => "cycle".toList
  | limit => "limit".toList

end SemanticCompletion

/-! ## Texts -/

/-- A text and the table of its positions. -/
structure SourceText where
  path : Name
  text : List Char
  coordinates : SourceCoordinateIndex
  isIndex : coordinates = .new text

namespace SourceText

def new (path : Name) (text : List Char) : SourceText := ⟨path, text, .new text, rfl⟩

def byteOffset (source : SourceText) (line column : Nat) : Option Nat :=
  source.coordinates.byteOffset source.text line column

def position (source : SourceText) (offset : Nat) : Option (Nat × Nat) :=
  source.coordinates.position source.text offset

/-- The line and the column of an offset in UTF-16 units. -/
def lineAndColumn (source : SourceText) (offset : Nat) : Nat × Nat :=
  source.coordinates.positionFromUtf16 offset

/-- A range of bytes as one of UTF-16 units. -/
def utf16Range (source : SourceText) (start length : Nat) : Option (Nat × Nat) := do
  let stop ← if start + length ≤ Syntax.u32Max then some (start + length) else none
  let _ ← Syntax.textSlice source.text start stop
  let start ← source.coordinates.byteToUtf16 source.text start
  let stop ← source.coordinates.byteToUtf16 source.text stop
  some (start, stop - start)

end SourceText

structure OpenFile where
  source : SourceText
  version : Nat

/-- Both separators are the same. -/
def normalizePath (path : Name) : Name := path.map fun c => if c = '\\' then '/' else c

/-! ## Compilations -/

structure QuickInfo where
  kind : Name
  textSpan : TextSpan
  display : Name

structure DefinitionInfo where
  fileName : Name
  textSpan : TextSpan
  kind : Name
  name : Name
  containerKind : Name
  containerName : Name
  isLocal : Bool
  isAmbient : Bool
  unverified : Bool
  failedAliasResolution : Bool
  contextSpan : Option TextSpan

structure DefinitionAndBoundSpan where
  definitions : List DefinitionInfo
  textSpan : TextSpan

structure SymbolDisplayPart where
  text : Name
  kind : Name

structure ReferencedSymbolDefinition where
  containerKind : Name
  containerName : Name
  fileName : Name
  kind : Name
  name : Name
  textSpan : TextSpan
  displayParts : List SymbolDisplayPart
  contextSpan : Option TextSpan

structure ReferenceEntry where
  textSpan : TextSpan
  fileName : Name
  contextSpan : Option TextSpan
  isWriteAccess : Bool
  isDefinition : Option Bool

structure ReferencedSymbol where
  definition : ReferencedSymbolDefinition
  references : List ReferenceEntry

structure HighlightSpan where
  textSpan : TextSpan
  kind : Name
  contextSpan : Option TextSpan

structure DocumentHighlights where
  fileName : Name
  highlightSpans : List HighlightSpan

structure RenameInfo where
  canRename : Bool := false
  displayName : Option Name := none
  fullDisplayName : Option Name := none
  kind : Option Name := none
  kindModifiers : Option Name := none
  triggerSpan : Option TextSpan := none
  localizedErrorMessage : Option Name := none

structure RenameLocation where
  fileName : Name
  textSpan : TextSpan
  contextSpan : Option TextSpan

structure RenameResult where
  info : RenameInfo
  locations : List RenameLocation

inductive NavigationTarget
  | quickInfo | definition | typeDefinition | references | highlights | rename
deriving DecidableEq

structure NavigationIndex where
  queryIsClaimed : NavigationTarget → Name → Nat → List Name → Bool
  quickInfo : Name → Nat → Option QuickInfo
  definition : Name → Nat → Option DefinitionAndBoundSpan
  typeDefinition : Name → Nat → List DefinitionInfo
  references : Name → Nat → List ReferencedSymbol
  documentHighlights : Name → Nat → List Name → List DocumentHighlights
  rename : Name → Nat → RenameResult

structure ProgramFile where
  id : FileId
  path : Name
  hostPath : Name

/-- What the service reads of a compilation. -/
structure CompileOutput where
  files : List ProgramFile
  syntacticDiagnostics : List Diagnostic
  semanticDiagnostics : List Diagnostic
  syntacticDiagnosticsFileIsClaimed : FileId → Bool
  semanticDiagnosticsFileIsClaimed : FileId → Bool
  checkFileCompletions : List SemanticCompletion
  navigation : NavigationIndex

/-- The compiler, which is given the texts in the order of their paths. -/
class Compiler where
  compile : List (Name × List Char) → CompilerOptions → CompileOutput

/-- A compiler that answers nothing. -/
@[reducible] def emptyCompiler : Compiler where
  compile _ _ :=
    { files := []
      syntacticDiagnostics := []
      semanticDiagnostics := []
      syntacticDiagnosticsFileIsClaimed := fun _ => false
      semanticDiagnosticsFileIsClaimed := fun _ => false
      checkFileCompletions := []
      navigation :=
        { queryIsClaimed := fun _ _ _ _ => false
          quickInfo := fun _ _ => none
          definition := fun _ _ => none
          typeDefinition := fun _ _ => []
          references := fun _ _ => []
          documentHighlights := fun _ _ _ => []
          rename := fun _ _ => { info := {}, locations := [] } } }

/-! ## The state -/

structure LanguageService where
  options : CompilerOptions := {}
  files : SortedMap Name OpenFile := .empty
  compiledSnapshot : Option CompileOutput := none

/-- A value, or that it cannot be published yet. -/
inductive ServiceQuery (α : Type)
  | claimed (value : α)
  | nonclaimed

structure DiagnosticResult where
  diagnostics : List Diagnostic
  completion : SemanticCompletion

def fileDiagnostics (diagnostics : List Diagnostic) (normalized : Name) : List Diagnostic :=
  diagnostics.filter fun diagnostic => normalizePath diagnostic.file.toList = normalized

def compiledFile (output : CompileOutput) (normalized : Name) : Option ProgramFile :=
  output.files.find? fun file =>
    normalizePath file.path = normalized ∨ normalizePath file.hostPath = normalized

namespace LanguageService

variable (service : LanguageService)

def configure (options : CompilerOptions) : LanguageService :=
  { service with options, compiledSnapshot := none }

def openFile (path : Name) (text : List Char) : LanguageService :=
  let path := normalizePath path
  { service with
    files := service.files.insert path ⟨.new path text, 1⟩
    compiledSnapshot := none }

def change (path : Name) (text : List Char) : LanguageService :=
  let path := normalizePath path
  match service.files.get? path with
  | some file =>
    { service with
      files := service.files.insert path ⟨.new file.source.path text, file.version + 1⟩
      compiledSnapshot := none }
  | none => service

def close (path : Name) : LanguageService :=
  let path := normalizePath path
  match service.files.get? path with
  | some _ => { service with files := service.files.erase path, compiledSnapshot := none }
  | none => service

def reset : LanguageService := { service with files := .empty, compiledSnapshot := none }

def sourceCoordinates (path : Name) : Option SourceText :=
  (service.files.get? (normalizePath path)).map (·.source)

def text (path : Name) : Option (List Char) := (service.sourceCoordinates path).map (·.text)

def version (path : Name) : Option Nat :=
  (service.files.get? (normalizePath path)).map (·.version)

variable [Compiler]

def compile : CompileOutput :=
  Compiler.compile (service.files.entries.map fun (path, file) => (path, file.source.text))
    service.options

/-- What a compilation is asked, which is then kept. -/
def withCompiledSnapshot {α : Type} (query : CompileOutput → α) : α × LanguageService :=
  let output := service.compiledSnapshot.getD service.compile
  (query output, { service with compiledSnapshot := some output })

def syntacticDiagnostics (path : Name) : DiagnosticResult × LanguageService :=
  let normalized := normalizePath path
  service.withCompiledSnapshot fun output =>
    let claimed := (compiledFile output normalized).filter fun file =>
      output.syntacticDiagnosticsFileIsClaimed file.id
    { diagnostics := fileDiagnostics output.syntacticDiagnostics normalized
      completion := if claimed.isSome then .complete else .deferred }

def semanticDiagnostics (path : Name) : DiagnosticResult × LanguageService :=
  let normalized := normalizePath path
  service.withCompiledSnapshot fun output =>
    let claimed := (compiledFile output normalized).filter fun file =>
      output.semanticDiagnosticsFileIsClaimed file.id
    { diagnostics := fileDiagnostics output.semanticDiagnostics normalized
      completion :=
        (claimed.bind fun file => output.checkFileCompletions[file.id.index]?).getD .deferred }

def navigationQuery {α : Type} (target : NavigationTarget) (path : Name) (offset : Nat)
    (filesToSearch : List Name) (query : NavigationIndex → α) :
    ServiceQuery α × LanguageService :=
  service.withCompiledSnapshot fun output =>
    if output.navigation.queryIsClaimed target path offset filesToSearch then
      .claimed (query output.navigation)
    else .nonclaimed

def quickInfo (path : Name) (offset : Nat) : ServiceQuery (Option QuickInfo) × LanguageService :=
  service.navigationQuery .quickInfo path offset [] (·.quickInfo path offset)

def definitionAndBoundSpan (path : Name) (offset : Nat) :
    ServiceQuery (Option DefinitionAndBoundSpan) × LanguageService :=
  service.navigationQuery .definition path offset [] (·.definition path offset)

def typeDefinition (path : Name) (offset : Nat) :
    ServiceQuery (List DefinitionInfo) × LanguageService :=
  service.navigationQuery .typeDefinition path offset [] (·.typeDefinition path offset)

def references (path : Name) (offset : Nat) :
    ServiceQuery (List ReferencedSymbol) × LanguageService :=
  service.navigationQuery .references path offset [] (·.references path offset)

def documentHighlights (path : Name) (offset : Nat) (filesToSearch : List Name) :
    ServiceQuery (List DocumentHighlights) × LanguageService :=
  service.navigationQuery .highlights path offset filesToSearch
    (·.documentHighlights path offset filesToSearch)

def rename (path : Name) (offset : Nat) : ServiceQuery RenameResult × LanguageService :=
  service.navigationQuery .rename path offset [] (·.rename path offset)

/-! ## What is kept -/

/-- The service without the last compilation. -/
def forget : LanguageService := { service with compiledSnapshot := none }

/-- What is kept is the compilation of the texts and the options. -/
def IsCurrent : Prop := ∀ output, service.compiledSnapshot = some output → output = service.compile

variable {service}

theorem isCurrent_of_eq_none (h : service.compiledSnapshot = none) : service.IsCurrent :=
  fun output hsome => by
    rw [h] at hsome
    cases hsome

/-- What is asked of a compilation does not depend on whether one is kept. -/
theorem withCompiledSnapshot_forget (h : service.IsCurrent) {α : Type}
    (query : CompileOutput → α) :
    service.withCompiledSnapshot query = service.forget.withCompiledSnapshot query := by
  have houtput : service.compiledSnapshot.getD service.compile = service.compile := by
    cases hsnapshot : service.compiledSnapshot with
    | none => rfl
    | some output => exact h output hsnapshot
  rw [withCompiledSnapshot, houtput]
  rfl

theorem isCurrent_withCompiledSnapshot (h : service.IsCurrent) {α : Type}
    (query : CompileOutput → α) : (service.withCompiledSnapshot query).2.IsCurrent := by
  rw [withCompiledSnapshot_forget h]
  rintro output hsome
  exact (Option.some.inj hsome).symm

omit [Compiler] in
theorem change_forget (path : Name) (text : List Char) :
    (service.forget.change path text).forget = (service.change path text).forget := by
  unfold change forget
  dsimp only
  split <;> rfl

omit [Compiler] in
theorem close_forget (path : Name) :
    (service.forget.close path).forget = (service.close path).forget := by
  unfold close forget
  dsimp only
  split <;> rfl

theorem isCurrent_change (h : service.IsCurrent) (path : Name) (text : List Char) :
    (service.change path text).IsCurrent := by
  unfold change
  dsimp only
  split
  · exact isCurrent_of_eq_none rfl
  · exact h

theorem isCurrent_close (h : service.IsCurrent) (path : Name) :
    (service.close path).IsCurrent := by
  unfold close
  dsimp only
  split
  · exact isCurrent_of_eq_none rfl
  · exact h

end LanguageService

end Tsz.Service
