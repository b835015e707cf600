import Tsz.Service.DiskSource
import Tsz.Service.Framing
import Tsz.Service.LanguageService

/-!
# The server

Requests are answered one after the other, by what they name and what they bring along. A request
that fails is answered with a message.

## Main definitions

* `dispatch` — what a request answers, and the service behind it.
* `Server.handle` — the response to a request.
* `Server.run` — the output for an input.
-/

namespace Tsz.Service

open Sorting (SortedMap)
open Decimals (number)
open Tsz.Diagnostics (Diagnostic DiagnosticCategory)
open Tsz.Program (CompilerOptions)
open Tsz.Project (Name)
open Tsz.Project.Config (Json)
open Tsz.Syntax (textSlice u32Max)

/-- Why a request has no body: a message, or a panic of the source. -/
inductive Failure
  | error (message : Name)
  | panic
deriving DecidableEq

abbrev Answer (α : Type) := Except Failure α

/-- What a file holds, or the text of an error. -/
abbrev Disk := Name → Except Name (List UInt8)

def emptyDisk : Disk := fun _ => .error "No such file or directory (os error 2)".toList

/-! ## Arguments -/

/-- The whole numbers of 64 bits. -/
def asU64 : Json → Option Nat
  | .number text =>
    if text ≠ [] ∧ text.all Char.isDigit ∧ number text < 2 ^ 64 then some (number text) else none
  | _ => none

def asBool : Json → Option Bool
  | .bool value => some value
  | _ => none

def ofNat (n : Nat) : Json := .number (Nat.toDigits 10 n)

def ofText (text : String) : Json := .string text.toList

def field (name : String) (value : Json) : Name × Json := (name.toList, value)

def optionalField (name : String) : Option Json → List (Name × Json)
  | some value => [field name value]
  | none => []

def fail {α : Type} (message : String) : Answer α := .error (.error message.toList)

def fileArgument (arguments : Json) : Answer Name :=
  match ((arguments.get "file").or (arguments.get "fileName")).bind Json.asStr with
  | some path => .ok path
  | none => fail "Request requires a file argument."

def numberArgument (arguments : Json) (name : String) : Answer Nat :=
  match (arguments.get name).bind asU64 with
  | some value =>
    if value ≤ u32Max then .ok value
    else fail ("Request " ++ name ++ " is outside the supported range.")
  | none => fail ("Request requires a numeric " ++ name ++ " argument.")

def openContent [LossyUtf8] (disk : Disk) (arguments : Json) (path : Name) : Answer (List Char) :=
  match (arguments.get "fileContent").or (arguments.get "content") with
  | some content =>
    match content.asStr with
    | some text => .ok text
    | none => fail "Open request content must be a string."
  | none =>
    match disk path with
    | .ok bytes => .ok (decodeDiskSource bytes)
    | .error error =>
      .error (.error ("Cannot open file '".toList ++ path ++ "' from disk: ".toList ++ error))

def compilerOptions (value : Json) : CompilerOptions :=
  let boolean (name : String) := (value.get name).bind asBool
  let checkJs := boolean "checkJs"
  { strict := (boolean "strict").getD false
    strictNullChecks := boolean "strictNullChecks"
    strictPropertyInitialization := boolean "strictPropertyInitialization"
    noImplicitAny := boolean "noImplicitAny"
    useDefineForClassFields := boolean "useDefineForClassFields"
    noUnusedLocals := (boolean "noUnusedLocals").getD false
    noUnusedParameters := (boolean "noUnusedParameters").getD false
    noLib := (boolean "noLib").getD false
    allowJs := (boolean "allowJs").getD (checkJs = some true)
    checkJs
    lib := ((value.get "lib").bind Json.asArray).map (·.filterMap Json.asStr)
    target := ((value.get "target").bind Json.asStr).getD ({} : CompilerOptions).target
    noEmit := true }

/-! ## Bodies -/

def ofPosition (position : Nat × Nat) : Json :=
  .object [field "line" (ofNat position.1), field "offset" (ofNat position.2)]

def ofSpan (span : TextSpan) : Json :=
  .object [field "start" (ofNat span.start), field "length" (ofNat span.length)]

/-- The ends of a span; the source panics where it is none of the text. -/
def protocolSpan (source : SourceText) (span : TextSpan) : Answer (Json × Json) :=
  match source.position span.start, source.position (span.start + span.length) with
  | some start, some stop => .ok (ofPosition start, ofPosition stop)
  | _, _ => .error .panic

def protocolSpanFields (source : SourceText) (span : TextSpan) : Answer (List (Name × Json)) := do
  let (start, stop) ← protocolSpan source span
  .ok [field "start" start, field "end" stop]

def protocolLocation (source : SourceText) (span : TextSpan) (contextSpan : Option TextSpan) :
    Answer (List (Name × Json)) := do
  let location ← protocolSpanFields source span
  match contextSpan with
  | some contextSpan =>
    let (start, stop) ← protocolSpan source contextSpan
    .ok (location ++ [field "contextStart" start, field "contextEnd" stop])
  | none => .ok location

def absoluteSpan (source : SourceText) (span : TextSpan) : Answer Json :=
  match source.utf16Range span.start span.length with
  | some (start, length) => .ok (ofSpan ⟨start, length⟩)
  | none => .error .panic

def protocolSpanWithLength (source : SourceText) (span : TextSpan) :
    Answer (List (Name × Json)) := do
  let location ← protocolSpanFields source span
  match source.utf16Range span.start span.length with
  | some (_, length) => .ok (location ++ [field "length" (ofNat length)])
  | none => .error .panic

def diagnosticMessageText (diagnostic : Diagnostic) : Name :=
  diagnostic.messageText.toList ++ diagnostic.relatedInformation.flatMap fun related =>
    '\n' :: ((List.replicate (max related.depth 1) "  ".toList).flatten ++
      related.messageText.toList)

def categoryText : DiagnosticCategory → String
  | .warning => "warning"
  | .error => "error"
  | .suggestion => "suggestion"
  | .message => "message"

def includesLinePosition [JsonCodec] (arguments : Json) : Bool :=
  match arguments.get "includeLinePosition" with
  | none | some .null | some (.bool false) => false
  | some (.number text) => !JsonCodec.isZero text
  | some (.string text) => text ≠ []
  | some _ => true

namespace LanguageService

variable (service : LanguageService)

def source (path : Name) : Answer SourceText :=
  match service.sourceCoordinates path with
  | some source => .ok source
  | none => .error (.error ("File is not open: ".toList ++ path))

/-- The file of a request, and the offset of its position. -/
def location (arguments : Json) : Answer (Name × Nat) := do
  let path ← fileArgument arguments
  let source ← service.source path
  let line ← numberArgument arguments "line"
  let offset ← numberArgument arguments "offset"
  match source.byteOffset line offset with
  | some absolute => .ok (path, absolute)
  | none => fail "Position is outside the file."

def definitionsBody (definitions : List DefinitionInfo) : Answer Json := do
  let values ← definitions.mapM fun definition => do
    let source ← service.source definition.fileName
    let location ← protocolLocation source definition.textSpan definition.contextSpan
    .ok (Json.object (location ++
      [field "file" (.string definition.fileName), field "kind" (.string definition.kind),
        field "name" (.string definition.name),
        field "containerKind" (.string definition.containerKind),
        field "containerName" (.string definition.containerName),
        field "isLocal" (.bool definition.isLocal), field "isAmbient" (.bool definition.isAmbient),
        field "unverified" (.bool definition.unverified),
        field "failedAliasResolution" (.bool definition.failedAliasResolution)]))
  .ok (.array values)

def definitionAndBoundSpanBody (path : Name) : Option DefinitionAndBoundSpan → Answer Json
  | none => .ok (.object [field "definitions" (.array [])])
  | some result => do
    let definitions ← service.definitionsBody result.definitions
    let source ← service.source path
    let span ← protocolSpanFields source result.textSpan
    .ok (.object [field "definitions" definitions, field "textSpan" (.object span)])

/-- The span of a context in UTF-16 units, where there is one. -/
def contextSpanField (source : SourceText) (contextSpan : Option TextSpan) :
    Answer (List (Name × Json)) :=
  match contextSpan with
  | some span => do .ok [field "contextSpan" (← absoluteSpan source span)]
  | none => .ok []

def fullReferenceEntry (entry : ReferenceEntry) : Answer Json := do
  let source ← service.source entry.fileName
  let span ← absoluteSpan source entry.textSpan
  let context ← contextSpanField source entry.contextSpan
  .ok (.object ([field "textSpan" span, field "fileName" (.string entry.fileName)] ++ context ++
    field "isWriteAccess" (.bool entry.isWriteAccess) ::
      optionalField "isDefinition" (entry.isDefinition.map .bool)))

def fullReferencesBody (references : List ReferencedSymbol) : Answer Json := do
  let values ← references.mapM fun referenced => do
    let definition := referenced.definition
    let source ← service.source definition.fileName
    let span ← absoluteSpan source definition.textSpan
    let context ← contextSpanField source definition.contextSpan
    let parts := definition.displayParts.map fun part =>
      Json.object [field "text" (.string part.text), field "kind" (.string part.kind)]
    let entries ← referenced.references.mapM service.fullReferenceEntry
    let body := Json.object ([field "containerKind" (.string definition.containerKind),
      field "containerName" (.string definition.containerName),
      field "fileName" (.string definition.fileName), field "kind" (.string definition.kind),
      field "name" (.string definition.name), field "textSpan" span,
      field "displayParts" (.array parts)] ++ context)
    .ok (Json.object [field "definition" body, field "references" (.array entries)])
  .ok (.array values)

def documentHighlightsBody (highlights : List DocumentHighlights) : Answer Json := do
  let values ← highlights.mapM fun document => do
    let source ← service.source document.fileName
    let spans ← document.highlightSpans.mapM fun highlight => do
      let location ← protocolLocation source highlight.textSpan highlight.contextSpan
      .ok (Json.object (location ++ [field "kind" (.string highlight.kind)]))
    .ok (Json.object [field "file" (.string document.fileName),
      field "highlightSpans" (.array spans)])
  .ok (.array values)

/-- The locations of a rename, grouped by their files. -/
def renameLocationGroups (locations : List RenameLocation) : Answer (List Json) := do
  let groups ← locations.foldlM (fun groups location => do
    let source ← service.source location.fileName
    let span ← protocolLocation source location.textSpan location.contextSpan
    let before := (SortedMap.get? groups location.fileName).getD []
    .ok (groups.insert location.fileName (before ++ [Json.object span]))) SortedMap.empty
  .ok (groups.entries.map fun (file, locs) =>
    .object [field "file" (.string file), field "locs" (.array locs)])

def renameBody (path : Name) (rename : RenameResult) : Answer Json :=
  if rename.info.canRename then do
    let triggerSpan ← match rename.info.triggerSpan with
      | some span => do protocolSpanWithLength (← service.source path) span
      | none => .ok []
    let locations ← service.renameLocationGroups rename.locations
    let text (value : Option Name) := Json.string (value.getD [])
    let info := Json.object [field "canRename" (.bool true),
      field "displayName" (text rename.info.displayName),
      field "fullDisplayName" (text rename.info.fullDisplayName),
      field "kind" (text rename.info.kind), field "kindModifiers" (text rename.info.kindModifiers),
      field "triggerSpan" (.object triggerSpan)]
    .ok (.object [field "info" info, field "locs" (.array locations)])
  else
    let message := rename.info.localizedErrorMessage.getD
      "You cannot rename this element.".toList
    .ok (.object [field "info" (.object [field "canRename" (.bool false),
      field "localizedErrorMessage" (.string message)]), field "locs" (.array [])])

def quickInfoBody (path : Name) : Option QuickInfo → Answer Json
  | none => fail "No content available at the requested position."
  | some info => do
    let source ← service.source path
    let span ← protocolSpanFields source info.textSpan
    .ok (.object ([field "kind" (.string info.kind), field "kindModifiers" (ofText "")] ++ span ++
      [field "displayString" (.string info.display), field "documentation" (ofText ""),
        field "tags" (.array [])]))

def diagnosticsBody [JsonCodec] (path : Name) (diagnostics : List Diagnostic)
    (arguments : Json) : Json :=
  match service.sourceCoordinates path with
  | none => .array []
  | some source =>
    .array <| diagnostics.map fun diagnostic =>
      let start := ofPosition (source.lineAndColumn diagnostic.start)
      let stop := ofPosition (source.lineAndColumn (diagnostic.start + diagnostic.length))
      let message := Json.string (diagnosticMessageText diagnostic)
      let category := ofText (categoryText diagnostic.category)
      if includesLinePosition arguments then
        .object [field "message" message, field "start" (ofNat diagnostic.start),
          field "length" (ofNat diagnostic.length), field "startLocation" start,
          field "endLocation" stop, field "category" category,
          field "code" (ofNat diagnostic.code)]
      else
        .object [field "start" start, field "end" stop, field "text" message,
          field "code" (ofNat diagnostic.code), field "category" category]

/-- The text behind a change, which is of a range unless it brings the whole text. -/
def changedText (path : Name) (arguments : Json) : Answer (List Char) := do
  let source ← service.source path
  match (arguments.get "fileContent").bind Json.asStr with
  | some fullText => .ok fullText
  | none =>
    let startLine ← numberArgument arguments "line"
    let startOffset ← numberArgument arguments "offset"
    let endLine ← match arguments.get "endLine" with
      | some _ => numberArgument arguments "endLine"
      | none => .ok startLine
    let endOffset ← match arguments.get "endOffset" with
      | some _ => numberArgument arguments "endOffset"
      | none => .ok startOffset
    match source.byteOffset startLine startOffset with
    | none => fail "Change start is outside the file."
    | some start =>
      match source.byteOffset endLine endOffset with
      | none => fail "Change end is outside the file."
      | some stop =>
        if start > stop then fail "Change range is invalid."
        else
          let inserted := ((arguments.get "insertString").bind Json.asStr).getD []
          match textSlice source.text 0 start,
              textSlice source.text stop (Syntax.utf8Length source.text) with
          | some front, some back => .ok (front ++ (inserted ++ back))
          | _, _ => .error .panic

def applyChange (path : Name) (arguments : Json) : Answer LanguageService :=
  (service.changedText path arguments).map (service.change path)

/-! ## Requests -/

/-- A change of the service, unless the request fails. -/
def applying (change : Answer LanguageService) (body : Option Json) :
    Answer (Option Json) × LanguageService :=
  match change with
  | .ok changed => (.ok body, changed)
  | .error failure => (.error failure, service)

def completed (command : String) (result : DiagnosticResult) : Answer (List Diagnostic) :=
  if result.completion.isComplete then .ok result.diagnostics
  else .error (.error ("TSZ ".toList ++ command.toList ++ " diagnostics incomplete: ".toList ++
    result.completion.asStr))

def claimedNavigation {α : Type} (command : Name) : ServiceQuery α → Answer α
  | .claimed value => .ok value
  | .nonclaimed => .error (.error ("TSZ ".toList ++ command ++ " incomplete: ".toList ++
      SemanticCompletion.deferred.asStr))

variable [Compiler]

def diagnosticsAnswer [JsonCodec] (command : String) (arguments : Json)
    (query : LanguageService → Name → DiagnosticResult × LanguageService) :
    Answer (Option Json) × LanguageService :=
  match fileArgument arguments with
  | .error failure => (.error failure, service)
  | .ok path =>
    let (result, behind) := query service path
    ((completed command result).map fun diagnostics =>
      some (behind.diagnosticsBody path diagnostics arguments), behind)

/-- What is asked at a position. -/
def navigationAnswer {α : Type} (command : Name) (arguments : Json)
    (query : LanguageService → Name → Nat → ServiceQuery α × LanguageService)
    (body : LanguageService → Name → α → Answer Json) : Answer (Option Json) × LanguageService :=
  match service.location arguments with
  | .error failure => (.error failure, service)
  | .ok (path, absolute) =>
    let (result, behind) := query service path absolute
    ((claimedNavigation command result).bind fun value => (body behind path value).map some, behind)

/-- The files that are searched, which are that of the request unless it names others. -/
def filesToSearch (arguments : Json) (path : Name) : List Name :=
  match (arguments.get "filesToSearch").bind Json.asArray with
  | some files => files.filterMap Json.asStr
  | none => [path]

end LanguageService

inductive Command
  | compilerOptionsForInferredProjects | configure | exit | openFile | close | change
  | syntacticDiagnosticsSync | semanticDiagnosticsSync | quickinfo | definitionAndBoundSpan
  | definition | typeDefinition | referencesFull | documentHighlights | rename | text | reset
deriving DecidableEq

def commands : List (Name × Command) :=
  [("compilerOptionsForInferredProjects", .compilerOptionsForInferredProjects),
    ("configure", .configure), ("exit", .exit), ("open", .openFile), ("close", .close),
    ("change", .change), ("syntacticDiagnosticsSync", .syntacticDiagnosticsSync),
    ("semanticDiagnosticsSync", .semanticDiagnosticsSync), ("quickinfo", .quickinfo),
    ("definitionAndBoundSpan", .definitionAndBoundSpan), ("definition", .definition),
    ("typeDefinition", .typeDefinition), ("references-full", .referencesFull),
    ("documentHighlights", .documentHighlights), ("rename", .rename), ("tsz/text", .text),
    ("tsz/reset", .reset)].map fun (name, command) => (name.toList, command)

variable [Compiler] [JsonCodec] [LossyUtf8]

/-- What a request answers, and the service behind it. -/
def dispatch (disk : Disk) (service : LanguageService) (name : Name) (arguments : Json) :
    Answer (Option Json) × LanguageService :=
  match commands.lookup name with
  | some .compilerOptionsForInferredProjects =>
    let options := ((arguments.get "options").or (arguments.get "compilerOptions")).getD arguments
    service.applying (.ok (service.configure (compilerOptions options))) (some (.bool true))
  | some .configure | some .exit => (.ok none, service)
  | some .openFile =>
    service.applying (do
      let path ← fileArgument arguments
      let content ← openContent disk arguments path
      .ok (service.openFile path content)) none
  | some .close =>
    service.applying (do
      let path ← fileArgument arguments
      .ok (service.close path)) none
  | some .change =>
    service.applying (do
      let path ← fileArgument arguments
      service.applyChange path arguments) none
  | some .syntacticDiagnosticsSync =>
    service.diagnosticsAnswer "syntactic" arguments (·.syntacticDiagnostics)
  | some .semanticDiagnosticsSync =>
    service.diagnosticsAnswer "semantic" arguments (·.semanticDiagnostics)
  | some .quickinfo =>
    service.navigationAnswer name arguments (·.quickInfo) LanguageService.quickInfoBody
  | some .definitionAndBoundSpan =>
    service.navigationAnswer name arguments (·.definitionAndBoundSpan)
      LanguageService.definitionAndBoundSpanBody
  | some .definition =>
    service.navigationAnswer name arguments (·.definitionAndBoundSpan)
      fun behind _ result => behind.definitionsBody (result.elim [] (·.definitions))
  | some .typeDefinition =>
    service.navigationAnswer name arguments (·.typeDefinition)
      fun behind _ definitions => behind.definitionsBody definitions
  | some .referencesFull =>
    service.navigationAnswer name arguments (·.references)
      fun behind _ references => behind.fullReferencesBody references
  | some .documentHighlights =>
    service.navigationAnswer name arguments
      (fun service path absolute =>
        service.documentHighlights path absolute (LanguageService.filesToSearch arguments path))
      fun behind _ highlights => behind.documentHighlightsBody highlights
  | some .rename =>
    service.navigationAnswer name arguments (·.rename) LanguageService.renameBody
  | some .text =>
    (do
      let path ← fileArgument arguments
      match service.text path with
      | some text => .ok (some (.string text))
      | none => .error (.error ("File is not open: ".toList ++ path)), service)
  | some .reset =>
    service.applying (.ok service.reset) (some (.object [field "reset" (.bool true)]))
  | none =>
    (.error (.error ("Command '".toList ++ name ++
      "' is not implemented by the rewrite foundation.".toList)), service)

structure Server where
  service : LanguageService := {}
  sequence : Nat := 0

/-- A request with the fields that it has in general. -/
def requestOf (sequence : Nat) (command : String) (arguments : List (Name × Json)) : Json :=
  .object [field "seq" (ofNat sequence), field "type" (ofText "request"),
    field "command" (ofText command), field "arguments" (.object arguments)]

def commandOf (request : Json) : Name := ((request.get "command").bind Json.asStr).getD []

def sequenceOf (request : Json) : Nat := ((request.get "seq").bind asU64).getD 0

def response (sequence requestSequence : Nat) (command : Name) (success : Bool)
    (body : Option Json) (message : Option Name) : Json :=
  .object ([field "seq" (ofNat sequence), field "type" (ofText "response"),
    field "command" (.string command), field "request_seq" (ofNat requestSequence),
    field "success" (.bool success)] ++ optionalField "body" body ++
      optionalField "message" (message.map .string))

namespace Server

/-- The response to a request, unless the source panics. -/
def handle (disk : Disk) (server : Server) (request : Json) : Option (Json × Server) :=
  let sequence := server.sequence + 1
  let command := commandOf request
  let arguments := (request.get "arguments").getD .null
  let (answer, service) := dispatch disk server.service command arguments
  match answer with
  | .ok body =>
    some (response sequence (sequenceOf request) command true body none, ⟨service, sequence⟩)
  | .error (.error message) =>
    some (response sequence (sequenceOf request) command false none (some message),
      ⟨service, sequence⟩)
  | .error .panic => none

end Server

/-- Why the server stops. -/
inductive Ending
  | ended | exited | failed (error : ReadError) | panicked
deriving DecidableEq

namespace Server

/-- The output for an input, and why it ends. Requests meet the disks in their order. -/
def run (disks : Nat → Disk) (server : Server) (input : List UInt8) : List UInt8 × Ending :=
  match _hread : readFramedMessage input with
  | .error error => ([], .failed error)
  | .ok none => ([], .ended)
  | .ok (some (request, rest)) =>
    match server.handle (disks server.sequence) request with
    | none => ([], .panicked)
    | some (response, behind) =>
      let written := writeFramedMessage response
      if commandOf request = "exit".toList then (written, .exited)
      else
        let (output, ending) := run disks behind rest
        (written ++ output, ending)
termination_by input.length
decreasing_by exact length_readFramedMessage _hread

end Server

end Tsz.Service
