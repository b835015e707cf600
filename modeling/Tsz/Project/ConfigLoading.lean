import Tsz.Project.Discovery

/-!
# Loading of configurations

A configuration may extend others, which are loaded before it and whose settings it overrides.
A configuration that is being loaded is on the stack, and meeting it again is a circularity; one
that was loaded completely is kept in a cache.

## Main definitions

* `Reader` — the file system, and how a configuration's text is read and decoded.
* `resolveExtendsPath` — the file an `extends` entry names.
* `loadConfig` — the loader; `loadConfigUncached` is the same loader without a cache.
-/

namespace Tsz.Project

/-- The path and its ancestors; every parent is shorter than its child. -/
def Path.ancestorsFrom : Nat → Path → List Path
  | 0, _ => []
  | length + 1, path =>
    path :: match path.parent with
      | some parent => ancestorsFrom length parent
      | none => []

def Path.ancestors (path : Path) : List Path := ancestorsFrom (path.text.length + 1) path

namespace Config

/-! ## Documents -/

inductive Json
  | null
  | bool (value : Bool)
  | number (text : Name)
  | string (value : Name)
  | array (values : List Json)
  | object (entries : List (Name × Json))

namespace Json

def asStr : Json → Option Name
  | string value => some value
  | _ => none

def asArray : Json → Option (List Json)
  | array values => some values
  | _ => none

def asObject : Json → Option (List (Name × Json))
  | object entries => some entries
  | _ => none

def get (value : Json) (key : String) : Option Json :=
  value.asObject.bind (·.lookup key.toList)

end Json

/-- The start and the length of a piece of a file. -/
abbrev TextRange := Nat × Nat

structure ConfigOptionSpans where
  key : TextRange
  value : Option TextRange

structure ConfigOptionOccurrence where
  name : Name
  value : Json
  span : ConfigOptionSpans

structure JsoncDocument where
  value : Json
  compilerOptions : List ConfigOptionOccurrence
  compilerOptionsKey : Option TextRange
  references : List TextRange

inductive Diagnostic
  | global (message : Name) (code : Nat)
  | errorAtText (file : Name) (start length : Nat) (text message : Name) (code : Nat)

structure CompilerOptionOrigin where
  file : Name
  sourceText : Name
  span : ConfigOptionSpans

/-! ## Settings -/

/-- The options a configuration may set: their keys, and what they are set to. -/
structure OptionSchema where
  Key : Type
  Value : Type
  Deferred : Type
  DeferredValue : Type

/-- Entries that the other table has replace those of the first. -/
def overlay {α β : Type} (table other : α → Option β) : α → Option β :=
  fun key => (other key).or (table key)

structure CompilerOptionPatch (S : OptionSchema) where
  options : S.Key → Option S.Value
  deferredOptions : S.Deferred → Option S.DeferredValue

def CompilerOptionPatch.mergeFrom {S : OptionSchema} (patch other : CompilerOptionPatch S) :
    CompilerOptionPatch S where
  options := overlay patch.options other.options
  deferredOptions := overlay patch.deferredOptions other.deferredOptions

structure DecodedCompilerOptions (S : OptionSchema) where
  patch : CompilerOptionPatch S
  optionOrigins : S.Key → Option CompilerOptionOrigin
  authoredOptionOrigins : S.Key → Option CompilerOptionOrigin
  deferredDiagnostics : S.Deferred → Option (Option Diagnostic)

structure MergedConfig (S : OptionSchema) where
  options : CompilerOptionPatch S
  optionOrigins : S.Key → Option CompilerOptionOrigin
  deferredOptionDiagnostics : S.Deferred → Option (Option Diagnostic)
  files : Option Selector
  includes : Option Selector
  excludes : Option Selector
  ownHasExtends : Bool
  ownHasReferences : Bool

namespace MergedConfig

variable {S : OptionSchema}

def empty : MergedConfig S where
  options := ⟨fun _ => none, fun _ => none⟩
  optionOrigins _ := none
  deferredOptionDiagnostics _ := none
  files := none
  includes := none
  excludes := none
  ownHasExtends := false
  ownHasReferences := false

def mergeFrom (merged other : MergedConfig S) : MergedConfig S :=
  { merged with
    options := merged.options.mergeFrom other.options
    optionOrigins := overlay merged.optionOrigins other.optionOrigins
    deferredOptionDiagnostics :=
      overlay merged.deferredOptionDiagnostics other.deferredOptionDiagnostics
    files := other.files.or merged.files
    includes := other.includes.or merged.includes
    excludes := other.excludes.or merged.excludes }

end MergedConfig

structure LoadedConfig (S : OptionSchema) where
  merged : MergedConfig S
  complete : Bool

/-! ## Surroundings -/

structure ConfigHost extends Host where
  currentDirectory : Path
  fileExists : Path → Bool
  readFile : Path → Option Name

/-- A host, the reading of texts, and the decoding of the compiler options of a document in a
directory: what they set, and the diagnostics. -/
structure Reader (S : OptionSchema) extends ConfigHost where
  parseJsonc : Name → Option JsoncDocument
  decodeCompilerOptions : List ConfigOptionOccurrence → Path → Path → Name →
    DecodedCompilerOptions S × List Diagnostic

/-- The state of the resolver, as far as loading changes it. -/
structure Resolver (S : OptionSchema) where
  diagnostics : List Diagnostic
  programDiagnostics : List Diagnostic
  projectConfigCount : Nat
  projectReferenceCount : Nat
  seenConfigs : List Name
  cache : List (Name × LoadedConfig S)
  incompleteConfigs : List Name
  entryOptionOrigins : S.Key → Option CompilerOptionOrigin
  entryCompilerOptionsOrigin : Option CompilerOptionOrigin

namespace Resolver

variable {S : OptionSchema}

def new : Resolver S where
  diagnostics := []
  programDiagnostics := []
  projectConfigCount := 0
  projectReferenceCount := 0
  seenConfigs := []
  cache := []
  incompleteConfigs := []
  entryOptionOrigins _ := none
  entryCompilerOptionsOrigin := none

def report (resolver : Resolver S) (diagnostic : Diagnostic) : Resolver S :=
  { resolver with diagnostics := resolver.diagnostics ++ [diagnostic] }

def remember (resolver : Resolver S) (name : Name) (loaded : LoadedConfig S) : Resolver S :=
  { resolver with cache := (name, loaded) :: resolver.cache }

/-- Count a configuration that was not seen before. -/
def see (resolver : Resolver S) (key : Name) : Resolver S :=
  if key ∈ resolver.seenConfigs then resolver
  else
    { resolver with
      seenConfigs := key :: resolver.seenConfigs
      projectConfigCount := resolver.projectConfigCount + 1 }

end Resolver

/-! ## Paths -/

def stringValues (value : Option Json) (allowScalar : Bool) : Option (List Name) :=
  match value with
  | some (.string value) => if allowScalar then some [value] else none
  | some (.array values) => some (values.filterMap Json.asStr)
  | _ => none

/-- The path relative to a directory, with a step up for every name the directory has more. -/
def logicalPathFromHost (currentDirectory path : Path) : Path :=
  let currentDirectory := normalizePath currentDirectory
  let path := normalizePath path
  match path.stripPrefix currentDirectory with
  | some relative => relative
  | none =>
    let base := currentDirectory.components
    let components := path.components
    let common := ((base.zip components).takeWhile fun (left, right) => left = right).length
    if common = 0 then path
    else
      let up := (base.drop common).filterMap fun
        | .normal _ => some ("..".toList)
        | _ => none
      (up ++ (components.drop common).map (·.text)).foldl (fun path name => path.push ⟨name⟩) ⟨[]⟩

def configFileName : Path := ⟨"tsconfig.json".toList⟩

section

variable {S : OptionSchema} (reader : Reader S)

def withJsonExtension (path : Path) : Path := ⟨path.text ++ ".json".toList⟩

def packageConfigCandidates (package : Path) : List Path :=
  let extended := if package.extension.isNone then [withJsonExtension package] else []
  let nested :=
    if reader.directoryExists package then
      let named :=
        ((reader.readFile (package.join ⟨"package.json".toList⟩)).bind reader.parseJsonc).bind
          fun document => (document.value.get "tsconfig").bind Json.asStr
      (named.map fun config => absolutePath package ⟨config⟩).toList ++
        [package.join configFileName]
    else []
  package :: extended ++ nested

/-- The configuration an entry of `extends` names: a path, or a package of some directory above. -/
def extendsPath (directory : Path) (raw : Name) : Option Path :=
  let relative := "./".toList.isPrefixOf raw || "../".toList.isPrefixOf raw
  let rawPath : Path := ⟨raw⟩
  if relative || rawPath.isAbsolute then
    let candidate := absolutePath directory rawPath
    if reader.fileExists candidate then some candidate
    else if candidate.extension.isNone && reader.fileExists (withJsonExtension candidate) then
      some (withJsonExtension candidate)
    else none
  else
    directory.ancestors.findSome? fun base =>
      let package := (base.join ⟨"node_modules".toList⟩).join rawPath
      ((packageConfigCandidates reader package).find? reader.fileExists).map normalizePath

def notFound (raw : Name) : Diagnostic := .global ("File '".toList ++ raw ++ "' not found.".toList) 6053

def resolveExtendsPath (directory : Path) (raw : Name) (resolver : Resolver S) :
    Option Path × Resolver S :=
  match extendsPath reader directory raw with
  | some path => (some path, resolver)
  | none => (none, resolver.report (notFound raw))

/-! ## Loading -/

structure ProjectReference where
  path : Path
  sourceStart : Nat
  sourceLength : Nat

def projectReferences (value : Json) (spans : List TextRange) (origin : Path) :
    List ProjectReference :=
  let references := (((value.get "references").bind Json.asArray).getD []).filterMap fun value =>
    value.asObject.map fun entries => Json.object entries
  references.zipIdx.filterMap fun (reference, index) =>
    ((reference.get "path").bind Json.asStr).map fun raw =>
      let (sourceStart, sourceLength) := spans.getD index (0, 0)
      { path := absolutePath origin ⟨raw⟩, sourceStart, sourceLength }

/-- The diagnostic of a project reference whose configuration does not exist. -/
def referenceDiagnostic (path : Path) (text : Name) (reference : ProjectReference) :
    Option Diagnostic :=
  let resolved :=
    if reference.path.extension = some "json".toList then reference.path
    else reference.path.join configFileName
  if reader.fileExists resolved then none
  else
    some (.errorAtText (logicalPathFromHost reader.currentDirectory path).displayPath
      reference.sourceStart reference.sourceLength text
      ("File '".toList ++ reference.path.displayPath ++ "' not found.".toList) 6053)

def key (path : Path) : Name := pathKey path reader.caseSensitive

def readDocument (path : Path) : Option (Name × JsoncDocument) := do
  let text ← reader.readFile path
  let document ← reader.parseJsonc text
  pure (text, document)

def directoryOf (path : Path) : Path := path.parent.getD ⟨['.']⟩

def extendsValues (document : JsoncDocument) : List Name :=
  (stringValues (document.value.get "extends") true).getD []

def circularity (stack : List Path) (path : Path) : Diagnostic :=
  let chain := (stack ++ [path]).map Path.displayPath
  .global ("Circularity detected while resolving configuration: ".toList ++
    " -> ".toList.intercalate chain) 18000

def cannotRead (path : Path) : Diagnostic :=
  .global ("Cannot read file '".toList ++ path.displayPath ++ "'.".toList) 5083

/-- Remember a circle, from the first time the stack meets the configuration. -/
def reportCircle (resolver : Resolver S) (circle : List Path) (path : Path) : Resolver S :=
  { resolver with
    incompleteConfigs := key reader path :: circle.map (key reader) ++ resolver.incompleteConfigs
  }.report (circularity circle path)

/-- The settings of a document over those of its bases. -/
def ownSettings (directory : Path) (document : JsoncDocument)
    (decoded : DecodedCompilerOptions S) (merged : MergedConfig S) : MergedConfig S :=
  let selector (name : String) (base : Option Selector) : Option Selector :=
    match stringValues (document.value.get name) false with
    | some values => some ⟨normalizePath directory, values⟩
    | none => base
  { options := merged.options.mergeFrom decoded.patch
    optionOrigins := overlay merged.optionOrigins decoded.optionOrigins
    deferredOptionDiagnostics :=
      overlay merged.deferredOptionDiagnostics decoded.deferredDiagnostics
    files := selector "files" merged.files
    includes := selector "include" merged.includes
    excludes := selector "exclude" merged.excludes
    ownHasExtends := (document.value.get "extends").isSome
    ownHasReferences := (document.value.get "references").isSome }

/-- What only the entry of a project leaves behind. -/
def recordEntry (path : Path) (text : Name) (document : JsoncDocument)
    (decoded : DecodedCompilerOptions S) (resolver : Resolver S) : Resolver S :=
  let logicalPath := logicalPathFromHost reader.currentDirectory path
  let references :=
    projectReferences (.object (document.value.asObject.getD [])) document.references
      (directoryOf path)
  { resolver with
    entryOptionOrigins := decoded.authoredOptionOrigins
    entryCompilerOptionsOrigin := document.compilerOptionsKey.map fun range =>
      { file := logicalPath.displayPath, sourceText := text, span := ⟨range, none⟩ }
    projectReferenceCount := references.length
    programDiagnostics :=
      resolver.programDiagnostics ++ references.filterMap (referenceDiagnostic reader path text) }

/-- Merge the bases a document names, in order, given how one is loaded. -/
def loadBases (load : Path → Resolver S → Option (Option (LoadedConfig S) × Resolver S))
    (directory : Path) :
    List Name → MergedConfig S → Bool → Resolver S →
      Option (MergedConfig S × Bool × Resolver S)
  | [], merged, basesComplete, resolver => some (merged, basesComplete, resolver)
  | raw :: rest, merged, basesComplete, resolver =>
    match resolveExtendsPath reader directory raw resolver with
    | (none, resolver) => loadBases load directory rest merged basesComplete resolver
    | (some path, resolver) => do
      let (base, resolver) ← load path resolver
      match base with
      | some base =>
        loadBases load directory rest (merged.mergeFrom base.merged)
          (basesComplete && base.complete) resolver
      | none => loadBases load directory rest merged basesComplete resolver

def decodeDocument (path : Path) (text : Name) (document : JsoncDocument) :
    DecodedCompilerOptions S × List Diagnostic :=
  reader.decodeCompilerOptions document.compilerOptions (directoryOf path)
    (logicalPathFromHost reader.currentDirectory path) text

/-- What is done once the bases of a document are merged. -/
def finish (path : Path) (isEntry : Bool) (text : Name) (document : JsoncDocument)
    (merged : MergedConfig S) (basesComplete : Bool) (resolver : Resolver S) :
    LoadedConfig S × Resolver S :=
  let (decoded, diagnostics) := decodeDocument reader path text document
  let resolver := { resolver with diagnostics := resolver.diagnostics ++ diagnostics }
  let resolver := if isEntry then recordEntry reader path text document decoded resolver else resolver
  let loaded : LoadedConfig S := {
    merged := ownSettings (directoryOf path) document decoded merged
    complete := basesComplete && key reader path ∉ resolver.incompleteConfigs }
  (loaded,
    if loaded.complete then resolver.remember (key reader path) loaded else resolver)

/-- Load a configuration; the first argument says what the cache serves, the second one bounds
the nesting. -/
def loadConfigFrom (serve : List (Name × LoadedConfig S) → Name → Option (LoadedConfig S)) :
    Nat → Path → List Path → Bool → Resolver S → Option (Option (LoadedConfig S) × Resolver S)
  | 0, _, _, _, _ => none
  | depth + 1, path, stack, isEntry, resolver =>
    let path := normalizePath path
    match stack.findIdx? fun item => key reader item = key reader path with
    | some cycleStart => some (none, reportCircle reader resolver (stack.drop cycleStart) path)
    | none =>
      match serve resolver.cache (key reader path) with
      | some cached => some (some cached, resolver)
      | none =>
        let resolver := resolver.see (key reader path)
        match readDocument reader path with
        | none => some (none, resolver.report (cannotRead path))
        | some (text, document) => do
          let load (base : Path) := loadConfigFrom serve depth base (stack ++ [path]) false
          let (merged, basesComplete, resolver) ←
            loadBases reader load (directoryOf path) (extendsValues document) .empty true resolver
          let (loaded, resolver) :=
            finish reader path isEntry text document merged basesComplete resolver
          pure (some loaded, resolver)

def loadConfig := loadConfigFrom reader fun cache key => cache.lookup key

/-- The loader that never looks into the cache. -/
def loadConfigUncached := loadConfigFrom reader fun _ _ => none

end

end Config

end Tsz.Project
