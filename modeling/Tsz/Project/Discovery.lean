import Tsz.Project.Path
import Tsz.Sorting.StableSort
import Mathlib.Data.Char
import Mathlib.Data.List.DropRight
import Mathlib.Data.List.Lex
import Mathlib.Data.Prod.Lex

/-!
# Discovery of the files a configuration includes

The patterns of a configuration are made absolute, the directories below each are walked, and
the files that a pattern matches are collected in order.

## Main definitions

* `Host` — the file system, as far as discovery asks it.
* `globMatches` — whether an absolute pattern matches a file.
* `visitDirectory` — the walk, which skips package and hidden directories that the pattern does
  not mention.
* `discoverWildcardFiles` — the files that are included.
-/

namespace Tsz.Project

open Sorting

/-- The order of paths: by their components, roots and dots before names. -/
def Component.rank : Component → Nat
  | .rootDir => 0
  | .curDir => 1
  | .parentDir => 2
  | .normal _ => 3

def Path.orderKey (path : Path) : List (Nat ×ₗ Name) :=
  path.components.map fun component => toLex (component.rank, component.text)

structure HostEntry where
  path : Path
  isFile : Bool
  isDirectory : Bool
deriving DecidableEq

structure Host where
  caseSensitive : Bool
  directoryExists : Path → Bool
  /-- The entries of a directory in the order the file system lists them, if it can be read. -/
  readDirectory : Path → Option (List HostEntry)
  realpath : Path → Path

namespace Config

def normalizePath (path : Path) : Path := path.normalizeProjectPathLexically

def absolutePath (base path : Path) : Path :=
  if path.isAbsolute then normalizePath path else normalizePath (base.join path)

def foldCase (caseSensitive : Bool) (text : Name) : Name :=
  if caseSensitive then text else text.map Char.toLower

def pathKey (path : Path) (caseSensitive : Bool) : Name := foldCase caseSensitive path.displayPath

/-! ## Patterns -/

/-- Patterns, and the directory they are relative to. -/
structure Selector where
  origin : Path
  values : List Name

def slashes (text : Name) : Name := text.map fun c => if c = '\\' then '/' else c

def absolutePattern (origin : Path) (raw : Name) : Name :=
  (absolutePath origin ⟨slashes raw⟩).displayPath

def isWildcard (c : Char) : Bool := c = '*' || c = '?'

def hasWildcard (text : Name) : Bool := text.any isWildcard

def trimEndSlashes (text : Name) : Name := text.rdropWhile (· = '/')

def includePattern (origin : Path) (raw : Name) (host : Host) : Name :=
  let absolute := absolutePattern origin raw
  if !hasWildcard absolute && host.directoryExists ⟨absolute⟩ then
    trimEndSlashes absolute ++ "/**/*".toList
  else absolute

/-- The directory to walk for a pattern: the part in front of its first wildcard. -/
def traversalBase (pattern : Name) (host : Host) : Option Path :=
  let path : Path := ⟨pattern⟩
  if !hasWildcard pattern then
    if host.directoryExists path then some path else path.parent
  else
    let base := Path.ofComponents (path.components.takeWhile fun c => !hasWildcard c.text)
    if base.text = [] then none else some base

/-- Whether a matcher accepts some end of a list, the longest first. -/
def matchesEnd {α : Type} (accepts : List α → Bool) : List α → Bool
  | [] => accepts []
  | c :: cs => accepts (c :: cs) || matchesEnd accepts cs

def globSegmentChars : Name → Name → Bool
  | [], candidate => candidate.isEmpty
  | head :: rest, candidate =>
    if head = '*' then matchesEnd (globSegmentChars rest) candidate
    else
      match candidate with
      | [] => false
      | c :: cs => (head = '?' || c = head) && globSegmentChars rest cs

def startsWithDot (text : Name) : Bool := text.head? = some '.'

/-- A wildcard that starts a name does not match a hidden one. -/
def globSegment (pattern candidate : Name) : Bool :=
  if startsWithDot candidate && !startsWithDot pattern && hasWildcard pattern then false
  else globSegmentChars pattern candidate

def globParts : List Name → List Name → Bool
  | [], candidate => candidate.isEmpty
  | segment :: rest, candidate =>
    if segment = ['*', '*'] then matchesEnd (globParts rest) candidate
    else
      match candidate with
      | [] => false
      | name :: names => globSegment segment name && globParts rest names

def parts (text : Name) : List Name := (text.splitOn '/').filter (· ≠ [])

def globMatches (pattern : Name) (file : Path) (caseSensitive : Bool) : Bool :=
  globParts (parts (foldCase caseSensitive pattern))
    (parts (foldCase caseSensitive file.displayPath))

def excludedBy (host : Host) (excludes : Selector) (file : Path) : Bool :=
  excludes.values.any fun raw =>
    let pattern := absolutePattern excludes.origin raw
    if hasWildcard pattern then globMatches pattern file host.caseSensitive
    else
      let pattern := foldCase host.caseSensitive (trimEndSlashes pattern)
      let file := foldCase host.caseSensitive file.displayPath
      file = pattern || (pattern ++ ['/']).isPrefixOf file

/-! ## Names of files and directories -/

def supportedSourceFile (path : Path) (allowJs : Bool) : Bool :=
  let name := path.fileName.getD []
  let endsWith (extension : String) := extension.toList.isSuffixOf name
  endsWith ".ts" || endsWith ".tsx" || endsWith ".cts" || endsWith ".mts" ||
    (allowJs && (endsWith ".js" || endsWith ".jsx" || endsWith ".cjs" || endsWith ".mjs"))

/-- The extensions that stand for the same module, each with its priority. -/
def extensionGroups : List (List (Name × Nat)) :=
  [[(".d.ts".toList, 2), (".tsx".toList, 1), (".ts".toList, 0), (".jsx".toList, 4),
      (".js".toList, 3)],
    [(".d.cts".toList, 1), (".cts".toList, 0), (".cjs".toList, 2)],
    [(".d.mts".toList, 1), (".mts".toList, 0), (".mjs".toList, 2)]]

/-- A file name without its extension, in one of the groups. -/
structure ExtensionIdentity where
  group : Nat
  stem : Name
deriving DecidableEq

def stripExtension (comparable : Name) : Option (ExtensionIdentity × Nat) :=
  extensionGroups.zipIdx.findSome? fun (extensions, group) =>
    extensions.findSome? fun (extension, priority) =>
      if extension.isSuffixOf comparable then
        some (⟨group, comparable.take (comparable.length - extension.length)⟩, priority)
      else none

def extensionIdentity (path : Path) (caseSensitive : Bool) : Option (ExtensionIdentity × Nat) :=
  stripExtension (foldCase caseSensitive path.displayPath)

def isPackageDirectory (name : Name) : Bool :=
  name = "node_modules".toList || name = "bower_components".toList ||
    name = "jspm_packages".toList

def isImplicitlyExcludedDirectory (name : Name) : Bool :=
  startsWithDot name || isPackageDirectory name

def patternExplicitlyIncludesDirectory (pattern directoryName : Name) (caseSensitive : Bool) :
    Bool :=
  let pattern := foldCase caseSensitive pattern
  let directoryName := foldCase caseSensitive directoryName
  (pattern.splitOn '/').any fun component =>
    if isPackageDirectory directoryName then component = directoryName
    else startsWithDot component && globSegment component directoryName

/-! ## The walk -/

/-- The directories that were visited, by their keys, and the files found so far. -/
structure Walk where
  visited : List Name
  files : List Path

/-- The children of a directory in the order of the walk. -/
def sortEntries (entries : List HostEntry) : List HostEntry :=
  sortByKey (fun entry => toLex (entry.path.fileName.toList, entry.path.orderKey)) entries

/-- Walk a directory, files first; the first argument bounds the depth of the walk. -/
def visitDirectory (host : Host) (includePattern : Name) : Nat → Path → Walk → Option Walk
  | 0, _, _ => none
  | depth + 1, directory, walk =>
    let key := pathKey (host.realpath directory) host.caseSensitive
    if key ∈ walk.visited then some walk
    else
      let walk := { walk with visited := key :: walk.visited }
      match host.readDirectory directory with
      | none => some walk
      | some entries =>
        let entries := sortEntries entries
        let found := (entries.filter (·.isFile)).map fun entry => normalizePath entry.path
        let walk := { walk with files := walk.files ++ found }
        (entries.filter (·.isDirectory)).foldlM (fun walk entry =>
          let name := entry.path.fileName.getD []
          if isImplicitlyExcludedDirectory name &&
              !patternExplicitlyIncludesDirectory includePattern name host.caseSensitive then
            some walk
          else visitDirectory host includePattern depth entry.path walk) walk

/-! ## Discovery -/

/-- The files taken so far; a file that a better extension replaced leaves a hole. -/
structure Discovered where
  result : List (Option Path)
  seen : List Name
  priorities : List (ExtensionIdentity × Nat × Nat)

/-- Take a file, unless a file with a better extension stands for the same module. -/
def admitIdentity (literals : List (ExtensionIdentity × Nat)) (found : Discovered) (file : Path)
    (identity : ExtensionIdentity) (priority : Nat) : Discovered :=
  if literals.any fun literal => literal.1 = identity && literal.2 < priority then found
  else
    let keep (result : List (Option Path)) : Discovered :=
      { found with
        result := result ++ [some file]
        priorities := (identity, priority, result.length) :: found.priorities }
    match found.priorities.lookup identity with
    | none => keep found.result
    | some (existingPriority, existingIndex) =>
      if existingPriority ≤ priority then found
      else keep (found.result.set existingIndex none)

/-- Take a file of the walk, if it is wanted and new. -/
def admitFile (host : Host) (pattern : Name) (excludes : Selector) (allowJs : Bool)
    (literals : List (ExtensionIdentity × Nat)) (found : Discovered) (file : Path) :
    Discovered :=
  if !supportedSourceFile file allowJs || !globMatches pattern file host.caseSensitive ||
      excludedBy host excludes file then found
  else
    let key := pathKey file host.caseSensitive
    if key ∈ found.seen then found
    else
      let found := { found with seen := key :: found.seen }
      match extensionIdentity file host.caseSensitive with
      | none => found
      | some (identity, priority) => admitIdentity literals found file identity priority

def discoverPattern (depth : Nat) (host : Host) (includes excludes : Selector) (allowJs : Bool)
    (literals : List (ExtensionIdentity × Nat)) (found : Discovered) (raw : Name) :
    Option Discovered :=
  let pattern := includePattern includes.origin raw host
  match traversalBase pattern host with
  | none => some found
  | some base => do
    let walk ← visitDirectory host pattern depth base ⟨[], []⟩
    pure (walk.files.foldl (admitFile host pattern excludes allowJs literals) found)

def discoverWildcardFiles (depth : Nat) (host : Host) (includes excludes : Selector)
    (allowJs : Bool) (literalFiles : List Path) : Option (List Path) := do
  let literals := literalFiles.filterMap fun path => extensionIdentity path host.caseSensitive
  let found ← includes.values.foldlM
    (discoverPattern depth host includes excludes allowJs literals) ⟨[], [], []⟩
  pure (found.result.filterMap id)

end Config

end Tsz.Project
