import Mathlib.Data.List.Basic

/-!
# Host paths

The path library the program runs on, as it reads a path on a POSIX host: a path is its text,
and everything else about it is derived from its components.

## Main definitions

* `Path.components` — the components of a path.
* `Path.push`, `Path.parent`, `Path.withFileName` — the edits made to paths.
* `Path.normalizeLexically` — the lexical normal form, in the two forms the program uses.
-/

namespace Tsz.Project

abbrev Name := List Char

instance : LawfulBEq Name := inferInstanceAs (LawfulBEq (List Char))

inductive Component
  | rootDir
  | curDir
  | parentDir
  | normal (name : Name)
deriving DecidableEq, Repr

namespace Component

def text : Component → Name
  | .rootDir => ['/']
  | .curDir => ['.']
  | .parentDir => ['.', '.']
  | .normal name => name

/-- What a piece between two separators stands for after the first one. -/
def ofPiece : Name → Option Component
  | [] => none
  | ['.'] => none
  | ['.', '.'] => some .parentDir
  | name => some (.normal name)

end Component

structure Path where
  text : Name
deriving DecidableEq, Repr

namespace Path

def isAbsolute (path : Path) : Bool := path.text.head? == some '/'

/-- The pieces between the separators, without the root. -/
def pieces (path : Path) : List Name :=
  if path.isAbsolute then path.text.tail.splitOn '/' else path.text.splitOn '/'

/-- A dot is a component of its own only where a relative path starts. -/
def leading (path : Path) : List Component :=
  if path.isAbsolute then [.rootDir]
  else if path.pieces.head? = some ['.'] then [.curDir] else []

def components (path : Path) : List Component :=
  path.leading ++ path.pieces.filterMap Component.ofPiece

def ofPieces (absolute : Bool) (pieces : List Name) : Path :=
  ⟨(if absolute then ['/'] else []) ++ ['/'].intercalate pieces⟩

/-- The pieces up to the last one that is a component; `lead` says that a dot in front is one. -/
def trimPieces (lead : Bool) : List Name → List Name
  | [] => []
  | piece :: rest =>
    match trimPieces false rest with
    | [] => if (Component.ofPiece piece).isSome || (lead && piece == ['.']) then [piece] else []
    | kept => piece :: kept

def parent (path : Path) : Option Path :=
  let lead := !path.isAbsolute
  match trimPieces lead path.pieces with
  | [] => none
  | kept => some (ofPieces path.isAbsolute (trimPieces lead kept.dropLast))

def push (path other : Path) : Path :=
  if other.isAbsolute then other
  else if path.text = [] ∨ path.text.getLast? = some '/' then ⟨path.text ++ other.text⟩
  else ⟨path.text ++ '/' :: other.text⟩

def join (path other : Path) : Path := path.push other

/-- The parent, or the path itself where it has none. -/
def pop (path : Path) : Path := path.parent.getD path

def fileName (path : Path) : Option Name :=
  match path.components.getLast? with
  | some (.normal name) => some name
  | _ => none

def withFileName (path : Path) (name : Name) : Path :=
  if path.fileName.isSome then path.pop.push ⟨name⟩ else path.push ⟨name⟩

/-- The part of a file name in front of its last dot and the part behind it; a dot in front of
the whole name is no separator. -/
def splitExtension (name : Name) : Name × Option Name :=
  let after := (name.reverse.takeWhile (· != '.')).reverse
  let before := name.take (name.length - after.length - 1)
  if name = ['.', '.'] ∨ before = [] then (name, none) else (before, some after)

def fileStem (path : Path) : Option Name := path.fileName.map fun name => (splitExtension name).1

def extension (path : Path) : Option Name :=
  path.fileName.bind fun name => (splitExtension name).2

def ofComponents (components : List Component) : Path :=
  components.foldl (fun path component => path.push ⟨component.text⟩) ⟨[]⟩

def startsWith (path base : Path) : Bool := base.components.isPrefixOf path.components

def endsWith (path child : Path) : Bool := child.components.isSuffixOf path.components

/-- The rest of a path below a base; the program strips only normalised paths, whose text is
the one their components spell. -/
def stripPrefix (path base : Path) : Option Path :=
  if path.startsWith base then
    some (ofComponents (path.components.drop base.components.length))
  else none

/-- One component added to a path that is normalised so far. -/
def normalizeStep (absolute collapseParents : Bool) (normalized : Path) :
    Component → Path
  | .curDir => normalized
  | .parentDir =>
    if collapseParents then
      match normalized.parent with
      | some parent => parent
      | none => normalized.push ⟨Component.parentDir.text⟩
    else
      match normalized.components.getLast? with
      | some (.normal _) => normalized.pop
      | some .rootDir => normalized
      | some .parentDir | none =>
        if absolute then normalized else normalized.push ⟨Component.parentDir.text⟩
      -- dots are removed as they are met
      | some .curDir => normalized.push ⟨Component.parentDir.text⟩
  | component => normalized.push ⟨component.text⟩

def normalizeLexically (collapseParents : Bool) (path : Path) : Path :=
  path.components.foldl (normalizeStep path.isAbsolute collapseParents) ⟨[]⟩

def normalizeClampedPathLexically (path : Path) : Path := path.normalizeLexically false

def normalizeProjectPathLexically (path : Path) : Path := path.normalizeLexically true

/-- The text of a path with every backslash read as a separator. -/
def displayPath (path : Path) : Name :=
  path.text.map fun c => if c = '\\' then '/' else c

end Path

end Tsz.Project
