/-!
# Source identity and spans

File, node and declaration identities, and the byte spans every later phase carries.
-/

namespace Tsz

structure FileId where
  index : Nat
deriving DecidableEq, Repr

structure NodeId where
  index : Nat
deriving DecidableEq, Repr

structure DeclId where
  file : FileId
  index : Nat
deriving DecidableEq, Repr

/-- A half-open range of UTF-8 byte offsets of one file. -/
structure Span where
  file : FileId
  start : Nat
  stop : Nat
deriving DecidableEq, Repr

namespace Span

def len (s : Span) : Nat := s.stop - s.start

def isEmpty (s : Span) : Bool := s.stop ≤ s.start

def merge (s t : Span) : Span where
  file := s.file
  start := if s.start < t.start then s.start else t.start
  stop := if s.stop > t.stop then s.stop else t.stop

end Span

inductive SourceKind
  | typeScript
  | typeScriptJsx
  | javaScript
  | javaScriptJsx
deriving DecidableEq, Repr

def SourceKind.supportsExpressionTypeArguments : SourceKind → Bool
  | .typeScript | .typeScriptJsx => true
  | .javaScript | .javaScriptJsx => false

end Tsz
