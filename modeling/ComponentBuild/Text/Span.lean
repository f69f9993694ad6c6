import ComponentBuild.Text.Offset
import ComponentBuild.Word

namespace ComponentBuild

/-- The bytes from `start` up to, not including, `stop`. Offsets are those of texts below 4 GiB, so
that words hold them. -/
structure Span where
  start : Nat
  stop : Nat
  deriving DecidableEq, Repr, Inhabited

namespace Span

def empty (offset : Nat) : Span := ⟨offset, offset⟩

def length (s : Span) : Nat := s.stop - s.start

def isEmpty (s : Span) : Bool := s.start == s.stop

def contains (s : Span) (offset : Nat) : Bool := s.start ≤ offset && offset < s.stop

/-- Moves a span of a section into the document that holds the section. -/
def offsetBy (s : Span) (delta : Nat) : Checked Span :=
  return ⟨← fitting (s.start + delta), ← fitting (s.stop + delta)⟩

/-- The text under a span; nothing where an end is out of bounds or inside a character. -/
def slice? (s : Span) (text : String) : Option String :=
  (Text.slice? text.toList s.start s.stop).map String.ofList

end Span

end ComponentBuild
