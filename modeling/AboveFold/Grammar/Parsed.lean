import AboveFold.Node.Kind
import AboveFold.Source.Span

/-!
# What reading a stylesheet yields

A `Parsed` tree has a span at every node. Lists of component values are trimmed of whitespace and
split at commas; what these operations leave out is handed back beside what they keep, because every
node that was read is accounted for.
-/

namespace AboveFold
open Source Node

/-- A node as it was read. -/
inductive Parsed where
  | node (kind : Node.Kind) (span : ByteSpan) (children : List Parsed)

namespace Parsed

/-- The kind of the node. -/
def kind : Parsed → Node.Kind
  | node kind _ _ => kind

/-- The bytes that the node was read from. -/
def span : Parsed → ByteSpan
  | node _ span _ => span

/-- The children of the node. -/
def children : Parsed → List Parsed
  | node _ _ children => children

/-- A node without children. -/
def leaf (kind : Node.Kind) (span : ByteSpan) : Parsed := node kind span []

/-- Whether the node is whitespace. -/
def isWhitespace (p : Parsed) : Bool := p.kind.isWhitespace

/-- Whether the node is a comma. -/
def isComma (p : Parsed) : Bool := p.kind = .comma

/-- The span from the first node of a list through the last. -/
def cover : List Parsed → Option ByteSpan
  | [] => none
  | p :: ps => some ⟨p.span.start, ((p :: ps).getLast (by simp)).span.stop⟩

/-- A list of nodes without the whitespace at its ends. -/
def trim (ps : List Parsed) : List Parsed :=
  ((ps.dropWhile isWhitespace).reverse.dropWhile isWhitespace).reverse

/-- The whitespace at the ends of a list, which `trim` leaves out. -/
def trimmings (ps : List Parsed) : List Parsed :=
  ps.takeWhile isWhitespace ++ (ps.dropWhile isWhitespace).reverse.takeWhile isWhitespace

/-- The groups between the commas of a list. There is always at least one. -/
def splitAtCommas : List Parsed → List (List Parsed)
  | [] => [[]]
  | p :: ps =>
    if p.isComma then [] :: splitAtCommas ps
    else
      match splitAtCommas ps with
      | [] => [[p]]
      | group :: groups => (p :: group) :: groups

end Parsed

end AboveFold
