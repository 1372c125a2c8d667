import AboveFold.Source.Position

/-!
# Spans of a stylesheet

A `ByteSpan` is the half-open range of bytes that a node was read from. A `Span` has full positions
at both ends and names the file when it is known; diagnostics carry it. `Span.resolve` goes from the
one to the other, `Span.bytes` back.
-/

namespace AboveFold.Source

/-- The bytes from `start` up to, not including, `stop`. -/
structure ByteSpan where
  start : Nat
  stop : Nat
deriving DecidableEq, Repr

namespace ByteSpan

/-- The smallest span around two spans. -/
def cover (a b : ByteSpan) : ByteSpan :=
  ⟨min a.start b.start, max a.stop b.stop⟩

/-- The number of bytes, for a span that is not backwards. -/
def length (s : ByteSpan) : Nat :=
  s.stop - s.start

/-- Whether the span holds no byte. -/
def isEmpty (s : ByteSpan) : Bool :=
  s.start == s.stop

/-- The text that the span covers, if it lies in `source` on boundaries of characters. -/
def slice (s : ByteSpan) (source : String) : Option String :=
  (Text.slice source.toList s.start s.stop).map String.ofList

end ByteSpan

/-- The place that a diagnostic points to. -/
structure Span where
  start : Position
  stop : Position
  path : Option String
deriving DecidableEq, Repr

namespace Span

/-- The positions at the ends of a range of bytes. -/
def resolve (source : String) (bytes : ByteSpan) (path : Option String) : Span :=
  ⟨.of source bytes.start, .of source bytes.stop, path⟩

/-- The range of bytes, without lines and columns. -/
def bytes (s : Span) : ByteSpan :=
  ⟨s.start.offset, s.stop.offset⟩

/-- The text that the span covers. -/
def slice (s : Span) (source : String) : Option String :=
  s.bytes.slice source

end Span

end AboveFold.Source
