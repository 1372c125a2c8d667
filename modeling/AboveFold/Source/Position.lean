import AboveFold.Text.Ascii
import AboveFold.Text.Utf8

/-!
# Positions in a stylesheet

A position is a line, two columns and a byte offset, all counted from 0. Line feed, carriage return,
form feed and the pair of carriage return and line feed each end one line. A `Cursor` moves over
text one character at a time, and the position of an offset (`Position.of`) is where the cursor
stands after the characters before it.
-/

namespace AboveFold.Source

/-- A place in a stylesheet. `column` counts characters and `column16` 16-bit units from the start
of the line; `offset` counts bytes from the start of the text. -/
structure Position where
  line : Nat
  column : Nat
  column16 : Nat
  offset : Nat
deriving DecidableEq, Repr

/-- The start of every text. -/
def Position.start : Position := ⟨0, 0, 0, 0⟩

/-- A position on its way through a text. `afterReturn` says that a carriage return came last, so
that a line feed coming next ends no further line. -/
structure Cursor where
  position : Position
  afterReturn : Bool
deriving DecidableEq, Repr

namespace Cursor

/-- The cursor at the start of a text. -/
def start : Cursor := ⟨.start, false⟩

/-- Moves over one character. -/
def step (k : Cursor) (c : Char) : Cursor :=
  let p := k.position
  let offset := p.offset + c.utf8Size
  if c = '\n' && k.afterReturn then ⟨{ p with offset }, false⟩
  else if Text.isLineEnd c then ⟨⟨p.line + 1, 0, 0, offset⟩, c = '\r'⟩
  else ⟨⟨p.line, p.column + 1, p.column16 + Text.units16 c, offset⟩, false⟩

/-- Moves over a text. -/
def walk (k : Cursor) (cs : List Char) : Cursor :=
  cs.foldl step k

@[simp] theorem walk_nil (k : Cursor) : k.walk [] = k := rfl

@[simp] theorem walk_cons (k : Cursor) (c : Char) (cs : List Char) :
    k.walk (c :: cs) = (k.step c).walk cs := rfl

theorem walk_append (k : Cursor) (a b : List Char) : k.walk (a ++ b) = (k.walk a).walk b := by
  simp [walk]

@[simp] theorem offset_step (k : Cursor) (c : Char) :
    (k.step c).position.offset = k.position.offset + c.utf8Size := by
  unfold step
  split
  · rfl
  · split <;> rfl

/-- The offset grows by the bytes moved over. -/
@[simp] theorem offset_walk (k : Cursor) (cs : List Char) :
    (k.walk cs).position.offset = k.position.offset + Text.byteSize cs := by
  induction cs generalizing k with
  | nil => rfl
  | cons c cs ih => simp [ih, Text.byteSize, Nat.add_assoc]

end Cursor

/-- The position of a byte offset: an offset inside a character counts as that character's start,
and one beyond the end as the end. -/
def Position.of (source : String) (offset : Nat) : Position :=
  (Cursor.start.walk (Text.floorPrefix source.toList offset)).position

end AboveFold.Source
