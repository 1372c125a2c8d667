/-!
# Lines of a text

A line ends at a line feed, and a carriage return just before that line feed belongs to the end. The
last line needs no end, and a text that ends with a line feed has no further line.
-/

namespace AboveFold.Text

/-- Drops one carriage return at the end of a line. -/
def dropReturn (line : List Char) : List Char :=
  if line.getLast? = some '\r' then line.dropLast else line

/-- The lines of `cs`, where `line` holds what is read of the current one, in order. -/
def linesFrom (line : List Char) : List Char → List (List Char)
  | [] => if line.isEmpty then [] else [line]
  | c :: cs => if c = '\n' then dropReturn line :: linesFrom [] cs else linesFrom (line ++ [c]) cs

/-- The lines of a text. -/
def lines (s : String) : List String :=
  (linesFrom [] s.toList).map String.ofList

end AboveFold.Text
