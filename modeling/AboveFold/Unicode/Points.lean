import AboveFold.Text.Ascii

/-!
# Sets of code points

The characters that share a Unicode property, as ranges of code points. Tables write them as text in
hexadecimal digits: `41` is one code point, `41-5A` all from the first to the last, and `100-17E/2`
every second one of them. `Points.ofText` reads this, and membership goes range by range
(`Points.contains_append`).
-/

namespace AboveFold.Unicode
open Text

/-- Every `step`th code point from `first` to `last`. -/
structure Range where
  first : Nat
  last : Nat
  step : Nat
deriving DecidableEq, Repr

namespace Range

/-- Whether a code point is in a range. -/
def contains (r : Range) (n : Nat) : Bool :=
  r.first ≤ n && n ≤ r.last && (n - r.first) % r.step == 0

/-- Reads a range as tables write it. -/
def ofText? (word : String) : Option Range :=
  let number (digits : String) : Nat := digitsValue 16 digits.toList
  match (word.splitOn "/").flatMap (·.splitOn "-") with
  | [point] => if point.isEmpty then none else some ⟨number point, number point, 1⟩
  | [first, last] => some ⟨number first, number last, 1⟩
  | [first, last, step] => some ⟨number first, number last, number step⟩
  | _ => none

end Range

/-- A set of code points. -/
abbrev Points := List Range

namespace Points

/-- Whether a code point is in a set. -/
def contains (ps : Points) (n : Nat) : Bool := ps.any (·.contains n)

/-- Reads the ranges of a table. -/
def ofText (text : String) : Points :=
  ((text.splitOn "\n").flatMap (·.splitOn " ")).filterMap Range.ofText?

@[simp] theorem contains_append (a b : Points) (n : Nat) :
    (a ++ b).contains n = (a.contains n || b.contains n) :=
  List.any_append

/-- The code points that are given one by one. -/
def ofList (points : List Nat) : Points := points.map fun n => ⟨n, n, 1⟩

end Points

end AboveFold.Unicode
