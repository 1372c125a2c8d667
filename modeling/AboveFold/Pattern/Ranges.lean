import AboveFold.Pattern.CharSet

/-!
# Sets as ranges

A set of characters as a list of ranges in ascending order, no two of which touch. The operations work
on such lists; `merged` makes one of any list of ranges.
-/

namespace AboveFold.Pattern
open Text

/-- Numbers from a first to a last. -/
abbrev Interval := Nat × Nat

namespace Interval

/-- The numbers that two ranges share. -/
def meet? (a b : Interval) : Option Interval :=
  let first := max a.1 b.1
  let last := min a.2 b.2
  if first ≤ last then some (first, last) else none

/-- Ranges in ascending order, with those that overlap or touch the one before put into it. The
newest comes first. -/
def join (done : List Interval) (next : Interval) : List Interval :=
  match done with
  | [] => [next]
  | last :: rest => if next.1 ≤ last.2 + 1 then (last.1, max last.2 next.2) :: rest else next :: done

/-- Any ranges in ascending order, no two of which touch. -/
def merged (ranges : List Interval) : List Interval :=
  ((ranges.mergeSort fun a b => decide (a.1 ≤ b.1)).foldl join []).reverse

/-- What lies between merged ranges, from `start` up to the last code point. -/
def gaps (start : Nat) : List Interval → List Interval
  | [] => if start ≤ 0x10FFFF then [(start, 0x10FFFF)] else []
  | (first, last) :: rest =>
    (if start < first then [(start, first - 1)] else []) ++ gaps (last + 1) rest

/-- The code points that are in both of two lists of merged ranges. -/
def common (a b : List Interval) : List Interval :=
  gaps 0 (merged (gaps 0 a ++ gaps 0 b))

end Interval

namespace CharSet

/-- The ranges of a table. -/
def tableRanges (table : Unicode.Points) : List Interval :=
  table.flatMap fun r =>
    if r.step = 1 then [(r.first, r.last)]
    else (List.range ((r.last - r.first) / r.step + 1)).map fun k => (r.first + k * r.step, r.first + k * r.step)

/-- The letters that the letters of some ranges fold to. -/
def foldedRanges (ranges : List Interval) : List Interval :=
  foldTable.flatMap fun (lo, hi, step, image) =>
    ranges.flatMap fun r =>
      match Interval.meet? r (lo, hi) with
      | none => []
      | some (first, last) =>
        let start := lo + (first - lo + step - 1) / step * step
        if last < start then []
        else tableRanges [⟨start - lo + image, last - lo + image, step⟩]

/-- The letters that fold to letters of some ranges. -/
def unfoldedRanges (ranges : List Interval) : List Interval :=
  foldTable.flatMap fun (lo, hi, step, image) =>
    ranges.flatMap fun r =>
      match Interval.meet? r (image, image + (hi - lo)) with
      | none => []
      | some (first, last) =>
        let start := image + (first - image + step - 1) / step * step
        if last < start then []
        else tableRanges [⟨start - image + lo, last - image + lo, step⟩]

/-- The ranges of ASCII letters in the other case. -/
def asciiSwapped (ranges : List Interval) : List Interval :=
  ranges.flatMap fun r =>
    ((Interval.meet? r (0x41, 0x5A)).map fun (a, b) => (a + 32, b + 32)).toList
      ++ ((Interval.meet? r (0x61, 0x7A)).map fun (a, b) => (a - 32, b - 32)).toList

/-- A set as merged ranges. -/
def ranges : CharSet → List Interval
  | nothing => []
  | range first last => if first ≤ last then [(first.toNat, last.toNat)] else []
  | points table => Interval.merged (tableRanges table)
  | union a b => Interval.merged (a.ranges ++ b.ranges)
  | inter a b => Interval.common a.ranges b.ranges
  | diff a b => Interval.common a.ranges (Interval.gaps 0 b.ranges)
  | symmDiff a b =>
    Interval.merged (Interval.common a.ranges (Interval.gaps 0 b.ranges)
      ++ Interval.common b.ranges (Interval.gaps 0 a.ranges))
  | compl a => Interval.gaps 0 a.ranges
  | widened true a =>
    let own := a.ranges
    let folded := own ++ foldedRanges own
    Interval.merged (folded ++ unfoldedRanges folded)
  | widened false a => Interval.merged (a.ranges ++ asciiSwapped a.ranges)

end CharSet

end AboveFold.Pattern
