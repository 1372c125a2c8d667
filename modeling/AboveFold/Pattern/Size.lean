import AboveFold.Pattern.Basic
import AboveFold.Pattern.Ranges

/-!
# The size of a pattern

A pattern is compiled into states that read one byte of UTF-8 each, once to read a text forward and
once to read it backward, and what is repeated is copied. `Pattern.size` counts the bytes that the
states take without building them; a pattern that takes too many is refused (`Pattern.fits`).
-/

namespace AboveFold

namespace Pattern

/-! ## Encodings -/

/-- The digits in base 64 of the numbers from `a` to `b`, one list of ranges for each part in which the
digits are independent. A first digit comes before `k` others. -/
def digitRanges : (k a b : Nat) → List (List Interval)
  | 0, a, b => [[(a, b)]]
  | k + 1, a, b =>
    let unit := Nat.pow 64 (k + 1)
    let (first, low) := (a / unit, a % unit)
    let (last, high) := (b / unit, b % unit)
    if first = last then (digitRanges k low high).map ((first, first) :: ·)
    else
      let front := if low = 0 then [] else (digitRanges k low (unit - 1)).map ((first, first) :: ·)
      let back := if high = unit - 1 then [] else (digitRanges k 0 high).map ((last, last) :: ·)
      let inner := (if low = 0 then first else first + 1, if high = unit - 1 then last else last - 1)
      front ++ (if inner.1 ≤ inner.2 then [inner :: List.replicate (k + 1) (0, 63)] else []) ++ back

/-- The lengths of encodings: how many bytes follow the first, the mark of the first byte, and the
characters. Surrogates are no characters. -/
def encodingLengths : List (Nat × Nat × Interval) :=
  [(0, 0, 0, 0x7F), (1, 0xC0, 0x80, 0x7FF), (2, 0xE0, 0x800, 0xD7FF), (2, 0xE0, 0xE000, 0xFFFF),
   (3, 0xF0, 0x10000, 0x10FFFF)]

/-- The encodings of the characters of some ranges, in ascending order, as ranges of bytes. -/
def encodings (ranges : List Interval) : List (List Interval) :=
  ranges.flatMap fun r =>
    encodingLengths.flatMap fun (k, mark, span) =>
      match Interval.meet? r span with
      | none => []
      | some (a, b) =>
        (digitRanges k a b).map fun digits =>
          match digits with
          | [] => []
          | first :: rest => (first.1 + mark, first.2 + mark) :: rest.map fun d => (d.1 + 0x80, d.2 + 0x80)

/-- How many elements two lists share at the front. -/
def sharedFront (a b : List Interval) : Nat :=
  ((a.zip b).takeWhile fun (x, y) => x == y).length

/-- How many different beginnings the lists have, if lists with one beginning stand together. -/
def beginnings (lists : List (List Interval)) : Nat :=
  (lists.foldl (fun (count, last) list => (count + (list.length - sharedFront last list), list))
    ((0, []) : Nat × List Interval)).1

/-- The lists by their first element, without it. Lists with one first element stand together. -/
def branches (lists : List (List Interval)) : List (List (List Interval)) :=
  (lists.splitBy fun a b => a.head? == b.head?).map fun group => group.map List.tail

/-- What may follow after each beginning of at most `n` elements, where anything does. -/
def followers : (n : Nat) → List (List Interval) → List (List (List Interval))
  | 0, _ => []
  | n + 1, lists => if lists = [[]] then [] else lists :: (branches lists).flatMap (followers n)

/-! ## Sizes -/

/-- The bytes that the states take that read forward, and those that read backward. -/
structure Size where
  forward : Nat
  backward : Nat
deriving DecidableEq, Repr

namespace Size

/-- The same size in both directions. -/
def both (n : Nat) : Size := ⟨n, n⟩

/-- The sizes of two parts together. -/
def add (a b : Size) : Size := ⟨a.forward + b.forward, a.backward + b.backward⟩

/-- The size of some copies, with something more for each. -/
def copies (n : Nat) (a : Size) (more : Nat) : Size := ⟨n * (a.forward + more), n * (a.backward + more)⟩

/-- The size of a state. -/
def state : Nat := 32

end Size

open Size in
/-- The size of the states that read a character of a set. Backward there is a state for each
beginning of an encoding; forward, beginnings that have the same continuations share one. -/
def CharSet.size (set : CharSet) : Size :=
  match set.ranges with
  | [] => .both state
  | [(a, b)] =>
    let sequences := encodings [(a, b)]
    if a = b then .both (state * (sequences.map List.length).foldl (· + ·) 0)
    else if b < 128 then .both (2 * state + 8)
    else wide sequences
  | ranges =>
    if ranges.all (·.2 < 128) then .both (2 * state + 8 * ranges.length) else wide (encodings ranges)
where
  wide (sequences : List (List Interval)) : Size :=
    let nodes := (followers 4 sequences).eraseDups
    ⟨state + (nodes.map fun node => state + 8 * (branches node).length).foldl (· + ·) 0,
     2 * state + 4 * sequences.length + state * beginnings sequences⟩

/-- What is known of a part of a pattern: whether there is nothing of it, the set it is if it is one or
a choice between some, how many choices there are otherwise and the size of these, and whether its
matches must or can have characters. -/
structure Extent where
  isEmpty : Bool
  set : Option CharSet
  choices : Nat
  parts : Size
  consumes : Bool
  canConsume : Bool

namespace Extent
open Size

/-- Nothing. -/
def nothing : Extent := ⟨true, none, 1, .both state, false, false⟩

/-- The size without what joins choices. -/
def partSize (e : Extent) : Size :=
  match e.set with
  | some set => set.size
  | none => e.parts

/-- The size. -/
def size (e : Extent) : Size :=
  if e.set.isNone && 1 < e.choices then e.parts.add (.both (2 * state + 4 * e.choices)) else e.partSize

/-- One part after another. -/
def seq (a b : Extent) : Extent :=
  if a.isEmpty then b else if b.isEmpty then a
  else ⟨false, none, 1, a.size.add b.size, a.consumes || b.consumes, a.canConsume || b.canConsume⟩

/-- A choice between two parts. Sets become one set. -/
def alt (a b : Extent) : Extent :=
  let set := match a.set, b.set with
    | some s, some t => some (CharSet.union s t)
    | _, _ => none
  let parts := if set.isSome then .both 0 else a.partSize.add b.partSize
  ⟨false, set, a.choices + b.choices, parts, a.consumes && b.consumes, a.canConsume || b.canConsume⟩

/-- The size of a part that is repeated. A last round that may follow any number of times is a state
with two ways out; rounds that may be left out are such states with a copy each. -/
def repeatedSize (e : Extent) (least : Nat) (most : Option Nat) : Size :=
  let one := e.size
  match least, most with
  | 0, none =>
    if e.consumes then one.add (.both (state + 8)) else one.add (.both (3 * state + 16))
  | least, none => (Size.copies least one 0).add (.both (state + 8))
  | 0, some 1 => one.add (.both (2 * state + 8))
  | least, some most =>
    if least = most then .copies least one 0
    else
      let needed := if least = 0 then .both state else Size.copies least one 0
      (needed.add (Size.copies (most - least) one (state + 8))).add (.both state)

/-- A part that is repeated. What matches without characters is not repeated more than once. -/
def repeated (e : Extent) (least : Nat) (most : Option Nat) : Extent :=
  let (least, most) :=
    if e.canConsume then (least, most) else (min least 1, some (min (most.getD 1) 1))
  if most = some 0 then nothing
  else if least = 1 && most = some 1 then e
  else ⟨false, none, 1, e.repeatedSize least most, e.consumes && least ≠ 0, e.canConsume⟩

/-- A group that is kept: its start and its end are found when a text is read forward. -/
def group (e : Extent) : Extent :=
  { e with isEmpty := false, set := none, choices := 1, parts := e.size.add ⟨2 * state, 0⟩ }

end Extent

/-- What is known of a pattern. -/
def extent : Pattern → Extent
  | empty => .nothing
  | one set => ⟨false, some set, 1, .both 0, true, true⟩
  | look _ => ⟨false, none, 1, .both Size.state, false, false⟩
  | seq p q => p.extent.seq q.extent
  | alt p q => p.extent.alt q.extent
  | repeated p least most => p.extent.repeated least most
  | group p => p.extent.group

/-- The size of a pattern, with the states around it: a start, a group and an end. -/
def size (p : Pattern) : Size :=
  p.extent.size.add ⟨4 * Size.state, 2 * Size.state⟩

/-- The bytes that a pattern can take. -/
def sizeLimit : Nat := 10485760

/-- Whether a pattern is small enough. -/
def fits (p : Pattern) : Bool :=
  p.size.forward ≤ sizeLimit && p.size.backward ≤ sizeLimit

end Pattern

end AboveFold
