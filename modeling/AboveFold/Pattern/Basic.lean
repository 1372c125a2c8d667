import AboveFold.Pattern.CharSet

/-!
# Patterns

A pattern is a regular expression with conditions on the place where a match stands. `ends` lists
where matches that start at a place end, and `occurs` says whether there is a match anywhere in a
text. What a repetition matches twice without moving on, it may match once or any number of times,
so as many rounds as the text is long, and one, are all that count.
-/

namespace AboveFold

namespace Pattern
open Text Unicode

/-- Conditions on how word characters stand around a place. -/
inductive Boundary where
  | between
  | within
  | start
  | stop
  | startHalf
  | stopHalf
deriving DecidableEq, Repr

/-- Conditions on a place in a text. With `crlf`, carriage return and line feed both end lines, and
their pair ends one. -/
inductive Look where
  | textStart
  | textEnd
  | lineStart (crlf : Bool)
  | lineEnd (crlf : Bool)
  | word (unicode : Bool) (boundary : Boundary)
deriving DecidableEq, Repr

/-- Whether a condition holds between two characters, where `none` is the end of the text. -/
def Look.holds (before after : Option Char) : Look → Bool
  | textStart => before.isNone
  | textEnd => after.isNone
  | lineStart crlf =>
    before.all (· = '\n') || (crlf && before = some '\r' && after ≠ some '\n')
  | lineEnd crlf =>
    if crlf then after.all (· = '\r') || (after = some '\n' && before ≠ some '\r') else after.all (· = '\n')
  | word unicode boundary =>
    let isWord := if unicode then isWordChar else isAsciiWordChar
    let b := before.any isWord
    let a := after.any isWord
    match boundary with
    | .between => b != a
    | .within => b == a
    | .start => !b && a
    | .stop => b && !a
    | .startHalf => !b
    | .stopHalf => !a

end Pattern

/-- A pattern. -/
inductive Pattern where
  | empty
  | one (set : Pattern.CharSet)
  | look (condition : Pattern.Look)
  | seq (p q : Pattern)
  | alt (p q : Pattern)
  /-- From `least` up to `most` times, or any number from `least` on. -/
  | repeated (p : Pattern) (least : Nat) (most : Option Nat)
  /-- A group that is kept for later reference. -/
  | group (p : Pattern)
deriving DecidableEq, Repr

namespace Pattern

/-- The places that `n` rounds reach. -/
def rounds (step : Nat → List Nat) : (n : Nat) → List Nat → List Nat
  | 0, places => places
  | n + 1, places => rounds step n (places.flatMap step).eraseDups

/-- The places that up to `n` rounds reach. -/
def roundsUpTo (step : Nat → List Nat) : (n : Nat) → List Nat → List Nat
  | 0, places => places
  | n + 1, places => (places ++ roundsUpTo step n (places.flatMap step).eraseDups).eraseDups

/-- Where the matches end that start at place `i` of a text. -/
def ends (text : List Char) : Pattern → (i : Nat) → List Nat
  | empty, i => [i]
  | one set, i => if text[i]?.any set.mem then [i + 1] else []
  | look condition, i =>
    let before := if i = 0 then none else text[i - 1]?
    if condition.holds before text[i]? then [i] else []
  | seq p q, i => ((ends text p i).flatMap (ends text q)).eraseDups
  | alt p q, i => (ends text p i ++ ends text q i).eraseDups
  | repeated p least most, i =>
    let enough := text.length + 1
    let places := rounds (ends text p) (min least enough) [i]
    let more := (most.map (· - least)).getD enough
    roundsUpTo (ends text p) (min more enough) places
  | group p, i => ends text p i

/-- Whether a pattern matches some part of a text. -/
def occurs (p : Pattern) (text : String) : Bool :=
  (List.range (text.toList.length + 1)).any fun i => !(p.ends text.toList i).isEmpty

/-- Patterns one after the other. -/
def sequence (ps : List Pattern) : Pattern :=
  ps.foldr seq empty

end Pattern

end AboveFold
