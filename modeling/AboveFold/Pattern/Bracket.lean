import AboveFold.Pattern.Escape
import AboveFold.Text.Search

/-!
# Sets in brackets

How a set of characters in brackets is read: single characters, ranges, classes and other sets side
by side, and unions of these joined by `&&`, `--` and `~~`, from left to right.
-/

namespace AboveFold.Pattern
open Text

/-- The operations between the parts of a set in brackets. -/
inductive SetOp where
  | inter
  | diff
  | symmDiff
deriving DecidableEq, Repr

/-- The result of an operation on sets as the flags read them. -/
def SetOp.apply (op : SetOp) (f : Flags) (a b : CharSet) : CharSet :=
  let a := f.widen a
  let b := f.widen b
  match op with
  | inter => .inter a b
  | diff => .diff a b
  | symmDiff => .symmDiff a b

/-- How deep the parts of a list are nested; a list of two or more is a level of its own. -/
def nesting (depths : List Nat) : Nat :=
  depths.foldl max 0 + (if 1 < depths.length then 1 else 0)

/-- What was read of a set in brackets: the parts so far with the operation that follows them and
their depth, the union that is being read, and the depths of its members. -/
structure SetPart where
  before : Option (CharSet × SetOp × Nat)
  union : CharSet
  depths : List Nat

namespace SetPart

/-- Nothing. -/
def start : SetPart := ⟨none, .nothing, []⟩

/-- With one more set in the union. -/
def add (p : SetPart) (set : CharSet) (depth : Nat) : SetPart :=
  { p with union := .union p.union set, depths := depth :: p.depths }

/-- All parts as one set. -/
def joined (p : SetPart) (f : Flags) : CharSet :=
  match p.before with
  | none => p.union
  | some (a, op, _) => op.apply f a p.union

/-- How deep the parts are nested. -/
def depth (p : SetPart) : Nat :=
  match p.before with
  | none => nesting p.depths
  | some (_, _, before) => nesting [before, nesting p.depths]

/-- With an operation after the parts. -/
def operate (p : SetPart) (f : Flags) (op : SetOp) : SetPart := ⟨some (p.joined f, op, p.depth), .nothing, []⟩

end SetPart

/-- Reads the name of an ASCII class after its bracket, colons and closing bracket included. -/
def namedClass? (cs : List Char) : Option (Bool × CharSet × List Char) := do
  let inner ← after? ":".toList cs
  let (negated, inner) := match inner with
    | '^' :: rest => (true, rest)
    | _ => (false, inner)
  let rest ← after? ":]".toList (inner.dropWhile (· ≠ ':'))
  let set ← CharSet.named? (String.ofList (inner.takeWhile (· ≠ ':')))
  return (negated, set, rest)

/-- Reads one end of a range, or what cannot be an end. -/
def setItem? (f : Flags) : List Char → Option (Escape × List Char)
  | [] => none
  | '\\' :: cs => escape? f cs
  | c :: cs => some (.char c, cs)

/-- A character of a set. Without Unicode it has to be ASCII. -/
def Flags.member? (f : Flags) (e : Escape) : Option Char :=
  match e with
  | .char c => if f.unicode || isAscii c then some c else none
  | _ => none

/-- Reads a character, range or class of a set in brackets. -/
def setRange? (f : Flags) (cs : List Char) : Option (CharSet × List Char) := do
  let (first, rest) ← setItem? f cs
  let rest := f.skip rest
  let alone : Option CharSet := match first with
    | .set set => some set
    | _ => (f.member? first).map .single
  match rest with
  | [] => none
  | '-' :: after =>
    let next := f.skip after
    if next.head? = some ']' || next.head? = some '-' then return (← alone, rest)
    else
      let (last, rest) ← setItem? f next
      let a ← f.member? first
      let b ← f.member? last
      guard (a ≤ b)
      return (.range a b, rest)
  | _ => return (← alone, rest)

/-- Reads hyphens at the front of a set, which stand for themselves. -/
def leadingHyphens (f : Flags) (part : SetPart) : (fuel : Nat) → List Char → SetPart × List Char
  | 0, cs => (part, cs)
  | fuel + 1, cs =>
    match cs with
    | '-' :: cs => leadingHyphens f (part.add (.single '-') 0) fuel (f.skip cs)
    | _ => (part, cs)

/-- Reads what comes between an opening bracket and the first member that is no hyphen: whether the
set is negated, and the members so far. A closing bracket that comes first is a member. -/
def openSet (f : Flags) (cs : List Char) : Bool × SetPart × List Char :=
  let cs := f.skip cs
  let (negated, cs) := match cs with
    | '^' :: rest => (true, f.skip rest)
    | _ => (false, cs)
  let (part, rest) := leadingHyphens f .start cs.length cs
  match rest with
  | ']' :: after =>
    if rest.length = cs.length then (negated, part.add (.single ']') 0, f.skip after) else (negated, part, rest)
  | _ => (negated, part, rest)

/-- A set in brackets with its depth, and what comes after it. -/
abbrev SetRead := CharSet × Nat × List Char

/-- Reads the members of a set up to its closing bracket. Every member takes at least one
character. -/
def setMembers? (f : Flags) : (fuel : Nat) → (negated : Bool) → SetPart → List Char → Option SetRead
  | 0, _, _, _ => none
  | fuel + 1, negated, part, cs =>
    match f.skip cs with
    | [] => none
    | ']' :: rest => (f.finish? negated (part.joined f)).map fun set => (set, part.depth + 1, rest)
    | '[' :: rest =>
      match namedClass? rest with
      | some (no, set, rest) =>
        match f.finish? no set with
        | some set => setMembers? f fuel negated (part.add set 0) rest
        | none => none
      | none =>
        let (no, inner, rest) := openSet f rest
        match setMembers? f fuel no inner rest with
        | some (set, depth, rest) => setMembers? f fuel negated (part.add set depth) rest
        | none => none
    | '&' :: '&' :: rest => setMembers? f fuel negated (part.operate f .inter) rest
    | '-' :: '-' :: rest => setMembers? f fuel negated (part.operate f .diff) rest
    | '~' :: '~' :: rest => setMembers? f fuel negated (part.operate f .symmDiff) rest
    | rest =>
      match setRange? f rest with
      | some (set, rest) => setMembers? f fuel negated (part.add set 0) rest
      | none => none

/-- Reads a set after its opening bracket. -/
def bracket? (f : Flags) (cs : List Char) : Option SetRead :=
  let (negated, part, rest) := openSet f cs
  setMembers? f (cs.length + 1) negated part rest

end AboveFold.Pattern
