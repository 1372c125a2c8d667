import AboveFold.Pattern.Basic
import AboveFold.Pattern.PropertyName
import AboveFold.Text.WhiteSpace

/-!
# Escapes in patterns

How a backslash and what follows it is read. Punctuation stands for itself; some letters name
classes, conditions or control characters, or ask for the characters with a property; all other
letters and all digits are refused.
-/

namespace AboveFold.Pattern
open Text

/-- What letters are read as; groups can change it. -/
structure Flags where
  ignoreCase : Bool
  /-- Lines have a start and an end of their own. -/
  multiLine : Bool
  /-- A dot matches line ends too. -/
  dotAll : Bool
  crlf : Bool
  unicode : Bool
  /-- Blanks and comments in the pattern say nothing. -/
  verbose : Bool
deriving DecidableEq, Repr

namespace Flags

/-- The flags at the start of a pattern. -/
def standard : Flags := ⟨true, false, false, false, true, false⟩

/-- A set as the flags read it. -/
def widen (f : Flags) (set : CharSet) : CharSet :=
  if f.ignoreCase then .widened f.unicode set else set

/-- The complement of a set, which has to be a set of whole characters. -/
def complement? (f : Flags) (set : CharSet) : Option CharSet :=
  if f.unicode then some (.compl set) else none

/-- A set as it stands in the pattern, perhaps negated. -/
def finish? (f : Flags) (negated : Bool) (set : CharSet) : Option CharSet :=
  if negated then f.complement? (f.widen set) else some (f.widen set)

/-- The set between the lines of which a dot does not match. -/
def dot? (f : Flags) : Option CharSet :=
  f.complement? (if f.dotAll then .nothing else if f.crlf then .ofChars "\r\n" else .single '\n')

end Flags

/-- What is left after the rest of a line. -/
def afterLine (cs : List Char) : List Char :=
  (cs.dropWhile (· ≠ '\n')).drop 1

theorem length_afterLine_le (cs : List Char) : (afterLine cs).length ≤ cs.length := by
  have := (List.dropWhile_sublist (· ≠ '\n') (l := cs)).length_le
  simp only [afterLine, List.length_drop]
  omega

/-- What is left after blanks and comments. -/
def afterSpace : List Char → List Char
  | [] => []
  | c :: cs =>
    if isWhiteSpace c then afterSpace cs
    else if c = '#' then afterSpace (afterLine cs)
    else c :: cs
termination_by cs => cs.length
decreasing_by
  · simp
  · have := length_afterLine_le cs
    simp only [List.length_cons]
    omega

/-- What is left after what says nothing. -/
def Flags.skip (f : Flags) (cs : List Char) : List Char :=
  if f.verbose then afterSpace cs else cs

/-- A character by its number. -/
def charOf? (n : Nat) : Option Char :=
  if n.isValidChar then some (Char.ofNat n) else none

/-- What an escape stands for. -/
inductive Escape where
  | char (c : Char)
  | set (set : CharSet)
  | look (condition : Look)

/-- Exactly `n` hexadecimal digits. -/
def hexDigits? (f : Flags) : (n : Nat) → List Char → Option (List Char × List Char)
  | 0, cs => some ([], cs)
  | n + 1, cs =>
    match cs with
    | c :: cs =>
      if isHexDigit c then (hexDigits? f n (f.skip cs)).map fun (ds, rest) => (c :: ds, rest) else none
    | [] => none

/-- Hexadecimal digits up to a closing brace. -/
def bracedDigits? (f : Flags) : (fuel : Nat) → List Char → Option (List Char × List Char)
  | 0, _ => none
  | fuel + 1, cs =>
    match f.skip cs with
    | '\x7d' :: cs => some ([], f.skip cs)
    | c :: cs =>
      if isHexDigit c then (bracedDigits? f fuel cs).map fun (ds, rest) => (c :: ds, rest) else none
    | [] => none

/-- A character by its number in hexadecimal digits: as many as the letter says, or any number in
braces. -/
def hexEscape? (f : Flags) (letter : Char) (cs : List Char) : Option (Escape × List Char) := do
  match f.skip cs with
  | '\x7b' :: cs =>
    let (digits, rest) ← bracedDigits? f (cs.length + 1) cs
    guard !digits.isEmpty
    return (.char (← charOf? (digitsValue 16 digits)), rest)
  | cs =>
    let (digits, rest) ← hexDigits? f (if letter = 'x' then 2 else if letter = 'u' then 4 else 8) cs
    let c ← charOf? (digitsValue 16 digits)
    guard (f.unicode || letter ≠ 'x' || isAscii c)
    return (.char c, rest)

/-- A class that a letter names; the capital names its complement. -/
def classEscape? (f : Flags) (letter : Char) : Option CharSet :=
  let set : CharSet := match letter.toLower, f.unicode with
    | 'd', true => .digits
    | 's', true => .blanks
    | 'w', true => .words
    | 'd', false => .range '0' '9'
    | 's', false => .ofChars "\t\n\x0b\x0c\r "
    | _, _ => .ofRanges [('0', '9'), ('A', 'Z'), ('_', '_'), ('a', 'z')]
  if letter.isUpper then f.complement? set else some set

/-- The name of a property, up to its closing brace. -/
def propertyName? (f : Flags) : (fuel : Nat) → List Char → Option (List Char × List Char)
  | 0, _ => none
  | fuel + 1, cs =>
    match f.skip cs with
    | '\x7d' :: cs => some ([], cs)
    | c :: cs => (propertyName? f fuel cs).map fun (name, rest) => (c :: name, rest)
    | [] => none

/-- The characters with a property: its name is one letter, or stands in braces. The capital letter
names the others. -/
def propertyEscape? (f : Flags) (letter : Char) (cs : List Char) : Option (CharSet × List Char) := do
  guard f.unicode
  let (name, rest) ← match f.skip cs with
    | '\x7b' :: cs => propertyName? f (cs.length + 1) cs
    | c :: cs => if c = '\\' then none else some ([c], cs)
    | [] => none
  let (negated, set) ← propertySet? name
  return (← f.finish? (negated != (letter = 'P')) set, rest)

/-- A character of the name of a boundary. -/
def isBoundaryChar (c : Char) : Bool := c.isAlpha || c = '-'

/-- The name of a boundary, up to its closing brace. -/
def boundaryName? (f : Flags) : (fuel : Nat) → List Char → Option (List Char × List Char)
  | 0, _ => none
  | fuel + 1, cs =>
    match cs with
    | '\x7d' :: cs => some ([], cs)
    | c :: cs =>
      if isBoundaryChar c then
        (boundaryName? f fuel (f.skip cs)).map fun (name, rest) => (c :: name, rest)
      else none
    | [] => none

/-- The boundary that `b` stands for. A name in braces may follow; what cannot be a name is left for
a repetition. -/
def boundaryEscape? (f : Flags) (cs : List Char) : Option (Escape × List Char) := do
  let plain : Escape := .look (.word f.unicode .between)
  match cs with
  | '\x7b' :: inner =>
    let inner := f.skip inner
    guard !inner.isEmpty
    if inner.head?.any isBoundaryChar then
      let (name, rest) ← boundaryName? f (inner.length + 1) inner
      let boundary : Boundary ← match String.ofList name with
        | "start" => some .start
        | "end" => some .stop
        | "start-half" => some .startHalf
        | "end-half" => some .stopHalf
        | _ => none
      return (.look (.word f.unicode boundary), rest)
    else return (plain, cs)
  | _ => return (plain, cs)

/-- Reads an escape after its backslash. -/
def escape? (f : Flags) : List Char → Option (Escape × List Char)
  | [] => none
  | c :: cs =>
    match c with
    | 'x' | 'u' | 'U' => hexEscape? f c cs
    | 'd' | 's' | 'w' | 'D' | 'S' | 'W' => (classEscape? f c).map fun set => (.set set, cs)
    | 'p' | 'P' => (propertyEscape? f c cs).map fun (set, rest) => (.set set, rest)
    | 'a' => some (.char '\x07', cs)
    | 'f' => some (.char '\x0c', cs)
    | 't' => some (.char '\t', cs)
    | 'n' => some (.char '\n', cs)
    | 'r' => some (.char '\r', cs)
    | 'v' => some (.char '\x0b', cs)
    | 'A' => some (.look .textStart, cs)
    | 'z' => some (.look .textEnd, cs)
    | 'b' => boundaryEscape? f cs
    | 'B' => some (.look (.word f.unicode .within), cs)
    | '<' => some (.look (.word f.unicode .start), cs)
    | '>' => some (.look (.word f.unicode .stop), cs)
    | _ => if isAscii c && !c.isAlphanum then some (.char c, cs) else none

end AboveFold.Pattern
