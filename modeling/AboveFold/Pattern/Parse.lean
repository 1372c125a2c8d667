import AboveFold.Pattern.Bracket

/-!
# Reading patterns

Patterns are read character by character with a stack of the groups that are open. Flags hold up to
the end of the group that sets them. `Pattern.parse` has no answer for text that is no pattern.
-/

namespace AboveFold.Pattern
open Text Unicode

/-- A part of a pattern. Flags that are set have no pattern, and cannot be repeated. -/
structure Item where
  pattern : Option Pattern
  /-- How deep sets, repetitions, groups, sequences and choices are nested in it. -/
  depth : Nat

/-- A group that is being read. -/
structure Group where
  /-- Whether the group is kept for later reference. -/
  kept : Bool
  /-- The flags that hold again after the group. -/
  outer : Flags
  /-- The alternatives before the current one, newest first. -/
  earlier : List Item
  /-- The items of the current alternative, newest first. -/
  items : List Item

namespace Group

/-- A group of which nothing was read. -/
def start (kept : Bool) (outer : Flags) : Group := ⟨kept, outer, [], []⟩

/-- With one more item. -/
def add (g : Group) (item : Item) : Group := { g with items := item :: g.items }

/-- The alternative that is being read. -/
def current (g : Group) : Item :=
  ⟨sequence (g.items.reverse.filterMap Item.pattern), nesting (g.items.map Item.depth)⟩

/-- With the start of another alternative. -/
def divide (g : Group) : Group := { g with earlier := g.current :: g.earlier, items := [] }

/-- The pattern of the group, without the group itself. -/
def pattern (g : Group) : Pattern :=
  (g.earlier.filterMap Item.pattern).foldl (fun p q => .alt q p) (g.current.pattern.getD .empty)

/-- How deep the pattern of the group is nested. -/
def depth (g : Group) : Nat :=
  nesting ((g.current :: g.earlier).map Item.depth)

/-- The group as an item of another one. -/
def close (g : Group) : Item :=
  ⟨some (if g.kept then .group g.pattern else g.pattern), g.depth + 1⟩

/-- With its last item repeated, if it has one to repeat. -/
def repeatLast? (g : Group) (least : Nat) (most : Option Nat) : Option Group :=
  match g.items with
  | ⟨some p, depth⟩ :: items => some { g with items := ⟨some (.repeated p least most), depth + 1⟩ :: items }
  | _ => none

end Group

/-! ## Groups -/

/-- Sets a flag by its letter. -/
def Flags.assign? (f : Flags) (letter : Char) (value : Bool) : Option Flags :=
  match letter with
  | 'i' => some { f with ignoreCase := value }
  | 'm' => some { f with multiLine := value }
  | 's' => some { f with dotAll := value }
  | 'R' => some { f with crlf := value }
  | 'u' => some { f with unicode := value }
  | 'x' => some { f with verbose := value }
  | 'U' => some f
  | _ => none

/-- Sets flags by their letters; those after a hyphen are unset. No letter comes twice, and a letter
has to come after the hyphen. -/
def Flags.assignAll? (f : Flags) (value : Bool) : List Char → Option Flags
  | [] => some f
  | '-' :: cs => if value && !cs.isEmpty then f.assignAll? false cs else none
  | c :: cs => if cs.contains c then none else (f.assign? c value).bind (·.assignAll? value cs)

/-- How a group starts. Groups with or without a name are kept for later reference; those that only
set flags for a part are not. -/
inductive GroupStart where
  | opens (kept : Bool) (inner : Flags)
  | named (name : String)
  | sets (flags : Flags)

/-- Whether a character can be part of the name of a group. -/
def isNameChar (first : Bool) (c : Char) : Bool :=
  c = '_' || isNameLetter c || (!first && (isNameNumber c || ".[]".toList.contains c))

/-- Reads the name of a group up to the angle bracket after it. -/
def groupName? (cs : List Char) : Option (GroupStart × List Char) :=
  let name := cs.takeWhile (· ≠ '>')
  match cs.dropWhile (· ≠ '>'), name with
  | '>' :: rest, c :: more =>
    if isNameChar true c && more.all (isNameChar false) then some (.named (String.ofList name), rest) else none
  | _, _ => none

/-- Reads what comes after the opening parenthesis of a group. Conditions on what stands around a
match, other than places, are refused. -/
def groupStart? (f : Flags) (cs : List Char) : Option (GroupStart × List Char) :=
  match f.skip cs with
  | '?' :: 'P' :: '<' :: rest => groupName? rest
  | '?' :: '<' :: rest =>
    if rest.head? = some '=' || rest.head? = some '!' then none else groupName? rest
  | '?' :: rest =>
    let ends (c : Char) : Bool := c = ':' || c = ')'
    let letters := rest.takeWhile (!ends ·)
    match f.assignAll? true letters, rest.dropWhile (!ends ·) with
    | some inner, ':' :: rest => some (.opens false inner, rest)
    | some inner, ')' :: rest => if letters.isEmpty then none else some (.sets inner, rest)
    | _, _ => none
  | rest => some (.opens true f, rest)

/-! ## Counts -/

/-- Digits, with blanks before and after them. -/
def count? (f : Flags) (cs : List Char) : Option Nat × List Char :=
  let digits (c : Char) : Bool := c.isDigit || (f.verbose && isWhiteSpace c)
  let cs := cs.dropWhile isWhiteSpace
  let found := (cs.takeWhile digits).filter Char.isDigit
  let rest := f.skip ((cs.dropWhile digits).dropWhile isWhiteSpace)
  let n := digitsValue 10 found
  (if found.isEmpty || 0x100000000 ≤ n then none else some n, rest)

/-- Reads the counts of a repetition after the opening brace. The first count is needed. -/
def counts? (f : Flags) (cs : List Char) : Option (Nat × Option Nat × List Char) := do
  let (least, rest) := count? f (f.skip cs)
  let least ← least
  match rest with
  | '\x7d' :: rest => return (least, some least, rest)
  | ',' :: rest =>
    match f.skip rest with
    | '\x7d' :: rest => return (least, none, rest)
    | rest =>
      match count? f rest with
      | (some most, '\x7d' :: rest) =>
        guard (least ≤ most)
        return (least, some most, rest)
      | _ => none
  | _ => none

/-- What is left after the mark of a repetition that prefers few rounds, which changes no answer to
whether there is a match. -/
def afterLazyMark (cs : List Char) : List Char :=
  match cs with
  | '?' :: cs => cs
  | _ => cs

/-! ## Patterns -/

/-- Reads a single character, set, escape or condition. -/
def primitive? (f : Flags) (c : Char) (cs : List Char) : Option (Item × List Char) :=
  let plain (p : Pattern) : Item := ⟨some p, 0⟩
  match c with
  | '[' => (bracket? f cs).map fun (set, depth, rest) => (⟨some (.one set), depth⟩, rest)
  | '.' => f.dot?.map fun set => (plain (.one set), cs)
  | '^' => some (plain (.look (if f.multiLine then .lineStart f.crlf else .textStart)), cs)
  | '$' => some (plain (.look (if f.multiLine then .lineEnd f.crlf else .textEnd)), cs)
  | '\\' =>
    (escape? f cs).map fun (e, rest) =>
      match e with
      | .char c => (plain (.one (f.widen (.single c))), rest)
      | .set set => (plain (.one set), rest)
      | .look condition => (plain (.look condition), rest)
  | c => some (plain (.one (f.widen (.single c))), cs)

/-- How deep a pattern can be nested. -/
def nestLimit : Nat := 250

/-- Reads a pattern in the innermost of the groups that are open; `names` are the names of groups
so far. Every step takes at least one character. -/
def readFrom (fuel : Nat) (f : Flags) (names : List String) (g : Group) (around : List Group) (cs : List Char) :
    Option Pattern :=
  match fuel with
  | 0 => none
  | fuel + 1 =>
    match f.skip cs with
    | [] => if around.isEmpty && g.depth ≤ nestLimit then some g.pattern else none
    | '(' :: cs =>
      match groupStart? f cs with
      | none => none
      | some (.sets flags, cs) => readFrom fuel flags names (g.add ⟨none, 0⟩) around cs
      | some (.opens kept inner, cs) => readFrom fuel inner names (.start kept f) (g :: around) cs
      | some (.named name, cs) =>
        if names.contains name then none
        else readFrom fuel f (name :: names) (.start true f) (g :: around) cs
    | ')' :: cs =>
      match around with
      | [] => none
      | parent :: around => readFrom fuel g.outer names (parent.add g.close) around cs
    | '|' :: cs => readFrom fuel f names g.divide around cs
    | '?' :: cs =>
      (g.repeatLast? 0 (some 1)).bind fun g => readFrom fuel f names g around (afterLazyMark cs)
    | '*' :: cs => (g.repeatLast? 0 none).bind fun g => readFrom fuel f names g around (afterLazyMark cs)
    | '+' :: cs => (g.repeatLast? 1 none).bind fun g => readFrom fuel f names g around (afterLazyMark cs)
    | '\x7b' :: cs =>
      match counts? f cs with
      | none => none
      | some (least, most, cs) =>
        (g.repeatLast? least most).bind fun g => readFrom fuel f names g around (afterLazyMark (f.skip cs))
    | c :: cs =>
      match primitive? f c cs with
      | none => none
      | some (item, cs) => readFrom fuel f names (g.add item) around cs

/-- Reads a pattern. Letters match in any case. -/
def parse (s : String) : Option Pattern :=
  readFrom (s.toList.length + 1) .standard [] (.start false .standard) [] s.toList

end AboveFold.Pattern
