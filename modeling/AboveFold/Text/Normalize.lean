import AboveFold.Text.Ascii

/-!
# Normalized text

Selectors and values are compared by a normal form: comments go, a run of blanks becomes one space,
and there are no blanks at the ends. `collapse` does this for values and preludes, where a comment
separates words. `normalizeSelector` does it for selectors, where a comment joins what stands around
it and combinators take no blanks. Both are runs of one machine that goes over the text character by
character and says at each what to write. Strings, escapes and what is in brackets stay as written.
-/

namespace AboveFold.Text

/-- The space between what is written already and what comes next. -/
inductive Gap where
  /-- Nothing was written yet, or a combinator last: no space comes here. -/
  | closed
  /-- The next character follows at once. -/
  | joined
  /-- One space comes before the next character. -/
  | spaced
deriving DecidableEq, Repr

namespace Gap

/-- The gap after a blank. -/
def widen : Gap → Gap
  | closed => closed
  | _ => spaced

/-- What the gap writes. -/
def text : Gap → List Char
  | spaced => [' ']
  | _ => []

end Gap

/-- Where in the text the machine is. -/
inductive Mode where
  | plain
  | commentStar
  | comment
  | commentSlash
  | string (quote : Char)
  | stringEscape (quote : Char)
  | escape
  | hex (more : Nat)
deriving DecidableEq, Repr

/-- The state of the machine. `depth` counts the brackets that are open. -/
structure Normalizer where
  mode : Mode
  gap : Gap
  depth : Nat
deriving DecidableEq, Repr

namespace Normalizer

/-- The machine before it has read anything. -/
def start : Normalizer := ⟨.plain, .closed, 0⟩

/-- Writes `c` after the gap and goes on in `mode`. -/
def put (s : Normalizer) (mode : Mode) (depth : Nat) (c : Char) : List Char × Normalizer :=
  (s.gap.text ++ [c], ⟨mode, .joined, depth⟩)

/-- What a character outside of strings, escapes and comments writes. `selector` says that
combinators take no blanks and comments separate nothing. -/
def stepPlain (selector : Bool) (s : Normalizer) (c : Char) (next : Option Char) :
    List Char × Normalizer :=
  if c = '/' && next = some '*' then
    ([], { s with mode := .commentStar, gap := if selector then s.gap else s.gap.widen })
  else if isBlank c then ([], { s with mode := .plain, gap := s.gap.widen })
  else if c = '\x22' || c = '\x27' then s.put (.string c) s.depth c
  else if c = '\\' then s.put .escape s.depth c
  else if c = '(' || c = '[' then s.put .plain (s.depth + 1) c
  else if c = ')' || c = ']' then s.put .plain (s.depth - 1) c
  else if selector && s.depth = 0 && (c = '>' || c = '+' || c = '~') then
    ([c], ⟨.plain, .closed, s.depth⟩)
  else s.put .plain s.depth c

/-- What a character writes, and the machine after it; `next` is the character that follows. -/
def step (selector : Bool) (s : Normalizer) (c : Char) (next : Option Char) :
    List Char × Normalizer :=
  match s.mode with
  | .plain => stepPlain selector s c next
  | .commentStar => ([], { s with mode := .comment })
  | .comment => ([], { s with mode := if c = '*' && next = some '/' then .commentSlash else .comment })
  | .commentSlash => ([], { s with mode := .plain })
  | .string quote =>
    ([c], { s with mode := if c = '\\' then .stringEscape quote else if c = quote then .plain else .string quote })
  | .stringEscape quote => ([c], { s with mode := .string quote })
  | .escape => ([c], { s with mode := if isHexDigit c then .hex 5 else .plain })
  | .hex more =>
    if isHexDigit c && more ≠ 0 then ([c], { s with mode := .hex (more - 1) })
    else if isBlank c then ([' '], { s with mode := .plain })
    else stepPlain selector s c next

/-- What the machine writes for a text. -/
def run (selector : Bool) (s : Normalizer) : List Char → List Char
  | [] => []
  | c :: cs =>
    let (out, s) := s.step selector c cs.head?
    out ++ run selector s cs

end Normalizer

/-- Text with comments and runs of blanks replaced by one space, and none at the ends. -/
def collapse (s : String) : String :=
  String.ofList (Normalizer.start.run false s.toList)

/-- The form in which selectors are compared. -/
def normalizeSelector (s : String) : String :=
  String.ofList (Normalizer.start.run true s.toList)

end AboveFold.Text
