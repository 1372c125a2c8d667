import AboveFold.Prune.Basic
import AboveFold.Text.Lowercase
import AboveFold.Text.WhiteSpace

/-!
# Fonts

Which font families a stylesheet uses and which it declares. `font-family` and the end of the `font`
shorthand use families; an at-rule `@font-face` declares one. Families are compared without quotes,
with blanks collapsed and in lower case.
-/

namespace AboveFold.Font
open Text

/-- The form in which font families are compared. -/
def normalize (family : String) : String :=
  lowercase (collapse (stripQuotes (collapse family)))

/-- The entries of a list with commas between them, outside of quotes. `quote` is the quote that is
open and `entry` what was read of the current entry. -/
def splitList (quote : Option Char) (entry : List Char) : List Char → List (List Char)
  | [] => [entry]
  | c :: cs =>
    match quote with
    | some q => splitList (if c = q then none else some q) (entry ++ [c]) cs
    | none =>
      if c = ',' then entry :: splitList none [] cs
      else splitList (if c = '\x22' || c = '\x27' then some c else none) (entry ++ [c]) cs

/-- The families of a list, in normal form. Empty entries count for nothing. -/
def families (cs : List Char) : List String :=
  ((splitList none [] cs).map fun entry => normalize (String.ofList entry)).filter (· ≠ "")

/-- A word, and the text from its start on. -/
structure Word where
  text : List Char
  onward : List Char

/-- The words of a text, which end at white space outside of quotes and parentheses. `word` is the
word that was begun, if any: where it starts, and how many characters of it were read. -/
def wordsFrom (quote : Option Char) (depth : Nat) (word : Option (List Char × Nat)) : List Char → List Word
  | [] => word.toList.map fun (onward, n) => ⟨onward.take n, onward⟩
  | c :: cs =>
    let grown := match word with
      | some (onward, n) => some (onward, n + 1)
      | none => some (c :: cs, 1)
    match quote with
    | some q => wordsFrom (if c = q then none else some q) depth grown cs
    | none =>
      if c = '\x22' || c = '\x27' then wordsFrom (some c) depth grown cs
      else if c = '(' then wordsFrom none (depth + 1) grown cs
      else if c = ')' then wordsFrom none (depth - 1) grown cs
      else if isWhiteSpace c && depth = 0 then
        (word.toList.map fun (onward, n) => ⟨onward.take n, onward⟩) ++ wordsFrom none depth none cs
      else wordsFrom none depth grown cs

/-- The words of a text. -/
def words (cs : List Char) : List Word :=
  wordsFrom none 0 none cs

/-- The sizes that have a name. -/
def namedSizes : List String :=
  ["xx-small", "x-small", "small", "medium", "large", "x-large", "xx-large", "xxx-large", "smaller",
   "larger"]

/-- The functions that can stand for a size. -/
def sizeFunctions : List String :=
  ["calc(", "min(", "max(", "clamp(", "var("]

/-- Whether a word of the `font` shorthand is the size, perhaps with a line height after a slash. A
bare number is a weight, unless a line height follows it. -/
def isSize (word : List Char) : Bool :=
  let (head, height) := splitOnce '/' word
  let size := head.map Char.toLower
  let unsigned := size.dropWhile fun c => c = '+' || c = '-'
  let numeric (c : Char) : Bool := c.isDigit || c = '.'
  if unsigned.head?.any numeric then height.isSome || !unsigned.all numeric
  else namedSizes.contains (String.ofList size) || sizeFunctions.any (·.toList.isPrefixOf size)

/-- The words after the line height, which is set off from the size by a slash, if there is one. -/
def afterLineHeight (size : Word) (rest : List Word) : List Word :=
  if size.text.contains '/' then rest
  else
    match rest with
    | w :: after => if w.text = ['/'] then after.drop 1 else if w.text.head? = some '/' then after else rest
    | [] => []

/-- The family list at the end of a `font` shorthand: what follows the size and line height. -/
def shorthandFamilies (cs : List Char) : List Char :=
  match (words cs).dropWhile (!isSize ·.text) with
  | [] => []
  | size :: rest => (((afterLineHeight size rest).head?).map Word.onward).getD []

end AboveFold.Font

namespace AboveFold

namespace Stylesheet

/-- The families that a declaration uses. -/
def familiesOf (s : Stylesheet) (b : Branch) : List String :=
  match b.kind.property?, b.value? with
  | some property, some value =>
    let text := (s.textOf value).toList
    if Text.eqIgnoreCase property "font-family" then Font.families text
    else if Text.eqIgnoreCase property "font" then Font.families (Font.shorthandFamilies text)
    else []
  | _, _ => []

/-- The families that are used, in order of their first use. What stands in an at-rule `@font-face`
declares a family and uses none. -/
def usedFonts (s : Stylesheet) : List String :=
  let uses := (s.tree.sheet.locate []).filter fun l => !l.above.any (·.kind.isAtRuleNamed "font-face")
  (uses.flatMap fun l => s.familiesOf l.branch).eraseDups

/-- The family that an at-rule `@font-face` declares, if it names one. -/
def declaredFont? (s : Stylesheet) (b : Branch) : Option String :=
  let isFamily (c : Branch) : Bool := c.kind.property?.any (Text.eqIgnoreCase · "font-family")
  let family := do
    let block ← b.block?
    let declaration ← block.children.find? isFamily
    let value ← declaration.value?
    return Font.normalize (s.textOf value)
  family.filter (· ≠ "")

/-- The families that are declared, in document order. -/
def declaredFonts (s : Stylesheet) : List String :=
  let faces := s.tree.attached.filter (·.kind.isAtRuleNamed "font-face")
  (faces.filterMap s.declaredFont?).eraseDups

/-- Removes the declarations of fonts whose family is not among `kept`. One that names no family
stays. -/
def pruneFonts (s : Stylesheet) (kept : List String) : Nat × Stylesheet :=
  let kept := kept.map Font.normalize
  s.pruneBy fun site =>
    let b := site.branch
    if b.kind.isAtRuleNamed "font-face" then
      if (s.declaredFont? b).any (!kept.contains ·) then .remove else .skip
    else
      match b.kind with
      | .styleSheet | .rule | .atRule _ | .block _ => .descend
      | _ => .skip

end Stylesheet

end AboveFold
