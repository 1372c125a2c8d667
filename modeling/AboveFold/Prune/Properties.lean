import AboveFold.Prune.Basic

/-!
# Properties for interaction

Transitions, cursors, pointer events, tap highlights and the selection of text matter only once
somebody uses the page. Property names are compared in any case; beside ASCII capitals the long s and
the Kelvin sign are other cases of `s` and `k`.
-/

namespace AboveFold.Prune
open Text

/-- The ASCII small letter that a character is a case of, or the character itself. -/
def foldAscii (c : Char) : Char :=
  if c = '\u017f' then 's' else if c = '\u212a' then 'k' else c.toLower

/-- Whether a property matters only when somebody uses the page. A name with a line feed before what
is looked for is none of these. -/
def isInteractive (property : String) : Bool :=
  let cs := property.toList.map foldAscii
  (!cs.contains '\n' && (hasInfix "transition".toList cs || hasSuffix "user-select".toList cs))
    || cs = "cursor".toList || cs = "pointer-events".toList || cs = "tap-highlight-color".toList
    || cs = "-webkit-tap-highlight-color".toList

end AboveFold.Prune

namespace AboveFold

/-- Removes the declarations of properties that matter only when somebody uses the page. -/
def Stylesheet.pruneInteractive (s : Stylesheet) : Nat × Stylesheet :=
  s.pruneBy (Prune.declarations fun b => b.kind.property?.any Prune.isInteractive)

end AboveFold
