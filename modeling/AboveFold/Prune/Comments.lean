import AboveFold.Prune.Basic

/-!
# Comments

All comments go. Where a comment is all that separates two component values, a space takes its
place, so that they stay two.
-/

namespace AboveFold.Prune

/-- The kinds of node whose children are written one after the other as component values. -/
def holdsComponents : Node.Kind → Bool
  | .value | .prelude | .mediaQuery _ | .function _ | .simpleBlock _ => true
  | _ => false

/-- A component value that would run into one beside it. -/
def isSolid (k : Node.Kind) : Bool :=
  !k.isTrivia && k ≠ .comma

/-- Whether what stands at the site is all that separates two component values. -/
def separates (site : Site) : Bool :=
  site.above.head?.any (holdsComponents ·.kind)
    && site.before.head?.any (isSolid ·.kind) && site.after.head?.any (isSolid ·.kind)

/-- Removes comments, or puts a space in their place. -/
def comments : Visitor := fun site =>
  if !site.branch.kind.isComment then .descend
  else if separates site then .exchange .whitespace
  else .remove

end AboveFold.Prune

namespace AboveFold

/-- Removes all comments. -/
def Stylesheet.pruneComments (s : Stylesheet) : Nat × Stylesheet :=
  let w := s.tree.walk Prune.comments
  (w.removed + w.changed, { s with tree := w.tree })

end AboveFold
