import AboveFold.Stylesheet.Query

/-!
# Pruning

A pass takes out of a stylesheet what its first view does not need, and says how much that was. A
pass is a walk: `Stylesheet.pruned` runs a visitor and counts what it removed. Rules and at-rules
that a pass leaves empty go with it and are not counted.
-/

namespace AboveFold

namespace Stylesheet

/-- The stylesheet after a visitor went over all of it, and the number of nodes it removed. -/
def pruneBy (s : Stylesheet) (v : Visitor) : Nat × Stylesheet :=
  let w := s.tree.walk v
  (w.removed, { s with tree := w.tree })

/-- Removes rules without selectors or with an empty block, and at-rules with an empty block. -/
def pruneEmptied (s : Stylesheet) : Nat × Stylesheet :=
  let (n, tree) := s.tree.removeEmptied
  (n, { s with tree })

end Stylesheet

namespace Prune

/-- Removes the declarations that satisfy `drop` and looks at no other node below rules. -/
def declarations (drop : Branch → Bool) : Visitor := fun site =>
  match site.branch.kind with
  | .declaration _ _ => if drop site.branch then .remove else .skip
  | .prelude | .selectorList => .skip
  | _ => .descend

/-- Removes the at-rules that satisfy `drop`, and looks only where at-rules can be. -/
def atRules (drop : Branch → Bool) : Visitor := fun site =>
  match site.branch.kind with
  | .atRule _ => if drop site.branch then .remove else .descend
  | .styleSheet | .rule | .block _ => .descend
  | _ => .skip

end Prune

end AboveFold
