import AboveFold.Prune.Basic

/-!
# Selectors

The selectors that matched something in the first view are critical; all others go, and the rules
that have no selector left go with them. The stops of animations have no selectors of elements and
stay. Critical selectors are compared in normal form.
-/

namespace AboveFold

/-- Removes the selectors whose text is not among `critical`, which is in normal form. -/
def Prune.uncritical (critical : List String) : Visitor := fun site =>
  match site.branch.kind with
  | .rule => if isKeyframeStop site.above then .skip else .descend
  | .selector text => if critical.contains text then .skip else .remove
  | .prelude | .declaration _ _ => .skip
  | _ => .descend

/-- Removes the selectors that are not critical. -/
def Stylesheet.pruneSelectors (s : Stylesheet) (critical : List String) : Nat × Stylesheet :=
  s.pruneBy (Prune.uncritical (critical.map Text.normalizeSelector))

end AboveFold
