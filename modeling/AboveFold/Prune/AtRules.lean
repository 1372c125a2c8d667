import AboveFold.Prune.Basic

/-!
# At-rules by name

Named at-rules can be left out wherever they stand. Names are compared whole, in any case: a
vendor's form of a name is another name.
-/

namespace AboveFold

/-- Removes every at-rule that has one of the names. -/
def Stylesheet.pruneAtRules (s : Stylesheet) (names : List String) : Nat × Stylesheet :=
  s.pruneBy (Prune.atRules fun b => names.any b.kind.isAtRuleNamed)

end AboveFold
