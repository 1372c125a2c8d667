import AboveFold.Prune.Basic

/-!
# Filters

A caller can have a say about every declaration and every at-rule. What a filter is told of them has
comments removed and blanks collapsed. `Stylesheet.filterQuestions` lists what the filters are asked
in the course of a pass.
-/

namespace AboveFold

namespace Filter

/-- What a filter is told of a declaration. -/
structure DeclarationView where
  property : String
  value : String
deriving DecidableEq, Repr

/-- What a filter is told of an at-rule. `hasBlock` is missing from statements such as `@import`. -/
structure AtRuleView where
  name : String
  prelude : String
  hasBlock : Bool
deriving DecidableEq, Repr

/-- What a filter is told. -/
inductive Question where
  | declaration (view : DeclarationView)
  | atRule (view : AtRuleView)
deriving DecidableEq, Repr

end Filter

/-- What a caller wants kept. A missing filter keeps everything. -/
structure Filters where
  declarations : Option (Filter.DeclarationView → Bool)
  atRules : Option (Filter.AtRuleView → Bool)

namespace Filters

/-- No filters: everything stays. -/
def keepAll : Filters := ⟨none, none⟩

/-- Whether a filter takes an interest in the question. -/
def covers (f : Filters) : Filter.Question → Bool
  | .declaration _ => f.declarations.isSome
  | .atRule _ => f.atRules.isSome

/-- Whether what the question is about stays. -/
def keeps (f : Filters) : Filter.Question → Bool
  | .declaration view => f.declarations.all (· view)
  | .atRule view => f.atRules.all (· view)

end Filters

namespace Stylesheet

/-- The question that a branch raises. -/
def question? (s : Stylesheet) (b : Branch) : Option Filter.Question :=
  let text (part : Option Branch) : String := (part.map s.textOf).getD ""
  match b.kind with
  | .declaration property _ => some (.declaration ⟨property, text b.value?⟩)
  | .atRule name => some (.atRule ⟨name, text b.prelude?, b.block?.isSome⟩)
  | _ => none

/-- Removes the declarations and at-rules that the filters do not keep. -/
def filterVisitor (s : Stylesheet) (f : Filters) : Visitor := fun site =>
  let kept := (s.question? site.branch).all f.keeps
  match site.branch.kind with
  | .declaration _ _ => if kept then .skip else .remove
  | .atRule _ => if kept then .descend else .remove
  | .prelude | .selectorList => .skip
  | _ => .descend

/-- Removes the declarations and at-rules that the filters do not keep. -/
def applyFilters (s : Stylesheet) (f : Filters) : Nat × Stylesheet :=
  s.pruneBy (s.filterVisitor f)

/-- What the filters are asked when they are applied, in order. -/
def filterQuestions (s : Stylesheet) (f : Filters) : List Filter.Question :=
  let visited := (s.tree.walk (s.filterVisitor f)).visited
  (visited.filterMap s.question?).filter f.covers

end Stylesheet

end AboveFold
