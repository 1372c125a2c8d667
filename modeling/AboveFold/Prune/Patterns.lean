import AboveFold.Pattern.Whole
import AboveFold.Prune.Filters

/-!
# Filters by pattern

A list of patterns for property names, each with what becomes of the declarations it matches. The
first pattern that matches decides; a property that none matches stays.
-/

namespace AboveFold

/-- A pattern for whole property names, and whether what it matches goes. -/
structure PropertyPattern where
  pattern : Pattern
  excluded : Bool
deriving DecidableEq, Repr

namespace PropertyPattern

/-- Reads patterns, or says what is wrong with the first that is none. -/
def parseAll (patterns : List (String × Bool)) : Except Pattern.Refusal (List PropertyPattern) :=
  patterns.mapM fun (text, excluded) => (Pattern.parseWhole text).map (⟨·, excluded⟩)

/-- Whether a list of patterns excludes a property. -/
def excludes (patterns : List PropertyPattern) (property : String) : Bool :=
  (patterns.find? (·.pattern.occurs property)).any (·.excluded)

/-- The filter that a list of patterns describes. -/
def keeps (patterns : List PropertyPattern) (view : Filter.DeclarationView) : Bool :=
  !excludes patterns view.property

end PropertyPattern

end AboveFold
