import AboveFold.Prune.AtRules
import AboveFold.Prune.Comments
import AboveFold.Prune.Embeds
import AboveFold.Prune.Filters
import AboveFold.Prune.Fonts
import AboveFold.Prune.Media
import AboveFold.Prune.Properties
import AboveFold.Prune.Selectors
import AboveFold.Prune.Variables

/-!
# Pruning as a whole

`Stylesheet.pruned` runs all passes that a first view allows, in an order in which no pass brings
back work for an earlier one, and at last takes out whatever is empty.
-/

namespace AboveFold

/-- What a caller can choose beside the critical selectors. -/
structure Prune.Options where
  /-- What else the caller wants kept. -/
  filters : Filters
  /-- Names of at-rules that go wherever they stand. -/
  atRules : List String
  /-- The font families whose declarations stay; if missing, all of them stay. -/
  fonts : Option (List String)
  /-- The size in bytes up to which embedded data may stay. -/
  maxEmbed : Nat

/-- The options of a caller who chooses nothing. -/
def Prune.Options.standard : Prune.Options :=
  ⟨.keepAll, [], none, Prune.maxEmbed⟩

/-- The stylesheet reduced to what the critical selectors need. -/
def Stylesheet.pruned (s : Stylesheet) (critical : List String) (o : Prune.Options) : Stylesheet :=
  let s := s.pruneMedia.2
  let s := (s.pruneSelectors critical).2
  let s := (s.applyFilters o.filters).2
  let s := (s.pruneAtRules o.atRules).2
  let s := s.pruneInteractive.2
  let s := (s.pruneEmbeds o.maxEmbed).2
  let s := match o.fonts with
    | some fonts => (s.pruneFonts fonts).2
    | none => s
  let s := s.pruneComments.2
  s.pruneEmptied.2

end AboveFold
