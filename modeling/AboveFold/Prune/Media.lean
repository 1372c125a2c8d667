import AboveFold.Prune.Basic
import AboveFold.Text.WhiteSpace

/-!
# Media queries

An at-rule for another medium than a screen does not show in a first view. `isUsefulQuery` decides
whether a media query can hold on a screen. Text that is no media query is taken as useful.
-/

namespace AboveFold.Prune
open Text

/-- A character of a media type. -/
def isTypeChar (c : Char) : Bool :=
  c.isAlphanum || c = '-' || c = '_'

/-- What follows a word and blanks, if the word stands at the front. -/
def afterWord? (word : String) (cs : List Char) : Option (List Char) :=
  match after? word.toList cs with
  | some [] => some []
  | some (' ' :: rest) => some (rest.dropWhile isWhiteSpace)
  | _ => none

/-- Whether a query in lower case can hold on a screen. `negated` says that `not` came before it.
Without a media type it can; `screen` and `all` can unless they are negated as a whole; any other
type only if it is negated. -/
def holdsOnScreen (negated : Bool) (cs : List Char) : Bool :=
  match cs.takeWhile isTypeChar with
  | [] => true
  | type =>
    if type = "screen".toList || type = "all".toList then
      !negated || !(cs.dropWhile isTypeChar).all isWhiteSpace
    else negated

/-- Whether a media query can hold on a screen. A leading `only` says nothing. -/
def isUsefulQuery (query : String) : Bool :=
  let cs := (lower (collapse query)).toList
  match afterWord? "not" cs with
  | some rest => holdsOnScreen true rest
  | none => holdsOnScreen false ((afterWord? "only" cs).getD cs)

end AboveFold.Prune

namespace AboveFold

namespace Branch

/-- The texts of the media queries of an at-rule. -/
def mediaQueries (b : Branch) : List String :=
  ((b.prelude?.map children).getD []).filterMap fun c =>
    match c.kind with
    | .mediaQuery text => some text
    | _ => none

/-- Whether a media query, or an at-rule by its list of media queries, matters on a screen. A list
without entries holds everywhere, and so does any other node. -/
def isUsefulMedia (b : Branch) : Bool :=
  match b.kind with
  | .mediaQuery text => Prune.isUsefulQuery text
  | .atRule name =>
    !Text.eqIgnoreCase name "media" || b.mediaQueries.isEmpty || b.mediaQueries.any Prune.isUsefulQuery
  | _ => true

end Branch

/-- Removes the media at-rules that cannot hold on a screen. -/
def Stylesheet.pruneMedia (s : Stylesheet) : Nat × Stylesheet :=
  s.pruneBy (Prune.atRules fun b => !b.isUsefulMedia)

end AboveFold
