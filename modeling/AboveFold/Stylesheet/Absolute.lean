import AboveFold.Stylesheet.Basic
import AboveFold.Url.Parse

/-!
# Absolute urls

A stylesheet that is moved to another place no longer finds what its relative urls name. Resolving
them against the url that the stylesheet came from makes them absolute. What stays as it is: urls
that are absolute already, embedded data, references to fragments, and what is no url.
-/

namespace AboveFold
open Text

/-- The absolute form of a relative url, unless the url stays as it is. -/
def Url.resolve? (base : Url) (url : String) : Option String :=
  let reference := trim url.toList
  let text := String.ofList reference
  if reference.isEmpty || reference.head? = some '#' then none
  else if (reference.take 5).map Char.toLower = "data:".toList then none
  else if (Url.parse text).isSome then none
  else (base.join text).map Url.text

/-- Whether a node below these is what an at-rule `@import` names. -/
def isImportTarget (above : List Node) : Bool :=
  match above with
  | parent :: rule :: _ => parent.kind = .prelude && rule.kind.isAtRuleNamed "import"
  | _ => false

/-- The same string with another value, unless the value holds the quote. -/
def requote (quote : Char) (value : Option String) : Verdict :=
  match value with
  | none => .skip
  | some value => if value.toList.contains quote then .skip else .become (.stringLit value quote)

/-- Makes urls absolute, and so strings that an at-rule `@import` names. -/
def absoluteUrls (base : Url) : Visitor := fun site =>
  match site.branch.kind with
  | .url url quote =>
    match base.resolve? url with
    | none => .skip
    | some url => .become (.url url quote)
  | .stringLit value quote =>
    if isImportTarget site.above then requote quote (base.resolve? value) else .descend
  | .selectorList => .skip
  | _ => .descend

/-- Makes all relative urls absolute and says how many there were. -/
def Stylesheet.absolutify (s : Stylesheet) (base : Url) : Nat × Stylesheet :=
  let w := s.tree.walk (absoluteUrls base)
  (w.changed, { s with tree := w.tree })

end AboveFold
