import AboveFold.Stylesheet.Basic
import AboveFold.Text.Search

/-!
# Questions about a stylesheet

What rules and selectors a stylesheet has, and what a node says when it is read as a plain value.
-/

namespace AboveFold

/-- The nearest at-rule among the nodes above a node. -/
def enclosingAtRule? (above : List Node) : Option Node :=
  above.find? (·.kind.isAtRule)

/-- Whether a rule below these nodes is a stop of an animation: the nearest at-rule is named
`keyframes`, perhaps with a vendor's mark in front. -/
def isKeyframeStop (above : List Node) : Bool :=
  (enclosingAtRule? above).any fun n =>
    n.kind.atRuleName?.any fun name => Text.hasSuffix "keyframes".toList (Text.lower name).toList

/-- Whether a selector styles nothing but what the user has selected, which no first view shows. -/
def isSelectionSelector (selector : String) : Bool :=
  Text.hasInfix ":selection".toList selector.toList || Text.hasInfix ":-moz-selection".toList selector.toList

/-- The text of a selector. -/
def Node.Kind.selector? : Node.Kind → Option String
  | .selector text => some text
  | _ => none

/-- A text without one pair of equal quotes around it. -/
def stripQuotes (s : String) : String :=
  match s.toList with
  | q :: inner =>
    if (q = '\x22' || q = '\x27') && !inner.isEmpty && inner.getLast? = some q then String.ofList inner.dropLast
    else s
  | [] => s

namespace Stylesheet

/-- The number of style rules. -/
def ruleCount (s : Stylesheet) : Nat :=
  (s.tree.attached.filter (·.kind.isRule)).length

/-- The selectors of all rules, in document order, without the stops of animations and without
selectors that style selections. -/
def selectors (s : Stylesheet) : List String :=
  let rules := (s.tree.sheet.locate []).filter fun l => l.branch.kind.isRule && !isKeyframeStop l.above
  let texts := rules.flatMap fun l => l.branch.selectors.filterMap (·.kind.selector?)
  texts.filter (!isSelectionSelector ·)

mutual

/-- A branch as a plain value: strings and urls without quotes, identifiers and selectors as their
text, and a declaration or value of one component as that component. All else reads as its text with
comments removed, blanks collapsed and quotes around it taken off. -/
def readValue (s : Stylesheet) : Branch → String
  | .mk n cs =>
    match n.kind with
    | .stringLit value _ => value
    | .url url _ => url
    | .ident name => name
    | .selector text | .mediaQuery text => text
    | .declaration _ _ =>
      ((readAll s cs).find? (·.kind = .value)).elim "" Piece.text
    | .value =>
      match (readAll s cs).filter (fun p => !p.kind.isTrivia) with
      | [only] => only.text
      | _ => s.textOf (.mk n cs)
    | _ => stripQuotes (s.textOf (.mk n cs))

/-- Branches as plain values, with their kinds. -/
def readAll (s : Stylesheet) : List Branch → List Piece
  | [] => []
  | b :: bs => ⟨b.kind, readValue s b⟩ :: readAll s bs

end

end Stylesheet

end AboveFold
