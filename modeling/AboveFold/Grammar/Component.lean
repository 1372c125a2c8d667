import AboveFold.Grammar.State

/-!
# Component values

A component value is a token, a function with its arguments, or a group in brackets. Functions and
groups end at their closing bracket, before a closing brace that is not theirs, or with the input;
the last two are reported, and the brace is left to the block that it closes.
-/

namespace AboveFold.Grammar
open Source Node

/-- A group of component values, by what opens it. -/
inductive Group where
  | function (name : String)
  | paren
  | square
  | curly

namespace Group

/-- The group that a token opens. -/
def of? : Token.Kind → Option Group
  | .function name => some (.function name)
  | .parenOpen => some .paren
  | .squareOpen => some .square
  | .curlyOpen => some .curly
  | _ => none

/-- The bracket that opens the group. -/
def openChar : Group → Char
  | function _ | paren => '('
  | square => '['
  | curly => '\x7b'

/-- The bracket that closes the group. -/
def closeChar : Group → Char
  | function _ | paren => ')'
  | square => ']'
  | curly => '\x7d'

/-- The name of the group in diagnostics. -/
def construct : Group → Diagnostic.Construct
  | function _ => .functionArguments
  | paren => .parenthesizedGroup
  | square => .bracketedGroup
  | curly => .bracedGroup

/-- Whether a token ends the group: its own closing bracket, or a closing brace. -/
def endsAt (g : Group) (k : Token.Kind) : Bool :=
  k.closing? = some g.closeChar || k = .curlyClose

end Group

/-- The string between the quotes of a token. The token's last quote need not be there. -/
def stringLiteral (text : String) : Node.Kind :=
  match text.toList with
  | [] => .stringLit "" '\x22'
  | quote :: inner =>
    let value := if inner.getLast? = some quote then inner.dropLast else inner
    .stringLit (String.ofList value) quote

/-- The kind of the node for a token that opens no group. -/
def leafKind (inp : Input) (t : Token) : Node.Kind :=
  match t.kind with
  | .whitespace => .whitespace
  | .comment text => .comment text
  | .ident name => .ident name
  | .quotedString text => stringLiteral text
  | .url url => .url url none
  | .comma => .comma
  | _ => .other (inp.slice t.span.bytes)

/-- What is wrong with a token that stands alone as a component value. -/
def leafError (inp : Input) (t : Token) : Option Diagnostic :=
  match t.kind with
  | .parenClose | .squareClose | .curlyClose => some (.strayCloser (inp.slice t.span.bytes) t.span)
  | .fault fault => some (.lexical fault t.span)
  | _ => none

/-- The node of a token that opens no group; the token was read already. -/
def leaf (inp : Input) (t : Token) (st : State) : Parsed × State :=
  let node := Parsed.leaf (leafKind inp t) t.span.bytes
  match leafError inp t with
  | some d => (node, st.report d)
  | none => (node, st)

/-- Ends a group: reads its closing bracket, or reports that it is not there. -/
def closeGroup (inp : Input) (g : Group) (st : State) : State :=
  let k := st.nextKind
  if k = .eof then
    st.leave.report (.unclosed st.openings.head? g.openChar g.closeChar (st.endSpan inp))
  else if k.closing? = some g.closeChar then st.advance.leave
  else (st.report (.mismatched st.openings.head? g.closeChar (st.nextSpan inp))).leave

/-- The one string among the arguments of a function, if blanks and comments are all else. -/
def soleString? (children : List Parsed) : Option (String × Char) :=
  match children.filter (fun p => !p.kind.isTrivia) with
  | [p] =>
    match p.kind with
    | .stringLit value quote => some (value, quote)
    | _ => none
  | _ => none

/-- The node of a group, and the nodes that it leaves out: a url with a quoted address is a node
without children. -/
def groupNode (g : Group) (span : ByteSpan) (children : List Parsed) : Parsed × List Parsed :=
  match g with
  | .function name =>
    match (if Text.eqIgnoreCase name "url" then soleString? children else none) with
    | some (url, quote) => (.leaf (.url url (some quote)) span, children)
    | none => (.node (.function name) span children, [])
  | _ => (.node (.simpleBlock g.openChar) span children, [])

/-- The place where a token should be and none is. -/
def missing (st : State) : Parsed :=
  .leaf (.other "") ⟨st.lastOffset, st.lastOffset⟩

mutual

/-- Reads one component value. Every step of the recursion goes one down on `fuel`. -/
def component (inp : Input) (fuel : Nat) (st : State) : Parsed × State :=
  match fuel, st.rest with
  | 0, _ => (missing st, st)
  | _, [] => (missing st, st)
  | fuel + 1, t :: _ =>
    let st := st.advance
    match Group.of? t.kind with
    | none => leaf inp t st
    | some g =>
      if maxDepth ≤ st.depth then
        let (skipped, st) := (st.report (.tooDeep t.span)).skipNested
        let span := ⟨t.start, skipped.stop⟩
        (.leaf (.other (inp.slice span)) span, st)
      else
        let (children, st) := componentList inp g.endsAt fuel (st.enter ⟨g.construct, t.span⟩)
        let st := closeGroup inp g st
        let (node, dropped) := groupNode g ⟨t.start, st.lastOffset⟩ children
        (node, st.discard dropped)

/-- Reads component values up to a token that satisfies `stop`, or the end of input. -/
def componentList (inp : Input) (stop : Token.Kind → Bool) (fuel : Nat) (st : State) : List Parsed × State :=
  match fuel with
  | 0 => ([], st)
  | fuel + 1 =>
    if st.nextKind = .eof || stop st.nextKind then ([], st)
    else
      let (p, st) := component inp fuel st
      let (ps, st) := componentList inp stop fuel st
      (p :: ps, st)

end

/-- Reads component values up to a token that satisfies `stop`, or the end of input. Each takes a
token, and each token at most two steps. -/
def components (inp : Input) (stop : Token.Kind → Bool) (st : State) : List Parsed × State :=
  componentList inp stop (2 * st.rest.length + 1) st

end AboveFold.Grammar
