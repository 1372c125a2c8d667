import AboveFold.Text.WhiteSpace
import AboveFold.Tree.Branch

/-!
# Branches as text

A branch that was read and not changed since is written as the text it was read from. Any other is
put together from its kind and the text of its children (`layout`), in the compact form that needs
no blanks. Without a source everything is put together.
-/

namespace AboveFold
open Source

/-- A child as it stands in the text of its parent. -/
structure Piece where
  kind : Node.Kind
  text : String

namespace Piece

/-- The texts of pieces, one after the other. -/
def joined (ps : List Piece) : String :=
  String.join (ps.map text)

/-- The texts of pieces with commas between them. -/
def listed (ps : List Piece) : String :=
  ",".intercalate (ps.map text)

/-- Whether a semicolon comes before what follows this entry of a block. -/
def endsOpen (contents : Node.Contents) (k : Node.Kind) : Bool :=
  match contents, k with
  | .declarations, .declaration _ _ | .declarations, .raw _ => true
  | _, _ => false

/-- The text between the braces of a block. Comments need no semicolon before or after them;
`pending` says that the last other entry needs one. -/
def entries (contents : Node.Contents) (pending : Bool) : List Piece → String
  | [] => ""
  | p :: ps =>
    if p.kind.isComment then p.text ++ entries contents pending ps
    else (if pending then ";" else "") ++ p.text ++ entries contents (endsOpen contents p.kind) ps

end Piece

/-- Whether a url needs quotes: it holds white space, a quote or a parenthesis. -/
def needsQuotes (url : String) : Bool :=
  url.toList.any fun c =>
    Text.isWhiteSpace c || c = '\x22' || c = '\x27' || c = '(' || c = ')'

/-- A text with a backslash before each double quote. -/
def escapeQuotes (s : String) : String :=
  String.ofList (s.toList.flatMap fun c => if c = '\x22' then ['\\', '\x22'] else [c])

/-- The text of a url between the parentheses. -/
def urlText (url : String) (quote : Option Char) : String :=
  match quote with
  | some q => String.singleton q ++ url ++ String.singleton q
  | none => if needsQuotes url then "\"" ++ escapeQuotes url ++ "\"" else url

/-- The bracket that closes a group. -/
def closerOf (opening : Char) : Char :=
  if opening = '(' then ')' else if opening = '[' then ']' else '\x7d'

/-- The text of a node of the given kind with the given children. -/
def layout (kind : Node.Kind) (ps : List Piece) : String :=
  match kind with
  | .styleSheet | .rule => Piece.joined ps
  | .value => Piece.joined (Text.trimBy (·.kind.isWhitespace) ps)
  | .atRule name =>
    let prelude := ((ps.find? (·.kind = .prelude)).map Piece.text).getD ""
    let block := ((ps.find? (·.kind.isBlock)).map Piece.text).getD ";"
    "@" ++ name ++ (if prelude.isEmpty then "" else " " ++ prelude) ++ block
  | .prelude => if ps.any (·.kind.isMediaQuery) then Piece.listed ps else Piece.joined ps
  | .selectorList => Piece.listed ps
  | .mediaQuery text | .selector text => text
  | .block contents => "\x7b" ++ Piece.entries contents false ps ++ "\x7d"
  | .declaration property important =>
    let value := ((ps.find? (·.kind = .value)).map Piece.text).getD ""
    property ++ ":" ++ value ++ (if important then "!important" else "")
  | .ident name => name
  | .stringLit value quote => String.singleton quote ++ value ++ String.singleton quote
  | .url url quote => "url(" ++ urlText url quote ++ ")"
  | .function name => name ++ "(" ++ Piece.joined ps ++ ")"
  | .simpleBlock opening => String.singleton opening ++ Piece.joined ps ++ String.singleton (closerOf opening)
  | .comma => ","
  | .whitespace => " "
  | .comment text | .other text | .raw text => text

namespace Node

/-- The text that a node was read from, if it was not changed since. -/
def unchangedText? (source : Option String) (n : Node) : Option String :=
  if n.modified then none else n.span.bind fun span => source.bind span.slice

end Node

namespace Branch

mutual

/-- The text of a branch. -/
def render (source : Option String) : Branch → String
  | mk n cs =>
    match n.unchangedText? source with
    | some text => text
    | none => layout n.kind (renderAll source cs)

/-- The texts of branches, with their kinds. -/
def renderAll (source : Option String) : List Branch → List Piece
  | [] => []
  | b :: bs => ⟨b.kind, render source b⟩ :: renderAll source bs

end

end Branch

end AboveFold
