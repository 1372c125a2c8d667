import AboveFold.Grammar.Component
import AboveFold.Text.Normalize

/-!
# Rules, at-rules and declarations

A style sheet and the block of a grouping at-rule hold rules; the block of a style rule and of a
descriptor at-rule holds declarations, among which rules may be nested. What cannot be read is kept
as raw text and reported, and reading goes on after the next semicolon or brace.
-/

namespace AboveFold.Grammar
open Source Node

/-- The list that entries are read into. -/
inductive Place where
  | topLevel
  | rules
  | declarations
deriving DecidableEq

namespace Place

/-- The place inside a block. -/
def ofContents : Contents → Place
  | .declarations => .declarations
  | .rules => .rules

end Place

/-- A name without a vendor's mark: `-webkit-keyframes` is `keyframes`. -/
def unprefixed (name : List Char) : List Char :=
  match name with
  | '-' :: rest =>
    match rest.dropWhile (· != '-') with
    | _ :: bare => bare
    | [] => name
  | _ => name

/-- The at-rules whose block holds descriptors. -/
def descriptorRules : List String :=
  ["font-face", "page", "property", "counter-style", "font-palette-values", "font-feature-values",
   "viewport", "color-profile", "position-try", "view-transition", "top-left", "top-center",
   "top-right", "bottom-left", "bottom-center", "bottom-right"]

/-- What the block of an at-rule holds. Unknown at-rules hold rules. -/
def atRuleContents (name : String) : Contents :=
  if descriptorRules.contains (String.ofList (unprefixed (Text.lower name).toList)) then .declarations
  else .rules

/-- Raw text for a range of bytes. A range that is backwards counts as empty. -/
def rawNode (inp : Input) (start stop : Nat) : Parsed :=
  let span : ByteSpan := ⟨start, max stop start⟩
  .leaf (.raw (inp.slice span)) span

/-! ## Preludes -/

/-- The media queries of a prelude: one for each group between commas that holds anything. -/
def mediaQueries (inp : Input) (atoms : List Parsed) : List Parsed :=
  (Parsed.splitAtCommas atoms).filterMap fun group =>
    let group := Parsed.trim group
    (Parsed.cover group).map fun span => .node (.mediaQuery (Text.collapse (inp.slice span))) span group

/-- What a list that is split at commas leaves out: the commas and the whitespace around them. -/
def separators (atoms : List Parsed) : List Parsed :=
  atoms.filter Parsed.isComma ++ ((Parsed.splitAtCommas atoms).map Parsed.trimmings).flatten

/-- The prelude of an at-rule, if it has any, and the nodes that it leaves out. -/
def preludeOf (inp : Input) (name : String) (atoms : List Parsed) : List Parsed × List Parsed :=
  let kept := Parsed.trim atoms
  match Parsed.cover kept with
  | none => ([], Parsed.trimmings atoms)
  | some span =>
    if Text.eqIgnoreCase name "media" then
      ([.node .prelude span (mediaQueries inp kept)], Parsed.trimmings atoms ++ separators kept)
    else ([.node .prelude span kept], Parsed.trimmings atoms)

/-- The selectors of a list, given as groups, where `start` is the end of the selector before. A
group of nothing but whitespace and comments is reported and left out. -/
def selectors (inp : Input) (start : Nat) : List (List Parsed) → State → List Parsed × State
  | [], st => ([], st)
  | group :: groups, st =>
    let kept := Parsed.trim group
    match Parsed.cover kept with
    | some span =>
      if kept.any (fun p => !p.kind.isComment) then
        let (ps, st) := selectors inp span.stop groups st
        (.node (.selector (Text.normalizeSelector (inp.slice span))) span kept :: ps, st)
      else
        selectors inp start groups
          ((st.discard kept).report (.missingSelector (inp.placeOf ⟨start, start⟩)))
    | none => selectors inp start groups (st.report (.missingSelector (inp.placeOf ⟨start, start⟩)))

/-- The selector list of a rule that starts at `start`. -/
def selectorListOf (inp : Input) (start : Nat) (atoms : List Parsed) (st : State) : Parsed × State :=
  let span := (Parsed.cover (Parsed.trim atoms)).getD ⟨start, start⟩
  let (ps, st) := selectors inp start (Parsed.splitAtCommas atoms) st
  (.node .selectorList span ps, st.discard (separators atoms))

/-! ## Declarations -/

/-- The place of the `!` in a value that ends in `!important`, where blanks and comments may stand
between the two. -/
def importantAt? (atoms : List Parsed) : Option Nat :=
  match atoms.reverse with
  | [] => none
  | last :: before =>
    match last.kind with
    | .ident name =>
      if Text.eqIgnoreCase name "important" then
        match before.dropWhile (·.kind.isTrivia) with
        | bang :: value => if bang.kind = .other "!" then some value.length else none
        | [] => none
      else none
    | _ => none

/-- Whether a declaration's value ends before this token. -/
def endsDeclaration (k : Token.Kind) : Bool :=
  k = .semicolon || k = .curlyClose

/-- Passes over the rest of a malformed declaration and says where it ends. -/
def skipDeclaration : (fuel stop : Nat) → State → Nat × State
  | 0, stop, st => (stop, st)
  | fuel + 1, stop, st =>
    if st.nextKind = .eof || endsDeclaration st.nextKind then (stop, st)
    else
      let (stop, st) := st.skipComponent
      skipDeclaration fuel stop st

/-- A malformed declaration as raw text. -/
def rawDeclaration (inp : Input) (start stop : Nat) (st : State) : Parsed × State :=
  let (stop, st) := skipDeclaration st.rest.length stop st
  (rawNode inp start stop, st)

/-- The declaration of `property`, whose name and colon were read, with the component values that
follow. -/
def declarationOf (inp : Input) (property : String) (start colonEnd : Nat) (atoms : List Parsed)
    (st : State) : Parsed × State :=
  let st := st.discard (Parsed.trimmings atoms)
  let atoms := Parsed.trim atoms
  let endOf (ps : List Parsed) : Nat := (ps.getLast?.map (·.span.stop)).getD colonEnd
  let (important, kept, stop, dropped) := match importantAt? atoms with
    | some i =>
      let head := atoms.take i
      (true, Parsed.trim head, endOf atoms, Parsed.trimmings head ++ atoms.drop i)
    | none => (false, atoms, endOf atoms, [])
  let st := st.discard dropped
  if kept.isEmpty && !property.startsWith "--" then
    (rawNode inp start stop,
      (st.report (.missingValue property (inp.placeOf ⟨start, stop⟩))).discard kept)
  else
    let span := (Parsed.cover kept).getD ⟨colonEnd, colonEnd⟩
    (.node (.declaration property important) ⟨start, stop⟩ [.node .value span kept], st)

/-- Reads a declaration that starts with the property `t`. -/
def declaration (inp : Input) (t : Token) (property : String) (st : State) : Parsed × State :=
  let st := st.advance.skipTrivia
  match st.rest with
  | ⟨.colon, colon⟩ :: _ =>
    let (atoms, st) := components inp endsDeclaration st.advance
    declarationOf inp property t.start colon.stop.offset atoms st
  | _ =>
    let error := .missingColon property st.nextKind.description (st.nextSpan inp)
    rawDeclaration inp t.start t.stop (st.report error)

/-- Whether a block opens before the statement ends. -/
def blockFollows : List Token → Bool
  | [] => false
  | t :: ts =>
    match t.kind with
    | .curlyOpen => true
    | .eof | .semicolon | .curlyClose | .fault _ => false
    | _ => blockFollows ts

/-- Whether an identifier in a block starts a nested rule, and not a declaration: a block opens
before the next semicolon or closing brace. The value of a custom property may hold braces, so it
never starts a rule. -/
def startsNestedRule (name : String) (rest : List Token) : Bool :=
  !name.startsWith "--" && blockFollows rest

/-! ## Entries of a list -/

/-- An at-rule up to its block: its prelude, where it ends so far, and whether a block follows. -/
structure AtRuleHead where
  atoms : List Parsed
  stop : Nat
  hasBlock : Bool

/-- Reads an at-rule, whose name was read, up to its block or its end. -/
def atRuleHead (inp : Input) (nameEnd : Nat) (st : State) : AtRuleHead × State :=
  let ends (k : Token.Kind) : Bool := k = .semicolon || k = .curlyOpen || k = .curlyClose
  let (atoms, st) := components inp ends st
  let stop := atoms.foldl (fun stop p => max stop p.span.stop) nameEnd
  match st.nextKind with
  | .semicolon =>
    let st := st.advance
    (⟨atoms, st.lastOffset, false⟩, st)
  | .curlyOpen => (⟨atoms, stop, true⟩, st)
  | _ => (⟨atoms, stop, false⟩, st)

/-- Whether a style rule's selectors end before this token. At the top level only a block ends
them. -/
def endsSelectors (place : Place) (k : Token.Kind) : Bool :=
  k = .curlyOpen || (k = .curlyClose && place ≠ .topLevel) || (k = .semicolon && place = .declarations)

/-- What a style rule is before its block is read: its selectors and start, or raw text if there is
no block. -/
inductive RuleHead where
  | block (selectorList : Parsed) (start : Nat)
  | raw (node : Parsed)

/-- Reads a style rule up to its block. -/
def ruleHead (inp : Input) (place : Place) (st : State) : RuleHead × State :=
  let start := (st.nextSpan inp).start.offset
  let (atoms, st) := components inp (endsSelectors place) st
  match st.nextKind with
  | .curlyOpen =>
    let (selectorList, st) := selectorListOf inp start atoms st
    (.block selectorList start, st)
  | .eof =>
    let error := .missingBlock (st.endSpan inp) (inp.placeOf ⟨start, start⟩)
    (.raw (rawNode inp start st.lastOffset), (st.report error).discard atoms)
  | k =>
    let error := .expectedBlock k.description (st.nextSpan inp)
    (.raw (rawNode inp start st.lastOffset), (st.report error).discard atoms)

/-- How an entry of a list starts. -/
inductive Entry where
  /-- The list ends before this token. -/
  | finish
  /-- The token separates entries. -/
  | separator
  | comment (text : String)
  | strayBrace
  | atRule (name : String)
  | declaration (property : String)
  | fault (fault : Token.Fault)
  | styleRule

/-- What the tokens to come start in a list at `place`. -/
def entryOf (place : Place) : List Token → Entry
  | [] => .finish
  | t :: ts =>
    match t.kind, place with
    | .eof, _ => .finish
    | .whitespace, _ => .separator
    | .cdo, .topLevel | .cdo, .rules | .cdc, .topLevel | .cdc, .rules => .separator
    | .semicolon, .declarations => .separator
    | .comment text, _ => .comment text
    | .curlyClose, .topLevel => .strayBrace
    | .curlyClose, _ => .finish
    | .atKeyword name, _ => .atRule name
    | .fault fault, _ => .fault fault
    | .ident name, .declarations =>
      if startsNestedRule name ts then .styleRule else .declaration name
    | _, _ => .styleRule

/-- Ends a block: reads its closing brace, or reports that the input ended first. -/
def closeBlock (inp : Input) (st : State) : State :=
  match st.nextKind with
  | .curlyClose => st.advance.leave
  | _ => (st.report (.unclosed st.openings.head? '\x7b' '\x7d' (st.endSpan inp))).leave

mutual

/-- Reads the entries of a list up to the token that ends it. Every step of the recursion goes one
down on `fuel`. -/
def entries (inp : Input) (place : Place) (fuel : Nat) (st : State) : List Parsed × State :=
  match fuel, st.rest with
  | 0, _ => ([], st)
  | _, [] => ([], st)
  | fuel + 1, t :: ts =>
    match entryOf place (t :: ts) with
    | .finish => ([], st)
    | .separator => entries inp place fuel st.advance
    | .strayBrace => entries inp place fuel (st.advance.report (.strayBrace t.span))
    | .comment text =>
      let (ps, st) := entries inp place fuel st.advance
      (.leaf (.comment text) t.span.bytes :: ps, st)
    | .fault fault =>
      let st := st.advance.report (.lexical fault t.span)
      let (p, st) := match place with
        | .declarations => rawDeclaration inp t.start t.stop st
        | _ => (rawNode inp t.start t.stop, st)
      let (ps, st) := entries inp place fuel st
      (p :: ps, st)
    | .declaration property =>
      let (p, st) := declaration inp t property st
      let (ps, st) := entries inp place fuel st
      (p :: ps, st)
    | .atRule name =>
      let (head, st) := atRuleHead inp t.stop st.advance
      let (block, stop, st) := if head.hasBlock then
          let (p, st) := block inp (atRuleContents name) .atRuleBlock fuel st
          ([p], p.span.stop, st)
        else ([], head.stop, st)
      let (prelude, dropped) := preludeOf inp name head.atoms
      let (ps, st) := entries inp place fuel (st.discard dropped)
      (.node (.atRule name) ⟨t.start, stop⟩ (prelude ++ block) :: ps, st)
    | .styleRule =>
      match ruleHead inp place st with
      | (.raw p, st) =>
        let (ps, st) := entries inp place fuel st
        (p :: ps, st)
      | (.block selectorList start, st) =>
        let (p, st) := block inp .declarations .ruleBlock fuel st
        let (ps, st) := entries inp place fuel st
        (.node .rule ⟨start, p.span.stop⟩ [selectorList, p] :: ps, st)

/-- Reads a block whose opening brace is the next token. -/
def block (inp : Input) (contents : Contents) (construct : Diagnostic.Construct) (fuel : Nat)
    (st : State) : Parsed × State :=
  match fuel, st.rest with
  | 0, _ => (.leaf (.block contents) ⟨st.lastOffset, st.lastOffset⟩, st)
  | _, [] => (.leaf (.block contents) ⟨st.lastOffset, st.lastOffset⟩, st)
  | fuel + 1, t :: _ =>
    let st := st.advance
    if maxDepth ≤ st.depth then
      let (skipped, st) := (st.report (.tooDeep t.span)).skipNested
      (.node (.block contents) ⟨t.start, skipped.stop⟩ [rawNode inp t.stop skipped.inner], st)
    else
      let (ps, st) := entries inp (.ofContents contents) fuel (st.enter ⟨construct, t.span⟩)
      let st := closeBlock inp st
      (.node (.block contents) ⟨t.start, st.lastOffset⟩ ps, st)

end

/-- What reading a stylesheet yields. -/
structure Outcome where
  /-- The tree, from its root. -/
  sheet : Parsed
  /-- Nodes that were read and are not part of the tree. -/
  discarded : List Parsed
  /-- What is wrong, in the order in which it was found. -/
  errors : List Diagnostic

/-- Reads tokens of `inp` as a stylesheet. Each token takes at most two steps. -/
def Input.read (inp : Input) (tokens : List Token) : Outcome :=
  let (ps, st) := entries inp .topLevel (2 * tokens.length + 1) (.start tokens)
  ⟨.node .styleSheet ⟨0, Text.byteSize inp.source.toList⟩ ps, st.discarded, st.errors.reverse⟩

end AboveFold.Grammar
