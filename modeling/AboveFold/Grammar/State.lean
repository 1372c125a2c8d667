import AboveFold.Diagnostic.Basic
import AboveFold.Grammar.Parsed

/-!
# The state of reading

Reading goes over the tokens of a stylesheet once. Its state holds the tokens to come, the brackets
that are open, the diagnostics so far and the nodes that were read but have no place in the tree.
Brackets may nest `maxDepth` deep; what is deeper is passed over as text (`State.skipNested`), so
that hostile input cannot exhaust the stack.
-/

namespace AboveFold.Grammar
open Source

/-- What is read: the text that the tokens were made of, and its file. -/
structure Input where
  source : String
  path : Option String

namespace Input

/-- The text of a range of bytes. -/
def slice (inp : Input) (span : ByteSpan) : String :=
  (span.slice inp.source).getD ""

/-- The place of a byte offset. -/
def placeOf (inp : Input) (span : ByteSpan) : Span :=
  .resolve inp.source span inp.path

end Input

/-- How deep blocks, functions and groups may nest. -/
def maxDepth : Nat := 128

/-- The state of reading. `errors` has the newest first. -/
structure State where
  /-- The tokens to come. -/
  rest : List Token
  /-- Where the token that was read last ends. -/
  lastEnd : Option Position
  /-- How many blocks, functions and groups are being read. -/
  depth : Nat
  /-- The brackets that are open, innermost first. -/
  openings : List Diagnostic.Opening
  errors : List Diagnostic
  /-- Nodes that were read and are not part of the tree. -/
  discarded : List Parsed

namespace State

/-- The state before anything was read. -/
def start (tokens : List Token) : State := ⟨tokens, none, 0, [], [], []⟩

/-- The kind of the next token. Behind the last token there is the end of input. -/
def nextKind (st : State) : Token.Kind :=
  match st.rest with
  | [] => .eof
  | t :: _ => t.kind

/-- The state after the next token, if there is one. -/
def advance (st : State) : State :=
  match st.rest with
  | [] => st
  | t :: ts => { st with rest := ts, lastEnd := some t.span.stop }

/-- The byte offset after the last token that was read. -/
def lastOffset (st : State) : Nat :=
  match st.lastEnd with
  | some p => p.offset
  | none => 0

/-- The empty place after the last token that was read. -/
def endSpan (inp : Input) (st : State) : Span :=
  let p := st.lastEnd.getD .start
  ⟨p, p, inp.path⟩

/-- The place of the next token. -/
def nextSpan (inp : Input) (st : State) : Span :=
  match st.rest with
  | [] => st.endSpan inp
  | t :: _ => t.span

/-- Notes a diagnostic. -/
def report (st : State) (d : Diagnostic) : State := { st with errors := d :: st.errors }

/-- Sets nodes aside that have no place in the tree. -/
def discard (st : State) (ps : List Parsed) : State := { st with discarded := ps ++ st.discarded }

/-- Opens a bracket. -/
def enter (st : State) (o : Diagnostic.Opening) : State :=
  { st with depth := st.depth + 1, openings := o :: st.openings }

/-- Leaves the innermost bracket. -/
def leave (st : State) : State :=
  { st with depth := st.depth - 1, openings := st.openings.tail }

/-- The tokens after blanks and comments, and where the last of those ends. -/
def triviaFrom (last : Option Position) : List Token → Option Position × List Token
  | [] => (last, [])
  | t :: ts => if t.kind.isTrivia then triviaFrom (some t.span.stop) ts else (last, t :: ts)

/-- Passes over blanks and comments. -/
def skipTrivia (st : State) : State :=
  let (last, rest) := triviaFrom st.lastEnd st.rest
  { st with rest, lastEnd := last }

/-- Where passed-over text ends: `inner` before the bracket that closes it, `stop` after. -/
structure Skipped where
  inner : Nat
  stop : Nat

/-- Passes over tokens until `nested` inner brackets and one outer are closed, or the input ends;
any closing bracket closes any open one. `stop` is the end of the text so far. -/
def skipFrom (nested stop : Nat) (last : Option Position) : List Token → Skipped × Option Position × List Token
  | [] => (⟨stop, stop⟩, last, [])
  | t :: ts =>
    let last := some t.span.stop
    if t.kind = .eof then (⟨stop, stop⟩, last, ts)
    else if t.kind.closer?.isSome then skipFrom (nested + 1) t.stop last ts
    else if t.kind.closing?.isSome then
      match nested with
      | 0 => (⟨t.start, t.stop⟩, last, ts)
      | n + 1 => skipFrom n t.stop last ts
    else skipFrom nested t.stop last ts

/-- Passes over the rest of a group whose opening bracket was just read. -/
def skipNested (st : State) : Skipped × State :=
  let (skipped, last, rest) := skipFrom 0 st.lastOffset st.lastEnd st.rest
  (skipped, { st with rest, lastEnd := last })

/-- Passes over one component value, a token or a whole group, and says where it ends. -/
def skipComponent (st : State) : Nat × State :=
  match st.rest with
  | [] => (st.lastOffset, st)
  | t :: _ =>
    if t.kind.closer?.isSome then
      let (skipped, st) := st.advance.skipNested
      (skipped.stop, st)
    else (t.stop, st.advance)

end State

end AboveFold.Grammar
