import AboveFold.Diagnostic.Basic
import AboveFold.Text.Lines

/-!
# Diagnostics as text

One line for a list, or in detail with the source line underlined. Lines and columns are counted
from 1 in text. A snippet is left out where the source has no such line.
-/

namespace AboveFold.Diagnostic
open Source

/-- `n` spaces. -/
def spaces (n : Nat) : String :=
  String.ofList (List.replicate n ' ')

/-- Where a span starts, as `file:line:column`. -/
def place (span : Span) : String :=
  let file := span.path.getD "<input>"
  s!"{file}:{span.start.line + 1}:{span.start.column + 1}"

/-- The diagnostic on one line. -/
def oneline (d : Diagnostic) : String :=
  s!"{place d.span}: error: {d.message}"

/-- The width of the column of line numbers. -/
def gutter (line : Nat) : Nat :=
  max (toString (line + 1)).length 2

/-- A line number, counted from 1, in its column. -/
def numbered (line : Nat) : String :=
  let number := toString (line + 1)
  spaces (gutter line - number.length) ++ number

/-- How many characters of `line` a span that starts on it covers: all up to the end of the span or
of the line, and at least one. -/
def underline (span : Span) (line : String) : Nat :=
  let stop := if span.stop.line = span.start.line then span.stop.column else line.length
  max (stop - span.start.column) 1

/-- The line where a span starts, with the span underlined. -/
def snippet (source : String) (span : Span) : String :=
  match (Text.lines source)[span.start.line]? with
  | none => ""
  | some line =>
    let margin := spaces (gutter span.start.line)
    let number := numbered span.start.line
    let indent := spaces span.start.column
    let carets := String.ofList (List.replicate (underline span line) '^')
    s!"{margin} |\n{number} | {line}\n{margin} | {indent}{carets}\n"

/-- The line where the span of a note starts, with a mark under the place. -/
def noteSnippet (source : String) (span : Span) : String :=
  match (Text.lines source)[span.start.line]? with
  | none => ""
  | some line =>
    let margin := spaces (gutter span.start.line)
    let number := numbered span.start.line
    let indent := spaces span.start.column
    s!"     {number} | {line}\n     {margin} | {indent}-\n"

/-- A note on a line, and the snippet of its place. -/
def Note.render (source : Option String) (note : Note) : String :=
  let mark := match note.kind with
    | .general => "note"
    | .help => "help"
  let shown := match note.span, source with
    | some span, some text => noteSnippet text span
    | _, _ => ""
  s!"   = {mark}: {note.message}\n{shown}"

/-- The diagnostic in detail, with snippets if the source is given. -/
def detailed (source : Option String) (d : Diagnostic) : String :=
  let shown := match source with
    | some text => snippet text d.span
    | none => ""
  s!"error: {d.message}\n  --> {place d.span}\n{shown}"
    ++ String.join (d.notes.map (Note.render source))

/-- All diagnostics in detail, with an empty line between two. -/
def detailedAll (source : Option String) (ds : List Diagnostic) : String :=
  "\n".intercalate (ds.map (detailed source))

end AboveFold.Diagnostic
