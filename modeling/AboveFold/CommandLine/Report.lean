import AboveFold.CommandLine.Files
import AboveFold.Diagnostic.Render
import AboveFold.Prune.Fonts
import AboveFold.Prune.Variables

/-!
# Reports on stylesheets

A report says what a stylesheet selects, uses and declares, and what is wrong with it. Stylesheets
are read side by side: what is read arrives as it is done, each with its place in the list, and
`Outcome.ofReports` puts the reports in order again. What went wrong is told in the order in which it
arrived.
-/

namespace AboveFold.CommandLine
open Text

/-- How a command ends: whether it did what it was asked, and what it prints. -/
structure Outcome where
  success : Bool
  output : Option String
  error : Option String
deriving DecidableEq, Repr

namespace Outcome

/-- Success with a text to print. -/
def printed (text : String) : Outcome := ⟨true, some text, none⟩

/-- Success without a word. -/
def silent : Outcome := ⟨true, none, none⟩

/-- Failure, and why. -/
def failed (message : String) : Outcome := ⟨false, none, some ("❌ " ++ message)⟩

end Outcome

/-- What there is to say about a stylesheet. -/
structure Report where
  path : String
  ruleCount : Nat
  selectors : List String
  usedVariables : List String
  usedFonts : List String
  declaredFonts : List String
  diagnostics : List String
deriving DecidableEq, Repr

/-- Texts with commas between them, or the word for no text. -/
def listing (texts : List String) : String :=
  let joined := ", ".intercalate texts
  if joined = "" then "(none)" else joined

namespace Report

/-- The report on a stylesheet. -/
def ofStylesheet (path : String) (s : Stylesheet) : Report where
  path := path
  ruleCount := s.ruleCount
  selectors := s.selectors
  usedVariables := s.usedVariables
  usedFonts := s.usedFonts
  declaredFonts := s.declaredFonts
  diagnostics := s.errors.map Diagnostic.oneline

/-- The report on the bytes of a file, or why it cannot be read. -/
def ofBytes (path : String) (bytes : Except FileError (List Nat)) : Except String Report :=
  match bytes with
  | .error e => .error e.message
  | .ok bytes =>
    match decode bytes with
    | .error e => .error e.message
    | .ok text => .ok (ofStylesheet path (.parse text (some path)))

/-- The report in words. -/
def text (r : Report) : String :=
  let marker := if r.diagnostics.isEmpty then "✅" else "⚠️"
  let lines := [s!"{marker} {r.path}", s!"  * {r.ruleCount} rules, {r.selectors.length} selectors.",
    "  * Selectors: " ++ listing r.selectors, "  * Used variables: " ++ listing r.usedVariables,
    "  * Used fonts: " ++ listing r.usedFonts, "  * Declared fonts: " ++ listing r.declaredFonts]
  "\n".intercalate (lines ++ r.diagnostics.map ("    " ++ ·))

end Report

/-- A stylesheet that is done: its place in the list of inputs, its path, and the report or why
there is none. -/
structure Completed where
  index : Nat
  path : String
  result : Except String Report

namespace Completed

/-- The stylesheet in a file that was read. -/
def ofArrival (a : Arrival) : Completed := ⟨a.index, a.path, Report.ofBytes a.path a.bytes⟩

/-- What went wrong with the stylesheet. -/
def failure? (c : Completed) : Option String :=
  match c.result with
  | .error message => some s!"{c.path}: {message}"
  | .ok _ => none

/-- The reports, in the order of the inputs. -/
def reports (completed : List Completed) : List Report :=
  let sorted := completed.mergeSort fun a b => a.index ≤ b.index
  sorted.filterMap (·.result.toOption)

end Completed

/-- How an inspection ends. `failures` went wrong before any stylesheet was read, and `completed` is in
the order in which the stylesheets were done. -/
def Outcome.ofReports (failures : List String) (completed : List Completed) : Outcome :=
  let reports := Completed.reports completed
  let diagnostics := reports.foldl (fun n r => n + r.diagnostics.length) 0
  let text := "\n".intercalate (reports.map Report.text)
    ++ s!"\n\nInspected {reports.length} stylesheets ({diagnostics} diagnostics)."
  let trimmed := String.ofList (text.toList.dropWhile isWhiteSpace)
  match failures ++ completed.filterMap Completed.failure? with
  | [] => .printed trimmed
  | messages =>
    let listed := "\n".intercalate (messages.map ("  * " ++ ·))
    ⟨false, some trimmed, some ("❌ Failed to inspect some inputs:\n" ++ listed)⟩

end AboveFold.CommandLine
