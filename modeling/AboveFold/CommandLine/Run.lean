import AboveFold.CommandLine.Report
import AboveFold.CommandLine.Request
import AboveFold.Critical
import AboveFold.Prune.Options
import AboveFold.Prune.Patterns
import AboveFold.Stylesheet.Absolute

/-!
# Carrying out requests

`run` carries out a request with the file operations of any monad. Pruning reads the selectors
first, then the stylesheet, and then the patterns; the first that fails is reported.
-/

namespace AboveFold.CommandLine
open Text

/-- A character of a quoted path. -/
def quotedChar (c : Char) : List Char :=
  match c with
  | '\x22' => ['\\', '\x22']
  | '\\' => ['\\', '\\']
  | '\n' => ['\\', 'n']
  | '\r' => ['\\', 'r']
  | '\t' => ['\\', 't']
  | '\x00' => ['\\', '0']
  | c =>
    let n := c.toNat
    if n < 32 || (127 ≤ n && n < 160) then ['\\', 'u', '\x7b'] ++ Nat.toDigits 16 n ++ ['\x7d'] else [c]

/-- A path in quotes, as messages show it. -/
def quoted (path : String) : String :=
  String.ofList ('\x22' :: path.toList.flatMap quotedChar ++ ['\x22'])

/-! ## Pruning -/

/-- The options that a request asks for, or what is wrong with a pattern. -/
def PruneRequest.options (r : PruneRequest) : Except String Prune.Options :=
  match PropertyPattern.parseAll (r.properties.map (·, true)) with
  | .error refusal => .error ("Invalid --exclude-property pattern: " ++ refusal.message)
  | .ok patterns =>
    let declarations := if r.properties.isEmpty then none else some (PropertyPattern.keeps patterns)
    .ok ⟨⟨declarations, none⟩, r.atRules, if r.fonts.isEmpty then none else some (r.fonts.map Font.normalize), r.maxEmbed⟩

/-- The stylesheet reduced as a request asks. -/
def PruneRequest.apply (r : PruneRequest) (selectors css : String) : Except String String := do
  let options ← r.options
  let s := (Stylesheet.parse css (some r.stylesheet)).pruned (criticalSelectors selectors) options
  let s := if r.unusedVariables then s.pruneVariablesFully.2 else s
  let s := match r.baseUrl with
    | some base => (s.absolutify base).2
    | none => s
  return s.render

/-- The bytes of a file as text, or why there is none. -/
def readText (bytes : Except FileError (List Nat)) : Except String String :=
  match bytes with
  | .error e => .error e.message
  | .ok bytes => (decode bytes).mapError fun _ => "stream did not contain valid UTF-8"

/-- What is printed or written for a request to prune, given what its two files hold. -/
def PruneRequest.result (r : PruneRequest) (selectors css : Except FileError (List Nat)) :
    Except String String :=
  (do
    let selectors ← (readText selectors).mapError fun e => s!"Failed to read selectors from {quoted r.selectors}: {e}"
    let css ← (readText css).mapError fun e => s!"Failed to read stylesheet {quoted r.stylesheet}: {e}"
    r.apply selectors css : Except String String).mapError fun e => s!"Failed to prune {quoted r.stylesheet}: {e}"

/-- Carries out a request to prune. -/
def prune {m : Type → Type} [Monad m] (files : FileAccess m) (r : PruneRequest) : m Outcome := do
  match r.result (← files.read r.selectors) (← files.read r.stylesheet) with
  | .error e => return .failed e
  | .ok css =>
    match r.output with
    | none => return .printed css
    | some path =>
      match ← files.write path css with
      | .ok () => return .silent
      | .error e => return .failed s!"Failed to write {quoted path}: {e.message}"

/-! ## Inspecting -/

/-- The ending of the name of a file: what follows its last dot, unless that dot comes first. -/
def extension? (path : String) : Option String :=
  let name := (path.toList.reverse.takeWhile (· ≠ '/'))
  match splitOnce '.' name with
  | (_, none) | (_, some []) => none
  | (ending, some _) => some (String.ofList ending.reverse)

/-- The name endings that a request is about, in small letters and without their dots. -/
def InspectRequest.endings (r : InspectRequest) : List String :=
  r.extensions.map fun e => lower (String.ofList (e.toList.dropWhile (· = '.')))

/-- Whether a file is looked for in directories. -/
def InspectRequest.isWanted (r : InspectRequest) (path : String) : Bool :=
  (extension? path).any fun ending => r.endings.contains (lower ending)

/-- What went wrong in a search, in words. -/
def Found.failure? : Found → Option String
  | .failure path e => some s!"IO error for operation on {path}: {e.message}"
  | .file _ => none

/-- The files to inspect among those that a search found. If none is wanted, a single path that is a
file is inspected whatever its name. -/
def InspectRequest.inputs (r : InspectRequest) (found : List Found) : List String :=
  let wanted := found.filterMap fun
    | .file path => if r.isWanted path then some path else none
    | .failure _ _ => none
  match wanted, r.paths, found with
  | [], [only], [.file path] => if path = only then [path] else []
  | wanted, _, _ => wanted

/-- Carries out a request to inspect. -/
def inspect {m : Type → Type} [Monad m] (files : FileAccess m) (r : InspectRequest) : m Outcome := do
  let found := (← r.paths.mapM files.find).flatten
  let arrivals ← files.readAll (r.inputs found)
  return .ofReports (found.filterMap Found.failure?) (arrivals.map Completed.ofArrival)

/-- Carries out a request. -/
def run {m : Type → Type} [Monad m] (files : FileAccess m) : Request → m Outcome
  | .prune r => prune files r
  | .inspect r => inspect files r

end AboveFold.CommandLine
