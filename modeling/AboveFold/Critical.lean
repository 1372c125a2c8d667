import AboveFold.Text.Lines
import AboveFold.Text.Normalize

/-!
# Critical selectors

Which selectors matched something in the first view of a page is for a page loader to find out. It
renders the page in a viewport of some size, and may fail. A list of selectors that was written down
is the other source of them.
-/

namespace AboveFold

/-- The size of the surface that a page is rendered on. -/
structure Viewport where
  width : Nat
  height : Nat
deriving DecidableEq, Repr

namespace Viewport

/-- The size in words. -/
def description (v : Viewport) : String :=
  s!"{v.width}x{v.height}"

end Viewport

/-- Why a page could not be loaded. -/
inductive LoadFailure.Cause where
  | timeout
  | otherOrigin
  | status (code : Nat)
  | redirect (target : String)
  | frameDenied
  | verification
  | other (message : String)
deriving DecidableEq, Repr

/-- A page that could not be loaded, and why. -/
structure LoadFailure where
  url : String
  cause : LoadFailure.Cause
deriving DecidableEq, Repr

namespace LoadFailure

/-- The failure in words. -/
def message (f : LoadFailure) : String :=
  match f.cause with
  | .timeout => s!"timed out loading {f.url}"
  | .otherOrigin => s!"{f.url} could not be inspected because it is on a different origin"
  | .status code => s!"{f.url} responded with HTTP status {code}"
  | .redirect target => s!"{f.url} redirected to {target}"
  | .frameDenied => s!"{f.url} refuses to be displayed in a frame"
  | .verification => s!"{f.url} failed page verification"
  | .other message => s!"failed to load {f.url}: {message}"

end LoadFailure

/-- The selectors of a list with one on each line, in normal form and each once. Lines without a
selector count for nothing. -/
def criticalSelectors (list : String) : List String :=
  (((Text.lines list).map Text.normalizeSelector).filter (· ≠ "")).eraseDups

end AboveFold
