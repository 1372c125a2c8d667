import AboveFold.Text.Normalize
import AboveFold.Token.Lexer
import AboveFold.Tree.Render
import AboveFold.Tree.Walk

/-!
# Stylesheets

A stylesheet is its source text, the tree read from it and the diagnostics of reading. Malformed
text is no error: it is kept in the tree as raw text. A stylesheet that was not changed renders to
its source.
-/

namespace AboveFold

/-- A stylesheet that was read, and perhaps changed since. -/
structure Stylesheet where
  source : String
  tree : Tree
  errors : List Diagnostic

namespace Stylesheet

/-- Reads a stylesheet; diagnostics name the file `path`. -/
def parse (source : String) (path : Option String) : Stylesheet :=
  let outcome := (Grammar.Input.mk source path).read (Token.tokens source path)
  ⟨source, .ofOutcome outcome, outcome.errors⟩

/-- Reads bytes, which must be UTF-8. -/
def parseBytes (bytes : List Nat) : Except Text.DecodeError Stylesheet :=
  (Text.decode bytes).map (parse · none)

/-- The stylesheet as text. -/
def render (s : Stylesheet) : String :=
  s.tree.sheet.render (some s.source)

/-- The text of a branch with comments removed and blanks collapsed. -/
def textOf (s : Stylesheet) (b : Branch) : String :=
  Text.collapse (b.render (some s.source))

/-- The text that a branch was read from, whatever became of it since. -/
def sourceText? (s : Stylesheet) (b : Branch) : Option String :=
  b.node.span.bind (·.slice s.source)

end Stylesheet

end AboveFold
