import AboveFold.Pattern.Parse
import AboveFold.Pattern.Size

/-!
# Patterns for whole texts

A pattern that has to match all of a text is put in a group that stands between the start and the end
of the text. It is refused if it is no pattern, or one that takes too much memory.
-/

namespace AboveFold.Pattern

/-- Why a text is not taken as a pattern. -/
inductive Refusal where
  | malformed
  | tooLarge
deriving DecidableEq, Repr

/-- What a message says about a text that is not taken. -/
def Refusal.message : Refusal → String
  | malformed => "regex parse error"
  | tooLarge => "Compiled regex exceeds size limit of 10485760 bytes."

/-- Reads a pattern for whole texts. -/
def parseWhole (s : String) : Except Refusal Pattern :=
  match parse ("^(?:" ++ s ++ ")$") with
  | none => .error .malformed
  | some p => if p.fits then .ok p else .error .tooLarge

end AboveFold.Pattern
