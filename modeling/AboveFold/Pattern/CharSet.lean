import AboveFold.Text.FoldTable
import AboveFold.Unicode.Word

/-!
# Sets of characters

What one character of a text may be, put together from ranges and tables of characters by the
operations of sets. `widened` adds the characters that differ in case only.
-/

namespace AboveFold.Pattern
open Text

/-- A set of characters. -/
inductive CharSet where
  | nothing
  | range (first last : Char)
  | points (table : Unicode.Points)
  | union (a b : CharSet)
  | inter (a b : CharSet)
  | diff (a b : CharSet)
  | symmDiff (a b : CharSet)
  | compl (a : CharSet)
  /-- With all cases of its letters: of all letters if `unicode`, else of ASCII letters. -/
  | widened (unicode : Bool) (a : CharSet)
deriving DecidableEq, Repr

namespace CharSet

/-- Whether a character is in a set. -/
def mem : CharSet → Char → Bool
  | nothing, _ => false
  | range first last, c => first ≤ c && c ≤ last
  | points table, c => table.contains c.toNat
  | union a b, c => a.mem c || b.mem c
  | inter a b, c => a.mem c && b.mem c
  | diff a b, c => a.mem c && !b.mem c
  | symmDiff a b, c => a.mem c != b.mem c
  | compl a, c => !a.mem c
  | widened unicode a, c => (if unicode then variants c else asciiVariants c).any a.mem

/-- The set of one character. -/
def single (c : Char) : CharSet := range c c

/-- The decimal digits of all scripts. -/
def digits : CharSet := points Unicode.Category.decimalNumberPoints

/-- All white space. -/
def blanks : CharSet := points Unicode.whiteSpace

/-- The word characters of all scripts. -/
def words : CharSet := points Unicode.wordPoints

@[simp] theorem mem_digits (c : Char) : digits.mem c = Unicode.isDecimalDigit c := rfl

@[simp] theorem mem_words (c : Char) : words.mem c = Unicode.isWordChar c := rfl

/-- The set of the characters of a text. -/
def ofChars (s : String) : CharSet :=
  s.toList.foldr (fun c set => union (single c) set) nothing

/-- The union of ranges. -/
def ofRanges (ranges : List (Char × Char)) : CharSet :=
  ranges.foldr (fun (a, b) set => union (range a b) set) nothing

/-- The classes of ASCII characters that have a name. -/
def named? (name : String) : Option CharSet :=
  match name with
  | "alnum" => some (ofRanges [('0', '9'), ('A', 'Z'), ('a', 'z')])
  | "alpha" => some (ofRanges [('A', 'Z'), ('a', 'z')])
  | "ascii" => some (range '\x00' '\x7f')
  | "blank" => some (ofChars "\t ")
  | "cntrl" => some (ofRanges [('\x00', '\x1f'), ('\x7f', '\x7f')])
  | "digit" => some (range '0' '9')
  | "graph" => some (range '!' '~')
  | "lower" => some (range 'a' 'z')
  | "print" => some (range ' ' '~')
  | "punct" => some (ofRanges [('!', '/'), (':', '@'), ('[', '`'), ('\x7b', '~')])
  | "space" => some (ofChars "\t\n\x0b\x0c\r ")
  | "upper" => some (range 'A' 'Z')
  | "word" => some (ofRanges [('0', '9'), ('A', 'Z'), ('_', '_'), ('a', 'z')])
  | "xdigit" => some (ofRanges [('0', '9'), ('A', 'F'), ('a', 'f')])
  | _ => none

end CharSet

end AboveFold.Pattern
