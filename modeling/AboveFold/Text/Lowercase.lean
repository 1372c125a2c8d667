import AboveFold.Text.CaseTable

/-!
# Lower case

The lower case of a text by the Unicode rules that hold in all languages. Two rules go beyond single
letters: capital I with a dot becomes two characters, and a capital sigma at the end of a word
becomes a final sigma.
-/

namespace AboveFold.Text

/-- The lower case of one character, wherever it stands. -/
def lowerChar (c : Char) : List Char :=
  if c = '\u0130' then ['i', '\u0307'] else [Char.ofNat (lowerTable.apply c.toNat)]

/-- Whether the first character that counts for case is cased. -/
def startsCased : List Char → Bool
  | [] => false
  | c :: cs =>
    if inRanges caseIgnorableTable c.toNat then startsCased cs else inRanges casedTable c.toNat

/-- The lower case of `cs`, which comes after `before`, the text so far with its last character
first. -/
def lowerFrom (before : List Char) : List Char → List Char
  | [] => []
  | c :: cs =>
    let here :=
      if c = '\u03a3' then [if startsCased before && !startsCased cs then '\u03c2' else '\u03c3']
      else lowerChar c
    here ++ lowerFrom (c :: before) cs

/-- A text in lower case. -/
def lowercase (s : String) : String :=
  String.ofList (lowerFrom [] s.toList)

end AboveFold.Text
