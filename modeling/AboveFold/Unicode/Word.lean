import AboveFold.Unicode.Category
import AboveFold.Unicode.Listed

/-!
# Letters and words

Letters, and the characters that words and names are made of. Word characters are letters, marks,
decimal digits, connecting punctuation and joiners. Names of groups follow a newer version of the
standard, 17.0, and so have a few letters more.
-/

namespace AboveFold.Unicode

/-- Letters, and what counts as letters. -/
def alphabetic : Points :=
  Category.pointsOf (.letterNumber :: Category.letters) ++ otherAlphabetic

/-- Letters in lower case. -/
def lowercase : Points := Category.lowercaseLetterPoints ++ otherLowercase

/-- Letters in upper case. -/
def uppercase : Points := Category.uppercaseLetterPoints ++ otherUppercase

/-- Letters that have case. -/
def cased : Points := lowercase ++ uppercase ++ Category.titlecaseLetterPoints

/-- Ideographs. -/
def ideographic : Points := unifiedIdeograph ++ otherIdeographic

/-- Word characters. -/
def wordPoints : Points :=
  alphabetic ++ Category.pointsOf (.decimalNumber :: .connectorPunctuation :: Category.marks) ++ joinControl

/-- The letters that version 17.0 adds. -/
def laterAlphabetic : Points := .ofText
  "88F C5C CDC A7CE-A7CF A7D2 A7D4 A7F1 10940-10959 10EC5-10EC7 10EFA-10EFB 11B60-11B67 11DB0-11DDB
   16EA0-16EB8 16EBB-16ED3 16FF2-16FF6 187F8-187FF 18D09-18D1E 18D80-18DF2 1E6C0-1E6DE 1E6E0-1E6F5
   1E6FE-1E6FF 2B73A-2B73F 2CEA2-2CEAD 323B0-33479"

/-- The numbers that version 17.0 adds. -/
def laterNumbers : Points := .ofText "11DE0-11DE9 16FF4-16FF6"

/-- A decimal digit. -/
def isDecimalDigit (c : Char) : Bool :=
  Category.decimalNumberPoints.contains c.toNat

/-- A word character. -/
def isWordChar (c : Char) : Bool :=
  wordPoints.contains c.toNat

/-- A word character of ASCII. -/
def isAsciiWordChar (c : Char) : Bool :=
  c.isAlphanum || c = '_'

/-- A letter of a name. -/
def isNameLetter (c : Char) : Bool :=
  (alphabetic ++ laterAlphabetic).contains c.toNat

/-- A numeral of a name. -/
def isNameNumber (c : Char) : Bool :=
  (Category.pointsOf Category.numbers ++ laterNumbers).contains c.toNat

theorem isWordChar_of_isDecimalDigit {c : Char} (h : isDecimalDigit c = true) : isWordChar c = true := by
  simp only [isDecimalDigit] at h
  simp [isWordChar, wordPoints, Category.pointsOf, Category.points, h]

end AboveFold.Unicode
