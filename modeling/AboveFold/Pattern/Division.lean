import AboveFold.Pattern.Property
import AboveFold.Unicode.Script

/-!
# Where text can be divided

The classes of characters by which text is divided into characters as they are seen, words and
sentences. Every class has two names, and no class is named for the characters without one.
-/

namespace AboveFold.Pattern
open Unicode

/-- A set with its names. -/
structure NamedSet where
  names : List String
  set : CharSet
deriving DecidableEq, Repr

namespace NamedSet

/-- A set of a table. -/
def listed (names : List String) (table : Points) : NamedSet := ⟨names, .points table⟩

end NamedSet

/-! ## Characters as they are seen -/

/-- Syllables of two letters. -/
def shortSyllables : Points := .ofText "AC00-D788/1C"

/-- Characters that stay with the one before them without a place of their own. -/
def extending : Points := graphemeExtend ++ emojiModifier

/-- Marks with a place of their own that nevertheless begin a new character. -/
def detachedMarks : Points := .ofText
  "102B-102C 1038 1062-1064 1067-106D 1083 1087-108C 108F 109A-109C 1A61 1A63-1A64 AA7B AA7D
   11720-11721"

/-- The classes of characters as they are seen. -/
def graphemeClasses : List NamedSet :=
  [⟨["Control", "CN"],
    .diff
      (.points (Category.pointsOf [.lineSeparator, .paragraphSeparator, .control, .format]
        ++ .ofText "2065 FFF0-FFF8 E0000 E0002-E001F E0080-E00FF E01F0-E0FFF"))
      (.points (graphemeExtend ++ joinControl ++ prependedConcatenationMark ++ .ofText "A D"))⟩,
   .listed ["CR"] (.ofText "D"),
   .listed ["LF"] (.ofText "A"),
   .listed ["Extend", "EX"] extending,
   .listed ["Prepend", "PP"]
    (prependedConcatenationMark
      ++ .ofText "D4E 111C2-111C3 113D1 1193F 11941 11A3A 11A84-11A89 11D46 11F02"),
   ⟨["SpacingMark", "SM"],
    .diff (.points (Category.spacingMarkPoints ++ .ofText "E33 EB3"))
      (.points (extending ++ detachedMarks))⟩,
   .listed ["L"] (.ofText "1100-115F A960-A97C"),
   .listed ["V"] (.ofText "1160-11A7 D7B0-D7C6 16D63 16D67-16D6A"),
   .listed ["T"] (.ofText "11A8-11FF D7CB-D7FB"),
   .listed ["LV"] shortSyllables,
   ⟨["LVT"], .diff (.points (.ofText "AC00-D7A3")) (.points shortSyllables)⟩,
   .listed ["Regional_Indicator", "RI"] regionalIndicator,
   .listed ["ZWJ"] (.ofText "200D")]

/-! ## Words -/

/-- Characters that stay with the one before them in words and sentences. -/
def attached : Points := extending ++ Category.spacingMarkPoints

/-- Signs that span digits, and so count as digits. -/
def digitSigns : Points := .ofText "600-605 6DD 890-891 8E2 110BD 110CD"

/-- Format characters that do not divide words. -/
def formatCharacters (others : Points) : CharSet :=
  .diff (.points Category.formatPoints)
    (.points (graphemeExtend ++ joinControl ++ prependedConcatenationMark ++ others))

/-- Letters of Katakana, and signs that are used with them. -/
def katakana : Points :=
  Script.pointsOf ["Kana"] ++ .ofText "3031-3035 309B-309C 30A0 30FC FF70"

/-- Letters of Hebrew. -/
def hebrewLetters : CharSet :=
  .inter (.points (Script.pointsOf ["Hebr"])) (.points Category.otherLetterPoints)

/-- Letters of words that blanks separate. -/
def wordLetters : CharSet :=
  .diff
    (.points (alphabetic
      ++ .ofText "2C2-2C5 2D2-2D7 2DE-2DF 2E5-2EB 2ED 2EF-2FF 55A-55C 55E 58A 5F3 70F A708-A716
         A720-A721 A789-A78A AB5B"))
    (.union hebrewLetters
      (.points (ideographic ++ katakana ++ attached
        ++ Script.pointsOf ["Hira", "Thai", "Laoo", "Mymr", "Khmr", "Tale", "Talu", "Lana", "Tavt", "Ahom"])))

/-- The classes of characters by which words are found. -/
def wordClasses : List NamedSet :=
  [⟨["ALetter", "LE"], wordLetters⟩,
   .listed ["CR"] (.ofText "D"),
   .listed ["LF"] (.ofText "A"),
   .listed ["Newline", "NL"] (.ofText "B-C 85 2028-2029"),
   .listed ["Double_Quote", "DQ"] (.ofText "22"),
   .listed ["Single_Quote", "SQ"] (.ofText "27"),
   .listed ["Extend"] attached,
   .listed ["ExtendNumLet", "EX"] (.ofText "5F 202F 203F-2040 2054 FE33-FE34 FE4D-FE4F FF3F"),
   ⟨["Format", "FO"], formatCharacters (.ofText "200B")⟩,
   ⟨["Hebrew_Letter", "HL"], hebrewLetters⟩,
   .listed ["Katakana", "KA"] katakana,
   .listed ["MidLetter", "ML"] (.ofText "3A B7 387 55F 5F4 2027 FE13 FE55 FF1A"),
   .listed ["MidNum", "MN"]
    (.ofText "2C 3B 37E 589 60C-60D 66C 7F8 2044 FE10 FE14 FE50 FE54 FF0C FF1B"),
   .listed ["MidNumLet", "MB"] (.ofText "2E 2018-2019 2024 FE52 FF07 FF0E"),
   .listed ["Numeric", "NU"] (Category.decimalNumberPoints ++ digitSigns ++ .ofText "66B"),
   .listed ["Regional_Indicator", "RI"] regionalIndicator,
   .listed ["WSegSpace"] (.ofText "20 1680 2000-2006 2008-200A 205F 3000"),
   .listed ["ZWJ"] (.ofText "200D")]

/-! ## Sentences -/

/-- Full stops, which may end a sentence. -/
def fullStops : Points := .ofText "2E 2024 FE52 FF0E"

/-- Letters in lower case that tell whether a sentence goes on. -/
def sentenceLower : CharSet :=
  .diff (.points lowercase) (.points (attached ++ .ofText "10D0-10FA 10FD-10FF"))

/-- Letters in upper case that tell whether a sentence begins. -/
def sentenceUpper : CharSet :=
  .diff (.points (uppercase ++ Category.titlecaseLetterPoints)) (.points (.ofText "1C90-1CBA 1CBD-1CBF"))

/-- The classes of characters by which sentences are found. -/
def sentenceClasses : List NamedSet :=
  [.listed ["ATerm", "AT"] fullStops,
   .listed ["CR"] (.ofText "D"),
   .listed ["LF"] (.ofText "A"),
   ⟨["Close", "CL"],
    .diff
      (.points (Category.pointsOf
          [.openPunctuation, .closePunctuation, .initialPunctuation, .finalPunctuation]
        ++ quotationMark ++ .ofText "275B-2760 2E00-2E01 2E06-2E08 2E0B 1F676-1F678"))
      (.points (.ofText "FF02 FF07"))⟩,
   .listed ["Extend", "EX"]
    (graphemeExtend ++ Category.spacingMarkPoints ++ .ofText "200D"),
   ⟨["Format", "FO"], formatCharacters []⟩,
   ⟨["Lower", "LO"], sentenceLower⟩,
   ⟨["Numeric", "NU"], .points (Category.decimalNumberPoints ++ digitSigns ++ .ofText "66B-66C")⟩,
   ⟨["OLetter", "LE"],
    .diff (.points (alphabetic ++ .ofText "5F3 70F"))
      (.union (.points attached) (.union sentenceLower sentenceUpper))⟩,
   .listed ["SContinue", "SC"]
    (.ofText "2C-2D 3A-3B 37E 55D 60C-60D 7F8 1802 1808 2013-2014 3001 FE10-FE11 FE13-FE14 FE31-FE32
      FE50-FE51 FE54-FE55 FE58 FE63 FF0C-FF0D FF1A-FF1B FF64"),
   ⟨["STerm", "ST"], .diff (.points sentenceTerminal) (.points fullStops)⟩,
   .listed ["Sep", "SE"] (.ofText "85 2028-2029"),
   .listed ["Sp", "SP"] (.ofText "9 B-C 20 A0 1680 2000-200A 202F 205F 3000"),
   ⟨["Upper", "UP"], sentenceUpper⟩]

end AboveFold.Pattern
