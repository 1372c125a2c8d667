import AboveFold.Pattern.CharSet

/-!
# Properties

The properties that a character has or has not. Some are lists; the others are put together from
lists, categories and each other by the rules of the standard.
-/

namespace AboveFold.Pattern
open Unicode

/-! ## Derived sets -/

/-- Characters that do not count when the neighbours of a letter are looked for. -/
def caseIgnorable : Points :=
  Category.pointsOf [.nonspacingMark, .enclosingMark, .format, .modifierLetter, .modifierSymbol]
    ++ .ofText "27 2E 3A B7 387 55F 5F4 2018-2019 2024 2027 FE13 FE52 FE55 FF07 FF0E FF1A"

/-- Characters whose text changes when it is put into title case: the two letters in one whose second
part is small are that already. -/
def changedByTitle : CharSet :=
  .union (.points (.ofText "1C4-1CA/3 1F1"))
    (.diff (.points changedByUpper)
      (.points (.ofText
        "1C5-1CB/3 1F2 10D0-10FA 10FD-10FF 1F88-1F8F 1F98-1F9F 1FA8-1FAF 1FBC 1FCC 1FFC")))

/-- Characters whose text changes when cases are folded. -/
def changedByFolding : CharSet :=
  .union (.diff (.points changedByLower) (.points (.ofText "13A0-13F5")))
    (.points (.ofText
      "B5 DF 149 17F 345 3C2 3D0-3D1 3D5-3D6 3F0-3F1 3F5 587 13F8-13FD 1C80-1C88 1E9A-1E9B
       1F80-1F87 1F90-1F97 1FA0-1FA7 1FB2-1FB4 1FB7 1FC2-1FC4 1FC7 1FF2-1FF4 1FF7 AB70-ABBF
       FB00-FB06 FB13-FB17"))

/-- Characters that extend the one before them. -/
def graphemeExtend : Points :=
  Category.pointsOf [.nonspacingMark, .enclosingMark] ++ otherGraphemeExtend

/-- Characters that are not shown where they are not known. -/
def defaultIgnorable : CharSet :=
  .diff (.points (Category.formatPoints ++ variationSelector ++ otherDefaultIgnorable))
    (.points (prependedConcatenationMark ++ .ofText "FFF9-FFFB 13430-1343F"))

/-- Characters that identifiers start with. -/
def idStart : CharSet :=
  .diff (.points (Category.pointsOf (.letterNumber :: Category.letters) ++ otherIdStart))
    (.points (patternSyntax ++ patternWhiteSpace))

/-- Characters of identifiers. -/
def idContinue : CharSet :=
  .union idStart
    (.points (Category.pointsOf [.nonspacingMark, .spacingMark, .decimalNumber, .connectorPunctuation]
      ++ otherIdContinue))

/-- Characters whose compatible forms are no identifiers. -/
def unstable : Points := .ofText
  "37A 309B-309C FC5E-FC63 FDFA-FDFB FE70-FE7E/2"

/-- Characters whose compatible forms do not start identifiers. -/
def unstableAtStart : Points := .ofText "E33 EB3 FF9E-FF9F"

/-! ## Properties -/

/-- A property that a character has or has not. -/
inductive Property where
  | alphabetic
  | asciiHexDigit
  | bidiControl
  | bidiMirrored
  | caseIgnorable
  | cased
  | changesWhenCasefolded
  | changesWhenCasemapped
  | changesWhenLowercased
  | changesWhenTitlecased
  | changesWhenUppercased
  | dash
  | defaultIgnorable
  | deprecated
  | diacritic
  | emoji
  | emojiComponent
  | emojiModifier
  | emojiModifierBase
  | emojiPresentation
  | extendedPictographic
  | extender
  | graphemeBase
  | graphemeExtend
  | graphemeLink
  | hexDigit
  | hyphen
  | idCompatMathContinue
  | idCompatMathStart
  | idContinue
  | idStart
  | ideographic
  | idsBinaryOperator
  | idsTrinaryOperator
  | idsUnaryOperator
  | joinControl
  | logicalOrderException
  | lowercase
  | math
  | modifierCombiningMark
  | noncharacter
  | otherAlphabetic
  | otherDefaultIgnorable
  | otherGraphemeExtend
  | otherIdContinue
  | otherIdStart
  | otherLowercase
  | otherMath
  | otherUppercase
  | patternSyntax
  | patternWhiteSpace
  | prependedConcatenationMark
  | quotationMark
  | radical
  | regionalIndicator
  | sentenceTerminal
  | softDotted
  | terminalPunctuation
  | unifiedIdeograph
  | uppercase
  | variationSelector
  | whiteSpace
  | xidContinue
  | xidStart
deriving DecidableEq, Repr

namespace Property

/-- All properties. -/
def all : List Property :=
  [.alphabetic, .asciiHexDigit, .bidiControl, .bidiMirrored, .caseIgnorable, .cased,
   .changesWhenCasefolded, .changesWhenCasemapped, .changesWhenLowercased,
   .changesWhenTitlecased, .changesWhenUppercased, .dash, .defaultIgnorable, .deprecated,
   .diacritic, .emoji, .emojiComponent, .emojiModifier, .emojiModifierBase, .emojiPresentation,
   .extendedPictographic, .extender, .graphemeBase, .graphemeExtend, .graphemeLink, .hexDigit,
   .hyphen, .idCompatMathContinue, .idCompatMathStart, .idContinue, .idStart, .ideographic,
   .idsBinaryOperator, .idsTrinaryOperator, .idsUnaryOperator, .joinControl,
   .logicalOrderException, .lowercase, .math, .modifierCombiningMark, .noncharacter,
   .otherAlphabetic, .otherDefaultIgnorable, .otherGraphemeExtend, .otherIdContinue,
   .otherIdStart, .otherLowercase, .otherMath, .otherUppercase, .patternSyntax,
   .patternWhiteSpace, .prependedConcatenationMark, .quotationMark, .radical,
   .regionalIndicator, .sentenceTerminal, .softDotted, .terminalPunctuation, .unifiedIdeograph,
   .uppercase, .variationSelector, .whiteSpace, .xidContinue, .xidStart]

/-- The names of a property. -/
def names : Property → List String
  | alphabetic => ["Alphabetic", "Alpha"]
  | asciiHexDigit => ["ASCII_Hex_Digit", "AHex"]
  | bidiControl => ["Bidi_Control", "Bidi_C"]
  | bidiMirrored => ["Bidi_Mirrored", "Bidi_M"]
  | caseIgnorable => ["Case_Ignorable", "CI"]
  | cased => ["Cased"]
  | changesWhenCasefolded => ["Changes_When_Casefolded", "CWCF"]
  | changesWhenCasemapped => ["Changes_When_Casemapped", "CWCM"]
  | changesWhenLowercased => ["Changes_When_Lowercased", "CWL"]
  | changesWhenTitlecased => ["Changes_When_Titlecased", "CWT"]
  | changesWhenUppercased => ["Changes_When_Uppercased", "CWU"]
  | dash => ["Dash"]
  | defaultIgnorable => ["Default_Ignorable_Code_Point", "DI"]
  | deprecated => ["Deprecated", "Dep"]
  | diacritic => ["Diacritic", "Dia"]
  | emoji => ["Emoji"]
  | emojiComponent => ["Emoji_Component", "EComp"]
  | emojiModifier => ["Emoji_Modifier", "EMod"]
  | emojiModifierBase => ["Emoji_Modifier_Base", "EBase"]
  | emojiPresentation => ["Emoji_Presentation", "EPres"]
  | extendedPictographic => ["Extended_Pictographic", "ExtPict"]
  | extender => ["Extender", "Ext"]
  | graphemeBase => ["Grapheme_Base", "Gr_Base"]
  | graphemeExtend => ["Grapheme_Extend", "Gr_Ext"]
  | graphemeLink => ["Grapheme_Link", "Gr_Link"]
  | hexDigit => ["Hex_Digit", "Hex"]
  | hyphen => ["Hyphen"]
  | idCompatMathContinue => ["ID_Compat_Math_Continue"]
  | idCompatMathStart => ["ID_Compat_Math_Start"]
  | idContinue => ["ID_Continue", "IDC"]
  | idStart => ["ID_Start", "IDS"]
  | ideographic => ["Ideographic", "Ideo"]
  | idsBinaryOperator => ["IDS_Binary_Operator", "IDSB"]
  | idsTrinaryOperator => ["IDS_Trinary_Operator", "IDST"]
  | idsUnaryOperator => ["IDS_Unary_Operator", "IDSU"]
  | joinControl => ["Join_Control", "Join_C"]
  | logicalOrderException => ["Logical_Order_Exception", "LOE"]
  | lowercase => ["Lowercase", "Lower"]
  | math => ["Math"]
  | modifierCombiningMark => ["Modifier_Combining_Mark", "MCM"]
  | noncharacter => ["Noncharacter_Code_Point", "NChar"]
  | otherAlphabetic => ["Other_Alphabetic", "OAlpha"]
  | otherDefaultIgnorable => ["Other_Default_Ignorable_Code_Point", "ODI"]
  | otherGraphemeExtend => ["Other_Grapheme_Extend", "OGr_Ext"]
  | otherIdContinue => ["Other_ID_Continue", "OIDC"]
  | otherIdStart => ["Other_ID_Start", "OIDS"]
  | otherLowercase => ["Other_Lowercase", "OLower"]
  | otherMath => ["Other_Math", "OMath"]
  | otherUppercase => ["Other_Uppercase", "OUpper"]
  | patternSyntax => ["Pattern_Syntax", "Pat_Syn"]
  | patternWhiteSpace => ["Pattern_White_Space", "Pat_WS"]
  | prependedConcatenationMark => ["Prepended_Concatenation_Mark", "PCM"]
  | quotationMark => ["Quotation_Mark", "QMark"]
  | radical => ["Radical"]
  | regionalIndicator => ["Regional_Indicator", "RI"]
  | sentenceTerminal => ["Sentence_Terminal", "STerm"]
  | softDotted => ["Soft_Dotted", "SD"]
  | terminalPunctuation => ["Terminal_Punctuation", "Term"]
  | unifiedIdeograph => ["Unified_Ideograph", "UIdeo"]
  | uppercase => ["Uppercase", "Upper"]
  | variationSelector => ["Variation_Selector", "VS"]
  | whiteSpace => ["White_Space", "WSpace", "space"]
  | xidContinue => ["XID_Continue", "XIDC"]
  | xidStart => ["XID_Start", "XIDS"]

/-- The characters with a property. -/
def set : Property → CharSet
  | alphabetic => .points Unicode.alphabetic
  | asciiHexDigit => .points Unicode.asciiHexDigit
  | bidiControl => .points Unicode.bidiControl
  | bidiMirrored => .points Unicode.bidiMirrored
  | caseIgnorable => .points Pattern.caseIgnorable
  | cased => .points Unicode.cased
  | changesWhenCasefolded => changedByFolding
  | changesWhenCasemapped =>
    .union (.points (Unicode.changedByLower ++ Unicode.changedByUpper)) changedByTitle
  | changesWhenLowercased => .points Unicode.changedByLower
  | changesWhenTitlecased => changedByTitle
  | changesWhenUppercased => .points Unicode.changedByUpper
  | dash => .points (Category.dashPunctuationPoints ++ .ofList [0x2053, 0x207B, 0x208B, 0x2212])
  | defaultIgnorable => Pattern.defaultIgnorable
  | deprecated => .points Unicode.deprecated
  | diacritic => .points Unicode.diacritic
  | emoji => .points Unicode.emoji
  | emojiComponent => .points Unicode.emojiComponent
  | emojiModifier => .points Unicode.emojiModifier
  | emojiModifierBase => .points Unicode.emojiModifierBase
  | emojiPresentation => .points Unicode.emojiPresentation
  | extendedPictographic => .points Unicode.extendedPictographic
  | extender => .points Unicode.extender
  | graphemeBase => .diff
      (.points (Category.pointsOf (.spacingMark :: .spaceSeparator :: Category.letters ++ Category.numbers
        ++ Category.punctuation ++ Category.symbols)))
      (.points Pattern.graphemeExtend)
  | graphemeExtend => .points Pattern.graphemeExtend
  | graphemeLink => .points Unicode.graphemeLink
  | hexDigit => .points Unicode.hexDigit
  | hyphen => .points Unicode.hyphen
  | idCompatMathContinue => .points Unicode.idCompatMathContinue
  | idCompatMathStart => .points Unicode.idCompatMathStart
  | idContinue => Pattern.idContinue
  | idStart => Pattern.idStart
  | ideographic => .points Unicode.ideographic
  | idsBinaryOperator => .points Unicode.idsBinaryOperator
  | idsTrinaryOperator => .points Unicode.idsTrinaryOperator
  | idsUnaryOperator => .points Unicode.idsUnaryOperator
  | joinControl => .points Unicode.joinControl
  | logicalOrderException => .points Unicode.logicalOrderException
  | lowercase => .points Unicode.lowercase
  | math => .points (Category.mathSymbolPoints ++ Unicode.otherMath)
  | modifierCombiningMark => .points Unicode.modifierCombiningMark
  | noncharacter => .points Unicode.noncharacter
  | otherAlphabetic => .points Unicode.otherAlphabetic
  | otherDefaultIgnorable => .points Unicode.otherDefaultIgnorable
  | otherGraphemeExtend => .points Unicode.otherGraphemeExtend
  | otherIdContinue => .points Unicode.otherIdContinue
  | otherIdStart => .points Unicode.otherIdStart
  | otherLowercase => .points Unicode.otherLowercase
  | otherMath => .points Unicode.otherMath
  | otherUppercase => .points Unicode.otherUppercase
  | patternSyntax => .points Unicode.patternSyntax
  | patternWhiteSpace => .points Unicode.patternWhiteSpace
  | prependedConcatenationMark => .points Unicode.prependedConcatenationMark
  | quotationMark => .points Unicode.quotationMark
  | radical => .points Unicode.radical
  | regionalIndicator => .points Unicode.regionalIndicator
  | sentenceTerminal => .points Unicode.sentenceTerminal
  | softDotted => .points Unicode.softDotted
  | terminalPunctuation => .points Unicode.terminalPunctuation
  | unifiedIdeograph => .points Unicode.unifiedIdeograph
  | uppercase => .points Unicode.uppercase
  | variationSelector => .points Unicode.variationSelector
  | whiteSpace => .points Unicode.whiteSpace
  | xidContinue => .diff Pattern.idContinue (.points unstable)
  | xidStart => .diff Pattern.idStart (.points (unstable ++ unstableAtStart))

end Property

end AboveFold.Pattern
