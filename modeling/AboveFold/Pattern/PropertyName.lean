import AboveFold.Pattern.Division
import AboveFold.Text.Search
import AboveFold.Unicode.Age
import AboveFold.Unicode.Shared

/-!
# Names of properties

How a set of characters is asked for by name. A name stands for a property, a category or a script; a
name with a value, for the characters whose value of a property is that. Names are compared loosely:
case, blanks, hyphens, underscores and `is` at the front do not count (`loose`).
-/

namespace AboveFold.Pattern
open Text Unicode

/-- What counts of a name. One short name begins with `is` itself. -/
def loose (name : List Char) : List Char :=
  let counting (cs : List Char) : List Char :=
    cs.filter fun c => isAscii c && !(c = ' ' || c = '_' || c = '-')
  match name.map Char.toLower with
  | 'i' :: 's' :: rest => if counting rest = ['c'] then ['i', 's', 'c'] else counting rest
  | lowered => counting lowered

/-- Whether a name is one of some names. -/
def isNamed (names : List String) (name : List Char) : Bool :=
  names.any fun known => loose known.toList == loose name

/-- The set with a name. -/
def NamedSet.find? (sets : List NamedSet) (name : List Char) : Option CharSet :=
  (sets.find? (isNamed ·.names name)).map NamedSet.set

/-! ## Categories -/

/-- The code points that are assigned. -/
def assigned : CharSet := .points (Category.pointsOf Category.all)

/-- A single category with its names. -/
def categoryNames : Category → List String
  | .uppercaseLetter => ["Uppercase_Letter", "Lu"]
  | .lowercaseLetter => ["Lowercase_Letter", "Ll"]
  | .titlecaseLetter => ["Titlecase_Letter", "Lt"]
  | .modifierLetter => ["Modifier_Letter", "Lm"]
  | .otherLetter => ["Other_Letter", "Lo"]
  | .nonspacingMark => ["Nonspacing_Mark", "Mn"]
  | .spacingMark => ["Spacing_Mark", "Mc"]
  | .enclosingMark => ["Enclosing_Mark", "Me"]
  | .decimalNumber => ["Decimal_Number", "Nd", "digit"]
  | .letterNumber => ["Letter_Number", "Nl"]
  | .otherNumber => ["Other_Number", "No"]
  | .connectorPunctuation => ["Connector_Punctuation", "Pc"]
  | .dashPunctuation => ["Dash_Punctuation", "Pd"]
  | .openPunctuation => ["Open_Punctuation", "Ps"]
  | .closePunctuation => ["Close_Punctuation", "Pe"]
  | .initialPunctuation => ["Initial_Punctuation", "Pi"]
  | .finalPunctuation => ["Final_Punctuation", "Pf"]
  | .otherPunctuation => ["Other_Punctuation", "Po"]
  | .mathSymbol => ["Math_Symbol", "Sm"]
  | .currencySymbol => ["Currency_Symbol", "Sc"]
  | .modifierSymbol => ["Modifier_Symbol", "Sk"]
  | .otherSymbol => ["Other_Symbol", "So"]
  | .spaceSeparator => ["Space_Separator", "Zs"]
  | .lineSeparator => ["Line_Separator", "Zl"]
  | .paragraphSeparator => ["Paragraph_Separator", "Zp"]
  | .control => ["Control", "Cc", "cntrl"]
  | .format => ["Format", "Cf"]
  | .privateUse => ["Private_Use", "Co"]

/-- The groups of categories with their names. -/
def categoryGroups : List NamedSet :=
  [.listed ["Letter", "L"] (Category.pointsOf Category.letters),
   .listed ["Cased_Letter", "LC"] (Category.pointsOf Category.casedLetters),
   .listed ["Mark", "M", "Combining_Mark"] (Category.pointsOf Category.marks),
   .listed ["Number", "N"] (Category.pointsOf Category.numbers),
   .listed ["Punctuation", "P", "punct"] (Category.pointsOf Category.punctuation),
   .listed ["Symbol", "S"] (Category.pointsOf Category.symbols),
   .listed ["Separator", "Z"] (Category.pointsOf Category.separators),
   ⟨["Other", "C"],
    .union (.points (Category.pointsOf [.control, .format, .privateUse])) (.compl assigned)⟩,
   ⟨["Unassigned", "Cn"], .compl assigned⟩,
   ⟨["Assigned"], assigned⟩,
   ⟨["Any"], .compl .nothing⟩,
   ⟨["ASCII"], .range '\x00' '\x7f'⟩]

/-- The characters of a category or of a group of categories. -/
def categorySet? (name : List Char) : Option CharSet :=
  ((Category.all.find? fun c => isNamed (categoryNames c) name).map fun c => .points c.points)
    <|> NamedSet.find? categoryGroups name

/-! ## Scripts and ages -/

/-- The script with a name. -/
def script? (name : List Char) : Option Script :=
  Script.all.find? (isNamed ·.names name)

/-- The characters that a script uses. -/
def scriptUses (s : Script) : CharSet :=
  .union (.points s.sharedPoints) (.diff (.points s.points) (.points Shared.listed))

/-- The characters of a version. -/
def ageSet? (name : List Char) : Option CharSet :=
  (Age.all.find? (isNamed ·.names name)).map fun a => .points a.upTo

/-! ## Queries -/

/-- The set that a name stands for. -/
def namedSet? (name : List Char) : Option CharSet :=
  ((Property.all.find? fun p => isNamed p.names name).map Property.set)
    <|> categorySet? name
    <|> (script? name).map fun s => .points s.points

/-- The set of the characters whose value of a property is given. -/
def valueSet? (property value : List Char) : Option CharSet :=
  if isNamed ["General_Category", "gc"] property then categorySet? value
  else if isNamed ["Script", "sc"] property then (script? value).map fun s => .points s.points
  else if isNamed ["Script_Extensions", "scx"] property then (script? value).map scriptUses
  else if isNamed ["Age"] property then ageSet? value
  else if isNamed ["Grapheme_Cluster_Break", "GCB"] property then NamedSet.find? graphemeClasses value
  else if isNamed ["Word_Break", "WB"] property then NamedSet.find? wordClasses value
  else if isNamed ["Sentence_Break", "SB"] property then NamedSet.find? sentenceClasses value
  else none

/-- The set that a name, perhaps with a value, stands for, and whether it stands for all others. A
value comes after `!=`, which negates, or after `:` or `=`. -/
def propertySet? (name : List Char) : Option (Bool × CharSet) :=
  match splitAt? "!=".toList name with
  | some (property, value) => (valueSet? property value).map (true, ·)
  | none =>
    match splitAt? [':'] name <|> splitAt? ['='] name with
    | some (property, value) => (valueSet? property value).map (false, ·)
    | none => (namedSet? name).map (false, ·)

end AboveFold.Pattern
