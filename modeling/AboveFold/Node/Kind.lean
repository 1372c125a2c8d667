import AboveFold.Text.Ascii

/-!
# Kinds of node

What a node of a stylesheet tree is, with the data it holds itself. Text is kept as the author wrote
it, escapes included; only selectors and media queries have normalized text.
-/

namespace AboveFold.Node

/-- What a block holds. -/
inductive Contents where
  | declarations
  | rules
deriving DecidableEq, Repr

/-- The kinds of node. The comment at each names its children, if it can have any. -/
inductive Kind where
  /-- The root: rules, at-rules, comments and raw text. -/
  | styleSheet
  /-- A style rule: a selector list, then a block. -/
  | rule
  /-- An at-rule, named without its sign: perhaps a prelude, then perhaps a block. -/
  | atRule (name : String)
  /-- What stands between the name and the block of an at-rule: media queries or component values. -/
  | prelude
  /-- One entry of a media query list: component values. -/
  | mediaQuery (text : String)
  /-- The selectors of a rule. -/
  | selectorList
  /-- One selector: component values. -/
  | selector (text : String)
  /-- What stands in braces: declarations or rules. -/
  | block (contents : Contents)
  /-- A declaration: its value. -/
  | declaration (property : String) (important : Bool)
  /-- The value of a declaration: component values. -/
  | value
  | ident (name : String)
  /-- A string, without its quotes. -/
  | stringLit (value : String) (quote : Char)
  /-- A url, without its quotes if it has any. -/
  | url (url : String) (quote : Option Char)
  /-- A function: component values. -/
  | function (name : String)
  /-- A bracketed group: component values. -/
  | simpleBlock (opening : Char)
  | comma
  | whitespace
  /-- A comment, with its delimiters. -/
  | comment (text : String)
  /-- Any other token: numbers, hashes, signs. -/
  | other (text : String)
  /-- Text that has no structure. -/
  | raw (text : String)
deriving DecidableEq, Repr

namespace Kind

/-- The name of the kind. -/
def label : Kind → String
  | styleSheet => "StyleSheet"
  | rule => "Rule"
  | atRule _ => "AtRule"
  | prelude => "Prelude"
  | mediaQuery _ => "MediaQuery"
  | selectorList => "SelectorList"
  | selector _ => "Selector"
  | block _ => "Block"
  | declaration _ _ => "Declaration"
  | value => "Value"
  | ident _ => "Ident"
  | stringLit _ _ => "StringLit"
  | url _ _ => "Url"
  | function _ => "Function"
  | simpleBlock _ => "SimpleBlock"
  | comma => "Comma"
  | whitespace => "Whitespace"
  | comment _ => "Comment"
  | other _ => "Other"
  | raw _ => "Raw"

/-- Whether this is a style rule. -/
def isRule (k : Kind) : Bool := k = rule

/-- Whether this is an at-rule. -/
def isAtRule : Kind → Bool
  | atRule _ => true
  | _ => false

/-- Whether this is a declaration. -/
def isDeclaration : Kind → Bool
  | declaration _ _ => true
  | _ => false

/-- Whether this is a comment. -/
def isComment : Kind → Bool
  | comment _ => true
  | _ => false

/-- Whether this is whitespace. -/
def isWhitespace (k : Kind) : Bool := k = whitespace

/-- Whitespace and comments, which separate component values and mean nothing themselves. -/
def isTrivia (k : Kind) : Bool := k.isWhitespace || k.isComment

/-- Whether this is a block. -/
def isBlock : Kind → Bool
  | block _ => true
  | _ => false

/-- Whether this is a media query. -/
def isMediaQuery : Kind → Bool
  | mediaQuery _ => true
  | _ => false

/-- The name of an at-rule. -/
def atRuleName? : Kind → Option String
  | atRule name => some name
  | _ => none

/-- The property of a declaration. -/
def property? : Kind → Option String
  | declaration property _ => some property
  | _ => none

/-- Whether this is an at-rule of the given name, in any case of its ASCII letters. -/
def isAtRuleNamed (k : Kind) (name : String) : Bool :=
  k.atRuleName?.any (Text.eqIgnoreCase · name)

end Kind

end AboveFold.Node
