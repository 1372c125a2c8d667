import AboveFold.Source.Span
import AboveFold.Text.Ascii

/-!
# Tokens

The tokens of CSS Syntax Level 3. Blanks and comments are tokens like all others, and text that is
no token is kept as a `fault`, so that the tokens of a stylesheet cover all of it. A token keeps its
text as it was written.
-/

namespace AboveFold.Token

/-- What can be wrong inside a `url(` without quotes. -/
inductive UrlFault where
  | blank
  | character
  | nonPrintable
  | escape
deriving DecidableEq, Repr

/-- Text that starts like a token and is none. -/
inductive Fault where
  | strayBackslash
  | openComment
  | openString (quote : Char)
  | newlineInString
  | openUrl
  | badUrl (fault : UrlFault)
deriving DecidableEq, Repr

namespace Fault

/-- What the fault is. -/
def message : Fault → String
  | strayBackslash => "Invalid escape: `\\` followed by a newline"
  | openComment => "Unterminated comment"
  | openString _ => "Unterminated string"
  | newlineInString => "Unterminated string: newline in string"
  | openUrl => "Unterminated `url(`"
  | badUrl .blank => "Unexpected whitespace inside unquoted `url(`"
  | badUrl .character => "Unexpected character inside unquoted `url(`"
  | badUrl .nonPrintable => "Unexpected non-printable character inside `url(`"
  | badUrl .escape => "Invalid escape inside `url(`"

/-- How to mend the fault. -/
def advice : Fault → String
  | strayBackslash => "Outside of strings, `\\` must escape another character"
  | openComment => "Close the comment with `*/`"
  | openString quote => s!"Close the string with `{quote}`"
  | newlineInString => "Escape the newline with `\\` to continue the string on the next line"
  | openUrl => "Close the url with `)`"
  | badUrl _ => "Quote the url: `url(\"...\")`"

end Fault

/-- The kinds of token. A name comes without the sign that marks it (`@`, `#`, `(`), a string with
its quotes, a comment with its delimiters, and a url as what stands between the parentheses. -/
inductive Kind where
  | cdc
  | cdo
  | colon
  | comma
  | curlyClose
  | curlyOpen
  | parenClose
  | parenOpen
  | semicolon
  | squareClose
  | squareOpen
  | atKeyword (name : String)
  | comment (text : String)
  | delim (char : Char)
  | function (name : String)
  | hash (name : String)
  | ident (name : String)
  | numeric (text : String)
  | quotedString (text : String)
  | url (text : String)
  | whitespace
  | eof
  | fault (fault : Fault)
deriving DecidableEq, Repr

namespace Kind

/-- How a message speaks of the token. -/
def description : Kind → String
  | cdc => "`-->`"
  | cdo => "`<!--`"
  | colon => "`:`"
  | comma => "`,`"
  | curlyClose => "`\x7d`"
  | curlyOpen => "`\x7b`"
  | parenClose => "`)`"
  | parenOpen => "`(`"
  | semicolon => "`;`"
  | squareClose => "`]`"
  | squareOpen => "`[`"
  | atKeyword name => s!"at-keyword `@{name}`"
  | comment _ => "comment"
  | delim char => s!"`{char}`"
  | function name => s!"function `{name}(`"
  | hash name => s!"`#{name}`"
  | ident name => s!"identifier `{name}`"
  | numeric text => s!"number `{text}`"
  | quotedString text => s!"string {text}"
  | url _ => "`url(...)`"
  | whitespace => "whitespace"
  | eof => "end of input"
  | fault f => f.message

/-- Blanks and comments, which separate other tokens and mean nothing themselves. -/
def isTrivia : Kind → Bool
  | whitespace | comment _ => true
  | _ => false

/-- The bracket that closes what this token opens. A function name opens a parenthesis. -/
def closer? : Kind → Option Char
  | curlyOpen => some '\x7d'
  | parenOpen | function _ => some ')'
  | squareOpen => some ']'
  | _ => none

/-- The closing bracket that this token is. -/
def closing? : Kind → Option Char
  | curlyClose => some '\x7d'
  | parenClose => some ')'
  | squareClose => some ']'
  | _ => none

end Kind

end AboveFold.Token

namespace AboveFold

/-- A token and where it stands. -/
structure Token where
  kind : Token.Kind
  span : Source.Span
deriving DecidableEq, Repr

namespace Token

/-- The byte offset of the token's first byte. -/
def start (t : Token) : Nat :=
  t.span.start.offset

/-- The byte offset just after the token. -/
def stop (t : Token) : Nat :=
  t.span.stop.offset

end Token

end AboveFold
