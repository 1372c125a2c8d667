import AboveFold.Token.Scan

/-!
# From text to tokens

`lexeme` reads one token at the front of a text, and `tokens` reads a stylesheet. The tokens cover
the text from the end of a byte order mark on without a gap, the last of them is the end of input,
and text that is no token is covered by faults: reading never fails.
-/

namespace AboveFold.Token
open Text Source

/-- Whether the first character after blanks is a quote. -/
def startsQuoted (cs : List Char) : Bool :=
  match cs.dropWhile isBlank with
  | c :: _ => c = '\x22' || c = '\x27'
  | [] => false

/-- The url whose text, after the opening parenthesis, is `cs`, and its extent there. -/
def urlLexeme (cs : List Char) : Kind × Nat :=
  let blanks := (cs.takeWhile isBlank).length
  let body := cs.drop blanks
  let (ending, n) := urlLength 0 body
  let rest := body.drop n
  match ending with
  | .closed =>
    (.url (String.ofList (body.take n)), blanks + n + (rest.takeWhile isBlank).length + 1)
  | .inputEnd => (.fault .openUrl, cs.length)
  | .bad fault => (.fault (.badUrl fault), blanks + n + remnantsLength 0 rest)

/-- An identifier, a function or a url at the front of `cs`. The name `url` before a quote is an
ordinary function. -/
def identLexeme (cs : List Char) : Kind × Nat :=
  let n := nameLength 0 cs
  let name := String.ofList (cs.take n)
  match cs.drop n with
  | '(' :: rest =>
    if eqIgnoreCase name "url" && !startsQuoted rest then
      let (kind, m) := urlLexeme rest
      (kind, n + 1 + m)
    else (.function name, n + 1)
  | _ => (.ident name, n)

/-- A string whose opening quote stands before `cs`. -/
def stringLexeme (quote : Char) (cs : List Char) : Kind × Nat :=
  match stringLength quote 0 cs with
  | (.closed, n) => (.quotedString (String.ofList (quote :: cs.take n)), n + 1)
  | (.newline, n) => (.fault .newlineInString, n + 1)
  | (.inputEnd, n) => (.fault (.openString quote), n + 1)

/-- A comment whose opening delimiter stands before `cs`. -/
def commentLexeme (cs : List Char) : Kind × Nat :=
  match commentLength cs with
  | some n => (.comment (String.ofList ('/' :: '*' :: cs.take n)), n + 2)
  | none => (.fault .openComment, cs.length + 2)

/-- A number at the front of `cs`. -/
def numericLexeme (cs : List Char) : Kind × Nat :=
  let n := numericLength cs
  (.numeric (String.ofList (cs.take n)), n)

/-- A name after a sign of one character. -/
def markedLexeme (kind : String → Kind) (cs : List Char) : Kind × Nat :=
  let n := nameLength 0 cs
  (kind (String.ofList (cs.take n)), n + 1)

/-- The token at the front of the text `c :: cs`, and its extent. -/
def lexeme (c : Char) (cs : List Char) : Kind × Nat :=
  if isBlank c then (.whitespace, (cs.takeWhile isBlank).length + 1)
  else
    match c with
    | '\x22' | '\x27' => stringLexeme c cs
    | '#' =>
      if (cs.head?.any isNameChar) || (cs.head? = some '\\' && canEscape cs.tail) then
        markedLexeme .hash cs
      else (.delim c, 1)
    | '(' => (.parenOpen, 1)
    | ')' => (.parenClose, 1)
    | '[' => (.squareOpen, 1)
    | ']' => (.squareClose, 1)
    | '\x7b' => (.curlyOpen, 1)
    | '\x7d' => (.curlyClose, 1)
    | ',' => (.comma, 1)
    | ':' => (.colon, 1)
    | ';' => (.semicolon, 1)
    | '+' | '.' => if startsNumber (c :: cs) then numericLexeme (c :: cs) else (.delim c, 1)
    | '-' =>
      if startsNumber (c :: cs) then numericLexeme (c :: cs)
      else if cs.take 2 = ['-', '>'] then (.cdc, 3)
      else if startsIdent (c :: cs) then identLexeme (c :: cs)
      else (.delim c, 1)
    | '<' => if cs.take 3 = ['!', '-', '-'] then (.cdo, 4) else (.delim c, 1)
    | '@' => if startsIdent cs then markedLexeme .atKeyword cs else (.delim c, 1)
    | '\\' => if canEscape cs then identLexeme (c :: cs) else (.fault .strayBackslash, 1)
    | '/' => if cs.head? = some '*' then commentLexeme cs.tail else (.delim c, 1)
    | _ =>
      if c.isDigit then numericLexeme (c :: cs)
      else if isNameStart c then identLexeme (c :: cs)
      else (.delim c, 1)

/-- The tokens of `cs`, which starts where `cursor` stands. -/
def tokensFrom (path : Option String) (cursor : Cursor) : List Char → List Token
  | [] => [⟨.eof, ⟨cursor.position, cursor.position, path⟩⟩]
  | c :: cs =>
    let (kind, n) := lexeme c cs
    let next := (cursor.step c).walk (cs.take (n - 1))
    ⟨kind, ⟨cursor.position, next.position, path⟩⟩ :: tokensFrom path next (cs.drop (n - 1))
termination_by cs => cs.length

/-- The byte order mark. -/
def byteOrderMark : Char := '\ufeff'

/-- The tokens of a stylesheet, up to and with the end of input. A byte order mark at the front is
passed over and takes no column. -/
def tokens (source : String) (path : Option String) : List Token :=
  match source.toList with
  | '\ufeff' :: cs => tokensFrom path ⟨{ Position.start with offset := byteOrderMark.utf8Size }, false⟩ cs
  | cs => tokensFrom path .start cs

end AboveFold.Token
