import AboveFold.Token.Basic

/-!
# The extent of a token

Functions that say how many characters of a text belong to a name, a number, a string, a url or a
comment that starts there. An escape reaches over several characters: a scan that meets one carries
the number of characters still to be passed as `skip`, so that every scan goes down its text one
character at a time.
-/

namespace AboveFold.Token
open Text

/-- A character that can start a name. -/
def isNameStart (c : Char) : Bool :=
  c = '_' || c.isAlpha || !isAscii c

/-- A character that can go on with a name. -/
def isNameChar (c : Char) : Bool :=
  isNameStart c || c = '-' || c.isDigit

/-- A control character that a url without quotes cannot hold. -/
def isNonPrintable (c : Char) : Bool :=
  let n := c.toNat
  n ≤ 8 || n = 11 || (14 ≤ n && n ≤ 31) || n = 127

/-- Whether a backslash before `cs` escapes something: there is a next character, and it does not
end the line. -/
def canEscape : List Char → Bool
  | [] => false
  | c :: _ => !isLineEnd c

/-- The number of blanks that end a hexadecimal escape: one, where the pair of carriage return and
line feed counts as one. -/
def escapeEnd : List Char → Nat
  | '\r' :: '\n' :: _ => 2
  | c :: _ => if isBlank c then 1 else 0
  | [] => 0

/-- The extent of an escape after its backslash: up to six hexadecimal digits and the blank that
ends them, or any one character. -/
def escapeLength (cs : List Char) : Nat :=
  let digits := ((cs.take 6).takeWhile isHexDigit).length
  if digits = 0 then 1 else digits + escapeEnd (cs.drop digits)

/-- The extent of the name at the front. -/
def nameLength : (skip : Nat) → List Char → Nat
  | _, [] => 0
  | skip + 1, _ :: cs => nameLength skip cs + 1
  | 0, c :: cs =>
    if isNameChar c then nameLength 0 cs + 1
    else if c = '\\' && canEscape cs then nameLength (escapeLength cs) cs + 1
    else 0

/-- Whether an identifier starts here. -/
def startsIdent : List Char → Bool
  | '-' :: c :: cs => isNameStart c || c = '-' || (c = '\\' && canEscape cs)
  | '\\' :: cs => canEscape cs
  | c :: _ => isNameStart c
  | [] => false

/-- Whether the front is a digit. -/
def startsDigit : List Char → Bool
  | c :: _ => c.isDigit
  | [] => false

/-- Whether a digit, or a point and a digit, stands at the front. -/
def startsUnsigned : List Char → Bool
  | '.' :: cs => startsDigit cs
  | cs => startsDigit cs

/-- Whether a number starts here. -/
def startsNumber : List Char → Bool
  | '+' :: cs => startsUnsigned cs
  | '-' :: cs => startsUnsigned cs
  | cs => startsUnsigned cs

/-- The number of digits at the front. -/
def digitsLength (cs : List Char) : Nat :=
  (cs.takeWhile Char.isDigit).length

/-- The extent of a sign. -/
def signLength : List Char → Nat
  | c :: _ => if c = '+' || c = '-' then 1 else 0
  | [] => 0

/-- The extent of a point and the digits after it, of which there is at least one. -/
def fractionLength : List Char → Nat
  | '.' :: cs => if startsDigit cs then digitsLength cs + 1 else 0
  | _ => 0

/-- The extent of an exponent: its letter, a sign and at least one digit. -/
def exponentLength : List Char → Nat
  | c :: cs =>
    if (c = 'e' || c = 'E') && startsDigit (cs.drop (signLength cs)) then
      signLength cs + digitsLength (cs.drop (signLength cs)) + 1
    else 0
  | [] => 0

/-- The extent of the unit after a number: a name or a percent sign. -/
def unitLength (cs : List Char) : Nat :=
  if startsIdent cs then nameLength 0 cs
  else if cs.head? = some '%' then 1
  else 0

/-- The extent of a number, percentage or dimension. -/
def numericLength (cs : List Char) : Nat :=
  let sign := signLength cs
  let whole := sign + digitsLength (cs.drop sign)
  let fraction := whole + fractionLength (cs.drop whole)
  let exponent := fraction + exponentLength (cs.drop fraction)
  exponent + unitLength (cs.drop exponent)

/-- How a string ends. -/
inductive StringEnd where
  | closed
  | newline
  | inputEnd
deriving DecidableEq, Repr

/-- How the string whose opening quote stands before the text ends, and its extent after that quote.
A newline that ends it is not part of it. -/
def stringLength (quote : Char) : (skip : Nat) → List Char → StringEnd × Nat
  | _, [] => (.inputEnd, 0)
  | skip + 1, _ :: cs =>
    let (ending, n) := stringLength quote skip cs
    (ending, n + 1)
  | 0, c :: cs =>
    if c = quote then (.closed, 1)
    else if isLineEnd c then (.newline, 0)
    else
      let skip := if c = '\\' then (if cs.take 2 = ['\r', '\n'] then 2 else 1) else 0
      let (ending, n) := stringLength quote skip cs
      (ending, n + 1)

/-- How a url without quotes ends. -/
inductive UrlEnd where
  | closed
  | inputEnd
  | bad (fault : UrlFault)
deriving DecidableEq, Repr

/-- How the url that starts here ends, and the extent of its text, without the blanks around it and
without what makes it bad. -/
def urlLength : (skip : Nat) → List Char → UrlEnd × Nat
  | _, [] => (.inputEnd, 0)
  | skip + 1, _ :: cs =>
    let (ending, n) := urlLength skip cs
    (ending, n + 1)
  | 0, c :: cs =>
    if c = ')' then (.closed, 0)
    else if isBlank c then
      match cs.dropWhile isBlank with
      | [] => (.inputEnd, 0)
      | d :: _ => (if d = ')' then .closed else .bad .blank, 0)
    else if c = '\x22' || c = '\x27' || c = '(' then (.bad .character, 0)
    else if isNonPrintable c then (.bad .nonPrintable, 0)
    else if c = '\\' && !canEscape cs then (.bad .escape, 0)
    else
      let skip := if c = '\\' then escapeLength cs else 0
      let (ending, n) := urlLength skip cs
      (ending, n + 1)

/-- The extent of what is left of a bad url, with the parenthesis that closes it. -/
def remnantsLength : (skip : Nat) → List Char → Nat
  | _, [] => 0
  | skip + 1, _ :: cs => remnantsLength skip cs + 1
  | 0, c :: cs =>
    if c = ')' then 1
    else
      let skip := if c = '\\' && canEscape cs then escapeLength cs else 0
      remnantsLength skip cs + 1

/-- The extent of the rest of a comment, with its closing delimiter, if it is closed. -/
def commentLength : List Char → Option Nat
  | [] => none
  | c :: cs => if c = '*' && cs.head? = some '/' then some 2 else (commentLength cs).map (· + 1)

end AboveFold.Token
