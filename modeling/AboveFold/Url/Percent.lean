import AboveFold.Text.Ascii

/-!
# Percent encoding

A url is ASCII. What is not, and what would be read as something else in the part where it stands,
is written as its bytes, each with a percent sign and two hexadecimal digits. Every part of a url
has its own set of characters to encode. A percent sign is never encoded: it may be the start of an
encoded byte.
-/

namespace AboveFold.Url
open Text

/-- The hexadecimal digit for a number below 16. -/
def hexDigit (n : Nat) : Char :=
  if n < 10 then Char.ofNat (48 + n) else Char.ofNat (55 + n)

/-- A byte in encoded form. -/
def encodeByte (b : UInt8) : List Char :=
  ['%', hexDigit (b.toNat / 16), hexDigit (b.toNat % 16)]

/-- A control character of ASCII. -/
def isControl (c : Char) : Bool :=
  c.toNat < 32 || c.toNat = 127

/-- A character as it stands in a url, encoded if it is in the set `reserved`. Control characters and
characters beyond ASCII are in every set. -/
def encodeChar (reserved : Char → Bool) (c : Char) : List Char :=
  if isAscii c && !isControl c && !reserved c then [c] else (String.utf8EncodeChar c).flatMap encodeByte

/-- A text as it stands in a url. -/
def encode (reserved : Char → Bool) (cs : List Char) : List Char :=
  cs.flatMap (encodeChar reserved)

/-! ## What is encoded where -/

/-- Encoded in fragments. -/
def inFragment (c : Char) : Bool :=
  " \x22<>`".toList.contains c

/-- Encoded in paths. -/
def inPath (c : Char) : Bool :=
  inFragment c || "#?\x7b\x7d".toList.contains c

/-- Encoded in user names and passwords. -/
def inUserinfo (c : Char) : Bool :=
  inPath c || "/:;=@[\\]^|".toList.contains c

/-- Encoded in queries; `special` tells the schemes that also encode the single quote. -/
def inQuery (special : Bool) (c : Char) : Bool :=
  " \x22#<>".toList.contains c || (special && c = '\x27')

/-! ## Decoding -/

/-- A text with its encoded bytes as characters, if all of it is ASCII then. -/
def decodeAscii? : List Char → Option (List Char)
  | [] => some []
  | '%' :: a :: b :: cs =>
    if isHexDigit a && isHexDigit b then
      let n := hexValue a * 16 + hexValue b
      if n < 128 then (decodeAscii? cs).map (Char.ofNat n :: ·) else none
    else (decodeAscii? (a :: b :: cs)).map ('%' :: ·)
  | c :: cs => if isAscii c then (decodeAscii? cs).map (c :: ·) else none

end AboveFold.Url
