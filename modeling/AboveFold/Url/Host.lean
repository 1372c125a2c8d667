import AboveFold.Text.Search
import AboveFold.Url.Percent

/-!
# Hosts

The host of a url is a name or an address. Addresses of version 4 may be written in several bases and
with fewer than four numbers; those of version 6 stand in brackets. Both are written in one canonical
form. Names of special schemes are ASCII here; names of other schemes are kept as they are.
-/

namespace AboveFold.Url
open Text

/-- A host. An address of version 6 has eight groups of 16 bits. -/
inductive Host where
  | name (text : String)
  | ipv4 (address : Nat)
  | ipv6 (groups : List Nat)
deriving DecidableEq, Repr

/-! ## Version 4 -/

/-- A part of an address: decimal, octal after `0` or hexadecimal after `0x`. A bare prefix is
zero. -/
def ipv4Number? (cs : List Char) : Option Nat :=
  match cs with
  | [] => none
  | '0' :: 'x' :: hex | '0' :: 'X' :: hex => if hex.all isHexDigit then some (digitsValue 16 hex) else none
  | '0' :: c :: octal =>
    if (c :: octal).all fun d => '0' ≤ d && d ≤ '7' then some (digitsValue 8 (c :: octal)) else none
  | decimal => if decimal.all Char.isDigit then some (digitsValue 10 decimal) else none

/-- The parts of a host name without the empty part after a last dot. -/
def labels (cs : List Char) : List (List Char) :=
  let parts := splitAll '.' cs
  if 1 < parts.length && parts.getLast? = some [] then parts.dropLast else parts

/-- Whether a name has to be an address: its last part is a number. -/
def endsInNumber (cs : List Char) : Bool :=
  match (labels cs).getLast? with
  | none => false
  | some last => (!last.isEmpty && last.all Char.isDigit) || (ipv4Number? last).isSome

/-- How many values `n` bytes can take. -/
def byteValues (n : Nat) : Nat := Nat.pow 256 n

/-- An address of up to four numbers. All but the last are bytes; the last fills the bytes that are
left. -/
def ipv4? (cs : List Char) : Option Nat := do
  let numbers ← (labels cs).mapM ipv4Number?
  let last ← numbers.getLast?
  let bytes := numbers.dropLast
  guard (bytes.length ≤ 3 && bytes.all (· < 256) && last < byteValues (4 - bytes.length))
  return bytes.foldl (fun n b => n * 256 + b) 0 * byteValues (4 - bytes.length) + last

/-! ## Version 6 -/

/-- The two groups of an address of version 4 that ends one of version 6. It has four decimal numbers
without leading zeros. -/
def dottedGroups? (cs : List Char) : Option (List Nat) := do
  let byte? (part : List Char) : Option Nat := do
    guard (!part.isEmpty && part.all Char.isDigit && (part.length = 1 || part.head? ≠ some '0'))
    let n := digitsValue 10 part
    guard (n < 256)
    return n
  match ← (splitAll '.' cs).mapM byte? with
  | [a, b, c, d] => return [a * 256 + b, c * 256 + d]
  | _ => none

/-- The groups that colons separate. The last may be an address of version 4. -/
def groups? : List (List Char) → Option (List Nat)
  | [] => some []
  | part :: parts =>
    if parts.isEmpty && part.contains '.' then dottedGroups? part
    else if part.isEmpty || 4 < part.length || !part.all isHexDigit then none
    else (groups? parts).map (digitsValue 16 part :: ·)

/-- The groups of a text, which may be empty. -/
def groupsOf? (cs : List Char) : Option (List Nat) :=
  if cs.isEmpty then some [] else groups? (splitAll ':' cs)

/-- The text before and after the first pair of colons. -/
def splitAtGap? : List Char → Option (List Char × List Char)
  | ':' :: ':' :: cs => some ([], cs)
  | c :: cs => (splitAtGap? cs).map fun (a, b) => (c :: a, b)
  | [] => none

/-- An address of eight groups, where a pair of colons stands for one or more groups of zeros. -/
def ipv6? (cs : List Char) : Option (List Nat) :=
  match splitAtGap? cs with
  | none => do
    let groups ← groupsOf? cs
    guard (groups.length = 8)
    return groups
  | some (front, back) => do
    guard (!front.contains '.')
    let before ← groupsOf? front
    let after ← groupsOf? back
    guard (before.length + after.length ≤ 7)
    return before ++ List.replicate (8 - before.length - after.length) 0 ++ after

/-- The number of zeros at the front. -/
def zeros (groups : List Nat) : Nat :=
  (groups.takeWhile (· = 0)).length

/-- Where the longest run of at least two groups of zeros starts, the first of the longest, and how
long it is. -/
def longestGap (start : Nat) : List Nat → Option (Nat × Nat)
  | [] => none
  | g :: gs =>
    let here := zeros (g :: gs)
    match longestGap (start + 1) gs with
    | some (later, n) => if here < n then some (later, n) else some (start, here)
    | none => if 2 ≤ here then some (start, here) else none

/-- A number in hexadecimal digits. -/
def hexText (n : Nat) : List Char :=
  Nat.toDigits 16 n

/-- Groups with colons between them. -/
def groupsText (groups : List Nat) : List Char :=
  List.intercalate [':'] (groups.map hexText)

/-- An address of version 6 in its shortest form. -/
def ipv6Text (groups : List Nat) : List Char :=
  match longestGap 0 groups with
  | none => groupsText groups
  | some (start, n) => groupsText (groups.take start) ++ "::".toList ++ groupsText (groups.drop (start + n))

namespace Host

/-- A host as it stands in a url. -/
def text : Host → String
  | name text => text
  | ipv4 n =>
    ".".intercalate ([3, 2, 1, 0].map fun k => toString (n / byteValues k % 256))
  | ipv6 groups => "[" ++ String.ofList (ipv6Text groups) ++ "]"

/-- Whether this is the name without characters. -/
def isEmpty (h : Host) : Bool := h = name ""

/-- A character that no host can hold. -/
def forbids (c : Char) : Bool :=
  c.toNat = 0 || "\t\n\r #/:<>?@[\\]^|".toList.contains c

/-- A host in brackets. -/
def bracketed? (cs : List Char) : Option Host :=
  if cs.getLast? = some ']' then (ipv6? cs.dropLast).map ipv6 else none

/-- The host of a url whose scheme is not special. -/
def ofOpaque? (cs : List Char) : Option Host :=
  match cs with
  | '[' :: inner => bracketed? inner
  | _ => if cs.any forbids then none else some (name (String.ofList (encode (fun _ => false) cs)))

/-- The host of a url with a special scheme. Encoded bytes count as characters, capitals as small
letters. -/
def ofSpecial? (cs : List Char) : Option Host :=
  match cs with
  | '[' :: inner => bracketed? inner
  | _ => do
    let decoded ← decodeAscii? cs
    let domain := decoded.map Char.toLower
    guard (!domain.isEmpty && !domain.any fun c => forbids c || isControl c || c = '%')
    if endsInNumber domain then (ipv4? domain).map ipv4
    else return name (String.ofList domain)

end Host

end AboveFold.Url
