import AboveFold.Url.Host

/-!
# Urls

A url in the sense of the URL standard, taken apart. Its parts are kept as they are written, encoded
and in canonical form, so that `Url.text` only joins them.
-/

namespace AboveFold

namespace Url

/-- Who is asked: perhaps a user and password, a host and perhaps a port. -/
structure Authority where
  user : String
  password : String
  host : Host
  port : Option Nat
deriving DecidableEq, Repr

namespace Authority

/-- The authority of a file on this machine. -/
def localhost : Authority := ⟨"", "", .name "", none⟩

/-- Whether a user or a password is named. -/
def hasCredentials (a : Authority) : Bool :=
  a.user ≠ "" || a.password ≠ ""

/-- User and password as they stand before the host. -/
def credentials (a : Authority) : String :=
  if a.hasCredentials then a.user ++ (if a.password = "" then "" else ":" ++ a.password) ++ "@" else ""

/-- The authority as it stands after the slashes. -/
def text (a : Authority) : String :=
  a.credentials ++ a.host.text ++ (a.port.elim "" fun port => s!":{port}")

end Authority

/-- How a scheme is read. -/
inductive SchemeClass where
  /-- The schemes of the web, which always have a host. -/
  | web
  | file
  | other
deriving DecidableEq, Repr

/-- The port that a scheme has by itself. -/
def defaultPort? (scheme : String) : Option Nat :=
  match scheme with
  | "http" | "ws" => some 80
  | "https" | "wss" => some 443
  | "ftp" => some 21
  | _ => none

/-- The class of a scheme. -/
def SchemeClass.of (scheme : String) : SchemeClass :=
  if scheme = "file" then .file else if (defaultPort? scheme).isSome then .web else .other

/-- Whether a backslash counts as a slash. -/
def SchemeClass.isSpecial (c : SchemeClass) : Bool := c ≠ .other

end Url

/-- A url in parts. A path that starts with no slash is opaque: it has no segments. -/
structure Url where
  scheme : String
  authority : Option Url.Authority
  path : List Char
  query : Option String
  fragment : Option String
deriving DecidableEq, Repr

namespace Url

/-- The class of the scheme. -/
def schemeClass (u : Url) : SchemeClass := .of u.scheme

/-- Whether the path has no segments, so that nothing can be relative to it. -/
def isOpaque (u : Url) : Bool :=
  u.authority.isNone && u.path.head? ≠ some '/'

/-- What stands between the scheme and the path. A path that starts with two slashes is kept apart
from an authority by a segment that says nothing. -/
def hierarchyText (u : Url) : String :=
  match u.authority with
  | some a => "//" ++ a.text
  | none => if "//".toList.isPrefixOf u.path then "/." else ""

/-- The url as text. -/
def text (u : Url) : String :=
  u.scheme ++ ":" ++ u.hierarchyText ++ String.ofList u.path ++ u.query.elim "" ("?" ++ ·)
    ++ u.fragment.elim "" ("#" ++ ·)

end Url

end AboveFold
