import AboveFold.Url.Path

/-!
# Reading urls

`Url.parse` reads an absolute url and `Url.join` one that may be relative to another. Text from which
no url can be read has no answer. Blanks and control characters around a url and line breaks inside
of it count for nothing.
-/

namespace AboveFold.Url
open Text

/-- The characters of a url: without those that count for nothing. -/
def significant (s : String) : List Char :=
  let outer (c : Char) : Bool := c.toNat ≤ 32
  let trimmed := ((s.toList.dropWhile outer).reverse.dropWhile outer).reverse
  trimmed.filter fun c => c ≠ '\t' && c ≠ '\n' && c ≠ '\r'

/-- A character of a scheme after its first. -/
def isSchemeChar (c : Char) : Bool :=
  c.isAlphanum || c = '+' || c = '-' || c = '.'

/-- The scheme in small letters, and the text after its colon. -/
def scheme? (cs : List Char) : Option (String × List Char) :=
  match cs.head?.any Char.isAlpha, cs.dropWhile isSchemeChar with
  | true, ':' :: rest => some (lower (String.ofList (cs.takeWhile isSchemeChar)), rest)
  | _, _ => none

/-- A slash, or what counts as one in special urls. -/
def isSlash (c : Char) : Bool := c = '/' || c = '\\'

/-- Reads a fragment. -/
def fragmentOf (cs : List Char) : String :=
  String.ofList (encode inFragment cs)

/-- Adds the query and fragment, which start with their signs, to a url. -/
def withSuffix (u : Url) (cs : List Char) : Url :=
  let fragment (cs : List Char) : Option String :=
    match cs with
    | '#' :: cs => some (fragmentOf cs)
    | _ => none
  match cs with
  | '?' :: cs =>
    let query := encode (inQuery u.schemeClass.isSpecial) (cs.takeWhile (· ≠ '#'))
    { u with query := some (String.ofList query), fragment := fragment (cs.dropWhile (· ≠ '#')) }
  | cs => { u with query := none, fragment := fragment cs }

/-! ## Authorities -/

/-- Whether an authority ends before a character. -/
def endsAuthority (c : SchemeClass) (d : Char) : Bool :=
  d = '/' || d = '?' || d = '#' || (d = '\\' && c.isSpecial)

/-- The user and password at the front, and the text after the last `@` of the authority. An `@`
needs a host after it. -/
def userinfo? (c : SchemeClass) (cs : List Char) : Option (String × String × List Char) :=
  let authority := cs.takeWhile (!endsAuthority c ·)
  let host := (authority.reverse.takeWhile (· ≠ '@')).reverse
  if host.length = authority.length then some ("", "", cs)
  else
    let info := authority.take (authority.length - host.length - 1)
    let rest := cs.drop (info.length + 1)
    if info.isEmpty && rest.head?.any (endsAuthority c) then none
    else
      let (user, password) := splitOnce ':' info
      let encoded (part : List Char) : String := String.ofList (encode inUserinfo part)
      some (encoded user, encoded (password.getD []), rest)

/-- The extent of a host. A colon in brackets does not end it. -/
def hostLength (c : SchemeClass) (bracketed : Bool) : List Char → Nat
  | [] => 0
  | d :: ds =>
    if endsAuthority c d || (d = ':' && !bracketed) then 0
    else hostLength c (if d = '[' then true else if d = ']' then false else bracketed) ds + 1

/-- The host at the front, and the text after it. Special schemes need one, and so does a port. -/
def host? (c : SchemeClass) (cs : List Char) : Option (Host × List Char) := do
  let n := hostLength c false cs
  let host ← if c.isSpecial then Host.ofSpecial? (cs.take n) else Host.ofOpaque? (cs.take n)
  guard !(host.isEmpty && (cs.drop n).head? = some ':')
  return (host, cs.drop n)

/-- The port at the front, if a colon is there, and the text after it. The port that a scheme has by
itself is left out. -/
def port? (scheme : String) (cs : List Char) : Option (Option Nat × List Char) :=
  match cs with
  | ':' :: cs => do
    let digits := cs.takeWhile Char.isDigit
    let rest := cs.dropWhile Char.isDigit
    let port := digitsValue 10 digits
    guard (port < 65536 && rest.head?.all "/\\?#".toList.contains)
    return (if digits.isEmpty || defaultPort? scheme = some port then none else some port, rest)
  | cs => some (none, cs)

/-- Reads an authority. -/
def authority? (scheme : String) (cs : List Char) : Option (Authority × List Char) := do
  let c := SchemeClass.of scheme
  let (user, password, cs) ← userinfo? c cs
  let (host, cs) ← host? c cs
  let (port, cs) ← port? scheme cs
  let authority : Authority := ⟨user, password, host, port⟩
  guard !(host.isEmpty && authority.hasCredentials)
  return (authority, cs)

/-- Reads the path after an authority. Special urls always have one. -/
def pathAfterAuthority (c : SchemeClass) (cs : List Char) : List Char × List Char :=
  if c.isSpecial then readPath c ['/'] (if cs.head?.any isSlash then cs.drop 1 else cs)
  else
    match cs with
    | [] => ([], [])
    | d :: _ =>
      if d = '?' || d = '#' then ([], cs)
      else readPath c (if d = '/' then [] else ['/']) cs

/-- Reads what comes after two slashes. -/
def afterSlashes? (scheme : String) (cs : List Char) : Option Url := do
  let (authority, cs) ← authority? scheme cs
  let (path, cs) := pathAfterAuthority (.of scheme) cs
  return withSuffix ⟨scheme, some authority, path, none, none⟩ cs

/-! ## Relative urls -/

/-- The url with another path, query and fragment. -/
def withPath (u : Url) (path rest : List Char) : Url :=
  withSuffix { u with path } rest

/-- Reads a url relative to one of the same scheme that is not a file. -/
def relative? (base : Url) (cs : List Char) : Option Url :=
  let c := base.schemeClass
  match cs with
  | [] => some { base with fragment := none }
  | '#' :: fragment => some { base with fragment := some (fragmentOf fragment) }
  | '?' :: _ => some (withSuffix base cs)
  | d :: ds =>
    if isSlash d then
      if ds.head?.any isSlash then
        afterSlashes? base.scheme (if "//".toList.isPrefixOf cs then cs.drop 2 else cs.dropWhile isSlash)
      else
        let (path, rest) := readPath c ['/'] ds
        some (base.withPath path rest)
    else
      let kept := pop c base.path
      let (path, rest) := readPath c (if kept.isEmpty then ['/'] else kept) cs
      some (base.withPath path rest)

/-! ## Files -/

/-- A file on this machine. -/
def localFile (path rest : List Char) : Url :=
  withSuffix ⟨"file", some .localhost, path, none, none⟩ rest

/-- Reads the host of a file and what follows it. A drive letter is no host, and where a drive
letter starts the path, there is no host. -/
def fileAfterSlashes? (cs : List Char) : Option Url := do
  let isHost (d : Char) : Bool := !isSlash d && d ≠ '?' && d ≠ '#'
  let name := cs.takeWhile isHost
  if name.isEmpty || isDriveLetter name then
    let (path, rest) := readPath .file ['/'] (if cs.head?.any isSlash then cs.drop 1 else cs)
    return localFile path rest
  else
    let host ← Host.ofSpecial? name
    let (path, rest) := pathAfterAuthority .file (cs.dropWhile isHost)
    if host = .name "localhost" || startsWithDrive (path.drop 1) then return localFile path rest
    else return withSuffix ⟨"file", some ⟨"", "", host, none⟩, path, none, none⟩ rest

/-- Reads a path from the root of the file system that `base` is on. -/
def fileFromRoot (base : Option Url) (cs : List Char) : Url :=
  let root : Url := localFile [] []
  match base with
  | none => let (path, rest) := readPath .file [] cs; root.withPath path rest
  | some base =>
    let drive := (base.path.drop 1).takeWhile (· ≠ '/')
    if startsWithDrive (cs.drop 1) then
      let (path, rest) := readPath .file [] cs
      root.withPath path rest
    else if isCanonicalDrive drive then
      let (path, rest) := readPath .file ('/' :: drive) cs
      root.withPath path rest
    else
      let (path, rest) := readPath .file [] cs
      base.withPath path rest

/-- Reads a file url after its scheme, perhaps relative to another file. -/
def file? (base : Option Url) (cs : List Char) : Option Url :=
  match cs, base with
  | d :: e :: ds, _ =>
    if isSlash d && isSlash e then fileAfterSlashes? ds
    else if isSlash d then some (fileFromRoot base cs)
    else fileBelow base cs
  | [d], _ => if isSlash d then some (fileFromRoot base cs) else fileBelow base cs
  | [], _ => fileBelow base cs
where
  /-- Reads what starts with no slash. -/
  fileBelow (base : Option Url) (cs : List Char) : Option Url :=
    match base with
    | none =>
      let (path, rest) := readPath .file ['/'] cs
      some (localFile path rest)
    | some base =>
      match cs with
      | [] => some { base with fragment := none }
      | '#' :: fragment => some { base with fragment := some (fragmentOf fragment) }
      | '?' :: _ => some (withSuffix base cs)
      | _ =>
        if startsWithDrive cs then
          let (path, rest) := readPath .file ['/'] cs
          some (localFile path rest)
        else
          let (path, rest) := readPath .file (pop .file base.path) cs
          some (base.withPath path rest)

/-! ## All urls -/

/-- Reads what follows a scheme that is not special. -/
def other? (scheme : String) (cs : List Char) : Option Url :=
  if "//".toList.isPrefixOf cs then afterSlashes? scheme (cs.drop 2)
  else
    let (path, rest) := if cs.head? = some '/' then readPath .other ['/'] (cs.drop 1) else readOpaque cs
    some (withSuffix ⟨scheme, none, path, none, none⟩ rest)

/-- Reads a url that may be relative to `base`. A url of the web that names the scheme of the base
and no authority is relative too. -/
def read? (base : Option Url) (cs : List Char) : Option Url :=
  match scheme? cs, base with
  | some (scheme, rest), _ =>
    match SchemeClass.of scheme with
    | .file => file? (base.filter (·.scheme = "file")) rest
    | .other => other? scheme rest
    | .web =>
      match base.filter (·.scheme = scheme), (rest.takeWhile isSlash).length with
      | some base, 0 | some base, 1 => relative? base rest
      | _, _ => afterSlashes? scheme (rest.dropWhile isSlash)
  | none, none => none
  | none, some base =>
    match cs with
    | '#' :: fragment => some { base with fragment := some (fragmentOf fragment) }
    | _ =>
      if base.isOpaque then none
      else if base.schemeClass = .file then file? (some base) cs
      else relative? base cs

/-- Reads an absolute url. -/
def parse (s : String) : Option Url :=
  read? none (significant s)

/-- Reads a url that may be relative. -/
def join (base : Url) (s : String) : Option Url :=
  read? (some base) (significant s)

end AboveFold.Url
