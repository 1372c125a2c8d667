import AboveFold.Url.Basic

/-!
# Paths

A path is read segment by segment. The segments `.` and `..` are carried out at once, so they are
never part of a path. The letter of a drive at the front of a path stays there: `..` does not
remove it.
-/

namespace AboveFold.Url

/-- A letter and a colon, or a bar in the place of the colon. -/
def isDriveLetter (cs : List Char) : Bool :=
  match cs with
  | [letter, mark] => letter.isAlpha && (mark = ':' || mark = '|')
  | _ => false

/-- A drive letter with its colon. -/
def isCanonicalDrive (cs : List Char) : Bool :=
  isDriveLetter cs && cs.getLast? = some ':'

/-- Whether a drive letter stands at the front as a segment of its own. -/
def startsWithDrive (cs : List Char) : Bool :=
  isDriveLetter (cs.take 2) && (cs.drop 2).head?.all "/\\?#".toList.contains

/-- A segment that stands for the segment it is in: a dot, perhaps encoded. -/
def isSingleDot (segment : List Char) : Bool :=
  [".", "%2e"].contains (String.ofList (segment.map Char.toLower))

/-- A segment that stands for the one before: two dots, perhaps encoded. -/
def isDoubleDot (segment : List Char) : Bool :=
  ["..", ".%2e", "%2e.", "%2e%2e"].contains (String.ofList (segment.map Char.toLower))

/-- A path up to its last slash. -/
def upToSlash (path : List Char) : List Char :=
  (path.reverse.dropWhile (· ≠ '/')).reverse

/-- What follows the last slash of a path. -/
def lastSegment (path : List Char) : List Char :=
  (path.reverse.takeWhile (· ≠ '/')).reverse

/-- A path without its last segment. The drive letter of a file stays. -/
def pop (c : SchemeClass) (path : List Char) : List Char :=
  if c = .file && isCanonicalDrive (lastSegment path) then path else upToSlash path

/-- A path without the slash at its end. The first slash stays, and so does one after a drive
letter. -/
def dropSlash (path : List Char) : List Char :=
  let body := path.dropLast
  if path.getLast? = some '/' && body.contains '/' && !isDriveLetter (lastSegment body) then body else path

/-- A path with a slash at its end. -/
def addSlash (path : List Char) : List Char :=
  if path.getLast? = some '/' then path else path ++ ['/']

/-- The path after a segment was read whose text before it is `before`; `slash` says that a slash
ended it. -/
def closeSegment (c : SchemeClass) (before segment : List Char) (slash : Bool) : List Char :=
  let mark := if slash then ['/'] else []
  if isDoubleDot segment then
    let path := pop c (dropSlash before)
    if slash then addSlash path else path
  else if isSingleDot segment then addSlash before
  else if c = .file && before.length = 1 && isDriveLetter segment then
    before ++ segment.take 1 ++ [':'] ++ mark
  else before ++ segment ++ mark

/-- The place where the next character of a segment goes. A drive letter is a segment of its own, so
after one there comes a slash first. -/
def settleDrive (c : SchemeClass) (before segment : List Char) : List Char × List Char :=
  let path := before ++ segment
  if c = .file && isCanonicalDrive (path.drop 1) then (path ++ ['/']).splitAt (before.length + 1)
  else (before, segment)

/-- Reads a path that goes on after `before` and `segment`, and gives it with the text after it,
which starts with a query or fragment if there is any. -/
def pathFrom (c : SchemeClass) (before segment : List Char) : List Char → List Char × List Char
  | [] => (closeSegment c before segment false, [])
  | d :: ds =>
    if d = '/' || (d = '\\' && c.isSpecial) then pathFrom c (closeSegment c before segment true) [] ds
    else if d = '?' || d = '#' then (closeSegment c before segment false, d :: ds)
    else
      let (before, segment) := settleDrive c before segment
      pathFrom c before (segment ++ encodeChar inPath d) ds

/-- Reads a path after the text `before`. The path of a file starts with one slash only. -/
def readPath (c : SchemeClass) (before cs : List Char) : List Char × List Char :=
  let (path, rest) := pathFrom c before [] cs
  if c = .file then ('/' :: path.dropWhile (· = '/'), rest) else (path, rest)

/-- Reads an opaque path. -/
def readOpaque (cs : List Char) : List Char × List Char :=
  let isPath (d : Char) : Bool := d ≠ '?' && d ≠ '#'
  (encode (fun _ => false) (cs.takeWhile isPath), cs.dropWhile isPath)

end AboveFold.Url
