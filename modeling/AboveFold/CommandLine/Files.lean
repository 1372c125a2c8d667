import AboveFold.Text.Search
import AboveFold.Text.Utf8

/-!
# Files

What the commands do with files: read one, read several side by side, find those below a directory,
write one. `FileAccess` is the set of these operations in a monad; `Files` is a store of files in memory
on which they are functions. A place in a store is the list of names from its root; directories are
there for the sake of the files in them.

Files that are read side by side arrive in whatever order they are done. A store reads a piece of each
of them in turn, so that a large file arrives after the small ones.
-/

namespace AboveFold.CommandLine

/-- Why a file cannot be read or written. -/
inductive FileError where
  | missing
  | notDirectory
  | isDirectory
  | other (message : String)
deriving DecidableEq, Repr

/-- The error in words. -/
def FileError.message : FileError → String
  | missing => "No such file or directory (os error 2)"
  | notDirectory => "Not a directory (os error 20)"
  | isDirectory => "Is a directory (os error 21)"
  | other message => message

/-- A step of a search for files. -/
inductive Found where
  | file (path : String)
  | failure (path : String) (error : FileError)
deriving DecidableEq, Repr

/-- A file that was read with others: its place in the list of them, its path, and what was read. -/
structure Arrival where
  index : Nat
  path : String
  bytes : Except FileError (List Nat)

/-- The operations on files. -/
structure FileAccess (m : Type → Type) where
  read : String → m (Except FileError (List Nat))
  /-- Reads files side by side, and gives them in the order in which they are done. -/
  readAll : List String → m (List Arrival)
  /-- The files at or below a path, each directory in the order of its names. -/
  find : String → m (List Found)
  write : String → String → m (Except FileError Unit)

/-- A place in a store. -/
abbrev Place := List String

/-- Files in memory. -/
structure Files where
  entries : List (Place × List Nat)
deriving DecidableEq, Repr

/-- What is at a place. -/
inductive Located where
  | file (place : Place) (bytes : List Nat)
  | directory (place : Place)
  | nothing (place : Place)
deriving DecidableEq, Repr

namespace Files

/-- The bytes of the file at a place. -/
def get? (f : Files) (place : Place) : Option (List Nat) :=
  f.entries.lookup place

/-- Whether a place is a directory: the root, or above some file. -/
def isDirectory (f : Files) (place : Place) : Bool :=
  place.isEmpty || f.entries.any fun (file, _) => place.isPrefixOf file && place ≠ file

/-- What is at a place. -/
def item (f : Files) (place : Place) : Located :=
  match f.get? place with
  | some bytes => .file place bytes
  | none => if f.isDirectory place then .directory place else .nothing place

/-- Goes on from what was found by one name of a path. A name without characters and a dot stay, two
dots go up, and only a directory can be gone into. Above the root there is nothing. -/
def step (f : Files) (here : Located) (name : String) : Except FileError Located :=
  match here with
  | .file _ _ => .error .notDirectory
  | .nothing _ => .error .missing
  | .directory place =>
    if name = "" || name = "." then .ok here
    else if name = ".." then
      if place.isEmpty then .error .missing else .ok (.directory place.dropLast)
    else .ok (f.item (place ++ [name]))

/-- The names in a path. -/
def names (path : String) : List String :=
  (Text.splitAll '/' path.toList).map String.ofList

/-- What is at a path, which is relative to the root. Only the last name may be of nothing. -/
def locate (f : Files) (path : String) : Except FileError Located :=
  if path.toList.head?.all (· = '/') then .error .missing
  else (names path).foldlM f.step (.directory [])

/-- The bytes of the file at a path. -/
def read (f : Files) (path : String) : Except FileError (List Nat) := do
  match ← f.locate path with
  | .file _ bytes => return bytes
  | .directory _ => throw .isDirectory
  | .nothing _ => throw .missing

/-- How many bytes of a file are read before it is the turn of the next. -/
def pieceSize : Nat := 65536

/-- How many whole pieces of a file there are to read. -/
def pieces (a : Arrival) : Nat :=
  match a.bytes with
  | .ok bytes => bytes.length / pieceSize
  | .error _ => 0

/-- The files at some paths, read side by side, a piece of each in turn. -/
def readAll (f : Files) (paths : List String) : List Arrival :=
  (paths.zipIdx.map fun (path, index) => ⟨index, path, f.read path⟩).mergeSort fun a b => pieces a ≤ pieces b

/-- A path without the slashes at its end. -/
def withoutSlashes (path : String) : String :=
  String.ofList (path.toList.reverse.dropWhile (· = '/')).reverse

/-- The store with a text in the file at a path. A slash at the end asks for a directory, whatever is
there. -/
def write (f : Files) (path text : String) : Except FileError Files := do
  let bytes := text.toUTF8.toList.map UInt8.toNat
  match ← f.locate (withoutSlashes path), path.endsWith "/" with
  | _, true | .directory _, _ => throw .isDirectory
  | .file place _, false => return ⟨f.entries.map fun e => if e.1 = place then (place, bytes) else e⟩
  | .nothing place, false => return ⟨f.entries ++ [(place, bytes)]⟩

/-- Whether a list comes before another or is equal to it, where the first elements that differ
decide by `before`. -/
def inOrder {α : Type} [DecidableEq α] (before : α → α → Bool) : List α → List α → Bool
  | [], _ => true
  | _ :: _, [] => false
  | a :: as, b :: bs => if a = b then inOrder before as bs else before a b

/-- Whether a name comes before another or is equal to it, character by character. -/
def namesInOrder (a b : String) : Bool :=
  inOrder (fun c d : Char => c.toNat < d.toNat) a.toList b.toList

/-- A path with names after it. -/
def under (path : String) (place : Place) : String :=
  place.foldl (fun path name => if path.endsWith "/" then path ++ name else path ++ "/" ++ name) path

/-- The files at or below a path. -/
def find (f : Files) (path : String) : List Found :=
  match f.locate path with
  | .error e => [.failure path e]
  | .ok (.nothing _) => [.failure path .missing]
  | .ok (.file _ _) => [.file path]
  | .ok (.directory place) =>
    let below := (f.entries.map Prod.fst).filter place.isPrefixOf
    let sorted := (below.map (·.drop place.length)).mergeSort (inOrder namesInOrder)
    sorted.map fun rest => .file (under path rest)

end Files

/-- The operations on a store. -/
def FileAccess.memory : FileAccess (StateM Files) where
  read path := return (← get).read path
  readAll paths := return (← get).readAll paths
  find path := return (← get).find path
  write path text := do
    match (← get).write path text with
    | .ok f =>
      set f
      return .ok ()
    | .error e => return .error e

end AboveFold.CommandLine
