import AboveFold.CommandLine.Run

/-!
# The program

Files of the machine, what is printed and the exit code. All else is in `CommandLine`.
-/

namespace AboveFold.CommandLine

/-- What an error of the machine means. -/
def FileError.ofMachine (e : IO.Error) : FileError :=
  match e with
  | .noFileOrDirectory _ _ _ => .missing
  | .inappropriateType _ _ _ => .notDirectory
  | e => .other (toString e)

/-- Runs an action and keeps its error. -/
def attempt {α : Type} (action : IO α) : IO (Except FileError α) := do
  match ← action.toBaseIO with
  | .ok a => return .ok a
  | .error e => return .error (.ofMachine e)

/-- Finds the files at or below a path, where `entry` is the place of the path itself. -/
partial def findFiles (path : String) (entry : IO.FS.DirEntry) : IO (List Found) := do
  if ← entry.path.isDir then
    match ← attempt entry.path.readDir with
    | .error e => return [.failure path e]
    | .ok below =>
      let sorted := below.toList.mergeSort fun a b => Files.namesInOrder a.fileName b.fileName
      return (← sorted.mapM fun e => findFiles (Files.under path [e.fileName]) e).flatten
  else
    match ← attempt entry.path.metadata with
    | .error e => return [.failure path e]
    | .ok _ => return [.file path]

/-- The bytes of a file of the machine. -/
def readFile (path : String) : IO (Except FileError (List Nat)) := do
  return (← attempt (IO.FS.readBinFile path)).map fun bytes => bytes.toList.map UInt8.toNat

/-- The files that numbered tasks read, in the order in which the tasks are done. -/
def gather : (count : Nat) → (tasks : List (Nat × Task Arrival)) → BaseIO (List Arrival)
  | 0, _ => return []
  | count + 1, tasks =>
    match tasks.map Prod.snd with
    | [] => return []
    | t :: ts => do
      let done ← IO.waitAny (t :: ts)
      return done :: (← gather count (tasks.filter (·.1 ≠ done.index)))

/-- The files of the machine. -/
def FileAccess.machine : FileAccess IO where
  read := readFile
  readAll paths := do
    let tasks ← paths.zipIdx.mapM fun (path, index) => do
      let task ← (readFile path).asTask
      return (index, task.map fun bytes => ⟨index, path, bytes.toOption.getD (.error (.other "interrupted"))⟩)
    gather paths.length tasks
  find path := findFiles path ⟨".", path⟩
  write path text := attempt (IO.FS.writeFile path text)

/-- How the program is used. -/
def usage : String :=
  "usage: abovefold [-v] prune CSS_PATH --selectors FILE [OPTION]...\n" ++
  "       abovefold [-v] inspect PATH... [--css-file-exts EXT,...]"

/-- Why arguments are no request, in words. -/
def UsageError.message : UsageError → String
  | unknownArgument => "unknown argument"
  | unknownCommand => "unknown command"
  | missingArgument => "an argument is missing"
  | missingValue => "a value is missing"
  | invalidValue => "a value cannot be read"
  | needlessValue => "an option takes no value"
  | repeatedOption => "an option is repeated"
  | help | version => usage

/-- Prints how a command ended. -/
def Outcome.print (o : Outcome) : IO UInt32 := do
  if let some text := o.output then IO.println text
  if let some text := o.error then IO.eprintln text
  return if o.success then 0 else 1

end AboveFold.CommandLine

open AboveFold.CommandLine in
/-- Reads the arguments and carries out what they ask for. -/
def main (arguments : List String) : IO UInt32 := do
  match readArguments arguments with
  | .ok ⟨_, some request⟩ => (← run .machine request).print
  | .ok ⟨_, none⟩ =>
    IO.println usage
    return 0
  | .error .help | .error .version =>
    IO.println usage
    return 0
  | .error e =>
    IO.eprintln s!"error: {e.message}\n{usage}"
    return 2
