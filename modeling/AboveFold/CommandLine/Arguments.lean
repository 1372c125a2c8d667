/-!
# Reading arguments

The arguments of a command are options and words. An option has a long name, perhaps a letter, and
perhaps a value: after an equals sign, as the next argument, or, after a letter, as the rest of the
argument. After a double hyphen all arguments are words. What an argument means is a function on the
request that the command fills in; it is applied when the next argument shows that it is complete, so
the first thing that is wrong is what gets reported.
-/

namespace AboveFold.CommandLine

/-- Why arguments are no request. -/
inductive UsageError where
  | unknownArgument
  | unknownCommand
  | missingArgument
  | missingValue
  | invalidValue
  | needlessValue
  | repeatedOption
  | help
  | version
deriving DecidableEq, Repr

/-- What an argument does to a request of type `σ`. -/
abbrev Effect (σ : Type) := σ → Except UsageError σ

/-- What comes with an option. -/
inductive OptionRole (σ : Type) where
  | flag (effect : Effect σ)
  | valued (effect : String → Effect σ)

/-- What a command takes. -/
structure Interface (σ : Type) where
  long? : String → Option (OptionRole σ)
  letter? : Char → Option (OptionRole σ)
  /-- What a word does. -/
  word : String → Effect σ
  /-- How many words there can be; if missing, any number. -/
  words : Option Nat

/-- What was read last and is not applied yet. -/
inductive Pending (σ : Type) where
  | nothing
  /-- An option that needs a value. -/
  | waiting (effect : String → Effect σ)
  | option (effect : Effect σ)
  | words (values : List String)

/-- The state of reading. -/
structure Reading (σ : Type) where
  request : σ
  pending : Pending σ
  /-- How many words were read. -/
  count : Nat
  /-- Whether only words are to come. -/
  wordsOnly : Bool

namespace Reading

/-- Applies what is pending. -/
def settle {σ : Type} (i : Interface σ) (r : Reading σ) : Except UsageError (Reading σ) := do
  let request ← match r.pending with
    | .nothing => pure r.request
    | .waiting _ => throw .missingValue
    | .option effect => effect r.request
    | .words values => values.foldlM (fun request value => i.word value request) r.request
  return { r with request, pending := .nothing }

/-- Applies what is pending, and then an effect. -/
def apply {σ : Type} (i : Interface σ) (r : Reading σ) (effect : Effect σ) : Except UsageError (Reading σ) := do
  let r ← r.settle i
  return { r with request := ← effect r.request }

/-- Waits for the value of an option. -/
def await {σ : Type} (i : Interface σ) (r : Reading σ) (effect : String → Effect σ) :
    Except UsageError (Reading σ) := do
  let r ← r.settle i
  return { r with pending := .waiting effect }

/-- Reads an option by its long name, with the value after an equals sign if there is one. -/
def long {σ : Type} (i : Interface σ) (r : Reading σ) (name : String) (value : Option String) :
    Except UsageError (Reading σ) :=
  match i.long? name, value with
  | none, _ => throw .unknownArgument
  | some (.flag effect), none => r.apply i effect
  | some (.flag _), some _ => throw .needlessValue
  | some (.valued effect), some value => r.apply i (effect value)
  | some (.valued effect), none => r.await i effect

/-- Reads letters of options; what follows the letter of an option with a value is the value. -/
def letters {σ : Type} (i : Interface σ) (r : Reading σ) : List Char → Except UsageError (Reading σ)
  | [] => return r
  | c :: cs =>
    match i.letter? c, cs with
    | none, _ => throw .unknownArgument
    | some (.flag effect), _ => do
      let r ← r.apply i effect
      letters i r cs
    | some (.valued effect), [] => r.await i effect
    | some (.valued effect), '=' :: value => r.apply i (effect (String.ofList value))
    | some (.valued effect), value => r.apply i (effect (String.ofList value))

/-- Reads a word, or the value that an option waits for. -/
def word {σ : Type} (i : Interface σ) (r : Reading σ) (text : String) : Except UsageError (Reading σ) :=
  match r.pending, r.wordsOnly with
  | .waiting effect, false => return { r with pending := .option (effect text) }
  | pending, _ =>
    if i.words.any (· ≤ r.count) then throw .unknownArgument
    else
      match pending with
      | .words values => return { r with pending := .words (values ++ [text]), count := r.count + 1 }
      | _ => do
        let r ← r.settle i
        return { r with pending := .words [text], count := r.count + 1 }

/-- Reads one argument. -/
def argument {σ : Type} (i : Interface σ) (r : Reading σ) (text : String) : Except UsageError (Reading σ) :=
  if r.wordsOnly then r.word i text
  else
    match text.toList with
    | ['-', '-'] => return { r with wordsOnly := true }
    | '-' :: '-' :: cs =>
      let name := String.ofList (cs.takeWhile (· ≠ '='))
      match cs.dropWhile (· ≠ '=') with
      | [] => r.long i name none
      | _ :: value => r.long i name (some (String.ofList value))
    | '-' :: c :: cs => r.letters i (c :: cs)
    | _ => r.word i text

end Reading

/-- Fills in a request from arguments. -/
def Interface.read {σ : Type} (i : Interface σ) (start : σ) (arguments : List String) : Except UsageError σ := do
  let r ← arguments.foldlM (fun r text => r.argument i text) (⟨start, .nothing, 0, false⟩ : Reading σ)
  return (← r.settle i).request

end AboveFold.CommandLine
