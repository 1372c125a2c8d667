import AboveFold.CommandLine.Arguments
import AboveFold.Prune.Embeds
import AboveFold.Url.Parse

/-!
# Requests

What the program can be asked to do, and the arguments that ask for it: `prune` reduces one
stylesheet, `inspect` reports on any number of them.
-/

namespace AboveFold.CommandLine

/-- Asks for one stylesheet to be reduced. -/
structure PruneRequest where
  stylesheet : String
  /-- The file with the critical selectors. -/
  selectors : String
  /-- The file for the result; if missing, it is printed. -/
  output : Option String
  baseUrl : Option Url
  atRules : List String
  /-- Patterns for properties that go. -/
  properties : List String
  fonts : List String
  maxEmbed : Nat
  /-- Whether unused custom properties go too. -/
  unusedVariables : Bool
deriving DecidableEq, Repr

/-- Asks for a report. -/
structure InspectRequest where
  paths : List String
  /-- The name endings of the files that are looked for in directories. -/
  extensions : List String
deriving DecidableEq, Repr

/-- What the program is asked to do. -/
inductive Request where
  | prune (request : PruneRequest)
  | inspect (request : InspectRequest)
deriving DecidableEq, Repr

/-- A request, and whether to say much about how it is carried out. -/
structure Invocation where
  verbose : Bool
  request : Option Request
deriving DecidableEq, Repr

/-- Fills in what can be given once. A second value is refused unread. -/
def once {α : Type} (old : Option α) (value : Except UsageError α) : Except UsageError (Option α) :=
  match old with
  | none => value.map some
  | some _ => .error .repeatedOption

/-- A path, which cannot be empty. -/
def readPath (text : String) : Except UsageError String :=
  if text = "" then .error .missingValue else .ok text

/-- A number of at most 64 bits, perhaps with a plus sign. -/
def readSize (text : String) : Except UsageError Nat :=
  let digits := match text.toList with
    | '+' :: cs => cs
    | cs => cs
  let n := Text.digitsValue 10 digits
  if digits.isEmpty || !digits.all Char.isDigit || 0x10000000000000000 ≤ n then .error .invalidValue else .ok n

/-- An absolute url. -/
def readUrl (text : String) : Except UsageError Url :=
  match Url.parse text with
  | some url => .ok url
  | none => .error .invalidValue

/-! ## Pruning -/

/-- A request to prune that is being filled in. -/
structure PruneDraft where
  stylesheet : Option String
  selectors : Option String
  output : Option String
  baseUrl : Option Url
  atRules : List String
  properties : List String
  fonts : List String
  maxEmbed : Option Nat
  unusedVariables : Option Unit

namespace PruneDraft

/-- Nothing is filled in. -/
def empty : PruneDraft := ⟨none, none, none, none, [], [], [], none, none⟩

/-- The file for the result. -/
def output? : OptionRole PruneDraft :=
  .valued fun text d => return { d with output := ← once d.output (readPath text) }

/-- The options by their long names. -/
def long? (name : String) : Option (OptionRole PruneDraft) :=
  match name with
  | "base-url" => some (.valued fun text d => return { d with baseUrl := ← once d.baseUrl (readUrl text) })
  | "exclude-at-rule" => some (.valued fun text d => return { d with atRules := d.atRules ++ [text] })
  | "exclude-property" => some (.valued fun text d => return { d with properties := d.properties ++ [text] })
  | "font" => some (.valued fun text d => return { d with fonts := d.fonts ++ [text] })
  | "max-base64-length" =>
    some (.valued fun text d => return { d with maxEmbed := ← once d.maxEmbed (readSize text) })
  | "output" => some output?
  | "prune-variables" => some (.flag fun d => return { d with unusedVariables := ← once d.unusedVariables (.ok ()) })
  | "selectors" =>
    some (.valued fun text d => return { d with selectors := ← once d.selectors (readPath text) })
  | "help" => some (.flag fun _ => throw .help)
  | _ => none

/-- The options by their letters. -/
def letter? (c : Char) : Option (OptionRole PruneDraft) :=
  match c with
  | 'o' => some output?
  | 'h' => some (.flag fun _ => throw .help)
  | _ => none

/-- What the command takes. -/
def interface : Interface PruneDraft where
  long? := long?
  letter? := letter?
  word text d := return { d with stylesheet := some (← readPath text) }
  words := some 1

/-- The request, once all that is needed is there. -/
def finish (d : PruneDraft) : Except UsageError PruneRequest :=
  match d.stylesheet, d.selectors with
  | some stylesheet, some selectors =>
    .ok ⟨stylesheet, selectors, d.output, d.baseUrl, d.atRules, d.properties, d.fonts,
      d.maxEmbed.getD Prune.maxEmbed, d.unusedVariables.isSome⟩
  | _, _ => .error .missingArgument

end PruneDraft

/-! ## Inspecting -/

/-- A request to inspect that is being filled in. -/
structure InspectDraft where
  paths : List String
  extensions : List String

namespace InspectDraft

/-- Nothing is filled in. -/
def empty : InspectDraft := ⟨[], []⟩

/-- Name endings with commas between them. -/
def addExtensions (text : String) (d : InspectDraft) : InspectDraft :=
  { d with extensions := d.extensions ++ (Text.splitAll ',' text.toList).map String.ofList }

/-- What the command takes. -/
def interface : Interface InspectDraft where
  long? name :=
    match name with
    | "css-file-exts" => some (.valued fun text d => return d.addExtensions text)
    | "help" => some (.flag fun _ => throw .help)
    | _ => none
  letter? c := if c = 'h' then some (.flag fun _ => throw .help) else none
  word text d := return { d with paths := d.paths ++ [← readPath text] }
  words := none

/-- The request, once a path is there. Without name endings it is about `css`. -/
def finish (d : InspectDraft) : Except UsageError InspectRequest :=
  if d.paths.isEmpty then .error .missingArgument
  else .ok ⟨d.paths, if d.extensions.isEmpty then ["css"] else d.extensions⟩

end InspectDraft

/-! ## All requests -/

/-- The options that come before the name of a command. -/
def commonOptions : Interface (Option Unit) where
  long? name :=
    match name with
    | "verbose" => some (.flag fun v => return ← once v (.ok ()))
    | "help" => some (.flag fun _ => throw .help)
    | "version" => some (.flag fun _ => throw .version)
    | _ => none
  letter? c :=
    match c with
    | 'v' => some (.flag fun v => return ← once v (.ok ()))
    | 'h' => some (.flag fun _ => throw .help)
    | 'V' => some (.flag fun _ => throw .version)
    | _ => none
  word _ _ := throw .unknownCommand
  words := none

/-- Whether these are the arguments of a request for help: at most one name of a command. -/
def asksForHelp (arguments : List String) : Bool :=
  arguments.isEmpty || [["prune"], ["inspect"], ["help"]].contains arguments

/-- Reads the arguments from the name of a command on, where `verbose` was read before it. -/
def readCommand (verbose : Bool) (name : String) (arguments : List String) :
    Option (Except UsageError Invocation) :=
  match name with
  | "prune" => some do
    let draft ← PruneDraft.interface.read .empty arguments
    return ⟨verbose, some (.prune (← draft.finish))⟩
  | "inspect" => some do
    let draft ← InspectDraft.interface.read .empty arguments
    return ⟨verbose, some (.inspect (← draft.finish))⟩
  | "help" => some (.error (if asksForHelp arguments then .help else .unknownCommand))
  | _ => none

/-- Reads arguments, where `r` is what came before them. Behind a double hyphen there is no
command. -/
def readFrom (r : Reading (Option Unit)) : List String → Except UsageError Invocation
  | [] => return ⟨(← r.settle commonOptions).request.isSome, none⟩
  | text :: arguments =>
    match readCommand r.request.isSome text arguments, r.wordsOnly with
    | some result, false => result
    | some _, true => .error .unknownArgument
    | none, _ => do
      let r ← r.argument commonOptions text
      let r ← r.settle commonOptions
      readFrom r arguments

/-- Reads the arguments of the program. -/
def readArguments (arguments : List String) : Except UsageError Invocation :=
  readFrom ⟨none, .nothing, 0, false⟩ arguments

end AboveFold.CommandLine
