import RecordQuery.Number.Signed

/-!
# Arguments of the command line

A command is a word, before and after which options may stand. A long option follows two dashes and takes its value behind an
equals sign or as the next argument; short options follow one dash and can be written together, where the first one with a value
takes the rest. Two dashes alone end the options. No option is given twice.
-/

namespace RecordQuery

/-- A query to check. -/
structure CheckRequest where
  /-- The query, unless it is read from the input. -/
  query : Option String
  maxDepth : Option Nat
  tokens : Bool
  pretty : Bool
  deriving DecidableEq, Repr

/-- A query to run. -/
structure RunRequest where
  /-- The query, unless it is read from the input. -/
  query : Option String
  /-- The path of the data file. -/
  data : String
  maxDepth : Option Nat
  pretty : Bool
  deriving DecidableEq, Repr

/-- What a command line asks for. -/
inductive Request where
  | version
  | help
  | check (request : CheckRequest)
  | run (request : RunRequest)
  deriving DecidableEq, Repr

/-- Why a command line asks for nothing. -/
inductive UsageError where
  | noCommand
  | unknownCommand (word : String)
  | unexpected (argument : String)
  | repeated (option : String)
  | missingValue (option : String)
  | invalidValue (option : String)
  | required (option : String)
  deriving DecidableEq, Repr

/-- The words for an error. -/
def UsageError.message : UsageError → String
  | .noCommand => "a command is required: check or run"
  | .unknownCommand word => s!"unrecognized command {word}"
  | .unexpected argument => s!"unexpected argument {argument}"
  | .repeated option => s!"{option} cannot be given more than once"
  | .missingValue option => s!"{option} needs a value"
  | .invalidValue option => s!"invalid value for {option}"
  | .required option => s!"{option} is required"

namespace Arguments

/-- An option. -/
inductive Switch where
  | help
  | version
  | verbose
  | tokens
  | pretty
  | maxDepth
  | data
  deriving DecidableEq, Repr

namespace Switch

/-- The word after two dashes. -/
def long : Switch → String
  | help => "help"
  | version => "version"
  | verbose => "verbose"
  | tokens => "tokens"
  | pretty => "pretty"
  | maxDepth => "max-depth"
  | data => "data"

/-- The letter after one dash. -/
def short? : Switch → Option Char
  | help => some 'h'
  | version => some 'V'
  | verbose => some 'v'
  | pretty => some 'p'
  | data => some 'd'
  | tokens | maxDepth => none

/-- Whether a value belongs to the option. -/
def takesValue : Switch → Bool
  | maxDepth | data => true
  | _ => false

/-- The option as it is written. -/
def display (s : Switch) : String := "--" ++ s.long

end Switch

/-- The options before a command. -/
def commonSwitches : List Switch := [.verbose, .help, .version]

/-- The options of a check. -/
def checkSwitches : List Switch := [.tokens, .pretty, .maxDepth, .verbose, .help]

/-- The options of a run. -/
def runSwitches : List Switch := [.data, .pretty, .maxDepth, .verbose, .help]

/-- What was given so far. -/
structure Given where
  /-- The options without a value. -/
  flags : List Switch := []
  maxDepth : Option Nat := none
  data : Option String := none
  query : Option String := none
  deriving Repr

/-- Why reading stops before the end of the arguments. -/
inductive Stop where
  | usage (error : UsageError)
  /-- A flag or a command asks for help. -/
  | help
  /-- A flag asks for the version. -/
  | version
  deriving DecidableEq, Repr

/-- A number in decimal digits that fits a word of 64 bits; a plus sign may stand in front. -/
def readWord? (cs : List Char) : Option Nat :=
  let digits := match cs with
    | '+' :: ds => ds
    | ds => ds
  if digits.isEmpty then none
  else
    match digits.mapM Number.digit? with
    | none => none
    | some ds =>
      let n := ds.foldl (fun n d => 10 * n + d) 0
      if n < UInt64.size then some n else none

namespace Given

/-- Takes up an option without a value. -/
def raise (g : Given) (s : Switch) : Except Stop Given :=
  match s with
  | .help => .error .help
  | .version => .error .version
  | s => if g.flags.contains s then .error (.usage (.repeated s.display)) else .ok { g with flags := s :: g.flags }

/-- Takes up an option with its value. -/
def assign (g : Given) (s : Switch) (value : String) : Except Stop Given :=
  match s with
  | .maxDepth =>
    if g.maxDepth.isSome then .error (.usage (.repeated s.display))
    else
      match readWord? value.toList with
      | none => .error (.usage (.invalidValue s.display))
      | some n => .ok { g with maxDepth := some n }
  | _ =>
    if g.data.isSome then .error (.usage (.repeated s.display))
    else if value.isEmpty then .error (.usage (.invalidValue s.display))
    else .ok { g with data := some value }

/-- Takes up an argument that is no option. -/
def place (g : Given) (argument : String) : Except Stop Given :=
  if g.query.isSome then .error (.usage (.unexpected argument)) else .ok { g with query := some argument }

/-- Takes up arguments that are no options. -/
def placeAll (g : Given) : List String → Except Stop Given
  | [] => .ok g
  | argument :: arguments =>
    match g.place argument with
    | .error stop => .error stop
    | .ok g => g.placeAll arguments

end Given

/-- Whether an argument is written as an option: it starts with a dash and goes on. -/
def isOption (argument : String) : Bool :=
  match argument.toList with
  | '-' :: _ :: _ => true
  | _ => false

/-- An option that still lacks its value, if there is one, and what was given before it. -/
abbrev Pending : Type := Given × Option Switch

/-- Takes up a long option, `word` without its dashes. -/
def readLong (switches : List Switch) (g : Given) (argument : String) (word : List Char) : Except Stop Pending :=
  let name := String.ofList (word.takeWhile (· != '='))
  match switches.find? (·.long = name) with
  | none => .error (.usage (.unexpected argument))
  | some s =>
    match word.dropWhile (· != '='), s.takesValue with
    | [], false => (g.raise s).map (·, none)
    | [], true => .ok (g, some s)
    | _ :: value, true => (g.assign s (String.ofList value)).map (·, none)
    | _ :: _, false => .error (.usage (.unexpected argument))

/-- Takes up short options that are written together. -/
def readShorts (switches : List Switch) (g : Given) (argument : String) : List Char → Except Stop Pending
  | [] => .ok (g, none)
  | letter :: letters =>
    match switches.find? (·.short? = some letter) with
    | none => .error (.usage (.unexpected argument))
    | some s =>
      if s.takesValue then
        match letters with
        | [] => .ok (g, some s)
        | '=' :: value => (g.assign s (String.ofList value)).map (·, none)
        | value => (g.assign s (String.ofList value)).map (·, none)
      else
        match g.raise s with
        | .error stop => .error stop
        | .ok g => readShorts switches g argument letters

/-- Takes up an argument that is written as an option. -/
def readOption (switches : List Switch) (g : Given) (argument : String) : Except Stop Pending :=
  match argument.toList with
  | '-' :: '-' :: word => readLong switches g argument word
  | _ :: letters => readShorts switches g argument letters
  | [] => .error (.usage (.unexpected argument))

/-- Takes up the arguments behind a command. -/
def readArguments (switches : List Switch) (g : Given) : List String → Except Stop Given
  | [] => .ok g
  | argument :: arguments =>
    if argument = "--" then g.placeAll arguments
    else if isOption argument then
      match readOption switches g argument with
      | .error stop => .error stop
      | .ok (g, none) => readArguments switches g arguments
      | .ok (g, some s) =>
        match arguments with
        | [] => .error (.usage (.missingValue s.display))
        | value :: arguments =>
          if isOption value then .error (.usage (.missingValue s.display))
          else
            match g.assign s value with
            | .error stop => .error stop
            | .ok g => readArguments switches g arguments
    else
      match g.place argument with
      | .error stop => .error stop
      | .ok g => readArguments switches g arguments

/-- The words that name a command. -/
def commandNames : List String := ["check", "run", "help"]

/-- Takes up the arguments behind a command for help: at most one, which names the command that help is wanted for. -/
def readHelp : List String → Except Stop Request
  | [] => .error .help
  | name :: arguments =>
    if commandNames.contains name then
      match arguments with
      | [] => .error .help
      | argument :: _ => .error (.usage (.unknownCommand argument))
    else .error (.usage (.unknownCommand name))

/-- The request that a command makes with what was given. -/
def requestOf (command : String) (arguments : List String) : Except Stop Request :=
  if command = "check" then
    match readArguments checkSwitches {} arguments with
    | .error stop => .error stop
    | .ok g =>
      .ok (.check ⟨g.query, g.maxDepth, g.flags.contains .tokens, g.flags.contains .pretty⟩)
  else if command = "run" then
    match readArguments runSwitches {} arguments with
    | .error stop => .error stop
    | .ok g =>
      match g.data with
      | none => .error (.usage (.required Switch.data.display))
      | some data => .ok (.run ⟨g.query, data, g.maxDepth, g.flags.contains .pretty⟩)
  else if command = "help" then readHelp arguments
  else .error (.usage (.unknownCommand command))

/-- Takes up the options before the command, then the command. -/
def readCommand (g : Given) : List String → Except Stop Request
  | [] => .error (.usage .noCommand)
  | argument :: arguments =>
    if isOption argument then
      match readOption commonSwitches g argument with
      | .error stop => .error stop
      | .ok (g, _) => readCommand g arguments
    else requestOf argument arguments

/-- Reads a command line. -/
def parse (arguments : List String) : Except UsageError Request :=
  match readCommand {} arguments with
  | .ok request => .ok request
  | .error .help => .ok .help
  | .error .version => .ok .version
  | .error (.usage error) => .error error

end Arguments

end RecordQuery
