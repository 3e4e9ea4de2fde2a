import RecordQuery.Command.Arguments
import RecordQuery.Command.Basic

/-!
# The program

What the program writes and how it ends, from the arguments, the input and the files.
-/

namespace RecordQuery

/-- How the program ends and what it writes. -/
structure ProgramResult where
  exitCode : Nat
  output : String
  errors : String
  deriving DecidableEq, Repr

namespace ProgramResult

/-- The program does what it was asked. -/
def success (output : String) : ProgramResult := ⟨0, output, ""⟩

/-- The program fails. -/
def failure (error : CommandError) : ProgramResult := ⟨1, "", error.message ++ "\n"⟩

/-- The program was called in a wrong way. -/
def misuse (error : UsageError) : ProgramResult := ⟨2, "", "error: " ++ error.message ++ "\n"⟩

/-- What a command comes to. -/
def ofOutcome : Except CommandError String → ProgramResult
  | .ok output => success output
  | .error e => failure e

end ProgramResult

/-- The name of the program with its version. -/
def versionLine : String := "sprig 0.2.0\n"

/-- How the program is called. -/
def usageText : String :=
  "Usage: sprig [-v] check [--tokens] [-p] [--max-depth N] [QUERY]\n" ++
  "       sprig [-v] run -d FILE [-p] [--max-depth N] [QUERY]\n"

/-- Lines, each with a line feed. -/
def joinLines (lines : List String) : String := String.join (lines.map (· ++ "\n"))

/-- The query of a request: the argument as it stands, or else the input without the blanks at its ends. -/
def queryOf (argument : Option String) (input : List UInt8) : Except CommandError String :=
  match argument with
  | some query => .ok query
  | none => (readText (.ok input)).map Text.trimmed

/-- A document as the request wants it. -/
def render (pretty : Bool) (document : Json) : String := (if pretty then document.pretty else document.compact) ++ "\n"

/-- What a check writes. -/
def CheckRequest.perform (r : CheckRequest) (input : List UInt8) : Except CommandError String := do
  let query ← queryOf r.query input
  match ← check query r.maxDepth r.tokens with
  | .tokens lines => .ok (joinLines lines)
  | .outline document => .ok (render r.pretty document)

/-- What a run writes. The input is read before the data file. -/
def RunRequest.perform (r : RunRequest) (input : List UInt8) (files : String → FileContents) :
    Except CommandError String := do
  let query ← queryOf r.query input
  let record ← run query (files r.data) r.maxDepth
  .ok (render r.pretty record.outline)

/-- The program as a function of its arguments, its input and the files. -/
def program (arguments : List String) (input : List UInt8) (files : String → FileContents) : ProgramResult :=
  match Arguments.parse arguments with
  | .error error => .misuse error
  | .ok .version => .success versionLine
  | .ok .help => .success usageText
  | .ok (.check request) => .ofOutcome (request.perform input)
  | .ok (.run request) => .ofOutcome (request.perform input files)

end RecordQuery
