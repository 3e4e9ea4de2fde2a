import RecordQuery.Command.Program

/-!
# The command line
-/

namespace RecordQuery

/-- The data file that a command line names and the query that it gives, where it runs a query. -/
def runRequest? (arguments : List String) : Option RunRequest :=
  match Arguments.parse arguments with
  | .ok (.run request) => some request
  | _ => none

/-- Whether the query comes from the input. -/
def readsInput (arguments : List String) : Bool :=
  match Arguments.parse arguments with
  | .ok (.run request) => request.query.isNone
  | .ok (.check request) => request.query.isNone
  | _ => false

/-- The contents of a file. -/
def readContents (path : String) : IO FileContents := do
  try
    let bytes ← IO.FS.readBinFile path
    return .ok bytes.toList
  catch
    | .noFileOrDirectory .. => return .error noSuchFile
    | .inappropriateType _ 21 _ => return .error isDirectory
    | e => return .error (toString e)

end RecordQuery

open RecordQuery in
/-- Runs the program. -/
def main (arguments : List String) : IO UInt32 := do
  let input ← if readsInput arguments then (← IO.getStdin).readBinToEnd else pure .empty
  let contents ← match runRequest? arguments with
    | some request => readContents request.data
    | none => pure (.error noSuchFile)
  let result := program arguments input.toList fun _ => contents
  (← IO.getStdout).putStr result.output
  (← IO.getStderr).putStr result.errors
  return result.exitCode.toUInt32
