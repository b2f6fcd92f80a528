import DspPatch.CommandLine

/-!
The command `dspc`: reads the files named on the command line and writes what they compile to.
-/
open DspPatch

/-- The text of a file, or why it cannot be read. -/
def readFile (path : String) : IO (Except ReadError String) := do
  try
    return .ok (← IO.FS.readFile path)
  catch e =>
    return .error (match e with
      | .noFileOrDirectory .. => .missing
      | .inappropriateType _ 21 _ => .isFolder
      | .inappropriateType .. => .notFolder
      | .invalidArgument .. => .nameTooLong
      | e => .other (toString e))

def main (args : List String) : IO UInt32 := do
  let command := CommandLine.parse args
  let paths := match command with
    | .compile o => [o.graph, o.nodes] ++ o.settings.toList
    | _ => []
  let texts ← paths.mapM (fun path => do return (path, ← readFile path))
  let report := command.run (fun path => (texts.lookup path).getD (.error .missing))
  for line in report.stderr do
    IO.eprintln line
  IO.print report.stdout
  return report.exit.toUInt32
