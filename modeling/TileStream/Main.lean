import TileStream.Program

/-!
# The command line

Runs the program with the variables of the process and a client that can always be made. The
arguments name the files of the tile cache that it may read; they count as just written. The log goes
to standard output, a failure to standard error.
-/

namespace TileStream.CommandLine

/-- The variables of the process that the program reads. -/
def processVariables : IO Variables := do
  let entries ← Program.variableNames.mapM fun name => do
    return (← IO.getEnv name).map fun text => (name, text)
  return ⟨entries.reduceOption⟩

/-- The named files as a file tree. -/
def files (names : List String) (now : CalendarTime) : IO FileTree :=
  names.foldlM (fun (tree : FileTree) (name : String) => do
    return tree.put (.ofText name) (← IO.FS.readBinFile name).toList now) .standard

/-- The word for a level. -/
def levelWord : LogLevel → String
  | .error => "ERROR"
  | .warn => "WARN"
  | .info => "INFO"
  | .debug => "DEBUG"
  | .trace => "TRACE"

/-- A line of the log as it is printed. -/
def printed (l : LogLine) : String :=
  levelWord l.level ++ " " ++ l.target ++ ": " ++ l.message ++
    String.join (l.fields.map fun (name, value) => " " ++ name ++ "=" ++ value)

/-- The program, up to the code it exits with. -/
def run (names : List String) : IO UInt32 := do
  let now : CalendarTime := ⟨1⟩
  match Program.run (fun _ => .ok ()) (← processVariables) (← files names now) now with
  | .error _ =>
    IO.eprintln "a limit is out of range"
    return 101
  | .ok report =>
    for l in report.log do
      IO.println (printed l)
    if !report.errorText.isEmpty then IO.eprintln report.errorText
    return report.code.toUInt32

end TileStream.CommandLine

/-- The program. -/
def main (arguments : List String) : IO UInt32 := TileStream.CommandLine.run arguments
