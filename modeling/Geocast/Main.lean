import Std.Time.DateTime.Timestamp
import Geocast.Calendar
import Geocast.Program
import Geocast.Settings.Toml

/-!
# The executable

Reads settings files, environment and standard input, and writes packets to standard output and the
log to the console and the log file. What is read and written is decided by `Geocast.Program`.
-/
namespace Geocast.Main

def content? (name : String) : IO (Option String) :=
  try
    let text ← IO.FS.readFile name
    pure (some text)
  catch _ => pure none

def environment : IO (List (String × String)) := do
  let text := (← content? "/proc/self/environ").getD ""
  pure ((text.splitOn (Char.ofNat 0).toString).filterMap fun entry =>
    match entry.splitOn "=" with
    | name :: value :: rest => some (name, "=".intercalate (value :: rest))
    | _ => none)

/-- The settings files that a command line can need, by place. -/
def settingsFiles (arguments : List String) : IO (List (String × Settings.File)) := do
  let named :=
    match Options.parse arguments with
    | .ok o => o.config.toList
    | .error _ => []
  let names := (Settings.fileNames ++ named).flatMap FileName.places
  let found ← names.mapM fun name => do
    pure ((← content? name).map fun text => (name, Toml.read text))
  pure (found.filterMap id)

def writeLog (s : LogSettings) (records : List LogRecord) : IO Unit := do
  let now ← Std.Time.Timestamp.now
  let time := Calendar.display now.toMillisecondsSinceUnixEpoch.val
  let text := s.logged (records.map fun r => ⟨time, r⟩)
  if !text.isEmpty then
    if s.target.toConsole then IO.eprint text
    if s.target.toFile && !s.path.isEmpty then
      (← IO.FS.Handle.mk s.path .append).putStr text

/-- Answers the lines of the input. -/
partial def serve (input output : IO.FS.Stream) (s : Program.State) : IO Unit := do
  let line ← input.getLine
  if !line.isEmpty then
    let (s, out, log) := Program.answer s ((line.splitOn "\n").headD "")
    writeLog s.settings.log log
    for o in out do
      output.putStrLn (Wire.encodeLine (Wire.encodeOutbound o))
    output.flush
    serve input output s

/-- Runs the program; gives its exit code. -/
def run (arguments : List String) : IO UInt32 := do
  let files ← settingsFiles arguments
  match Program.start arguments (fun name => files.lookup name) (← environment) with
  | .error failure =>
    IO.eprintln failure.message
    pure failure.code.toUInt32
  | .ok s =>
    writeLog s.settings.log (Program.opening s)
    serve (← IO.getStdin) (← IO.getStdout) s
    writeLog s.settings.log Program.ending
    pure 0

end Geocast.Main

def main (arguments : List String) : IO UInt32 := Geocast.Main.run arguments
