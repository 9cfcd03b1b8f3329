import Geocast.Log.Severity

/-!
# Where the log goes

Log settings name a target, the least severity that is logged, and the place of the log file. A
record becomes one line.
-/
namespace Geocast

inductive LogTarget where
  | off
  | file
  | console
  | both
  deriving DecidableEq, Repr

namespace LogTarget

def name : LogTarget → String
  | off => "Off"
  | file => "File"
  | console => "Console"
  | both => "Both"

def toFile : LogTarget → Bool
  | file | both => true
  | _ => false

def toConsole : LogTarget → Bool
  | console | both => true
  | _ => false

/-- The target with the given name in settings, in any case; any other text means both. -/
def ofText (text : String) : LogTarget :=
  let key := text.map Char.toLower
  if key == "off" then off
  else if key == "file" then file
  else if key == "console" then console
  else both

end LogTarget

structure LogSettings where
  target : LogTarget
  threshold : Severity
  directory : String
  file : String
  deriving DecidableEq, Repr

namespace LogSettings

def standard : LogSettings := ⟨.console, .info, "/var/log/geobroker", "geobroker.log"⟩

/-- A directory without trailing slashes and backslashes. -/
def trimSlashes (directory : String) : String :=
  String.ofList (directory.toList.reverse.dropWhile fun c => c == '/' || c == '\\').reverse

/-- The path of the log file: none for an empty file name; the file name alone when no directory is
named. -/
def path (s : LogSettings) : String :=
  if s.file.isEmpty then ""
  else if s.directory.isEmpty then s.file
  else trimSlashes s.directory ++ "/" ++ s.file

structure Stamped where
  time : String
  record : LogRecord

/-- A line of the log: the time, the short name of the severity, the text. -/
def line (r : Stamped) : String :=
  r.time ++ " " ++ r.record.severity.shortName ++ " " ++ r.record.text ++ "\n"

/-- The records that are severe enough to be logged, one line after the other. -/
def logged (s : LogSettings) (records : List Stamped) : String :=
  String.join ((records.filter fun r => r.record.severity.reaches s.threshold).map line)

/-- The content of the log file after the records. The file is made by the first line, so there is
none as long as nothing goes to it. -/
def fileContent? (s : LogSettings) (records : List Stamped) : Option String :=
  if s.target.toFile && !s.path.isEmpty && !(s.logged records).isEmpty then some (s.logged records)
  else none

end LogSettings

end Geocast
