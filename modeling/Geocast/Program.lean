import Geocast.Packet.Wire
import Geocast.Protocol
import Geocast.Settings.InUse
import Geocast.Text.Blank
import Geocast.Text.Quoted

/-!
# The program

The program reads one packet per line and writes every packet that it sends as one line. Lines that
are no packets are left out. It ends with its input; its exit code says whether it could begin.
-/
namespace Geocast.Program

def usage : String :=
  "geobroker [-f, --config FILE] [--id ID] [--granularity CELLS] [--strategy STRATEGY]"

inductive Failure where
  | options (error : OptionsError)
  | settings (error : SettingsError)
  | areas (error : AreaError)
  | queues

def Failure.message : Failure → String
  | .options .helpWanted => usage
  | .options .versionWanted => "geobroker 0.1.0"
  | .options .unknownArgument => "unknown argument"
  | .options .missingValue => "an option has no value"
  | .options .invalidValue => "an option has an invalid value"
  | .options .repeatedOption => "an option is repeated"
  | .settings error => "settings init failed, " ++ error.message?.getD "malformed settings"
  | .areas error => error.message
  | .queues => "the queues of the workers would be too long"

def Failure.code : Failure → Nat
  | .options .helpWanted => 0
  | .options .versionWanted => 0
  | .options _ => 1
  | .settings _ => 101
  | .areas _ => 1
  | .queues => 101

/-- A program that has begun. -/
structure State where
  settings : Settings
  broker : Broker

/-- The largest number of packets that a queue can be made for. -/
def longestQueue : Nat := 0x1FFFFFFFFFFFFFFF

/-- Begins with a command line, settings files and environment variables. -/
def start (arguments : List String) (files : String → Option Settings.File)
    (env : List (String × String)) : Except Failure State := do
  let options ← (Options.parse arguments).mapError Failure.options
  let settings ← (Settings.Place.empty.init ⟨files, env, options⟩).2.mapError Failure.settings
  let federation ← settings.federation.mapError Failure.areas
  if longestQueue < settings.broker.queueMax then throw .queues
  pure ⟨settings, Broker.start settings.broker.granularity federation⟩

def opening (s : State) : List LogRecord :=
  s.settings.report ++ [⟨.info, s.broker.summary⟩]

def ending : List LogRecord := [⟨.info, "geobroker exit"⟩]

/-- Answers one line: the state after it, the packets to send, and what is to be logged. -/
def answer (s : State) (line : String) : State × List Outbound × List LogRecord :=
  match Wire.decodeLine Wire.decodePacket line with
  | .ok p =>
    let outcome := process s.settings.broker.strategy s.broker p
    ({ s with broker := outcome.broker }, outcome.out, outcome.log)
  | .error _ =>
    if line.toList.all Text.isBlank then (s, [], [])
    else (s, [], [⟨.warning, "malformed packet dropped, " ++ Text.shown line⟩])

def answerAll (s : State) : List String → List Outbound
  | [] => []
  | line :: rest =>
    let (s, out, _) := answer s line
    out ++ answerAll s rest

/-- The exit code of a run, and the packets that it sends. -/
def run (arguments : List String) (files : String → Option Settings.File)
    (env : List (String × String)) (lines : List String) : Nat × List Outbound :=
  match start arguments files env with
  | .error failure => (failure.code, [])
  | .ok s => (0, answerAll s lines)

end Geocast.Program
