import Geocast.Federation
import Geocast.Log.Settings
import Geocast.Options
import Geocast.Settings.Environment
import Geocast.Settings.FileName
import Geocast.Settings.Path

/-!
# Settings of a broker

`Settings.load` puts settings together: those of the system's file and of the base file, then the
environment, then the file named by an option, each over the ones before; then the options
themselves. What is not set has a default. A broker needs at least one cell per degree and at least
one worker.
-/
namespace Geocast

structure BrokerSettings where
  id : String
  granularity : Nat
  strategy : Strategy
  workers : Nat
  queueMax : Nat
  deriving DecidableEq, Repr

def BrokerSettings.standard : BrokerSettings := ⟨"broker", 1, .standalone, 4, 100000⟩

structure Settings where
  broker : BrokerSettings
  log : LogSettings
  areas : List AreaEntry
  deriving DecidableEq, Repr

inductive SettingsError where
  | malformed
  | noCells
  | noWorkers
  | inUse
  deriving DecidableEq, Repr

def SettingsError.message? : SettingsError → Option String
  | malformed => none
  | noCells => some "broker.granularity must be at least 1"
  | noWorkers => some "broker.workers must be at least 1"
  | inUse => some "Settings init failed"

namespace Settings

/-! ## Reading -/

/-- A strategy: its key, or a table with that key alone, whose value means nothing. -/
def strategy? : Setting → Option Strategy
  | .text key => Strategy.ofKey? key
  | .table [(key, _)] => Strategy.ofKey? key
  | _ => none

def broker? (v : Setting) : Option BrokerSettings := do
  let standard := BrokerSettings.standard
  let fields ← v.fields? ["id", "granularity", "strategy", "workers", "queue_max"]
  pure {
    id := ← Setting.optional? fields "id" Setting.text? standard.id
    granularity := ← Setting.optional? fields "granularity" (Setting.natural? 0x100000000)
      standard.granularity
    strategy := ← Setting.optional? fields "strategy" strategy? standard.strategy
    workers := ← Setting.optional? fields "workers" (Setting.natural? Setting.bound)
      standard.workers
    queueMax := ← Setting.optional? fields "queue_max" (Setting.natural? Setting.bound)
      standard.queueMax }

def log? (v : Setting) : Option LogSettings := do
  let standard := LogSettings.standard
  let fields ← v.fields? ["to", "level", "dir", "file"]
  pure {
    target := ← Setting.optional? fields "to" (fun v => v.text?.map LogTarget.ofText)
      standard.target
    threshold := ← Setting.optional? fields "level" (fun v => v.text?.bind Severity.named?)
      standard.threshold
    directory := ← Setting.optional? fields "dir" Setting.text? standard.directory
    file := ← Setting.optional? fields "file" Setting.text? standard.file }

def area? (v : Setting) : Option AreaEntry := do
  let fields ← v.fields? ["id", "address", "port", "boundary"]
  pure {
    id := ← Setting.required? fields "id" Setting.text?
    address := ← Setting.required? fields "address" Setting.text?
    port := ← Setting.required? fields "port" (Setting.natural? 65536)
    boundary := ← Setting.required? fields "boundary" Setting.text? }

/-- The settings of a table; unknown keys mean nothing. -/
def ofTable? (t : Setting.Table) : Option Settings := do
  pure {
    broker := ← Setting.optional? t "broker" broker? BrokerSettings.standard
    log := ← Setting.optional? t "log" log? LogSettings.standard
    areas := ← Setting.optional? t "areas" (fun v => v.list?.bind (·.mapM area?)) [] }

/-! ## Putting together -/

def override (s : Settings) (o : Options) : Settings :=
  { s with
    broker := { s.broker with
      id := o.id.getD s.broker.id
      granularity := o.granularity.getD s.broker.granularity
      strategy := o.strategy.getD s.broker.strategy } }

/-- Settings that a broker can work with. -/
def check (s : Settings) : Except SettingsError Settings :=
  if s.broker.granularity = 0 then .error .noCells
  else if s.broker.workers = 0 then .error .noWorkers
  else .ok s

/-- What a settings file says: none when it could not be read as settings. -/
abbrev File := Option Setting.Table

/-- The names of the files that are always looked for, without their ending. -/
def fileNames : List String := ["/etc/geobroker/geobroker", "geobroker"]

/-- What the file of a name says, by the files at their places; nothing if there is no such file. -/
def layer (files : String → Option File) (name : String) : Except SettingsError Setting.Table :=
  match FileName.find? files name with
  | none => .ok []
  | some none => .error .malformed
  | some (some t) => .ok t

/-- The settings of the files that are always looked for, the environment, the file named by an
option, and the options. -/
def load (files : String → Option File) (env : List (String × String)) (o : Options) :
    Except SettingsError Settings := do
  let standing ← fileNames.mapM (layer files)
  let named ← o.config.toList.mapM (layer files)
  match ofTable? (Setting.ofLayers (standing ++ Environment.settings env :: named)) with
  | none => throw .malformed
  | some s => check (s.override o)

/-! ## Use -/

/-- The federation of the settings. A broker that works alone and has no area list serves the whole
globe. -/
def federation (s : Settings) : Except AreaError Federation :=
  if s.broker.strategy = .standalone ∧ s.areas = [] then
    .ok (Federation.world ⟨s.broker.id, "localhost", 0⟩)
  else Federation.ofEntries s.broker.id s.areas

def summary : String := "Settings ..."

/-- An entry of the area list in the log. -/
def areaLine (a : AreaEntry) : String :=
  "broker area " ++ a.id ++ "@" ++ a.address ++ ":" ++ Decimal.digitsText a.port ++ " => " ++
    a.boundary

def report (s : Settings) : List LogRecord :=
  (["broker id is " ++ s.broker.id, "strategy is " ++ s.broker.strategy.name,
      "raster granularity is " ++ Decimal.digitsText s.broker.granularity,
      "workers is " ++ Decimal.digitsText s.broker.workers ++ ", queue_max is " ++
        Decimal.digitsText s.broker.queueMax] ++
    s.areas.map areaLine).map fun text => ⟨.info, text⟩

end Settings

end Geocast
