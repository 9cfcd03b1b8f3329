/-!
# Matching strategies

A broker works alone for the whole globe, or as one of several brokers that each serve an area.
-/
namespace Geocast

inductive Strategy where
  | standalone
  | geoDistributed
  deriving DecidableEq, Repr

namespace Strategy

def name : Strategy → String
  | standalone => "Standalone"
  | geoDistributed => "GeoDistributed"

/-- The name in settings. -/
def key : Strategy → String
  | standalone => "standalone"
  | geoDistributed => "geo_distributed"

/-- The strategy with a given name in settings, written exactly. -/
def ofKey? (text : String) : Option Strategy :=
  [standalone, geoDistributed].find? fun s => s.key == text

/-- The strategy that a user names, in any case, with hyphens for underscores, and `distributed` for
short; or what is wrong with the name. -/
def parse (text : String) : Except String Strategy :=
  let key := text.map fun c => if c == '-' then '_' else c.toLower
  if key == "standalone" then .ok standalone
  else if key == "geo_distributed" || key == "distributed" then .ok geoDistributed
  else .error ("unknown strategy `" ++ text ++ "`, expected standalone or geo_distributed")

end Strategy

end Geocast
