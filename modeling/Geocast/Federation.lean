import Geocast.Geofence.WellKnownText
import Geocast.Geofence.Relations
import Geocast.Packet.Basic

/-!
# Federations of brokers

Every broker of a federation is responsible for an area. A federation is seen from one of its
brokers: its own area is `home`, the others are its peers, in the order of the area list.

`Federation.ofEntries` builds that view from an area list. It refuses a list in which an id appears
twice or a boundary is no geofence, at the first entry that is at fault, and else a list without the
broker itself.
-/
namespace Geocast

/-- An entry of the area list; the boundary is well-known text. -/
structure AreaEntry where
  id : String
  address : String
  port : Nat
  boundary : String
  deriving DecidableEq, Repr

inductive AreaError where
  | missingLocalBroker (id : String)
  | duplicateBroker (id : String)
  | invalidBoundary (id : String) (error : GeofenceError)

def AreaError.message : AreaError → String
  | .missingLocalBroker id => "broker `" ++ id ++ "` has no entry in the broker area list"
  | .duplicateBroker id => "broker `" ++ id ++ "` appears more than once in the broker area list"
  | .invalidBoundary id error => "invalid boundary of broker `" ++ id ++ "`, " ++ error.message

structure Area where
  info : BrokerInfo
  fence : Geofence

def AreaEntry.area (e : AreaEntry) : Except AreaError Area :=
  match Geofence.ofWellKnownText e.boundary with
  | .ok fence => .ok ⟨⟨e.id, e.address, e.port⟩, fence⟩
  | .error error => .error (.invalidBoundary e.id error)

/-- A federation as seen from one of its brokers. -/
structure Federation where
  home : Area
  peers : List Area

namespace Federation

/-- A broker alone, responsible for the whole globe. -/
def world (info : BrokerInfo) : Federation := ⟨⟨info, Geofence.world⟩, []⟩

/-- Goes through the area list, with the home area found so far and the peers so far, latest
first. -/
def collect (id : String) : List AreaEntry → Option Area → List Area → Except AreaError Federation
  | [], some home, peers => .ok ⟨home, peers.reverse⟩
  | [], none, _ => .error (.missingLocalBroker id)
  | e :: rest, home, peers =>
    if (e.id == id && home.isSome) || peers.any (·.info.id == e.id) then
      .error (.duplicateBroker e.id)
    else
      match e.area with
      | .error error => .error error
      | .ok area =>
        if e.id == id then collect id rest (some area) peers
        else collect id rest home (area :: peers)

def ofEntries (id : String) (entries : List AreaEntry) : Except AreaError Federation :=
  collect id entries none []

def isHome (f : Federation) (p : Location) : Bool := f.home.fence.contains p

/-- The first peer whose area contains a location. -/
def peerAt? (f : Federation) (p : Location) : Option BrokerInfo :=
  (f.peers.find? (·.fence.contains p)).map (·.info)

def homeMeets (f : Federation) (g : Geofence) : Bool := f.home.fence.intersects g

def peersMeeting (f : Federation) (g : Geofence) : List BrokerInfo :=
  (f.peers.filter (·.fence.intersects g)).map (·.info)

def peer? (f : Federation) (id : String) : Option BrokerInfo :=
  (f.peers.find? (·.info.id == id)).map (·.info)

end Federation

end Geocast
