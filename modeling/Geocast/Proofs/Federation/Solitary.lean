import Geocast.Proofs.Federation.Home
import Geocast.Proofs.Protocol.Sent

/-!
# A federation of one broker

A broker of a federation asks three more questions than a broker that works alone: whether a client
is in the home area, whether a publication meets it, and which peers a publication meets. Where the
first two are always answered with yes and there are no peers, it makes no difference under which
strategy the broker works.

* `Packet.Within`: the first two questions are answered with yes for a packet.
* `process_of_within`: such a packet has the same answer and leads to the same state.
* `history`: what a broker sends for each packet, and its state after it.
* `history_standalone`: a run of such packets is the same under both strategies.
-/
namespace Geocast

/-- The home area contains the place of a client that connects or says where it is, and meets the
geofence of a client's publication. -/
def Packet.Within (f : Federation) (p : Packet) : Prop :=
  match p.payload with
  | .connect location | .pingreq location => f.isHome location = true
  | .publish publication => f.homeMeets publication.geofence = true
  | _ => True

/-- What a broker sends for each packet of a sequence, and its state after it. -/
def history (strategy : Strategy) : Broker → List Packet → List (List Outbound × Broker)
  | _, [] => []
  | b, p :: ps =>
    let outcome := process strategy b p
    (outcome.out, outcome.broker) :: history strategy outcome.broker ps

namespace Protocol

variable {b : Broker} {publication : Publication} {publisher : Location} {p : Packet}

/-! ## One packet -/

theorem copies_geoDistributed (h : b.federation.homeMeets publication.geofence = true) :
    copies .geoDistributed b publication publisher =
      copies .standalone b publication publisher := if_pos h

theorem forwards_geoDistributed (h : b.federation.peers = []) :
    forwards .geoDistributed b publication publisher =
      forwards .standalone b publication publisher := by
  change forwardToPeers b publication publisher = []
  rw [forwardToPeers, Federation.peersMeeting, h]
  rfl

theorem out_publish_congr {strategy strategy' : Strategy} {id : ClientId}
    (hcopies : ∀ publisher,
      copies strategy b publication publisher = copies strategy' b publication publisher)
    (hforwards : ∀ publisher,
      forwards strategy b publication publisher = forwards strategy' b publication publisher) :
    (process strategy b ⟨id, .publish publication⟩).out =
      (process strategy' b ⟨id, .publish publication⟩).out := by
  cases hlocation : b.sessions.location? id with
  | none =>
    rw [out_publish_absent strategy publication hlocation,
      out_publish_absent strategy' publication hlocation]
  | some publisher =>
    cases hname : publication.topic.isName with
    | false =>
      rw [out_publish_filter strategy hlocation hname,
        out_publish_filter strategy' hlocation hname]
    | true =>
      rw [out_publish_name strategy hlocation hname, out_publish_name strategy' hlocation hname,
        hcopies, hforwards]

/-- Without peers a packet from within is treated in the same way under both strategies. -/
theorem process_of_within (hpeers : b.federation.peers = []) (hp : p.Within b.federation) :
    (process .standalone b p).out = (process .geoDistributed b p).out ∧
      (process .standalone b p).broker = (process .geoDistributed b p).broker := by
  obtain ⟨id, payload⟩ := p
  cases payload with
  | connect location =>
    have halone : serves .standalone b.federation location = true := rfl
    have hhome : serves .geoDistributed b.federation location = true := hp
    rw [process_connect, process_connect, if_pos halone, if_pos hhome]
    exact ⟨rfl, rfl⟩
  | pingreq location =>
    have halone : serves .standalone b.federation location = true := rfl
    have hhome : serves .geoDistributed b.federation location = true := hp
    rw [process_pingreq, process_pingreq, if_pos halone, if_pos hhome]
    exact ⟨rfl, rfl⟩
  | publish publication =>
    refine ⟨out_publish_congr (fun publisher => ?_) fun publisher => ?_, ?_⟩
    · exact (copies_geoDistributed hp).symm
    · exact (forwards_geoDistributed hpeers).symm
    · rw [broker_publish, broker_publish]
  | disconnect | subscribe | unsubscribe | forward => exact ⟨rfl, rfl⟩
  | connack | pingresp | suback | unsuback | puback => exact ⟨rfl, rfl⟩

/-! ## Runs -/

theorem history_of_within (hpeers : b.federation.peers = []) {ps : List Packet}
    (hps : ∀ p ∈ ps, p.Within b.federation) :
    history .standalone b ps = history .geoDistributed b ps := by
  induction ps generalizing b with
  | nil => rfl
  | cons p ps ih =>
    obtain ⟨hout, hbroker⟩ := process_of_within hpeers (hps p List.mem_cons_self)
    -- The next state has the same federation, so the rest of the packets is from within there, too.
    have hfederation := federation_change (change_process .geoDistributed b p)
    have hrest : history .standalone (process .geoDistributed b p).broker ps =
        history .geoDistributed (process .geoDistributed b p).broker ps := by
      refine ih ?_ fun q hq => ?_
      · rw [hfederation, hpeers]
      · rw [hfederation]
        exact hps q (List.mem_cons_of_mem p hq)
    rw [history, history, hout, hbroker, hrest]

/-- A broker without peers, to which nobody has connected: if the home area contains every place
from which a client connects or at which it says it is, and meets the geofence of every publication,
then both strategies send the same for each packet and are in the same state after it. -/
theorem history_standalone (granularity : Nat) (federation : Federation)
    (hpeers : federation.peers = []) (ps : List Packet) (hps : ∀ p ∈ ps, p.Within federation) :
    history .standalone (.start granularity federation) ps =
      history .geoDistributed (.start granularity federation) ps :=
  history_of_within (b := .start granularity federation) hpeers hps

/-- A visitor that publishes near the origin, where the home area is. -/
theorem history_visitor :
    let f : Federation := ⟨⟨⟨"b", "h", 1⟩, .nearOrigin⟩, []⟩
    let ps := Packet.visit "x" ⟨0.1, 0.1⟩ ++
      [⟨"x", .publish ⟨⟨[.normal "a"]⟩, .nearOrigin, "news"⟩⟩]
    (∀ p ∈ ps, p.Within f) ∧
      history .standalone (.start 1 f) ps = history .geoDistributed (.start 1 f) ps := by
  intro f ps
  have hhome : f.isHome ⟨0.1, 0.1⟩ = true := by decide +kernel
  have hmeets : f.homeMeets .nearOrigin = true := by decide +kernel
  have hps : ∀ p ∈ ps, p.Within f := by
    simp only [ps, Packet.visit, List.cons_append, List.nil_append, List.forall_mem_cons]
    exact ⟨hhome, trivial, hmeets, List.forall_mem_nil _⟩
  exact ⟨hps, history_standalone 1 f rfl ps hps⟩

end Protocol

end Geocast
