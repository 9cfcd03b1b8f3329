import Geocast.Proofs.Federation.Delivery
import Geocast.Proofs.Protocol.Independence

/-!
# A client that is sent away is sent to the right broker

A client that connects to a broker of a federation, or says where it is, from outside the home area
is told to go to the first peer whose area contains its place. That peer has read the area list for
itself. Still the two agree: the list names no broker twice, so the area that the one broker sees
among its peers is the one that the other sees at home, and the client has to go only once.

* `AreaEntry.covers`, `IsFirst`: an entry whose area contains a location, and the first such one.
* `Admits`: a broker with this view of the federation takes in whoever connects from a location.
* `peerAt?_eq`: the peer to which a broker sends is that of the first entry.
* `redirected_to_first`: so is the one that the client is told, and it takes the client in.
-/
namespace Geocast

/-- Whether an entry has an area, and it contains a location. -/
def AreaEntry.covers (e : AreaEntry) (p : Location) : Bool :=
  match e.area with
  | .ok area => area.fence.contains p
  | .error _ => false

theorem AreaEntry.covers_of_area {e : AreaEntry} {area : Area} (h : e.area = .ok area)
    (p : Location) : e.covers p = area.fence.contains p := by
  rw [covers, h]

namespace Federation

open Protocol

/-- The first entry of an area list whose area contains a location. -/
def IsFirst (entries : List AreaEntry) (p : Location) (e : AreaEntry) : Prop :=
  ∃ before after, entries = before ++ e :: after ∧ e.covers p = true ∧
    ∀ earlier ∈ before, earlier.covers p = false

/-- A broker that sees this federation takes in every client that connects from the location and is
not connected, whatever it has received before. -/
def Admits (f : Federation) (p : Location) : Prop :=
  ∀ (granularity : Nat) (ps : List Packet) (client : ClientId),
    let b := processAll .geoDistributed (.start granularity f) ps
    b.sessions.isConnected client = false →
      (process .geoDistributed b ⟨client, .connect p⟩).out = [toClient client (.connack .success)]

variable {f : Federation} {id : String} {entries : List AreaEntry} {areas : List Area}
  {p : Location}

/-! ## The first entry -/

/-- The first area that contains a location is that of the first entry that covers it. -/
theorem find?_areas (h : List.Forall₂ (fun e area => e.area = .ok area) entries areas)
    (p : Location) :
    (areas.find? (·.fence.contains p)).map (·.info) =
      (entries.find? (·.covers p)).map (·.info) := by
  induction h with
  | nil => rfl
  | cons harea _ ih =>
    rw [List.find?_cons, List.find?_cons, AreaEntry.covers_of_area harea]
    split
    · exact congrArg some (AreaEntry.info_area harea)
    · exact ih

theorem find?_peers (h : f.Sees id areas) (haway : f.isHome p = false) :
    f.peers.find? (·.fence.contains p) = areas.find? (·.fence.contains p) := by
  rw [h.peers_eq, List.find?_filter]
  refine List.find?_congr fun area harea => ?_
  by_cases hid : area.info.id = id
  · have hhome : f.home = area := eq_of_id_eq h.nodup h.home_mem harea (h.home_id.trans hid.symm)
    rw [isHome, hhome] at haway
    simp [haway]
  · simp [hid]

/-- A client outside the home area is sent to the first entry that covers its place. -/
theorem peerAt?_eq (h : ofEntries id entries = .ok f) (haway : f.isHome p = false) :
    f.peerAt? p = (entries.find? (·.covers p)).map (·.info) := by
  obtain ⟨areas, hareas, hsees⟩ := sees_of_ofEntries h
  rw [peerAt?, find?_peers hsees haway, find?_areas hareas]

theorem IsFirst.mem {e : AreaEntry} (h : IsFirst entries p e) : e ∈ entries := by
  obtain ⟨before, after, rfl, -, -⟩ := h
  exact List.mem_append_right before List.mem_cons_self

theorem isFirst_of_find? {e : AreaEntry} (h : entries.find? (·.covers p) = some e) :
    IsFirst entries p e := by
  obtain ⟨hcovers, before, after, heq, hbefore⟩ := List.find?_eq_some_iff_append.1 h
  refine ⟨before, after, heq, hcovers, fun earlier hearlier => ?_⟩
  simpa using hbefore earlier hearlier

/-- The broker of the first entry that covers a location is at home there, and it is another one if
the location is outside the home area. -/
theorem home_of_isFirst (h : ofEntries id entries = .ok f) (haway : f.isHome p = false)
    {e : AreaEntry} (he : IsFirst entries p e) :
    e.id ≠ id ∧ ∃ f', ofEntries e.id entries = .ok f' ∧ f'.home.info = e.info ∧
      f'.isHome p = true := by
  obtain ⟨areas, hareas, hsees⟩ := sees_of_ofEntries h
  obtain ⟨area, hmem, harea, hid⟩ := exists_area hareas he.mem
  obtain ⟨-, -, -, hcovers, -⟩ := he
  rw [AreaEntry.covers_of_area harea] at hcovers
  constructor
  · intro hown
    have hhome : f.home = area :=
      eq_of_id_eq hsees.nodup hsees.home_mem hmem (hsees.home_id.trans (hid.trans hown).symm)
    rw [isHome, hhome, hcovers] at haway
    cases haway
  · obtain ⟨f', hf', hhome⟩ := exists_ofEntries hareas hsees.nodup hmem
    rw [hid] at hf'
    refine ⟨f', hf', ?_, ?_⟩
    · rw [hhome, AreaEntry.info_area harea]
    · rw [isHome, hhome]
      exact hcovers

/-! ## Clients -/

/-- A client outside the home area is told where to go, whether it connects or is connected. -/
theorem out_away {b : Broker} {client : ClientId} {payload : Payload}
    (hpayload : payload = .connect p ∨ payload = .pingreq p)
    (haway : b.federation.isHome p = false) :
    (process .geoDistributed b ⟨client, payload⟩).out =
      [toClient client (.disconnect .wrongBroker (b.federation.peerAt? p))] := by
  have hserves : ¬ serves .geoDistributed b.federation p = true := Bool.eq_false_iff.1 haway
  rcases hpayload with rfl | rfl
  · rw [out_process .geoDistributed b rfl]
    exact if_neg hserves
  · rw [out_process .geoDistributed b rfl]
    exact if_neg hserves

theorem admits_of_isHome (h : f.isHome p = true) : f.Admits p := by
  intro granularity ps client b habsent
  have hserves : serves .geoDistributed b.federation p = true := by
    rw [federation_processAll]
    exact h
  rw [Sessions.isConnected_eq, Option.isSome_eq_false_iff, Option.isNone_iff_eq_none] at habsent
  rw [out_process .geoDistributed b rfl]
  dsimp only [reply]
  rw [if_pos hserves, habsent]

/-- After every sequence of packets at a broker of an accepted area list, a client connects, or says
where it is, from outside the home area. It is told to disconnect, and

* it is told of no other broker exactly if no entry of the list covers its place;
* the broker it is told of is another one, that of the first entry that covers its place; it accepts
  the list as well, it is at home there, and it takes in whoever connects from that place. -/
theorem redirected_to_first (hf : ofEntries id entries = .ok f) (granularity : Nat)
    (ps : List Packet) (client : ClientId) {payload : Payload}
    (hpayload : payload = .connect p ∨ payload = .pingreq p) (haway : f.isHome p = false) :
    let b := processAll .geoDistributed (.start granularity f) ps
    ∃ target : Option BrokerInfo,
      (process .geoDistributed b ⟨client, payload⟩).out =
        [toClient client (.disconnect .wrongBroker target)] ∧
      (target = none ↔ ∀ e ∈ entries, e.covers p = false) ∧
      ∀ info, target = some info → info.id ≠ id ∧
        (∃ e, IsFirst entries p e ∧ e.info = info) ∧
        ∃ f', ofEntries info.id entries = .ok f' ∧ f'.home.info = info ∧ f'.isHome p = true ∧
          f'.Admits p := by
  intro b
  have hfederation : b.federation = f := federation_processAll _ _ _
  refine ⟨b.federation.peerAt? p, out_away hpayload (by rw [hfederation]; exact haway), ?_, ?_⟩
  · rw [hfederation, peerAt?_eq hf haway, Option.map_eq_none_iff, List.find?_eq_none]
    simp
  · intro info hinfo
    rw [hfederation, peerAt?_eq hf haway] at hinfo
    obtain ⟨e, hfind, rfl⟩ := Option.map_eq_some_iff.1 hinfo
    have hfirst := isFirst_of_find? hfind
    obtain ⟨hother, f', hf', hhome, hcontains⟩ := home_of_isFirst hf haway hfirst
    exact ⟨hother, ⟨e, hfirst, rfl⟩, f', hf', hhome, hcontains, admits_of_isHome hcontains⟩

/-- The visitor in the south says that it is in the north, and is sent to the northern broker. -/
theorem redirected_across_border :
    (border "south").isHome ⟨0.3, 0.1⟩ = false ∧
      (process .geoDistributed (visited "south") ⟨"x", .pingreq ⟨0.3, 0.1⟩⟩).out =
        [toClient "x" (.disconnect .wrongBroker (some ⟨"north", "n", 2⟩))] ∧
      ∃ f', ofEntries "north" [south, north] = .ok f' ∧ f'.Admits ⟨0.3, 0.1⟩ := by
  have hentries : ofEntries "south" [south, north] = .ok (border "south") :=
    ofEntries_border (e := south) List.mem_cons_self
  have haway : (border "south").isHome ⟨0.3, 0.1⟩ = false := by decide +kernel
  have hcovers : north.covers ⟨0.3, 0.1⟩ = true := by decide +kernel
  have hvisited : visited "south" = processAll .geoDistributed
      (.start 1 (border "south")) (Packet.visit "x" ⟨0.1, 0.1⟩) := by
    rw [visited, if_pos rfl]
  rw [hvisited]
  obtain ⟨target, hout, hnone, htarget⟩ := redirected_to_first hentries 1
    (Packet.visit "x" ⟨0.1, 0.1⟩) "x" (.inr rfl) haway
  cases target with
  | none =>
    have huncovered := hnone.1 rfl north (by decide)
    rw [hcovers] at huncovered
    cases huncovered
  | some info =>
    obtain ⟨hother, ⟨e, hfirst, rfl⟩, f', hf', -, -, hadmits⟩ := htarget info rfl
    have he : e = south ∨ e = north := by simpa using hfirst.mem
    rcases he with rfl | rfl
    · exact absurd rfl hother
    · exact ⟨haway, hout, f', hf', hadmits⟩

end Federation

end Geocast
