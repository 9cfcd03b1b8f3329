import Geocast.Proofs.Broker.Delivery
import Geocast.Proofs.Federation.Entries
import Geocast.Proofs.Federation.Home
import Geocast.Proofs.Protocol.Sent
import Mathlib.Data.List.Nodup
import Mathlib.Logic.Function.Basic

/-!
# A publication in a federation

A client publishes at its broker, which forwards the publication once to every other broker whose
area meets its geofence. Each of these matches it against its own clients and acknowledges it. All
brokers read the same area list and have handled packets of their own before.

* `Runs`: a broker of an area list after some packets.
* `receiveAll`: brokers receive what a broker has sent to them, one packet after the other.
* `out_publish`, `out_forward_of_peer`: what a broker sends when a client publishes, and when one of
  its peers forwards a publication to it.
* `delivered_once`: whatever the order of the forwards, the copies go to the clients whom the
  publication concerns at any broker, one to each; every forward is acknowledged once to the broker
  that sent it; and nothing is forwarded again.
-/
namespace Geocast

open Protocol

/-- The packets of a kind among those sent. -/
def Outbound.ofKind (kind : String) (out : List Outbound) : List Outbound :=
  out.filter fun m => m.payload.kind == kind

namespace Federation

/-- A broker that has its federation from the area list and has handled some packets. -/
def Runs (entries : List AreaEntry) (e : AreaEntry) (b : Broker) : Prop :=
  ∃ f granularity ps, ofEntries e.id entries = .ok f ∧ (∀ p ∈ ps, p.SubscribesToText) ∧
    b = processAll .geoDistributed (Broker.start granularity f) ps

/-- The broker to which a packet is addressed receives it. Brokers are found by their ids. -/
def receive (sender : String) (net : String → Broker) (m : Outbound) :
    (String → Broker) × List Outbound :=
  match m.recipient with
  | .client _ => (net, [])
  | .broker info =>
    let outcome := process .geoDistributed (net info.id) ⟨sender, m.payload⟩
    (Function.update net info.id outcome.broker, outcome.out)

/-- Brokers receive packets one after the other; the answers are in the same order. -/
def receiveAll (sender : String) :
    (String → Broker) → List Outbound → (String → Broker) × List (List Outbound)
  | net, [] => (net, [])
  | net, m :: ms =>
    let (net, answer) := receive sender net m
    let (last, answers) := receiveAll sender net ms
    (last, answer :: answers)

/-! ## One broker -/

/-- What is known of a broker that sees the areas of a list from the area with the id. -/
structure Stands (areas : List Area) (id : String) (b : Broker) : Prop where
  consistent : b.Consistent
  topical : b.Topical
  atHome : b.AtHome
  sees : b.federation.Sees id areas

theorem stands_of_runs {entries : List AreaEntry} {areas : List Area} {e : AreaEntry} {b : Broker}
    (hareas : List.Forall₂ (fun e area => e.area = .ok area) entries areas)
    (h : Runs entries e b) : Stands areas e.id b := by
  obtain ⟨f, granularity, ps, hf, hps, rfl⟩ := h
  obtain ⟨areas', hareas', hsees⟩ := sees_of_ofEntries hf
  obtain rfl := areas_unique hareas hareas'
  refine ⟨Broker.consistent_processAll _ _ _ _, Broker.topical_processAll _ _ _ hps,
    Broker.atHome_processAll _ _ _, ?_⟩
  rw [federation_processAll]
  exact hsees

theorem home_of_stands {areas : List Area} {area : Area} {b : Broker}
    (h : Stands areas area.info.id b) (harea : area ∈ areas) : b.federation.home = area :=
  eq_of_id_eq h.sees.nodup h.sees.home_mem harea h.sees.home_id

variable {b : Broker} {client : ClientId} {publication : Publication} {publisher : Location}
  {areas : List Area} {net : String → Broker} {area : Area}

/-- What a broker sends when a client publishes. -/
theorem out_publish (hlocation : b.sessions.location? client = some publisher)
    (hname : publication.topic.isName = true) :
    ∃ reason, (process .geoDistributed b ⟨client, .publish publication⟩).out =
      (if b.federation.homeMeets publication.geofence
        then deliver b publication publisher else []) ++
        forwardToPeers b publication publisher ++ [toClient client (.puback reason)] :=
  ⟨_, out_publish_name .geoDistributed hlocation hname⟩

/-- What a broker sends when it receives a publication forwarded by one of its peers. -/
theorem out_forward_of_peer {sender : String} {info : BrokerInfo}
    (hpeer : b.federation.peer? sender = some info) :
    ∃ reason, (process .geoDistributed b ⟨sender, .forward publication publisher⟩).out =
      deliver b publication publisher ++ [⟨.broker info, .puback reason⟩] := by
  rw [out_forward, hpeer]
  exact ⟨_, rfl⟩

/-- A publication that misses the home area concerns no client there, so it makes no difference that
no client is looked at. -/
theorem deliver_of_atHome (hconsistent : b.Consistent) (hhome : b.AtHome)
    (hmeets : ∀ q, b.federation.home.fence.contains q = true →
      publication.geofence.contains q = true →
        b.federation.home.fence.intersects publication.geofence = true) :
    (if b.federation.homeMeets publication.geofence then deliver b publication publisher else []) =
      deliver b publication publisher := by
  split
  · rfl
  next hmiss =>
    have hnone : b.receivers publication publisher = [] := by
      rw [List.eq_nil_iff_forall_not_mem]
      intro c hc
      obtain ⟨session, hsession, hinside, -⟩ := Broker.concerns_of_mem_receivers hconsistent hc
      exact hmiss (hmeets _ (hhome c session hsession) hinside)
    rw [deliver, hnone]
    rfl

/-! ## Kinds -/

theorem ofKind_append (kind : String) (out out' : List Outbound) :
    Outbound.ofKind kind (out ++ out') = Outbound.ofKind kind out ++ Outbound.ofKind kind out' :=
  List.filter_append ..

theorem ofKind_of_forall {kind kind' : String} {out : List Outbound}
    (h : ∀ m ∈ out, m.payload.kind = kind') :
    Outbound.ofKind kind out = if kind' = kind then out else [] := by
  split
  next heq =>
    rw [Outbound.ofKind, List.filter_eq_self]
    intro m hm
    rw [h m hm, beq_iff_eq, heq]
  next hne =>
    rw [Outbound.ofKind, List.filter_eq_nil_iff]
    intro m hm
    rw [h m hm, beq_iff_eq]
    exact hne

theorem kind_deliver : ∀ m ∈ deliver b publication publisher, m.payload.kind = "PUBLISH" := by
  intro m hm
  obtain ⟨c, -, rfl⟩ := List.mem_map.1 hm
  rfl

theorem kind_forwardToPeers :
    ∀ m ∈ forwardToPeers b publication publisher, m.payload.kind = "BROKER_FORWARD_PUBLISH" := by
  intro m hm
  obtain ⟨info, -, rfl⟩ := List.mem_map.1 hm
  rfl

theorem ofKind_forward {sender : String} {info : BrokerInfo}
    (hpeer : b.federation.peer? sender = some info) :
    let out := (process .geoDistributed b ⟨sender, .forward publication publisher⟩).out
    Outbound.ofKind "PUBLISH" out = deliver b publication publisher ∧
      (∃ reason, Outbound.ofKind "PUBACK" out = [⟨.broker info, .puback reason⟩]) ∧
      Outbound.ofKind "BROKER_FORWARD_PUBLISH" out = [] := by
  intro out
  obtain ⟨reason, hout⟩ : ∃ reason, out =
      deliver b publication publisher ++ [⟨.broker info, .puback reason⟩] :=
    out_forward_of_peer hpeer
  have hkinds : ∀ kind, Outbound.ofKind kind out =
      (if "PUBLISH" = kind then deliver b publication publisher else []) ++
        Outbound.ofKind kind [⟨.broker info, .puback reason⟩] := by
    intro kind
    rw [hout, ofKind_append, ofKind_of_forall kind_deliver]
  refine ⟨?_, ⟨reason, ?_⟩, ?_⟩
  · rw [hkinds]
    exact List.append_nil _
  · rw [hkinds]
    rfl
  · rw [hkinds]
    rfl

/-! ## All brokers -/

/-- The packet that forwards a publication to a broker. -/
def forwardTo (publication : Publication) (publisher : Location) (info : BrokerInfo) : Outbound :=
  ⟨.broker info, .forward publication publisher⟩

theorem ofKind_publish (hstands : Stands areas area.info.id b) (harea : area ∈ areas)
    (hlocation : b.sessions.location? client = some publisher)
    (hname : publication.topic.isName = true)
    (hmeets : ∀ q, area.fence.contains q = true → publication.geofence.contains q = true →
      area.fence.intersects publication.geofence = true) :
    let out := (process .geoDistributed b ⟨client, .publish publication⟩).out
    Outbound.ofKind "PUBLISH" out = deliver b publication publisher ∧
      Outbound.ofKind "BROKER_FORWARD_PUBLISH" out =
        (b.federation.peersMeeting publication.geofence).map
          (forwardTo publication publisher) := by
  obtain ⟨reason, hout⟩ := out_publish hlocation hname
  rw [← home_of_stands hstands harea] at hmeets
  rw [deliver_of_atHome hstands.consistent hstands.atHome hmeets] at hout
  intro out
  have hkinds : ∀ kind, Outbound.ofKind kind out =
      (if "PUBLISH" = kind then deliver b publication publisher else []) ++
        (if "BROKER_FORWARD_PUBLISH" = kind then forwardToPeers b publication publisher else []) ++
          Outbound.ofKind kind [toClient client (.puback reason)] := by
    intro kind
    rw [show out = _ from hout, ofKind_append, ofKind_append, ofKind_of_forall kind_deliver,
      ofKind_of_forall kind_forwardToPeers]
  refine ⟨?_, ?_⟩
  · rw [hkinds]
    exact (List.append_nil _).trans (List.append_nil _)
  · rw [hkinds]
    exact List.append_nil _

/-- Receiving a forwarded publication changes no broker, so no answer depends on the order. -/
theorem receiveAll_forwards (sender : String) (net : String → Broker) (infos : List BrokerInfo) :
    receiveAll sender net (infos.map (forwardTo publication publisher)) =
      (net, infos.map fun info =>
        (process .geoDistributed (net info.id) ⟨sender, .forward publication publisher⟩).out) := by
  induction infos with
  | nil => rfl
  | cons info infos ih =>
    have hstay : (process .geoDistributed (net info.id)
        ⟨sender, .forward publication publisher⟩).broker = net info.id :=
      broker_receiveForward (net info.id) sender publication publisher
    rw [List.map_cons, receiveAll, receive, forwardTo]
    dsimp only
    rw [hstay, Function.update_eq_self, ih]
    rfl

/-- A reordering of forwards is the forwards to a reordering of the brokers. -/
theorem forwards_eq_map {forwards : List Outbound} {infos : List BrokerInfo}
    (h : forwards.Perm (infos.map (forwardTo publication publisher))) :
    ∃ order : List BrokerInfo, order.Perm infos ∧
      forwards = order.map (forwardTo publication publisher) := by
  have hsame : List.Forall₂ (fun m info => m = forwardTo publication publisher info)
      (infos.map (forwardTo publication publisher)) infos := by
    rw [List.forall₂_map_left_iff, List.forall₂_same]
    exact fun _ _ => rfl
  obtain ⟨order, hforwards, hperm⟩ := List.perm_comp_forall₂ h hsame
  refine ⟨order, hperm, ?_⟩
  have hmap := (List.forall₂_map_right_iff (R := fun m n => m = n)
    (f := forwardTo publication publisher)).2 hforwards
  rwa [List.forall₂_eq_eq_eq] at hmap

/-- The brokers of a list of areas, each client at one of them at most. -/
structure Network (areas : List Area) (net : String → Broker) : Prop where
  stands : ∀ area ∈ areas, Stands areas area.info.id (net area.info.id)
  once : ∀ area ∈ areas, ∀ other ∈ areas, ∀ c,
    (net area.info.id).sessions.isConnected c = true →
      (net other.info.id).sessions.isConnected c = true → area.info.id = other.info.id

/-- No client receives a publication from two brokers, or from one twice. -/
theorem nodup_receivers (h : Network areas net) (harea : area ∈ areas) {infos : List BrokerInfo}
    (hinfos : ∀ info ∈ infos, ∃ other ∈ areas, other.info = info ∧ other.info.id ≠ area.info.id)
    (hnodup : (infos.map (·.id)).Nodup) :
    ((net area.info.id).receivers publication publisher ++ infos.flatMap fun info =>
      (net info.id).receivers publication publisher).Nodup := by
  rw [List.nodup_append]
  refine ⟨Broker.nodup_receivers _ _ _, List.nodup_flatMap.2 ⟨?_, ?_⟩, ?_⟩
  · intro info _
    exact Broker.nodup_receivers _ _ _
  · rw [List.Nodup, List.pairwise_map] at hnodup
    refine hnodup.imp_of_mem fun {info info'} hinfo hinfo' hne => ?_
    obtain ⟨other, hother, rfl, -⟩ := hinfos info hinfo
    obtain ⟨other', hother', rfl, -⟩ := hinfos info' hinfo'
    intro c hc hc'
    exact hne (h.once other hother other' hother' c
      (Broker.isConnected_of_mem_receivers hc) (Broker.isConnected_of_mem_receivers hc'))
  · intro c hc c' hc' heq
    subst heq
    obtain ⟨info, hinfo, hc'⟩ := List.mem_flatMap.1 hc'
    obtain ⟨other, hother, rfl, hne⟩ := hinfos info hinfo
    exact hne (h.once other hother area harea c
      (Broker.isConnected_of_mem_receivers hc') (Broker.isConnected_of_mem_receivers hc))

/-- Whom a publication concerns at any broker is found at home or by a peer that is met. -/
theorem mem_receivers_iff (h : Network areas net) (harea : area ∈ areas)
    (hmeets : ∀ area ∈ areas, ∀ q, area.fence.contains q = true →
      publication.geofence.contains q = true → area.fence.intersects publication.geofence = true)
    {infos : List BrokerInfo}
    (hinfos : infos.Perm ((net area.info.id).federation.peersMeeting publication.geofence))
    {c : ClientId} :
    (c ∈ (net area.info.id).receivers publication publisher ++ infos.flatMap fun info =>
      (net info.id).receivers publication publisher) ↔
      ∃ other ∈ areas, (net other.info.id).Concerns publication publisher c := by
  have hpeers : ∀ {info}, info ∈
      (net area.info.id).federation.peersMeeting publication.geofence ↔ ∃ other ∈ areas,
        other.info = info ∧ other.info.id ≠ area.info.id ∧
          other.fence.intersects publication.geofence = true :=
    mem_peersMeeting_iff (h.stands area harea).sees
  have hmem : ∀ other ∈ areas, c ∈ (net other.info.id).receivers publication publisher ↔
      (net other.info.id).Concerns publication publisher c := fun other hother =>
    Broker.mem_receivers (h.stands other hother).consistent (h.stands other hother).topical
  rw [List.mem_append, List.mem_flatMap]
  constructor
  · rintro (hc | ⟨info, hinfo, hc⟩)
    · exact ⟨area, harea, (hmem area harea).1 hc⟩
    · obtain ⟨other, hother, rfl, -, -⟩ := hpeers.1 (hinfos.mem_iff.1 hinfo)
      exact ⟨other, hother, (hmem other hother).1 hc⟩
  · rintro ⟨other, hother, hconcerns⟩
    by_cases hid : other.info.id = area.info.id
    · left
      rw [hmem area harea, ← hid]
      exact hconcerns
    · right
      have hstands := h.stands other hother
      obtain ⟨session, hsession, hinside, -⟩ := id hconcerns
      have hhome := hstands.atHome c session hsession
      rw [isHome, home_of_stands hstands hother] at hhome
      refine ⟨other.info, hinfos.mem_iff.2 (hpeers.2 ⟨other, hother, rfl, hid, ?_⟩),
        (hmem other hother).2 hconcerns⟩
      exact hmeets other hother _ hhome hinside

/-! ## The answers -/

/-- What a broker answers when it receives the publication from the broker with the id. -/
def answer (net : String → Broker) (sender : String) (publication : Publication)
    (publisher : Location) (info : BrokerInfo) : List Outbound :=
  (process .geoDistributed (net info.id) ⟨sender, .forward publication publisher⟩).out

/-- The brokers of some infos are what the infos say, and know the broker that forwards to them. -/
def Known (net : String → Broker) (sender : BrokerInfo) (infos : List BrokerInfo) : Prop :=
  ∀ info ∈ infos, (net info.id).info = info ∧
    (net info.id).federation.peer? sender.id = some sender

theorem known_of_network (h : Network areas net) (harea : area ∈ areas) {infos : List BrokerInfo}
    (hinfos : ∀ info ∈ infos, ∃ other ∈ areas, other.info = info ∧ other.info.id ≠ area.info.id) :
    Known net area.info infos := by
  intro info hinfo
  obtain ⟨other, hother, rfl, hne⟩ := hinfos info hinfo
  have hstands := h.stands other hother
  refine ⟨?_, peer?_of_sees hstands.sees harea (Ne.symm hne)⟩
  rw [Broker.info, home_of_stands hstands hother]

variable {sender : BrokerInfo} {infos : List BrokerInfo}

theorem copies_of_answers (h : Known net sender infos) :
    Outbound.ofKind "PUBLISH" (infos.map (answer net sender.id publication publisher)).flatten =
      (infos.flatMap fun info => (net info.id).receivers publication publisher).map fun c =>
        toClient c (.publish publication) := by
  rw [← List.flatMap_def, Outbound.ofKind, List.filter_flatMap, List.map_flatMap]
  refine List.flatMap_congr fun info hinfo => ?_
  exact (ofKind_forward (h info hinfo).2).1

theorem acknowledgements_of_answers (h : Known net sender infos) :
    List.Forall₂ (fun forward out => ∃ info, forward.recipient = .broker info ∧
      (net info.id).info = info ∧
      ∃ reason, Outbound.ofKind "PUBACK" out = [⟨.broker sender, .puback reason⟩])
      (infos.map (forwardTo publication publisher))
      (infos.map (answer net sender.id publication publisher)) := by
  rw [List.forall₂_map_left_iff, List.forall₂_map_right_iff, List.forall₂_same]
  intro info hinfo
  obtain ⟨hself, hpeer⟩ := h info hinfo
  exact ⟨info, rfl, hself, (ofKind_forward hpeer).2.1⟩

theorem no_forward_in_answers (h : Known net sender infos) :
    ∀ out ∈ infos.map (answer net sender.id publication publisher),
      Outbound.ofKind "BROKER_FORWARD_PUBLISH" out = [] := by
  intro out hout
  obtain ⟨info, hinfo, rfl⟩ := List.mem_map.1 hout
  exact (ofKind_forward (h info hinfo).2).2.2

theorem nodup_recipients (hnodup : (infos.map (·.id)).Nodup) :
    ((infos.map (forwardTo publication publisher)).map (·.recipient)).Nodup := by
  rw [List.map_map]
  refine List.Nodup.map (fun info info' heq => ?_) hnodup.of_map
  exact Addressee.broker.inj heq

/-! ## From the area list -/

/-- A broker runs for every entry of an area list, and no client is connected to two of them. -/
structure Deployed (entries : List AreaEntry) (net : String → Broker) : Prop where
  runs : ∀ e ∈ entries, Runs entries e (net e.id)
  once : ∀ e ∈ entries, ∀ other ∈ entries, ∀ c,
    (net e.id).sessions.isConnected c = true → (net other.id).sessions.isConnected c = true →
      e.id = other.id

theorem network_of_deployed {entries : List AreaEntry} (h : Deployed entries net)
    (hareas : List.Forall₂ (fun e area => e.area = .ok area) entries areas) :
    Network areas net := by
  refine ⟨fun area harea => ?_, fun area harea other hother c hc hc' => ?_⟩
  · obtain ⟨e, he, -, hid⟩ := exists_entry hareas harea
    rw [← hid]
    exact stands_of_runs hareas (h.runs e he)
  · obtain ⟨e, he, -, hid⟩ := exists_entry hareas harea
    obtain ⟨e', he', -, hid'⟩ := exists_entry hareas hother
    rw [← hid] at hc ⊢
    rw [← hid'] at hc' ⊢
    exact h.once e he e' he' c hc hc'

/-- A client publishes at the broker of an entry, and the forwards that this broker sends are
received in any order. Then

* the copies that are sent by all brokers go to the clients whom the publication concerns at any of
  them, one to each, and are copies of this publication;
* no two forwards go to one broker, and what is sent for a forward is acknowledged exactly once, to
  the broker of the publisher;
* nothing is forwarded again.

It is assumed that an area meets the publication's geofence when they have a location in common. -/
theorem delivered_once {entries : List AreaEntry} {net : String → Broker}
    (hdeployed : Deployed entries net) {home : AreaEntry} (hhome : home ∈ entries)
    {client : ClientId} {publisher : Location}
    (hlocation : (net home.id).sessions.location? client = some publisher)
    {publication : Publication} (hname : publication.topic.isName = true)
    (hmeets : ∀ e ∈ entries, ∀ area, e.area = .ok area → ∀ q, area.fence.contains q = true →
      publication.geofence.contains q = true → area.fence.intersects publication.geofence = true)
    {forwards : List Outbound}
    (horder : forwards.Perm (Outbound.ofKind "BROKER_FORWARD_PUBLISH"
      (process .geoDistributed (net home.id) ⟨client, .publish publication⟩).out)) :
    let outcome := process .geoDistributed (net home.id) ⟨client, .publish publication⟩
    let answers := (receiveAll (net home.id).info.id
      (Function.update net home.id outcome.broker) forwards).2
    (∃ receivers : List ClientId, receivers.Nodup ∧
      (∀ c, c ∈ receivers ↔ ∃ e ∈ entries, (net e.id).Concerns publication publisher c) ∧
      Outbound.ofKind "PUBLISH" (outcome.out ++ answers.flatten) =
        receivers.map fun c => toClient c (.publish publication)) ∧
    (forwards.map (·.recipient)).Nodup ∧
    List.Forall₂ (fun forward answer => ∃ info, forward.recipient = .broker info ∧
      (net info.id).info = info ∧
      ∃ reason, Outbound.ofKind "PUBACK" answer = [⟨.broker (net home.id).info, .puback reason⟩])
      forwards answers ∧
    ∀ answer ∈ answers, Outbound.ofKind "BROKER_FORWARD_PUBLISH" answer = [] := by
  obtain ⟨f, granularity, ps, hf, -, -⟩ := hdeployed.runs home hhome
  obtain ⟨areas, hareas, -⟩ := sees_of_ofEntries hf
  have hnet := network_of_deployed hdeployed hareas
  obtain ⟨area, harea, -, hid⟩ := exists_area hareas hhome
  have hstands := hnet.stands area harea
  have hcommon : ∀ area ∈ areas, ∀ q, area.fence.contains q = true →
      publication.geofence.contains q = true →
        area.fence.intersects publication.geofence = true := by
    intro area harea
    obtain ⟨e, he, hearea, -⟩ := exists_entry hareas harea
    exact hmeets e he area hearea
  rw [← hid] at hlocation horder ⊢
  -- The forwards go to the peers that are met, in some order; no other broker sees the publication.
  obtain ⟨hcopies, hforwards⟩ :=
    ofKind_publish hstands harea hlocation hname (hcommon area harea)
  rw [hforwards] at horder
  obtain ⟨order, hperm, rfl⟩ := forwards_eq_map horder
  have hothers : ∀ info ∈ order, ∃ other ∈ areas, other.info = info ∧
      other.info.id ≠ area.info.id := by
    intro info hinfo
    obtain ⟨other, hother, hoinfo, hne, -⟩ :=
      (mem_peersMeeting_iff hstands.sees).1 (hperm.mem_iff.1 hinfo)
    exact ⟨other, hother, hoinfo, hne⟩
  have hids : (order.map (·.id)).Nodup :=
    (hperm.map _).nodup_iff.2 (nodup_peersMeeting hstands.sees publication.geofence)
  have hinfo : (net area.info.id).info = area.info := by
    rw [Broker.info, home_of_stands hstands harea]
  have hknown : Known net (net area.info.id).info order := by
    rw [hinfo]
    exact known_of_network hnet harea hothers
  intro outcome answers
  have hstay : outcome.broker = net area.info.id := broker_publishWith _ _ _ _ _ _
  have hanswers : answers =
      order.map (answer net (net area.info.id).info.id publication publisher) := by
    change (receiveAll _ (Function.update net area.info.id outcome.broker) _).2 = _
    rw [hstay, Function.update_eq_self, receiveAll_forwards]
    rfl
  rw [hanswers]
  refine ⟨⟨(net area.info.id).receivers publication publisher ++ order.flatMap fun info =>
    (net info.id).receivers publication publisher, nodup_receivers hnet harea hothers hids,
    fun c => ?_, ?_⟩, nodup_recipients hids, acknowledgements_of_answers hknown,
    no_forward_in_answers hknown⟩
  · rw [mem_receivers_iff hnet harea hcommon hperm]
    constructor
    · rintro ⟨other, hother, hconcerns⟩
      obtain ⟨e, he, -, heid⟩ := exists_entry hareas hother
      exact ⟨e, he, heid ▸ hconcerns⟩
    · rintro ⟨e, he, hconcerns⟩
      obtain ⟨other, hother, -, hoid⟩ := exists_area hareas he
      exact ⟨other, hother, hoid ▸ hconcerns⟩
  · rw [ofKind_append, List.map_append, copies_of_answers hknown]
    exact congrArg (· ++ _) hcopies

/-! ## Two brokers -/

def south : AreaEntry := ⟨"south", "s", 1, "POLYGON ((-1 -1, -1 0.2, 1 0.2, 1 -1, -1 -1))"⟩

/-- The area of the northern broker, which begins where the southern one ends. -/
def north : AreaEntry := ⟨"north", "n", 2, "POLYGON ((-1 0.2, -1 1, 1 1, 1 0.2, -1 0.2))"⟩

/-- The federation of the two, seen from the broker with the id. -/
def border (id : String) : Federation :=
  (ofEntries id [south, north]).toOption.getD (.world ⟨"", "", 0⟩)

/-- Two brokers with one visitor each. -/
def visited (id : String) : Broker :=
  processAll .geoDistributed (Broker.start 1 (border id))
    (if id = "south" then Packet.visit "x" ⟨0.1, 0.1⟩ else Packet.visit "y" ⟨0.3, 0.1⟩)

/-- A publication of the visitor in the south that reaches into the north. -/
def acrossBorder : Publication := ⟨⟨[.normal "a"]⟩, .nearOrigin, "news"⟩

/-- What the two brokers have come to, evaluated in one go: an evaluation reads both boundaries. -/
theorem eval_visited :
    (∀ e ∈ [south, north], (ofEntries e.id [south, north]).isOk = true) ∧
      (∀ e ∈ [south, north], e.area.toOption.all
        (fun area => area.fence.intersects acrossBorder.geofence) = true) ∧
      (visited south.id).sessions.byClient.keys = ["x"] ∧
      (visited north.id).sessions.byClient.keys = ["y"] ∧
      (visited south.id).sessions.location? "x" = some ⟨0.1, 0.1⟩ ∧
      "x" ∈ (visited south.id).scan acrossBorder ⟨0.1, 0.1⟩ ∧
      "y" ∈ (visited north.id).scan acrossBorder ⟨0.1, 0.1⟩ ∧
      (Outbound.ofKind "BROKER_FORWARD_PUBLISH" (process .geoDistributed (visited south.id)
        ⟨"x", .publish acrossBorder⟩).out).length = 1 := by
  decide +kernel

theorem ofEntries_border {e : AreaEntry} (he : e ∈ [south, north]) :
    ofEntries e.id [south, north] = .ok (border e.id) := by
  have hok := eval_visited.1 e he
  rw [border]
  cases hf : ofEntries e.id [south, north] with
  | error error => rw [hf] at hok; cases hok
  | ok f => rfl

theorem runs_visited {e : AreaEntry} (he : e ∈ [south, north]) :
    Runs [south, north] e (visited e.id) := by
  refine ⟨border e.id, 1, _, ofEntries_border he, ?_, rfl⟩
  intro p hp
  split at hp
  · exact Packet.subscribesToText_of_mem_visit hp
  · exact Packet.subscribesToText_of_mem_visit hp

theorem isConnected_visited {id : String} {c x : ClientId}
    (hkeys : (visited id).sessions.byClient.keys = [x])
    (hc : (visited id).sessions.isConnected c = true) : c = x := by
  rw [Sessions.isConnected, ← Std.TreeMap.contains_keys, hkeys] at hc
  simpa using hc

theorem deployed_visited : Deployed [south, north] visited := by
  obtain ⟨-, -, hsouth, hnorth, -⟩ := eval_visited
  refine ⟨fun e he => runs_visited he, fun e he other hother c hc hc' => ?_⟩
  simp only [List.mem_cons, List.not_mem_nil, or_false] at he hother
  rcases he with rfl | rfl <;> rcases hother with rfl | rfl
  · rfl
  · rw [isConnected_visited hsouth hc] at hc'
    exact absurd (isConnected_visited hnorth hc') (by decide)
  · rw [isConnected_visited hnorth hc] at hc'
    exact absurd (isConnected_visited hsouth hc') (by decide)
  · rfl

theorem meets_acrossBorder {e : AreaEntry} (he : e ∈ [south, north]) {area : Area}
    (harea : e.area = .ok area) : area.fence.intersects acrossBorder.geofence = true := by
  have h := eval_visited.2.1 e he
  rw [harea] at h
  exact h

/-- What the visitor in the south publishes goes once to it and once to the one in the north. -/
theorem delivered_once_across_border :
    let outcome := process .geoDistributed (visited south.id) ⟨"x", .publish acrossBorder⟩
    let answers := (receiveAll (visited south.id).info.id
      (Function.update visited south.id outcome.broker)
      (Outbound.ofKind "BROKER_FORWARD_PUBLISH" outcome.out)).2
    (Outbound.ofKind "BROKER_FORWARD_PUBLISH" outcome.out).length = 1 ∧
      ∃ receivers : List ClientId, receivers.Nodup ∧ "x" ∈ receivers ∧ "y" ∈ receivers ∧
        Outbound.ofKind "PUBLISH" (outcome.out ++ answers.flatten) =
          receivers.map fun c => toClient c (.publish acrossBorder) := by
  obtain ⟨-, -, -, -, hlocation, hsouth, hnorth, hforwards⟩ := eval_visited
  have hname : acrossBorder.topic.isName = true := rfl
  intro outcome answers
  obtain ⟨⟨receivers, hnodup, hmem, hcopies⟩, -, -, -⟩ :=
    delivered_once deployed_visited List.mem_cons_self hlocation hname
      (fun _ he _ harea _ _ _ => meets_acrossBorder he harea) (List.Perm.refl _)
  refine ⟨hforwards, receivers, hnodup, ?_, ?_, hcopies⟩
  · exact (hmem "x").2 ⟨south, by decide, Broker.mem_scan.1 hsouth⟩
  · exact (hmem "y").2 ⟨north, by decide, Broker.mem_scan.1 hnorth⟩

end Federation

end Geocast
