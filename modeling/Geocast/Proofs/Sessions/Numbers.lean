import Geocast.Proofs.Packet.Topics
import Geocast.Proofs.Sessions.Operations

/-!
# Numbers of subscriptions are not handed out twice

A session hands out numbers in order. Who subscribes again to a topic keeps the id; every other
subscription gets a number that is above all numbers given before, ended subscriptions included,
since the session began.

* `Session.Issued`: the live ids are among those given, which are below the next number.
* `Session.Refenced`: only the geofence of one subscription has changed.
* `Broker.idsGiven`: the ids that a client has been given since its session began, in a run of
  packets and direct operations; `issued_actAll`: they are what its session has issued.
* `numbers_not_reused`: after every sequence of packets and operations ids are unique and belong to
  their clients, and the next subscription keeps its id or gets a greater number. A session that has
  given out fewer than `2 ^ 64` ids has numbers that fit a word of 64 bits.
-/
namespace Geocast

namespace Session

variable {s : Session} {topic : Topic} {ids : List SubscriptionId}

/-! ## One session -/

theorem subscribe_of_some {old : Subscription} (h : s.find? topic = some old)
    (geofence : Geofence) :
    (s.subscribe topic geofence).2 = old.id ∧
      (s.subscribe topic geofence).1.nextSeq = s.nextSeq ∧
      (s.subscribe topic geofence).1.subscriptions.map (·.id) = s.subscriptions.map (·.id) := by
  unfold subscribe
  rw [h]
  refine ⟨rfl, rfl, ?_⟩
  rw [List.map_map]
  refine List.map_congr_left fun sub _ => ?_
  dsimp only [Function.comp]
  split <;> rfl

theorem subscribe_of_none (h : s.find? topic = none) (geofence : Geofence) :
    (s.subscribe topic geofence).2 = ⟨s.client, s.nextSeq⟩ ∧
      (s.subscribe topic geofence).1.nextSeq = s.nextSeq + 1 ∧
      (s.subscribe topic geofence).1.subscriptions.map (·.id) =
        s.subscriptions.map (·.id) ++ [⟨s.client, s.nextSeq⟩] := by
  unfold subscribe
  rw [h]
  exact ⟨rfl, rfl, List.map_append⟩

/-- The ids that a session has given out: they are its client's, below the next number, at least as
many as there were numbers, and every live one is among them. -/
structure Issued (s : Session) (ids : List SubscriptionId) : Prop where
  owner : ∀ id ∈ ids, id.client = s.client
  below : ∀ id ∈ ids, id.seq < s.nextSeq
  live : ∀ id ∈ s.subscriptions.map (·.id), id ∈ ids
  count : s.nextSeq ≤ ids.length

theorem issued_start (client : ClientId) (location : Location) :
    (start client location).Issued [] :=
  ⟨List.forall_mem_nil _, List.forall_mem_nil _, List.forall_mem_nil _, Nat.le_refl 0⟩

theorem issued_subscribe (h : s.Issued ids) (topic : Topic) (geofence : Geofence) :
    (s.subscribe topic geofence).1.Issued (ids ++ [(s.subscribe topic geofence).2]) := by
  have hcount := h.count
  cases hfind : s.find? topic with
  | some old =>
    obtain ⟨hid, hnext, hlive⟩ := subscribe_of_some hfind geofence
    have hold : old.id ∈ ids :=
      h.live _ (List.mem_map_of_mem (List.mem_of_find?_eq_some hfind))
    rw [hid]
    constructor
    case owner =>
      rw [client_subscribe]
      simpa [or_imp, forall_and] using ⟨h.owner, h.owner _ hold⟩
    case below =>
      rw [hnext]
      simpa [or_imp, forall_and] using ⟨h.below, h.below _ hold⟩
    case live =>
      rw [hlive]
      exact fun id hmem => List.mem_append_left _ (h.live id hmem)
    case count =>
      rw [hnext, List.length_append]
      omega
  | none =>
    obtain ⟨hid, hnext, hlive⟩ := subscribe_of_none hfind geofence
    rw [hid]
    constructor
    case owner =>
      rw [client_subscribe]
      simpa [or_imp, forall_and] using h.owner
    case below =>
      intro id hmem
      rw [hnext]
      rcases List.mem_append.1 hmem with hmem | hmem
      · have := h.below id hmem
        omega
      · rw [List.mem_singleton.1 hmem]
        exact Nat.lt_succ_self _
    case live =>
      intro id hmem
      rw [hlive, List.mem_append] at hmem
      rw [List.mem_append]
      exact hmem.imp_left (h.live id)
    case count =>
      rw [hnext, List.length_append]
      exact Nat.succ_le_succ hcount

theorem issued_unsubscribe (h : s.Issued ids) (topic : Topic) :
    (s.unsubscribe topic).Issued ids := by
  refine ⟨h.owner, h.below, fun id hmem => ?_, h.count⟩
  exact h.live id ((List.filter_sublist.map _).subset hmem)

/-- A session is another one but for the geofence of the subscription to a topic. -/
structure Refenced (s : Session) (topic : Topic) (geofence : Geofence) (s' : Session) : Prop where
  client : s'.client = s.client
  location : s'.location = s.location
  nextSeq : s'.nextSeq = s.nextSeq
  here : s'.find? topic = (s.find? topic).map fun sub => { sub with geofence := geofence }
  elsewhere : ∀ other, other ≠ topic → s'.find? other = s.find? other

theorem refenced_subscribe {old : Subscription} (h : s.find? topic = some old)
    (geofence : Geofence) : s.Refenced topic geofence (s.subscribe topic geofence).1 := by
  obtain ⟨hid, hnext, -⟩ := subscribe_of_some h geofence
  have htopic : old.topic = topic := by simpa using List.find?_some h
  refine ⟨client_subscribe s topic geofence, ?_, hnext, ?_, fun other hne => ?_⟩
  · unfold subscribe
    split <;> rfl
  · rw [find?_subscribe_self, hid, h, ← htopic]
    rfl
  · exact find?_subscribe_of_ne s geofence (Ne.symm hne)

end Session

namespace Sessions

variable {s : Sessions} {client : ClientId} {ids : List SubscriptionId}

/-! ## Ids given out -/

/-- The id that an operation gives to the client in whose name it is. -/
def given? (s : Sessions) (client : ClientId) : Op → Option SubscriptionId
  | .subscribe topic geofence => (s.subscribe? client topic geofence).map (·.2)
  | _ => none

/-- The ids that a client has been given in its session; none when it has no session. -/
def Issued (s : Sessions) (client : ClientId) (ids : List SubscriptionId) : Prop :=
  match s.get? client with
  | none => ids = []
  | some session => session.Issued ids

theorem issued_next (h : s.Issued client ids) (op : Op) :
    match op.next client (s.get? client) with
    | none => True
    | some session => session.Issued (ids ++ (s.given? client op).toList) := by
  unfold Issued at h
  cases op with
  | remove => trivial
  | connect location =>
    cases hsession : s.get? client with
    | none =>
      rw [hsession] at h
      obtain rfl : ids = [] := h
      exact Session.issued_start client location
    | some session =>
      rw [hsession] at h
      simpa [Op.next, given?] using h
  | move location =>
    cases hsession : s.get? client with
    | none => trivial
    | some session =>
      rw [hsession] at h
      simpa [Op.next, given?] using (⟨h.owner, h.below, h.live, h.count⟩ :
        Session.Issued { session with location := location } ids)
  | subscribe topic geofence =>
    cases hsession : s.get? client with
    | none => trivial
    | some session =>
      rw [hsession] at h
      rw [given?, subscribe?_of_get? hsession]
      exact Session.issued_subscribe h topic geofence
  | unsubscribe topic =>
    cases hsession : s.get? client with
    | none => trivial
    | some session =>
      rw [hsession] at h
      simpa [Op.next, given?] using Session.issued_unsubscribe h topic

/-- All subscriptions of all connected clients. -/
def subscriptions (s : Sessions) : List Subscription :=
  s.byClient.toList.flatMap fun (_, session) => session.subscriptions

theorem nodup_ids (h : s.WellFormed) : (s.subscriptions.map (·.id)).Nodup := by
  have hget : ∀ entry ∈ s.byClient.toList, s.get? entry.1 = some entry.2 := by
    intro entry hentry
    exact Std.TreeMap.mem_toList_iff_getElem?_eq_some.1 hentry
  rw [subscriptions, List.map_flatMap, List.nodup_flatMap]
  refine ⟨fun entry hentry => ?_, ?_⟩
  · have hseqs := (h.each (hget entry hentry)).seqs
    refine List.Nodup.of_map (·.seq) ?_
    rw [List.map_map]
    exact hseqs
  · -- Ids of different clients differ, as each id has its client.
    refine Std.TreeMap.distinct_keys_toList.imp_of_mem fun {x y} hx hy hne => ?_
    intro id hid hid'
    obtain ⟨sub, hsub, rfl⟩ := List.mem_map.1 hid
    obtain ⟨sub', hsub', heq⟩ := List.mem_map.1 hid'
    have hclient := h.client_id (hget x hx) hsub
    have hclient' := h.client_id (hget y hy) hsub'
    rw [heq, hclient] at hclient'
    exact hne (by simp [hclient'])

end Sessions

namespace Broker

/-- The id that an action gives to a client. -/
def given? (b : Broker) (client : ClientId) : Action → Option SubscriptionId
  | .packet ⟨sender, .subscribe topic geofence⟩ =>
    if sender = client then (b.subscribe? client topic geofence).map (·.2) else none
  | .packet _ => none
  | .call caller op => if caller = client then b.sessions.given? client op else none

/-- The ids that a client has been given in its session, with those of one more action. When the
session ends they are forgotten. -/
def idsAfter (strategy : Strategy) (client : ClientId) (b : Broker) (ids : List SubscriptionId)
    (a : Action) : List SubscriptionId :=
  if (b.act strategy a).sessions.isConnected client then ids ++ (b.given? client a).toList else []

/-- The ids that a client has been given since its session began, in a run from a broker at which it
has been given `ids` so far. -/
def idsGiven (strategy : Strategy) (client : ClientId) :
    Broker → List SubscriptionId → List Action → List SubscriptionId
  | _, ids, [] => ids
  | b, ids, a :: as =>
    idsGiven strategy client (b.act strategy a) (b.idsAfter strategy client ids a) as

variable {strategy : Strategy} {b : Broker} {client : ClientId} {ids : List SubscriptionId}

/-- The id that a subscription gets at a broker is the one that its session gives. -/
theorem subscribe?_id (b : Broker) (client : ClientId) (topic : Topic) (geofence : Geofence) :
    (b.subscribe? client topic geofence).map (·.2) =
      (b.sessions.subscribe? client topic geofence).map (·.2) := by
  rw [subscribe?, Option.map_map]
  rfl

theorem packet_cases (strategy : Strategy) (b : Broker) (p : Packet) :
    ((process strategy b p).broker.sessions = b.sessions ∧
        ∀ client, b.given? client (.packet p) = none) ∨
      ∃ op, (process strategy b p).broker.sessions = b.sessions.apply p.sender op ∧
        ∀ client, b.given? client (.packet p) =
          if p.sender = client then b.sessions.given? client op else none := by
  by_cases hsubscribes : ∃ topic geofence, p.payload = .subscribe topic geofence
  · obtain ⟨sender, payload⟩ := p
    obtain ⟨topic, geofence, rfl⟩ := hsubscribes
    refine .inr ⟨.subscribe topic geofence, ?_, fun client => ?_⟩
    · change (Protocol.subscribe b sender topic geofence).broker.sessions = _
      rw [Protocol.subscribe, subscribe?, Sessions.apply]
      cases b.sessions.subscribe? sender topic geofence <;> rfl
    · rw [given?, subscribe?_id]
      rfl
  · have hnone : ∀ client, b.given? client (.packet p) = none := by
      intro client
      unfold given?
      split
      next topic geofence heq =>
        cases heq
        exact absurd ⟨topic, geofence, rfl⟩ hsubscribes
      next => rfl
      next heq => cases heq
    rcases sessions_process strategy b p with hsame | ⟨op, hop, hpayload⟩
    · exact .inl ⟨hsame, hnone⟩
    · refine .inr ⟨op, hop, fun client => ?_⟩
      have hgives : b.sessions.given? client op = none := by
        cases op with
        | subscribe topic geofence =>
          exact absurd ⟨topic, geofence, hpayload topic geofence rfl⟩ hsubscribes
        | connect | remove | move | unsubscribe => rfl
      rw [hnone, hgives, ite_self]

/-- To the sessions every action is at most one operation in the name of one client. -/
theorem act_cases (strategy : Strategy) (b : Broker) (a : Action) :
    ((b.act strategy a).sessions = b.sessions ∧ ∀ client, b.given? client a = none) ∨
      ∃ caller op, (b.act strategy a).sessions = b.sessions.apply caller op ∧
        ∀ client, b.given? client a =
          if caller = client then b.sessions.given? client op else none := by
  cases a with
  | packet p =>
    rcases packet_cases strategy b p with hsame | ⟨op, hop⟩
    · exact .inl hsame
    · exact .inr ⟨p.sender, op, hop⟩
  | call caller op => exact .inr ⟨caller, op, rfl, fun _ => rfl⟩

theorem wellFormed_act (h : b.sessions.WellFormed) (a : Action) :
    (b.act strategy a).sessions.WellFormed := by
  rcases act_cases strategy b a with ⟨hsame, -⟩ | ⟨caller, op, hop, -⟩
  · rw [hsame]
    exact h
  · rw [hop]
    exact Sessions.wellFormed_apply h caller op

theorem issued_of_same {a : Action} (h : b.sessions.Issued client ids)
    (hget : (b.act strategy a).sessions.get? client = b.sessions.get? client)
    (hgiven : b.given? client a = none) :
    (b.act strategy a).sessions.Issued client (b.idsAfter strategy client ids a) := by
  unfold Sessions.Issued idsAfter at *
  rw [Sessions.isConnected_eq, hget, hgiven]
  cases hsession : b.sessions.get? client with
  | none => rfl
  | some session =>
    rw [hsession] at h
    simpa using h

theorem issued_act (hwell : b.sessions.WellFormed) (h : b.sessions.Issued client ids)
    (a : Action) :
    (b.act strategy a).sessions.Issued client (b.idsAfter strategy client ids a) := by
  rcases act_cases strategy b a with ⟨hsame, hnone⟩ | ⟨caller, op, hop, hgiven⟩
  · exact issued_of_same h (by rw [hsame]) (hnone client)
  have hget := Sessions.get?_apply hwell caller op client
  rw [← hop] at hget
  by_cases hcaller : caller = client
  · subst hcaller
    have hnext := Sessions.issued_next h op
    rw [if_pos rfl] at hget
    unfold Sessions.Issued idsAfter
    rw [Sessions.isConnected_eq, hget, hgiven, if_pos rfl]
    cases hsession : op.next caller (b.sessions.get? caller) with
    | none => rfl
    | some session =>
      rw [hsession] at hnext
      exact hnext
  · exact issued_of_same h (hget.trans (if_neg hcaller)) ((hgiven client).trans (if_neg hcaller))

/-! ## Runs -/

theorem wellFormed_actAll (h : b.sessions.WellFormed) (as : List Action) :
    (b.actAll strategy as).sessions.WellFormed := by
  induction as generalizing b with
  | nil => exact h
  | cons a as ih => exact ih (wellFormed_act h a)

theorem issued_actAll (strategy : Strategy) (hwell : b.sessions.WellFormed)
    (h : b.sessions.Issued client ids) (as : List Action) :
    (b.actAll strategy as).sessions.Issued client (idsGiven strategy client b ids as) := by
  induction as generalizing b ids with
  | nil => exact h
  | cons a as ih => exact ih (wellFormed_act hwell a) (issued_act hwell h a)

/-- After every sequence of packets and direct operations: the ids of all live subscriptions are
different; each has its client's name and a number below the client's next one, which is at most the
number of ids given in the session, and there is one subscription for each topic. When the client
subscribes next, it gets an id: at a topic where it has a subscription, the one that it has, and
only the geofence changes; at any other topic, one above all that were given since its session
began. -/
theorem numbers_not_reused (strategy : Strategy) (granularity : Nat) (federation : Federation)
    (as : List Action) :
    let b := actAll strategy (start granularity federation) as
    (b.sessions.subscriptions.map (·.id)).Nodup ∧
    ∀ client session, b.sessions.get? client = some session →
      let ids := idsGiven strategy client (start granularity federation) [] as
      (∀ sub ∈ session.subscriptions, sub.id.client = client ∧ sub.id.seq < session.nextSeq) ∧
      session.nextSeq ≤ ids.length ∧
      (session.subscriptions.map (·.topic)).Nodup ∧
      ∀ topic geofence, ∃ (session' : Session) (id : SubscriptionId),
        b.sessions.subscribe? client topic geofence = some (b.sessions.put session', id) ∧
        (b.subscribe? client topic geofence).map (·.2) = some id ∧
        (∀ old, session.find? topic = some old →
          id = old.id ∧ session.Refenced topic geofence session') ∧
        (session.find? topic = none →
          id.client = client ∧ ∀ before ∈ ids, before.seq < id.seq) := by
  intro b
  have hwell : b.sessions.WellFormed := wellFormed_actAll Sessions.wellFormed_empty as
  refine ⟨Sessions.nodup_ids hwell, ?_⟩
  intro client session hsession ids
  have hissued : session.Issued ids := by
    have hempty : (start granularity federation).sessions.Issued client [] := by
      unfold Sessions.Issued
      rw [start, Sessions.get?_empty]
    have hall := issued_actAll strategy Sessions.wellFormed_empty hempty as
    unfold Sessions.Issued at hall
    rw [show (actAll strategy (start granularity federation) as).sessions.get? client = _ from
      hsession] at hall
    exact hall
  refine ⟨fun sub hsub => ?_, hissued.count, (hwell.each hsession).topics,
    fun topic geofence => ?_⟩
  · exact ⟨hwell.client_id hsession hsub, (hwell.each hsession).fresh sub hsub⟩
  · have hsubscribe := Sessions.subscribe?_of_get? hsession topic geofence
    refine ⟨_, _, hsubscribe, ?_, fun old hold => ?_, fun hnone => ?_⟩
    · rw [subscribe?_id, hsubscribe]
      rfl
    · exact ⟨(Session.subscribe_of_some hold geofence).1,
        Session.refenced_subscribe hold geofence⟩
    · obtain ⟨hid, -, -⟩ := Session.subscribe_of_none hnone geofence
      rw [hid]
      exact ⟨hwell.keyed hsession, hissued.below⟩

/-- A visitor that leaves its topic, takes another one and comes back gets a third number. -/
theorem numbers_not_reused_visitor :
    let filter : Topic := ⟨[.normal "a", .multi]⟩
    let as := (Packet.visit "x" ⟨0.1, 0.1⟩).map Action.packet ++
      [.packet ⟨"x", .unsubscribe filter⟩, .call "x" (.subscribe ⟨[.normal "b"]⟩ .nearOrigin)]
    let b := actAll .standalone (start 1 (.world ⟨"b", "h", 1⟩)) as
    idsGiven .standalone "x" (start 1 (.world ⟨"b", "h", 1⟩)) [] as = [⟨"x", 0⟩, ⟨"x", 1⟩] ∧
      ∃ id, (b.subscribe? "x" filter .nearOrigin).map (·.2) = some id ∧ id.client = "x" ∧
        1 < id.seq := by
  intro filter as b
  have hids : idsGiven .standalone "x" (start 1 (.world ⟨"b", "h", 1⟩)) [] as =
      [⟨"x", 0⟩, ⟨"x", 1⟩] := by decide +kernel
  have hfind : (b.sessions.get? "x").any (fun session => (session.find? filter).isNone) = true := by
    decide +kernel
  obtain ⟨session, hsession, hnone⟩ := (Option.any_eq_true _ _).1 hfind
  obtain ⟨-, hall⟩ := numbers_not_reused .standalone 1 (.world ⟨"b", "h", 1⟩) as
  obtain ⟨-, -, -, hnext⟩ := hall "x" session hsession
  obtain ⟨session', id, -, hid, -, hfresh⟩ := hnext filter .nearOrigin
  obtain ⟨hclient, habove⟩ := hfresh (Option.isNone_iff_eq_none.1 hnone)
  refine ⟨hids, id, hid, hclient, ?_⟩
  rw [hids] at habove
  exact habove ⟨"x", 1⟩ (by decide)

end Broker

end Geocast
