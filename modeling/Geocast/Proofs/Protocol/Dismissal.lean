import Geocast.Proofs.Federation.Home
import Geocast.Proofs.Protocol.Sent

/-!
# Clients that are told to disconnect

A broker tells a client to disconnect when it connects a second time, and, in a federation, when it
connects or says where it is from outside the home area. On a second connect, and when the client
says where it is, the session ends before the answer goes out. A client that connects from outside
is told to go elsewhere without a look at whether it has a session; if it has one, that stays, with
all its subscriptions.

* `Broker.Gone`: nothing of a client is left; of a consistent broker that means that the client has
  no session (`Consistent.gone_iff`).
* `Dismisses`: among the packets sent one tells the client to disconnect.
* `IsStray`: a client with a session connects from outside the area.
* `dismisses_control`, `not_dismisses`: whom the answer to a packet tells to disconnect.
* `gone_iff_not_stray`: a client that is told to disconnect is gone, except after a stray connect,
  after which it is still there.
-/
namespace Geocast

namespace Broker

variable {b : Broker} {client : ClientId}

/-- Nothing of a client is left: it is not connected, it is nowhere, and no grid has an id of it. -/
structure Gone (b : Broker) (client : ClientId) : Prop where
  absent : b.sessions.isConnected client = false
  nowhere : b.sessions.location? client = none
  unentered : ∀ filter n, b.filters.get? filter = some n →
    ∀ c seq, n.grid.holds c ⟨client, seq⟩ = false

theorem Consistent.gone_iff (h : b.Consistent) :
    b.Gone client ↔ b.sessions.get? client = none := by
  constructor
  · intro hgone
    have habsent := hgone.absent
    rw [Sessions.isConnected_eq] at habsent
    simpa using habsent
  · intro hnone
    refine ⟨?_, ?_, ?_⟩
    · simp [Sessions.isConnected_eq, hnone]
    · simp [Sessions.location?, hnone]
    · intro filter n hn c seq
      rw [Bool.eq_false_iff]
      intro hholds
      obtain ⟨session, hsession, -⟩ := (h.holds_iff hn c ⟨client, seq⟩).1 hholds
      rw [hnone] at hsession
      cases hsession

end Broker

namespace Protocol

/-- One of the packets sent tells the client to disconnect. -/
def Dismisses (out : List Outbound) (client : ClientId) : Prop :=
  ∃ reason peer, ⟨.client client, .disconnect reason peer⟩ ∈ out

/-- Whether a payload asks to connect from where the broker does not serve. -/
def isElsewhere (strategy : Strategy) (f : Federation) : Payload → Bool
  | .connect location => !serves strategy f location
  | _ => false

/-- A client that has a session connects from where the broker does not serve. -/
def IsStray (strategy : Strategy) (b : Broker) (p : Packet) : Prop :=
  isElsewhere strategy b.federation p.payload = true ∧ b.sessions.isConnected p.sender = true

variable {strategy : Strategy} {b : Broker} {p : Packet} {client : ClientId}

theorem dismisses_singleton {id : ClientId} {payload : Payload} :
    Dismisses [toClient id payload] client ↔
      client = id ∧ ∃ reason peer, payload = .disconnect reason peer := by
  simp only [Dismisses, toClient, List.mem_singleton, Outbound.mk.injEq, Addressee.client.injEq]
  constructor
  · rintro ⟨reason, peer, rfl, rfl⟩
    exact ⟨rfl, reason, peer, rfl⟩
  · rintro ⟨rfl, reason, peer, rfl⟩
    exact ⟨reason, peer, rfl, rfl⟩

/-! ## One packet -/

/-- Only an answer to a packet by which a client changes its session tells anybody to disconnect. -/
theorem not_dismisses (hp : isControl p.payload = false) :
    ¬ Dismisses (process strategy b p).out client := by
  rintro ⟨reason, peer, hmem⟩
  generalize ho : (⟨.client client, .disconnect reason peer⟩ : Outbound) = o at hmem
  cases sent_process strategy hmem with
  | reply control =>
    rw [hp] at control
    cases control
  | acknowledgement => cases ho
  | copy => cases ho
  | forward => cases ho
  | relay => cases ho

/-- An answer to a packet by which a client changes its session tells nobody to disconnect but that
client. Its session has then ended, unless it connects from elsewhere: that changes nothing. -/
theorem dismisses_control {f : Federation} {id : ClientId} {s : Option Session} {payload : Payload}
    (h : Dismisses (reply strategy f id s payload) client) :
    client = id ∧
      next strategy f id s payload = if isElsewhere strategy f payload then s else none := by
  cases payload with
  | connect location =>
    unfold reply at h
    dsimp only at h
    by_cases hserved : serves strategy f location = true
    · rw [if_pos hserved] at h
      cases s with
      | none => simp [dismisses_singleton] at h
      | some session =>
        refine ⟨(dismisses_singleton.1 h).1, ?_⟩
        simp [hserved, next, isElsewhere]
    · rw [if_neg hserved] at h
      refine ⟨(dismisses_singleton.1 h).1, ?_⟩
      simp [hserved, next, isElsewhere]
  | pingreq location =>
    unfold reply at h
    dsimp only at h
    by_cases hserved : serves strategy f location = true
    · rw [if_pos hserved] at h
      simp [dismisses_singleton] at h
    · rw [if_neg hserved] at h
      refine ⟨(dismisses_singleton.1 h).1, ?_⟩
      simp [hserved, next, isElsewhere]
  | subscribe | unsubscribe => simp [reply, dismisses_singleton] at h
  | disconnect | connack | pingresp | suback | unsuback | publish | puback | forward =>
    simp [reply, Dismisses] at h

theorem gone_of_dismisses (h : b.Consistent)
    (hdismissed : Dismisses (process strategy b p).out client) :
    client = p.sender ∧
      ((process strategy b p).broker.Gone client ↔ ¬ IsStray strategy b p) := by
  have hp : isControl p.payload = true := by
    by_contra hp
    exact not_dismisses (Bool.eq_false_iff.2 hp) hdismissed
  rw [out_process strategy b hp] at hdismissed
  obtain ⟨rfl, hnext⟩ := dismisses_control hdismissed
  refine ⟨rfl, ?_⟩
  rw [(Broker.consistent_change h (change_process strategy b p)).gone_iff,
    get?_process_self strategy h p, hnext, IsStray, Sessions.isConnected_eq]
  cases isElsewhere strategy b.federation p.payload <;>
    cases b.sessions.get? p.sender <;> simp

/-! ## Runs -/

/-- After every sequence of packets, under both strategies: only the sender of a packet can be told
to disconnect in answer to it, and then it is not connected, is nowhere and has no id in any grid,
except exactly if it was connected and has connected again from outside of where the broker
serves. -/
theorem gone_iff_not_stray (strategy : Strategy) (granularity : Nat) (federation : Federation)
    (ps : List Packet) (p : Packet) (client : ClientId)
    (hdismissed : Dismisses
      (process strategy (processAll strategy (.start granularity federation) ps) p).out client) :
    let b := processAll strategy (.start granularity federation) ps
    client = p.sender ∧
      ((process strategy b p).broker.Gone client ↔ ¬ IsStray strategy b p) :=
  gone_of_dismisses (Broker.consistent_processAll strategy granularity federation ps) hdismissed

/-- A visitor that connects again is told to disconnect and is gone. -/
theorem gone_after_second_connect :
    let b := processAll .standalone (.start 1 (.world ⟨"b", "h", 1⟩))
      (Packet.visit "x" ⟨0.1, 0.1⟩)
    let outcome := process .standalone b ⟨"x", .connect ⟨0.2, 0.2⟩⟩
    Dismisses outcome.out "x" ∧ outcome.broker.Gone "x" := by
  intro b outcome
  have hconnected : b.sessions.isConnected "x" = true := by decide +kernel
  have hdismissed : Dismisses outcome.out "x" := by
    change Dismisses (connect b "x" ⟨0.2, 0.2⟩).out "x"
    rw [connect, Sessions.connect?, if_pos hconnected]
    exact dismisses_singleton.2 ⟨rfl, _, _, rfl⟩
  refine ⟨hdismissed, (gone_iff_not_stray _ _ _ _ _ _ hdismissed).2.2 ?_⟩
  rintro ⟨helsewhere, -⟩
  cases helsewhere

/-- A visitor that connects again, from outside the home area, is told to disconnect and is still
there. -/
theorem present_after_stray_connect :
    let f : Federation := ⟨⟨⟨"b", "h", 1⟩, .nearOrigin⟩, []⟩
    let b := processAll .geoDistributed (.start 1 f) (Packet.visit "x" ⟨0.1, 0.1⟩)
    let outcome := process .geoDistributed b ⟨"x", .connect ⟨10.0, 10.0⟩⟩
    Dismisses outcome.out "x" ∧ outcome.broker.sessions.isConnected "x" = true ∧
      ∃ n, outcome.broker.filters.get? ⟨[.normal "a", .multi]⟩ = some n ∧
        n.grid.holds ⟨0, 0⟩ ⟨"x", 0⟩ = true := by
  intro f b outcome
  have haway : f.isHome ⟨10.0, 10.0⟩ = false := by decide +kernel
  have houtcome : outcome = ⟨b, [(redirect b "x" ⟨10.0, 10.0⟩).1],
      [(redirect b "x" ⟨10.0, 10.0⟩).2]⟩ := by
    change connectAtHome b "x" ⟨10.0, 10.0⟩ = _
    rw [connectAtHome, federation_processAll, if_neg]
    exact Bool.eq_false_iff.1 haway
  rw [houtcome]
  refine ⟨dismisses_singleton.2 ⟨rfl, _, _, rfl⟩, by decide +kernel, ?_⟩
  have hany : (b.filters.get? ⟨[.normal "a", .multi]⟩).any
      (fun n => n.grid.holds ⟨0, 0⟩ ⟨"x", 0⟩) = true := by decide +kernel
  exact (Option.any_eq_true _ _).1 hany

end Protocol

end Geocast
