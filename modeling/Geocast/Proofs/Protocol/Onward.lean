import Geocast.Proofs.Protocol.Sent

/-!
# What is published onward

A client may publish to a name only, and under both strategies a publication to a filter is refused
before anything is sent. A forwarded publication is not looked at in this way: what a peer, or
anybody who writes like a peer, forwards to a filter goes to the receivers here as it is. The walk
through the filter tree takes the wildcards of its topic for literal levels.

* `OnlyNames`: every publication among the packets sent, copy or forward, is to a name.
* `RelaysFilter`: a packet forwards a publication to a filter, and it has a receiver here.
* `onlyNames_iff`: that is the only way in which a filter is published onward; what a broker itself
  forwards is always to a name.
* `filter_relayed`: it happens.
-/
namespace Geocast

/-- The publication that a payload carries. -/
def Payload.publication? : Payload → Option Publication
  | publish publication | forward publication _ => some publication
  | _ => none

theorem Payload.publication?_of_reason? {payload : Payload}
    (h : payload.reason?.isSome = true) : payload.publication? = none := by
  cases payload with
  | publish | forward => cases h
  | connect | connack | disconnect | pingreq | pingresp | subscribe | suback | unsubscribe
  | unsuback | puback => rfl

namespace Protocol

/-- Every publication among the packets sent is to a name. -/
def OnlyNames (out : List Outbound) : Prop :=
  ∀ o ∈ out, ∀ publication, o.payload.publication? = some publication →
    publication.topic.isName = true

/-- A packet forwards a publication to a filter, and the publication has a receiver. -/
def RelaysFilter (b : Broker) (p : Packet) : Prop :=
  ∃ publication publisher, p.payload = .forward publication publisher ∧
    publication.topic.isName = false ∧ b.receivers publication publisher ≠ []

variable {strategy : Strategy} {b : Broker} {p : Packet}

theorem isName_of_forward {recipient : Addressee} {publication : Publication}
    {publisher : Location}
    (h : ⟨recipient, .forward publication publisher⟩ ∈ (process strategy b p).out) :
    publication.topic.isName = true := by
  generalize ho : (⟨recipient, .forward publication publisher⟩ : Outbound) = o at h
  cases sent_process strategy h with
  | reply _ reason => cases ho; cases reason
  | acknowledgement => cases ho
  | copy => cases ho
  | forward _ name => cases ho; exact name
  | relay => cases ho

theorem onlyNames_of_not_relaysFilter (h : ¬ RelaysFilter b p) :
    OnlyNames (process strategy b p).out := by
  intro o ho publication hpublication
  cases sent_process strategy ho with
  | reply _ reason =>
    rw [toClient, Payload.publication?_of_reason? reason] at hpublication
    cases hpublication
  | acknowledgement => cases hpublication
  | copy _ name => cases hpublication; exact name
  | forward _ name => cases hpublication; exact name
  | relay payload received =>
    cases hpublication
    by_contra hname
    exact h ⟨_, _, payload, Bool.eq_false_iff.2 hname, List.ne_nil_of_mem received⟩

theorem not_onlyNames_of_relaysFilter (h : RelaysFilter b p) :
    ¬ OnlyNames (process strategy b p).out := by
  obtain ⟨publication, publisher, hpayload, hname, hreceivers⟩ := h
  obtain ⟨c, hc⟩ := List.exists_mem_of_ne_nil _ hreceivers
  obtain ⟨sender, payload⟩ := p
  obtain rfl : payload = _ := hpayload
  intro honly
  have hout : toClient c (.publish publication) ∈
      (process strategy b ⟨sender, .forward publication publisher⟩).out := by
    rw [out_forward, List.mem_append]
    exact .inl (mem_deliver.2 ⟨c, hc, rfl⟩)
  have hyes := honly _ hout publication rfl
  rw [hname] at hyes
  cases hyes

/-- After every sequence of packets, under both strategies: a broker publishes onward to names only,
except exactly if the packet forwards to it a publication to a filter that has a receiver; and what
it forwards itself is to a name in any case. -/
theorem onlyNames_iff (strategy : Strategy) (granularity : Nat) (federation : Federation)
    (ps : List Packet) (p : Packet) :
    let b := processAll strategy (.start granularity federation) ps
    let out := (process strategy b p).out
    (OnlyNames out ↔ ¬ RelaysFilter b p) ∧
      ∀ recipient publication publisher, ⟨recipient, .forward publication publisher⟩ ∈ out →
        publication.topic.isName = true := by
  intro b out
  refine ⟨⟨fun honly hrelays => ?_, onlyNames_of_not_relaysFilter⟩, ?_⟩
  · exact not_onlyNames_of_relaysFilter hrelays honly
  · intro recipient publication publisher h
    exact isName_of_forward h

/-- What a peer forwards to `a/+` goes to a visitor that has subscribed to everything below `a`,
with the wildcard in its topic. -/
theorem filter_relayed :
    let f : Federation := ⟨⟨⟨"b", "h", 1⟩, .nearOrigin⟩, [⟨⟨"peer", "h", 2⟩, .world⟩]⟩
    let b := processAll .geoDistributed (.start 1 f) (Packet.visit "x" ⟨0.1, 0.1⟩)
    let filter : Topic := ⟨[.normal "a", .single]⟩
    ¬ OnlyNames (process .geoDistributed b
      ⟨"peer", .forward ⟨filter, .nearOrigin, "news"⟩ ⟨0.2, 0.2⟩⟩).out := by
  intro f b filter
  refine not_onlyNames_of_relaysFilter ⟨_, _, rfl, rfl, ?_⟩
  have hreceivers : b.receivers ⟨filter, .nearOrigin, "news"⟩ ⟨0.2, 0.2⟩ = ["x"] := by
    decide +kernel
  rw [hreceivers]
  exact List.cons_ne_nil _ _

end Protocol

end Geocast
