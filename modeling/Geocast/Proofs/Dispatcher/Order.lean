import Geocast.Proofs.Dispatcher.Steps
import Mathlib.Logic.Function.Basic

/-!
# What workers do in order

Workers run side by side, so outputs for one client's packets stand among those for others', and
packets are answered in another order than that in which they came. But a sender has one worker, a
worker has one queue, and it takes no packet before it has sent all of the answer to the last one.
So for each sender alone nothing is lost, doubled or moved.

A run is told by its `Ledger`: what was queued, what was answered, and what was sent for which
packet. The invariant is two equations for each worker: what was queued for it is what it has taken,
and then what waits; what is due for its packets is what it has sent, and then what is left of the
last answer.

* `Ledger.Tells`: the equations of one worker.
* `Ledger.Accounts`: those of all workers, and the counts, channel and broker of the pool.
* `accounts_step`, `accounts_run`: every step keeps them, so every run does.
* `filter_sender_of_worker`: what is true of a worker's packets is true of each of its senders'.
* `order_kept`: packets and outputs of every sender in every run from the start.
-/
namespace Geocast

/-- What a broker answers to packets that it gets one after the other. -/
def answers (strategy : Strategy) : Broker → List Packet → List (Packet × List Outbound)
  | _, [] => []
  | b, p :: ps =>
    (p, (process strategy b p).out) :: answers strategy (process strategy b p).broker ps

theorem answers_concat (strategy : Strategy) (b : Broker) (ps : List Packet) (p : Packet) :
    answers strategy b (ps ++ [p]) =
      answers strategy b ps ++ [(p, (process strategy (processAll strategy b ps) p).out)] := by
  induction ps generalizing b with
  | nil => rfl
  | cons q ps ih => exact congrArg (_ :: ·) (ih _)

theorem processAll_concat (strategy : Strategy) (b : Broker) (ps : List Packet) (p : Packet) :
    processAll strategy b (ps ++ [p]) =
      (process strategy (processAll strategy b ps) p).broker := by
  simp [processAll]

/-- How many packets a worker has taken and is not done with. -/
def Worker.atHand (w : Worker) : Nat := if w.sending.isSome then 1 else 0

namespace Dispatcher

/-- What has happened in a run: the packets that were queued, those that were answered with their
answers, the packet that each worker took last, and what was sent, with the packet that it
answers. -/
structure Ledger where
  offered : List Packet
  handled : List (Packet × List Outbound)
  latest : Nat → Option Packet
  sent : List (Packet × Outbound)

namespace Ledger

def blank : Ledger := ⟨[], [], fun _ => none, []⟩

def record (l : Ledger) : Event → Ledger
  | .offer p => { l with offered := l.offered ++ [p] }
  | .take i p out =>
    { l with
      handled := l.handled ++ [(p, out)]
      latest := Function.update l.latest i (some p) }
  | .send i o => { l with sent := l.sent ++ (l.latest i).toList.map (·, o) }
  | .finish _ | .close => l

/-- What has happened in a run with these events. -/
def of (es : List Event) : Ledger := es.foldl record blank

def taken (l : Ledger) : List Packet := l.handled.map (·.1)

/-- All that is to be sent for the packets that workers have taken. -/
def due (l : Ledger) : List (Packet × Outbound) := l.handled.flatMap fun (p, out) => out.map (p, ·)

/-- What worker `i` has still to send. -/
def rest (l : Ledger) (i : Nat) (w : Worker) : List (Packet × Outbound) :=
  (l.latest i).toList.flatMap fun p => (w.sending.getD []).map (p, ·)

theorem of_concat (es : List Event) (e : Event) : of (es ++ [e]) = (of es).record e := by
  simp [of]

/-- What a ledger says of worker `i`, if `worker` gives each sender its worker. -/
structure Tells (worker : ClientId → Nat) (capacity : Nat) (l : Ledger) (i : Nat)
    (w : Worker) : Prop where
  running : w.stopped = false
  room : w.queue.length ≤ capacity
  queue : l.offered.filter (worker ·.sender = i) = l.taken.filter (worker ·.sender = i) ++ w.queue
  latest : w.sending.isSome = true → ∃ p, l.latest i = some p ∧ worker p.sender = i
  due : l.due.filter (worker ·.1.sender = i) = l.sent.filter (worker ·.1.sender = i) ++ l.rest i w

/-- What a ledger says of a pool that began as `d₀`. -/
structure Accounts (d₀ : Dispatcher) (l : Ledger) (d : Dispatcher) : Prop where
  strategy : d.strategy = d₀.strategy
  route : d.route = d₀.route
  capacity : d.capacity = d₀.capacity
  length : d.workers.length = d₀.workers.length
  listened : d.listened = true
  tells : ∀ i w, d.workers[i]? = some w → l.Tells d₀.workerOf d₀.capacity i w
  sent : d.sent = l.sent.map (·.2)
  processed : d.processed + (d.workers.map (·.atHand)).sum = l.handled.length
  broker : d.broker = processAll d₀.strategy d₀.broker l.taken
  handled : l.handled = answers d₀.strategy d₀.broker l.taken

/-- The packets of a sender that were taken are the first of those that were queued, and what was
sent for them is the beginning of what was due for them. -/
structure InOrder (l : Ledger) (id : ClientId) : Prop where
  taken : l.taken.filter (·.sender = id) <+: l.offered.filter (·.sender = id)
  sent : l.sent.filter (·.1.sender = id) <+: l.due.filter (·.1.sender = id)

/-- All packets of a sender that were queued were taken in order, and all that was due for them was
sent in order. -/
structure Complete (l : Ledger) (id : ClientId) : Prop where
  taken : l.taken.filter (·.sender = id) = l.offered.filter (·.sender = id)
  sent : l.sent.filter (·.1.sender = id) = l.due.filter (·.1.sender = id)

variable {l : Ledger} {worker : ClientId → Nat} {capacity i j : Nat} {w : Worker} {p : Packet}
  {out : List Outbound} {o : Outbound}

/-! ## What an event says of a worker -/

@[simp] theorem taken_record_take (l : Ledger) (i : Nat) (p : Packet) (out : List Outbound) :
    (l.record (.take i p out)).taken = l.taken ++ [p] := by
  simp [taken, record]

@[simp] theorem due_record_take (l : Ledger) (i : Nat) (p : Packet) (out : List Outbound) :
    (l.record (.take i p out)).due = l.due ++ out.map (p, ·) := by
  simp [due, record]

theorem filter_tagged (worker : ClientId → Nat) (i : Nat) (p : Packet) (out : List Outbound) :
    (out.map (p, ·)).filter (worker ·.1.sender = i) =
      if worker p.sender = i then out.map (p, ·) else [] := by
  split
  next hp => exact List.filter_eq_self.2 (by simp [hp])
  next hp => exact List.filter_eq_nil_iff.2 (by simp [hp])

theorem rest_of_sending_none (l : Ledger) (i : Nat) (h : w.sending = none) : l.rest i w = [] := by
  simp [rest, h]

/-- What a worker has left to send is for the packet that it took last. -/
theorem rest_of_sending (hlatest : l.latest i = some p) (h : w.sending = some out) :
    l.rest i w = out.map (p, ·) := by
  simp [rest, hlatest, h]

theorem Tells.worker_of_mem_queue (h : l.Tells worker capacity i w) (hp : p ∈ w.queue) :
    worker p.sender = i := by
  have hmem : p ∈ l.offered.filter (worker ·.sender = i) := by
    rw [h.queue]
    exact List.mem_append_right _ hp
  simpa using (List.mem_filter.1 hmem).2

theorem Tells.record_offer (h : l.Tells worker capacity (worker p.sender) w)
    (hroom : w.queue.length < capacity) :
    (l.record (.offer p)).Tells worker capacity (worker p.sender)
      { w with queue := w.queue ++ [p] } where
  running := h.running
  room := by
    simp only [List.length_append, List.length_singleton]
    omega
  queue := by
    have hqueue := h.queue
    simp only [record, taken, List.filter_append] at hqueue ⊢
    simp [hqueue]
  latest := h.latest
  due := h.due

theorem Tells.record_offer_of_ne (h : l.Tells worker capacity j w) (hne : worker p.sender ≠ j) :
    (l.record (.offer p)).Tells worker capacity j w where
  running := h.running
  room := h.room
  queue := by
    have hqueue := h.queue
    simp only [record, taken, List.filter_append] at hqueue ⊢
    simp [hqueue, hne]
  latest := h.latest
  due := h.due

theorem Tells.record_take {queue : List Packet}
    (h : l.Tells worker capacity i ⟨p :: queue, none, false⟩) :
    (l.record (.take i p out)).Tells worker capacity i ⟨queue, some out, false⟩ := by
  have hp : worker p.sender = i := h.worker_of_mem_queue List.mem_cons_self
  exact {
    running := rfl
    room := Nat.le_of_succ_le h.room
    queue := by
      have hqueue := h.queue
      simp only [taken_record_take, List.filter_append]
      simpa [record, hp] using hqueue
    latest := fun _ => ⟨p, Function.update_self i _ _, hp⟩
    due := by
      have hdue := h.due
      rw [rest_of_sending_none _ _ rfl, List.append_nil] at hdue
      rw [due_record_take, List.filter_append, filter_tagged, if_pos hp,
        rest_of_sending (Function.update_self i _ _) rfl, hdue]
      rfl }

theorem Tells.record_take_of_ne (h : l.Tells worker capacity j w) (hp : worker p.sender = i)
    (hne : i ≠ j) : (l.record (.take i p out)).Tells worker capacity j w where
  running := h.running
  room := h.room
  queue := by
    have hqueue := h.queue
    simp only [taken_record_take, List.filter_append]
    simpa [record, hp, hne] using hqueue
  latest := by simpa [record, Function.update_of_ne hne.symm] using h.latest
  due := by
    have hrest : (l.record (.take i p out)).rest j w = l.rest j w := by
      simp [record, rest, Function.update_of_ne hne.symm]
    rw [due_record_take, List.filter_append, filter_tagged, if_neg (hp.trans_ne hne),
      List.append_nil, hrest]
    exact h.due

theorem Tells.record_send {queue : List Packet} {rest : List Outbound}
    (h : l.Tells worker capacity i ⟨queue, some (o :: rest), false⟩) :
    (l.record (.send i o)).Tells worker capacity i ⟨queue, some rest, false⟩ := by
  obtain ⟨p, hlatest, hp⟩ := h.latest rfl
  exact {
    running := rfl
    room := h.room
    queue := h.queue
    latest := fun _ => ⟨p, hlatest, hp⟩
    due := by
      have hdue := h.due
      simpa [record, Ledger.due, Ledger.rest, hlatest, hp] using hdue }

theorem Tells.record_send_of_ne (h : l.Tells worker capacity j w) (hlatest : l.latest i = some p)
    (hp : worker p.sender = i) (hne : i ≠ j) :
    (l.record (.send i o)).Tells worker capacity j w where
  running := h.running
  room := h.room
  queue := h.queue
  latest := h.latest
  due := by
    have hdue := h.due
    simpa [record, Ledger.due, Ledger.rest, hlatest, hp, hne] using hdue

theorem Tells.record_finish {queue : List Packet}
    (h : l.Tells worker capacity i ⟨queue, some [], false⟩) :
    l.Tells worker capacity i ⟨queue, none, false⟩ where
  running := rfl
  room := h.room
  queue := h.queue
  latest := nofun
  due := h.due

/-! ## What an event says of all workers -/

variable {d₀ d d' : Dispatcher} {e : Event} {es : List Event}

theorem Accounts.workerOf (h : l.Accounts d₀ d) : d.workerOf = d₀.workerOf := by
  funext id
  simp only [Dispatcher.workerOf, h.route, h.length]

/-- What holds of every worker still holds when one of them is replaced. -/
theorem forall_set {P Q : Nat → Worker → Prop} {ws : List Worker} {w' : Worker}
    (hall : ∀ j w, ws[j]? = some w → P j w) (hself : Q i w')
    (hother : ∀ j w, i ≠ j → P j w → Q j w) (j : Nat) (w : Worker)
    (hw : (ws.set i w')[j]? = some w) : Q j w := by
  rw [List.getElem?_set] at hw
  split at hw
  next heq =>
    split at hw
    · cases hw
      exact heq ▸ hself
    · cases hw
  next hne => exact hother j w hne (hall j w hw)

theorem accounts_step (h : l.Accounts d₀ d) (hstep : Step d e d') :
    (l.record e).Accounts d₀ d' := by
  cases hstep with
  | @offer p _ hoffer =>
    obtain ⟨w, hw, -, -, hroom, rfl⟩ := offer_eq_queued_iff.1 hoffer
    rw [h.capacity] at hroom
    rw [h.workerOf] at hw ⊢
    have hsame := sum_map_set (·.atHand) hw { w with queue := w.queue ++ [p] }
    exact { h with
      length := by simpa using h.length
      tells := forall_set h.tells ((h.tells _ w hw).record_offer hroom)
        fun j v hne hv => hv.record_offer_of_ne hne
      processed := by
        have := h.processed
        simp only [Worker.atHand, record] at this hsame ⊢
        omega }
  | @take i p queue _ hw htake =>
    obtain ⟨log, heq⟩ := take?_eq hw
    rw [heq] at htake
    cases htake
    have htells := h.tells i _ hw
    have hp := htells.worker_of_mem_queue List.mem_cons_self
    have hmore := sum_map_set (·.atHand) hw ⟨queue, some (process d.strategy d.broker p).out, false⟩
    exact { h with
      length := by simpa using h.length
      tells := forall_set h.tells htells.record_take
        fun j v hne hv => hv.record_take_of_ne hp hne
      processed := by
        have := h.processed
        simp only [Worker.atHand, record, Option.isSome_none, Option.isSome_some, List.length_append,
          List.length_singleton, Bool.false_eq_true, if_false, if_true] at this hmore ⊢
        omega
      broker := by
        rw [taken_record_take, processAll_concat, ← h.broker, ← h.strategy]
      handled := by
        rw [taken_record_take, answers_concat, ← h.broker, ← h.handled, ← h.strategy]
        rfl }
  | @send i queue o rest _ hw hsend =>
    rw [send?_eq hw h.listened] at hsend
    cases hsend
    have htells := h.tells i _ hw
    obtain ⟨p, hlatest, hp⟩ := htells.latest rfl
    have hsame := sum_map_set (·.atHand) hw ⟨queue, some rest, false⟩
    exact { h with
      length := by simpa using h.length
      tells := forall_set h.tells htells.record_send
        fun j v hne hv => hv.record_send_of_ne hlatest hp hne
      sent := by simp [record, hlatest, h.sent]
      processed := by
        have := h.processed
        simp only [Worker.atHand, record, Option.isSome_some, if_true] at this hsame ⊢
        omega }
  | @finish i queue _ hw hfinish =>
    rw [finish?_eq hw] at hfinish
    cases hfinish
    have hless := sum_map_set (·.atHand) hw ⟨queue, none, false⟩
    exact { h with
      length := by simpa using h.length
      tells := forall_set h.tells (h.tells i _ hw).record_finish fun j v _ hv => hv
      processed := by
        have := h.processed
        simp only [Worker.atHand, record, Option.isSome_none, Option.isSome_some, Bool.false_eq_true,
          if_false, if_true] at this hless ⊢
        omega }
  | close => exact { h with }

theorem accounts_run (h₀ : blank.Accounts d₀ d₀) (hrun : Run d₀ es d) :
    (Ledger.of es).Accounts d₀ d := by
  induction hrun with
  | nil => exact h₀
  | step _ hstep ih =>
    rw [of_concat]
    exact accounts_step ih hstep
  | note _ _ _ ih => exact { ih with }

theorem accounts_start (strategy : Strategy) (route : ClientId → Nat) (b : Broker)
    (workers capacity : Nat) :
    blank.Accounts (start strategy route b workers capacity)
      (start strategy route b workers capacity) where
  strategy := rfl
  route := rfl
  capacity := rfl
  length := rfl
  listened := rfl
  tells i w hw := by
    obtain rfl : w = .idle := List.eq_of_mem_replicate (List.mem_of_getElem? hw)
    exact {
      running := rfl
      room := Nat.zero_le _
      queue := rfl
      latest := nofun
      due := rfl }
  sent := rfl
  processed := by simp [start, Worker.atHand, Worker.idle, blank]
  broker := rfl
  handled := rfl

theorem accounts_of_start {strategy : Strategy} {route : ClientId → Nat} {b : Broker}
    {workers capacity : Nat} (hrun : Run (start strategy route b workers capacity) es d) :
    (Ledger.of es).Accounts (start strategy route b workers capacity) d :=
  accounts_run (accounts_start strategy route b workers capacity) hrun

/-! ## What a ledger says of a sender -/

/-- What concerns a sender concerns its worker, so it is found among that. -/
theorem filter_sender_of_worker {α : Type} (worker : ClientId → Nat) (sender : α → ClientId)
    (id : ClientId) (xs : List α) :
    (xs.filter fun x => worker (sender x) = worker id).filter (fun x => sender x = id) =
      xs.filter fun x => sender x = id := by
  rw [List.filter_filter]
  refine List.filter_congr fun x _ => ?_
  by_cases hx : sender x = id <;> simp [hx]

/-- Two lists in which each sender has the same are the same up to order. -/
theorem perm_of_filter_sender {α : Type} {sender : α → ClientId} {xs ys : List α}
    (h : ∀ id, xs.filter (fun x => sender x = id) = ys.filter (fun y => sender y = id)) :
    xs.Perm ys := by
  classical
  refine List.perm_iff_count.2 fun x => ?_
  have hcount : ∀ zs : List α, zs.count x = (zs.filter fun z => sender z = sender x).count x := by
    intro zs
    rw [List.count_filter]
    exact decide_eq_true rfl
  rw [hcount xs, hcount ys, h]

section Sender

variable (h : l.Accounts d₀ d) (hpos : 0 < d₀.workers.length) (id : ClientId)
include h hpos

theorem Accounts.exists_worker :
    ∃ w, d.workers[d₀.workerOf id]? = some w ∧
      l.Tells d₀.workerOf d₀.capacity (d₀.workerOf id) w := by
  have hlt : d₀.workerOf id < d.workers.length := h.length ▸ Nat.mod_lt _ hpos
  exact ⟨_, List.getElem?_eq_getElem hlt, h.tells _ _ (List.getElem?_eq_getElem hlt)⟩

/-- The packets of a sender that were queued are those that its worker has taken, and then those
that wait. -/
theorem Accounts.offered_eq :
    ∃ w ∈ d.workers, l.offered.filter (·.sender = id) =
      l.taken.filter (·.sender = id) ++ w.queue.filter (·.sender = id) := by
  obtain ⟨w, hw, htells⟩ := h.exists_worker hpos id
  refine ⟨w, List.mem_of_getElem? hw, ?_⟩
  have hqueue := congrArg (List.filter (·.sender = id)) htells.queue
  rwa [List.filter_append, filter_sender_of_worker, filter_sender_of_worker] at hqueue

/-- What is due for the packets of a sender is what was sent for them, and then what is still to be
sent. -/
theorem Accounts.due_eq :
    ∃ w ∈ d.workers, l.due.filter (·.1.sender = id) =
      l.sent.filter (·.1.sender = id) ++
        (l.rest (d₀.workerOf id) w).filter (·.1.sender = id) := by
  obtain ⟨w, hw, htells⟩ := h.exists_worker hpos id
  refine ⟨w, List.mem_of_getElem? hw, ?_⟩
  have hdue := congrArg (List.filter (·.1.sender = id)) htells.due
  have hsender := filter_sender_of_worker d₀.workerOf fun x : Packet × Outbound => x.1.sender
  rwa [List.filter_append, hsender, hsender] at hdue

theorem Accounts.inOrder : l.InOrder id := by
  obtain ⟨_, -, hoffered⟩ := h.offered_eq hpos id
  obtain ⟨_, -, hdue⟩ := h.due_eq hpos id
  exact ⟨⟨_, hoffered.symm⟩, ⟨_, hdue.symm⟩⟩

/-- While packets are accepted, one of the sender is queued as soon as its worker has room. -/
theorem Accounts.offer (hopen : d.accepting = true) (payload : Payload) :
    ∃ w, d.workers[d₀.workerOf id]? = some w ∧
      (w.queue.length < d₀.capacity → ∃ d', Step d (.offer ⟨id, payload⟩) d') ∧
      (d₀.capacity ≤ w.queue.length → d.offer ⟨id, payload⟩ = .full) := by
  obtain ⟨w, hw, htells⟩ := h.exists_worker hpos id
  have hw' : d.workers[d.workerOf id]? = some w := by
    rw [h.workerOf]
    exact hw
  rw [← h.capacity]
  refine ⟨w, hw, fun hroom => ?_, fun hfull => ?_⟩
  · exact ⟨_, .offer (offer_eq_queued_iff.2 ⟨w, hw', hopen, htells.running, hroom, rfl⟩)⟩
  · exact offer_eq_full hw' hopen htells.running hfull

end Sender

/-! ## When nothing is left to do -/

theorem Accounts.of_idle (h : l.Accounts d₀ d) (hpos : 0 < d₀.workers.length)
    (hidle : ∀ w ∈ d.workers, w.isIdle = true) (id : ClientId) : l.Complete id := by
  obtain ⟨w, hw, hoffered⟩ := h.offered_eq hpos id
  obtain ⟨v, hv, hdue⟩ := h.due_eq hpos id
  have hqueue := hidle w hw
  have hsending := hidle v hv
  simp only [Worker.isIdle, Bool.and_eq_true, List.isEmpty_iff, Option.isNone_iff_eq_none]
    at hqueue hsending
  rw [hqueue.1, List.filter_nil, List.append_nil] at hoffered
  rw [rest_of_sending_none _ _ hsending.2, List.filter_nil, List.append_nil] at hdue
  exact ⟨hoffered.symm, hdue.symm⟩

/-- When no worker has anything to do every packet that was queued has been counted. -/
theorem Accounts.processed_of_idle (h : l.Accounts d₀ d) (hpos : 0 < d₀.workers.length)
    (hidle : ∀ w ∈ d.workers, w.isIdle = true) : d.processed = l.offered.length := by
  have hcount : (d.workers.map (·.atHand)).sum = 0 := by
    refine List.sum_eq_zero_iff_forall_eq_nat.2 fun n hn => ?_
    obtain ⟨w, hw, rfl⟩ := List.mem_map.1 hn
    have hsending := hidle w hw
    simp only [Worker.isIdle, Bool.and_eq_true, Option.isNone_iff_eq_none] at hsending
    simp [Worker.atHand, hsending.2]
  have hperm : l.taken.Perm l.offered := perm_of_filter_sender fun id => (h.of_idle hpos hidle id).taken
  have hlength := hperm.length_eq
  have hprocessed := h.processed
  simp only [taken, List.length_map] at hlength
  omega

end Ledger

/-- A pool of any number of workers, with queues of any length and any way to spread the senders. In
every run from the start there are that many workers, and no more packets wait for one of them than
its queue has room for, where nought counts as one. Until the queues are closed a packet is queued
as soon as its sender's worker has room, and never after. The packets that were taken are answered
as `process` answers them one after the other. For every sender they are the first of those that
were queued, and what was sent for them is the beginning of all that was due for them, in order.

When the workers have nothing left to do, as when the queues were closed and the last worker has
come to its end, nothing is left of either: each packet was answered once and counted, and each
answer was sent in full. And it comes to that: close the queues at any moment, and the workers alone
can get there. -/
theorem order_kept (strategy : Strategy) (route : ClientId → Nat) (b : Broker)
    (workers capacity : Nat) (es : List Event) (d : Dispatcher)
    (hrun : Run (start strategy route b workers capacity) es d) :
    let l := Ledger.of es
    d.workers.length = max 1 workers ∧
    (∀ w ∈ d.workers, w.queue.length ≤ max 1 capacity) ∧
    (d.accepting = true → ∀ id payload,
      ∃ w, d.workers[route id % max 1 workers]? = some w ∧
        (w.queue.length < max 1 capacity → ∃ d', Step d (.offer ⟨id, payload⟩) d') ∧
        (max 1 capacity ≤ w.queue.length → d.offer ⟨id, payload⟩ = .full)) ∧
    (d.accepting = false → ∀ p, d.offer p = .refused) ∧
    l.handled = answers strategy b l.taken ∧
    d.broker = processAll strategy b l.taken ∧
    d.sent = l.sent.map (·.2) ∧
    (∀ id, l.InOrder id) ∧
    ((∀ w ∈ d.workers, w.isIdle = true) →
      (∀ id, l.Complete id) ∧ l.taken.Perm l.offered ∧ d.processed = l.offered.length) ∧
    ∃ fs d', Run d ([.close] ++ fs) d' ∧ (∀ e ∈ fs, e.isWork = true) ∧
      ∀ w ∈ d'.workers, w.isIdle = true := by
  intro l
  have h := Ledger.accounts_of_start hrun
  have hlength : (start strategy route b workers capacity).workers.length = max 1 workers :=
    List.length_replicate
  have hpos : 0 < (start strategy route b workers capacity).workers.length := by omega
  refine ⟨h.length.trans hlength, ?_, ?_, offer_eq_refused, h.handled, h.broker, h.sent,
    h.inOrder hpos, ?_, ?_⟩
  · intro w hw
    obtain ⟨i, hi⟩ := List.mem_iff_getElem?.1 hw
    exact (h.tells i w hi).room
  · intro hopen id payload
    rw [← hlength]
    exact h.offer hpos id hopen payload
  · intro hidle
    exact ⟨h.of_idle hpos hidle,
      Ledger.perm_of_filter_sender fun id => (h.of_idle hpos hidle id).taken,
      h.processed_of_idle hpos hidle⟩
  · obtain ⟨fs, d', hfs, hwork, hrest⟩ := exists_rest d.close
    have hclosed : Run d ([.close] ++ fs) d' := (Run.nil.step .close).trans hfs
    refine ⟨fs, d', hclosed, hwork, fun w hw => ?_⟩
    -- Nobody gives up in a run in which what is sent is listened to.
    obtain ⟨i, hi⟩ := List.mem_iff_getElem?.1 hw
    have hrunning := ((Ledger.accounts_of_start (hrun.trans hclosed)).tells i w hi).running
    exact (hrest w hw).resolve_right (by simp [hrunning])

/-- Two strangers ask two workers, and the second gets its answer first. -/
theorem order_kept_strangers :
    let p : Packet := ⟨"x", .pingreq ⟨0, 0⟩⟩
    let q : Packet := ⟨"y", .pingreq ⟨0, 0⟩⟩
    let route : ClientId → Nat := fun id => if id = "x" then 0 else 1
    let b : Broker := .start 1 ⟨⟨⟨"b", "h", 1⟩, .world⟩, []⟩
    ∃ es d, Run (start .standalone route b 2 0) es d ∧ (∀ w ∈ d.workers, w.isIdle = true) ∧
      (Ledger.of es).offered = [p, q] ∧ (Ledger.of es).taken = [q, p] ∧ d.processed = 2 := by
  intro p q route b
  have hrun : ∃ es d, Run (start .standalone route b 2 0) es d ∧
      (∀ w ∈ d.workers, w.isIdle = true) ∧
      (Ledger.of es).offered = [p, q] ∧ (Ledger.of es).taken = [q, p] := by
    have hstart : Run (start .standalone route b 2 0) [] (start .standalone route b 2 0) := .nil
    have hqueued := hstart.step (.offer (p := p) rfl)
    have hqueued' := hqueued.step (.offer (p := q) rfl)
    have htaken := hqueued'.step (.take (i := 1) rfl rfl)
    have htaken' := htaken.step (.take (i := 0) rfl rfl)
    have hsent := htaken'.step (.send (i := 1) rfl rfl)
    have hsent' := hsent.step (.send (i := 0) rfl rfl)
    have hdone := hsent'.step (.finish (i := 0) rfl rfl)
    have hdone' := hdone.step (.finish (i := 1) rfl rfl)
    exact ⟨_, _, hdone', List.all_eq_true.1 rfl, rfl, rfl⟩
  obtain ⟨es, d, hrun, hidle, hoffered, htaken⟩ := hrun
  obtain ⟨-, -, -, -, -, -, -, -, hend, -⟩ := order_kept .standalone route b 2 0 es d hrun
  refine ⟨es, d, hrun, hidle, hoffered, htaken, ?_⟩
  rw [(hend hidle).2.2, hoffered]
  rfl

end Dispatcher

end Geocast
