import Geocast.Number.Mixing
import Geocast.Packet.Inspect
import Geocast.Protocol

/-!
# A pool of workers

Packets are handed to workers by their sender: `route` gives every sender a number, and all packets
of one sender wait in the queue of one worker, in the order in which they came. A queue has a
capacity. A worker takes a packet from its queue, answers it, sends the outputs one by one, and only
then counts the packet and takes the next one. When nobody listens to what is sent, a worker that
has something to send stops, and what still waits in its queue is lost.

The steps that may follow each other in any order are `offer`, `take?`, `send?` and `finish?`, the
last three for each worker. `dispatch` and `settle` run them in one order: workers work when a
packet has to wait for room in a queue, and until nothing is left to do; each empties its queue when
it gets its turn, and turns come in the order in which packets came for the workers.
-/
namespace Geocast

/-- A worker: the packets waiting for it, what is still to be sent of the answer to the packet at
hand, if there is one, and whether it has given up. -/
structure Worker where
  queue : List Packet
  sending : Option (List Outbound)
  stopped : Bool

namespace Worker

def idle : Worker := ⟨[], none, false⟩

def isIdle (w : Worker) : Bool := w.queue.isEmpty && w.sending.isNone

end Worker

/-- A pool of workers around a broker; `turns` are the workers that will get their turn, in
order. -/
structure Dispatcher where
  strategy : Strategy
  route : ClientId → Nat
  capacity : Nat
  workers : List Worker
  turns : List Nat
  broker : Broker
  accepting : Bool
  listened : Bool
  sent : List Outbound
  processed : Nat
  log : List LogRecord

namespace Dispatcher

/-- A pool of workers with nothing to do, which get their first turn one after the other. There is
at least one worker, with room for at least one packet. -/
def start (strategy : Strategy) (route : ClientId → Nat) (broker : Broker)
    (workers capacity : Nat) : Dispatcher where
  strategy := strategy
  route := route
  capacity := max 1 capacity
  workers := List.replicate (max 1 workers) .idle
  turns := List.range (max 1 workers)
  broker := broker
  accepting := true
  listened := true
  sent := []
  processed := 0
  log := [⟨.info, "started " ++ toString (max 1 workers) ++ " workers"⟩]

/-- A number for every sender, which spreads senders evenly. -/
def spread (id : ClientId) : Nat := (Mixing.mix id.toUTF8.toList).toNat

/-! ## Steps -/

inductive Offer where
  | queued (d : Dispatcher)
  | full
  | refused

def workerOf (d : Dispatcher) (id : ClientId) : Nat := d.route id % d.workers.length

/-- Puts a packet into the queue of its sender's worker if there is room. -/
def offer (d : Dispatcher) (p : Packet) : Offer :=
  let i := d.workerOf p.sender
  match d.workers[i]? with
  | none => .refused
  | some w =>
    if !d.accepting || w.stopped then .refused
    else if d.capacity ≤ w.queue.length then .full
    else
      .queued { d with
        workers := d.workers.set i { w with queue := w.queue ++ [p] }
        turns := if d.turns.contains i then d.turns else d.turns ++ [i] }

/-- Worker `i`, having nothing to send, takes the packet that has waited longest, and answers it. -/
def take? (d : Dispatcher) (i : Nat) : Option Dispatcher :=
  match d.workers[i]? with
  | some ⟨p :: queue, none, false⟩ =>
    let outcome := process d.strategy d.broker p
    let record : LogRecord :=
      ⟨.trace, "worker " ++ toString i ++ " processing " ++ p.payload.kind ++ " from " ++ p.sender⟩
    some { d with
      workers := d.workers.set i ⟨queue, some outcome.out, false⟩
      broker := outcome.broker
      log := d.log ++ record :: outcome.log }
  | _ => none

/-- Worker `i` sends the next output, or gives up because nobody listens. -/
def send? (d : Dispatcher) (i : Nat) : Option Dispatcher :=
  match d.workers[i]? with
  | some ⟨queue, some (o :: rest), false⟩ =>
    if d.listened then
      some { d with
        workers := d.workers.set i ⟨queue, some rest, false⟩
        sent := d.sent ++ [o] }
    else
      some { d with
        workers := d.workers.set i ⟨[], none, true⟩
        log := d.log ++ [⟨.warning, "worker " ++ toString i ++ " outbound channel closed, " ++
          Inspect.outbound o⟩] }
  | _ => none

/-- Worker `i`, having sent everything, counts the packet. -/
def finish? (d : Dispatcher) (i : Nat) : Option Dispatcher :=
  match d.workers[i]? with
  | some ⟨queue, some [], false⟩ =>
    some { d with
      workers := d.workers.set i ⟨queue, none, false⟩
      processed := d.processed + 1 }
  | _ => none

/-! ## Running the workers -/

/-- What worker `i` has still to send of the answer to its packet. -/
def pending (d : Dispatcher) (i : Nat) : List Outbound := ((d.workers[i]?).bind (·.sending)).getD []

/-- Worker `i` deals with one packet, as far as it gets. -/
def handle (i : Nat) (d : Dispatcher) : Dispatcher :=
  match d.take? i with
  | none => d
  | some d =>
    let d := (d.pending i).foldl (fun d _ => (d.send? i).getD d) d
    (d.finish? i).getD d

def empty (d : Dispatcher) (i : Nat) : Dispatcher :=
  Nat.repeat (handle i) ((d.workers[i]?).map (·.queue.length) |>.getD 0) d

/-- The workers get their turns and empty their queues. -/
def settle (d : Dispatcher) : Dispatcher := { d.turns.foldl empty d with turns := [] }

/-- Hands over a packet, waiting for room if there is none; whether it was taken. -/
def dispatch (d : Dispatcher) (p : Packet) : Dispatcher × Bool :=
  match d.offer p with
  | .queued d => (d, true)
  | .refused => (d, false)
  | .full =>
    match d.settle.offer p with
    | .queued d => (d, true)
    | _ => (d.settle, false)

/-- Hands over packets one after the other, then lets the workers empty their queues; also gives the
number of packets that were refused. -/
def dispatchAll (d : Dispatcher) (ps : List Packet) : Dispatcher × Nat :=
  let (d, refused) := ps.foldl
    (fun (d, refused) p =>
      let (d, taken) := d.dispatch p
      (d, if taken then refused else refused + 1))
    (d, 0)
  (d.settle, refused)

def unlisten (d : Dispatcher) : Dispatcher := { d with listened := false }

def flush (d : Dispatcher) : Dispatcher := { d with sent := [], log := [] }

/-- Whether every worker has nothing left to do or has given up. -/
def isAtRest (d : Dispatcher) : Bool := d.workers.all fun w => w.isIdle || w.stopped

/-- Accepts nothing more and lets the workers empty their queues. -/
def stop (d : Dispatcher) : Dispatcher :=
  let d := { d with accepting := false }.settle
  let exits := (d.workers.zipIdx.filter fun (w, _) => !w.stopped).map fun (_, i) =>
    (⟨.debug, "worker " ++ toString i ++ " exit"⟩ : LogRecord)
  { d with log := d.log ++ exits }

def summary (d : Dispatcher) : String :=
  "Dispatcher \x7b workers: " ++ toString d.workers.length ++ ", processed: " ++
    toString d.processed ++ " \x7d"

end Dispatcher

end Geocast
