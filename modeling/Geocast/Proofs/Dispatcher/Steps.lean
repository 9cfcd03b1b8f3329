import Geocast.Dispatcher
import Mathlib

/-!
# What can happen to a pool of workers

The steps of a pool may follow each other in any order: packets are handed over, each worker takes,
sends and counts, and at some moment nothing more is accepted. `Step` says what one step does, with
an `Event` that tells which, and `Run` puts steps into a sequence, one for every interleaving. Whose
turn comes next and what is logged is the business of whoever runs the workers; a run leaves both
open.

* `offer_eq_queued_iff`, `offer_eq_full`, `offer_eq_refused`: what comes of offering a packet.
* `take?_eq`, `send?_eq`, `finish?_eq`: when a worker can take a step, and what it does.
* `exists_work`: a worker that has something to do has a step that it can take.
* `isAtRest_iff`: a pool is at rest when no worker has one.
* `work_wellFounded`: left to themselves the workers come to an end, in whatever order they work.
* `exists_rest`: so from every state they can get to where nothing is left to do.
-/
namespace Geocast

/-- How much is left to do of the answer that a worker has given: every output and the count. -/
def Worker.left (w : Worker) : Nat := w.sending.elim 0 fun rest => rest.length + 1

namespace Dispatcher

inductive Event where
  | offer (p : Packet)
  | take (i : Nat) (p : Packet) (out : List Outbound)
  | send (i : Nat) (o : Outbound)
  | finish (i : Nat)
  | close

/-- Whether it is a worker that does something. -/
def Event.isWork : Event → Bool
  | .take _ _ _ | .send _ _ | .finish _ => true
  | .offer _ | .close => false

def close (d : Dispatcher) : Dispatcher := { d with accepting := false }

/-- One step of a pool: a packet is queued, or a worker takes a packet and answers it, sends the
next output (gives up, if nobody listens) or counts the packet, or the queues are closed. -/
inductive Step (d : Dispatcher) : Event → Dispatcher → Prop
  | offer {p d'} (h : d.offer p = .queued d') : Step d (.offer p) d'
  | take {i p queue d'} (hw : d.workers[i]? = some ⟨p :: queue, none, false⟩)
      (h : d.take? i = some d') : Step d (.take i p (process d.strategy d.broker p).out) d'
  | send {i queue o rest d'} (hw : d.workers[i]? = some ⟨queue, some (o :: rest), false⟩)
      (h : d.send? i = some d') : Step d (.send i o) d'
  | finish {i queue d'} (hw : d.workers[i]? = some ⟨queue, some [], false⟩)
      (h : d.finish? i = some d') : Step d (.finish i) d'
  | close : Step d .close d.close

/-- Steps one after the other. Turns and log may be changed in between. -/
inductive Run (d₀ : Dispatcher) : List Event → Dispatcher → Prop
  | nil : Run d₀ [] d₀
  | step {es d e d'} (run : Run d₀ es d) (h : Step d e d') : Run d₀ (es ++ [e]) d'
  | note {es d} (turns : List Nat) (log : List LogRecord) (run : Run d₀ es d) :
      Run d₀ es { d with turns := turns, log := log }

theorem Run.trans {d₀ d d' : Dispatcher} {es fs : List Event} (h : Run d₀ es d)
    (h' : Run d fs d') : Run d₀ (es ++ fs) d' := by
  induction h' with
  | nil => simpa using h
  | step _ hstep ih =>
    rw [← List.append_assoc]
    exact .step ih hstep
  | note turns log _ ih => exact .note turns log ih

variable {d d' : Dispatcher} {i : Nat} {p : Packet} {w : Worker}

/-! ## What the steps do -/

/-- A packet is queued for the worker of its sender, if packets are accepted and the worker has not
given up and has room. -/
theorem offer_eq_queued_iff :
    d.offer p = .queued d' ↔
      ∃ w, d.workers[d.workerOf p.sender]? = some w ∧ d.accepting = true ∧ w.stopped = false ∧
        w.queue.length < d.capacity ∧
        d' = { d with
          workers := d.workers.set (d.workerOf p.sender) { w with queue := w.queue ++ [p] }
          turns := if d.turns.contains (d.workerOf p.sender) then d.turns
            else d.turns ++ [d.workerOf p.sender] } := by
  simp only [offer]
  cases hw : d.workers[d.workerOf p.sender]? with
  | none => simp
  | some w =>
    simp only [Option.some.injEq, exists_eq_left']
    split
    next hclosed =>
      simp only [Bool.or_eq_true, Bool.not_eq_true'] at hclosed
      grind
    next hopen =>
      simp only [Bool.or_eq_true, Bool.not_eq_true', not_or, Bool.not_eq_false,
        Bool.not_eq_true] at hopen
      split
      next hfull => simp [Nat.not_lt.2 hfull]
      next hroom => simp [hopen, Nat.lt_of_not_le hroom, eq_comm]

/-- A packet has to wait while the queue of its worker is full. -/
theorem offer_eq_full (hw : d.workers[d.workerOf p.sender]? = some w) (hopen : d.accepting = true)
    (hrunning : w.stopped = false) (hfull : d.capacity ≤ w.queue.length) : d.offer p = .full := by
  simp [offer, hw, hopen, hrunning, hfull]

/-- Nothing is queued after the queues were closed. -/
theorem offer_eq_refused (hclosed : d.accepting = false) (p : Packet) :
    d.offer p = .refused := by
  unfold offer
  dsimp only
  split
  · rfl
  · simp [hclosed]

theorem take?_eq {queue : List Packet} (hw : d.workers[i]? = some ⟨p :: queue, none, false⟩) :
    ∃ log, d.take? i = some { d with
      workers := d.workers.set i ⟨queue, some (process d.strategy d.broker p).out, false⟩
      broker := (process d.strategy d.broker p).broker
      log := log } := by
  simp only [take?, hw]
  exact ⟨_, rfl⟩

theorem send?_eq {queue : List Packet} {o : Outbound} {rest : List Outbound}
    (hw : d.workers[i]? = some ⟨queue, some (o :: rest), false⟩) (hl : d.listened = true) :
    d.send? i = some { d with
      workers := d.workers.set i ⟨queue, some rest, false⟩
      sent := d.sent ++ [o] } := by
  simp only [send?, hw, hl, if_true]

theorem send?_eq_of_not_listened {queue : List Packet} {o : Outbound} {rest : List Outbound}
    (hw : d.workers[i]? = some ⟨queue, some (o :: rest), false⟩) (hl : d.listened = false) :
    ∃ log, d.send? i = some { d with workers := d.workers.set i ⟨[], none, true⟩, log := log } := by
  simp only [send?, hw, hl, Bool.false_eq_true, if_false]
  exact ⟨_, rfl⟩

theorem finish?_eq {queue : List Packet} (hw : d.workers[i]? = some ⟨queue, some [], false⟩) :
    d.finish? i = some { d with
      workers := d.workers.set i ⟨queue, none, false⟩
      processed := d.processed + 1 } := by
  simp only [finish?, hw]

/-! ## Workers come to an end -/

theorem exists_work (hw : d.workers[i]? = some w) (hbusy : w.isIdle = false)
    (hrunning : w.stopped = false) : ∃ e d', e.isWork = true ∧ Step d e d' := by
  obtain ⟨queue, sending, stopped⟩ := w
  subst hrunning
  match queue, sending with
  | [], none => cases hbusy
  | p :: queue, none =>
    obtain ⟨log, h⟩ := take?_eq hw
    exact ⟨_, _, rfl, .take hw h⟩
  | queue, some [] => exact ⟨_, _, rfl, .finish hw (finish?_eq hw)⟩
  | queue, some (o :: rest) =>
    cases hl : d.listened with
    | true => exact ⟨_, _, rfl, .send hw (send?_eq hw hl)⟩
    | false =>
      obtain ⟨log, h⟩ := send?_eq_of_not_listened hw hl
      exact ⟨_, _, rfl, .send hw h⟩

/-- A pool is at rest when none of its workers can do anything, and only then. -/
theorem isAtRest_iff : d.isAtRest = true ↔ ∀ e d', Step d e d' → e.isWork = false := by
  constructor
  · intro hrest e d' hstep
    have hworker : ∀ {i} {w : Worker}, d.workers[i]? = some w →
        w.isIdle = true ∨ w.stopped = true :=
      fun hw => by simpa using List.all_eq_true.1 hrest _ (List.mem_of_getElem? hw)
    cases hstep with
    | offer | close => rfl
    | take hw | send hw | finish hw => simpa [Worker.isIdle] using hworker hw
  · intro hnone
    refine List.all_eq_true.2 fun w hw => ?_
    by_contra hbusy
    simp only [Bool.or_eq_true, not_or, Bool.not_eq_true] at hbusy
    obtain ⟨i, hi⟩ := List.mem_iff_getElem?.1 hw
    obtain ⟨e, d', he, hstep⟩ := exists_work hi hbusy.1 hbusy.2
    exact absurd he (by simp [hnone e d' hstep])

/-- What is left to do: the packets that wait, and below them the answers that were given. -/
def work (d : Dispatcher) : Nat ×ₗ Nat :=
  toLex ((d.workers.map (·.queue.length)).sum, (d.workers.map (·.left)).sum)

theorem sum_map_set (f : Worker → Nat) {ws : List Worker} (hw : ws[i]? = some w) (w' : Worker) :
    ((ws.set i w').map f).sum + f w = (ws.map f).sum + f w' := by
  induction ws generalizing i with
  | nil => cases hw
  | cons v ws ih =>
    cases i with
    | zero =>
      cases hw
      simp only [List.set_cons_zero, List.map_cons, List.sum_cons]
      omega
    | succ i =>
      have := ih hw
      simp only [List.set_cons_succ, List.map_cons, List.sum_cons]
      omega

theorem work_lt_of_set (hw : d.workers[i]? = some w) {w' : Worker}
    (hd' : d'.workers = d.workers.set i w')
    (h : w'.queue.length < w.queue.length ∨
      w'.queue.length = w.queue.length ∧ w'.left < w.left) : d'.work < d.work := by
  have hqueue := sum_map_set (·.queue.length) hw w'
  have hleft := sum_map_set (·.left) hw w'
  simp only [work, hd', Prod.Lex.toLex_lt_toLex]
  omega

theorem work_lt {e : Event} (h : Step d e d') (he : e.isWork = true) : d'.work < d.work := by
  cases h with
  | offer | close => cases he
  | take hw h =>
    obtain ⟨log, heq⟩ := take?_eq hw
    rw [heq] at h
    cases h
    exact work_lt_of_set hw rfl (.inl (Nat.lt_succ_self _))
  | @send i queue o rest _ hw h =>
    cases hl : d.listened with
    | true =>
      rw [send?_eq hw hl] at h
      cases h
      exact work_lt_of_set hw rfl (.inr ⟨rfl, Nat.lt_succ_self _⟩)
    | false =>
      obtain ⟨log, heq⟩ := send?_eq_of_not_listened hw hl
      rw [heq] at h
      cases h
      refine work_lt_of_set hw rfl ?_
      simp only [Worker.left, Option.elim_some, Option.elim_none, List.length_cons, List.length_nil]
      omega
  | finish hw h =>
    rw [finish?_eq hw] at h
    cases h
    exact work_lt_of_set hw rfl (.inr ⟨rfl, Nat.lt_succ_self _⟩)

/-- The workers alone cannot go on for ever. -/
theorem work_wellFounded :
    WellFounded fun d' d : Dispatcher => ∃ e : Event, e.isWork = true ∧ Step d e d' :=
  Subrelation.wf (fun ⟨_, he, h⟩ => work_lt h he) (InvImage.wf work wellFounded_lt)

/-- However a pool stands, its workers can get to where each has nothing to do or has given up. -/
theorem exists_rest (d : Dispatcher) :
    ∃ es d', Run d es d' ∧ (∀ e ∈ es, e.isWork = true) ∧
      ∀ w ∈ d'.workers, w.isIdle = true ∨ w.stopped = true := by
  induction d using work_wellFounded.induction with
  | _ d ih =>
    by_cases hrest : ∀ w ∈ d.workers, w.isIdle = true ∨ w.stopped = true
    · exact ⟨[], d, .nil, List.forall_mem_nil _, hrest⟩
    · simp only [not_forall, not_or, Bool.not_eq_true] at hrest
      obtain ⟨w, hw, hbusy, hrunning⟩ := hrest
      obtain ⟨i, hi⟩ := List.mem_iff_getElem?.1 hw
      obtain ⟨e, d₁, he, hstep⟩ := exists_work hi hbusy hrunning
      obtain ⟨es, d', hrun, hes, hrest⟩ := ih d₁ ⟨e, he, hstep⟩
      exact ⟨[e] ++ es, d', (Run.nil.step hstep).trans hrun,
        List.forall_mem_cons.2 ⟨he, hes⟩, hrest⟩

end Dispatcher

end Geocast
