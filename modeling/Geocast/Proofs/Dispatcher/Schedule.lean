import Geocast.Proofs.Dispatcher.Order

/-!
# Workers that take turns

`dispatchAll` and `stop` run the steps of a pool in one order: a worker that gets its turn empties
its queue, and turns come when a packet finds no room and at the end. That is one of the runs of the
pool, and nobody waits for ever in it: there is room for every packet, none is refused, and at the
end no worker has anything left to do.

* `Worked`: workers alone have led from one state to another, in which their states are known.
* `worked_handle`, `worked_empty`, `worked_settle`: one packet, one queue, all queues.
* `Ready`: between two turns nobody is in the middle of an answer, and who has packets has a turn.
* `ready_dispatch`, `ready_dispatches`: packets that are handed over are queued.
* `stop_dispatchAll`: handing over packets and stopping is a run that ends with all of them counted.
-/
namespace Geocast

/-- Between two packets: a worker has nothing left to send and has not given up. -/
def Worker.Waits (w : Worker) : Prop := w.sending = none ∧ w.stopped = false

namespace Dispatcher

variable {d d' d'' : Dispatcher} {i : Nat} {p : Packet} {queue : List Packet}
  {ws ws' : List Worker}

/-! ## Work -/

/-- The workers of `d` have worked, and then the pool is `d'` and its workers are `ws`. -/
structure Worked (d : Dispatcher) (ws : List Worker) (d' : Dispatcher) : Prop where
  run : ∃ es, Run d es d' ∧ ∀ e ∈ es, e.isWork = true
  eq : ∃ turns broker sent processed log, d' = { d with
    workers := ws, turns := turns, broker := broker, sent := sent, processed := processed,
    log := log }

theorem Worked.refl (d : Dispatcher) : Worked d d.workers d where
  run := ⟨[], .nil, List.forall_mem_nil _⟩
  eq := ⟨_, _, _, _, _, rfl⟩

theorem Worked.trans (h : Worked d ws d') (h' : Worked d' ws' d'') : Worked d ws' d'' where
  run := by
    obtain ⟨es, hrun, hes⟩ := h.run
    obtain ⟨fs, hrun', hfs⟩ := h'.run
    exact ⟨es ++ fs, hrun.trans hrun', List.forall_mem_append.2 ⟨hes, hfs⟩⟩
  eq := by
    obtain ⟨_, _, _, _, _, rfl⟩ := h.eq
    obtain ⟨_, _, _, _, _, rfl⟩ := h'.eq
    exact ⟨_, _, _, _, _, rfl⟩

theorem Worked.note (h : Worked d ws d') (turns : List Nat) (log : List LogRecord) :
    Worked d ws { d' with turns := turns, log := log } where
  run := by
    obtain ⟨es, hrun, hes⟩ := h.run
    exact ⟨es, .note turns log hrun, hes⟩
  eq := by
    obtain ⟨_, _, _, _, _, rfl⟩ := h.eq
    exact ⟨_, _, _, _, _, rfl⟩

theorem Worked.workers (h : Worked d ws d') : d'.workers = ws := by
  obtain ⟨_, _, _, _, _, rfl⟩ := h.eq
  rfl

theorem Worked.accepting (h : Worked d ws d') : d'.accepting = d.accepting := by
  obtain ⟨_, _, _, _, _, rfl⟩ := h.eq
  rfl

theorem Worked.listened (h : Worked d ws d') : d'.listened = d.listened := by
  obtain ⟨_, _, _, _, _, rfl⟩ := h.eq
  rfl

theorem Worked.of_step {e : Event} (hstep : Step d e d') (he : e.isWork = true)
    (heq : ∃ turns broker sent processed log, d' = { d with
      workers := ws, turns := turns, broker := broker, sent := sent, processed := processed,
      log := log }) : Worked d ws d' where
  run := ⟨[] ++ [e], Run.nil.step hstep, by simpa using he⟩
  eq := heq

/-! ## Turns -/

theorem getElem?_set_of_some {w w' : Worker} (hw : ws[i]? = some w) :
    (ws.set i w')[i]? = some w' :=
  List.getElem?_set_self (List.getElem?_eq_some_iff.1 hw).1

theorem worked_take (hw : d.workers[i]? = some ⟨p :: queue, none, false⟩) :
    ∃ d' out, d.take? i = some d' ∧ Worked d (d.workers.set i ⟨queue, some out, false⟩) d' := by
  obtain ⟨log, htake⟩ := take?_eq hw
  exact ⟨_, _, htake, .of_step (.take hw htake) rfl ⟨_, _, _, _, _, rfl⟩⟩

theorem worked_send {o : Outbound} {rest : List Outbound}
    (hw : d.workers[i]? = some ⟨queue, some (o :: rest), false⟩) (hl : d.listened = true) :
    ∃ d', d.send? i = some d' ∧ Worked d (d.workers.set i ⟨queue, some rest, false⟩) d' :=
  ⟨_, send?_eq hw hl, .of_step (.send hw (send?_eq hw hl)) rfl ⟨_, _, _, _, _, rfl⟩⟩

theorem worked_finish (hw : d.workers[i]? = some ⟨queue, some [], false⟩) :
    ∃ d', d.finish? i = some d' ∧ Worked d (d.workers.set i ⟨queue, none, false⟩) d' :=
  ⟨_, finish?_eq hw, .of_step (.finish hw (finish?_eq hw)) rfl ⟨_, _, _, _, _, rfl⟩⟩

theorem worked_sends {out : List Outbound} (hw : d.workers[i]? = some ⟨queue, some out, false⟩)
    (hl : d.listened = true) :
    Worked d (d.workers.set i ⟨queue, some [], false⟩)
      (out.foldl (fun d _ => (d.send? i).getD d) d) := by
  induction out generalizing d with
  | nil =>
    obtain ⟨hi, hsame⟩ := List.getElem?_eq_some_iff.1 hw
    rw [← hsame, List.set_getElem_self]
    exact .refl d
  | cons o rest ih =>
    obtain ⟨d', hsend, hsent⟩ := worked_send hw hl
    have hw' : d'.workers[i]? = some ⟨queue, some rest, false⟩ := by
      rw [hsent.workers]
      exact getElem?_set_of_some hw
    have hrest := ih hw' (hsent.listened.trans hl)
    rw [hsent.workers, List.set_set] at hrest
    rw [List.foldl_cons, hsend, Option.getD_some]
    exact hsent.trans hrest

/-- A worker deals with one packet. -/
theorem worked_handle (hw : d.workers[i]? = some ⟨p :: queue, none, false⟩)
    (hl : d.listened = true) : Worked d (d.workers.set i ⟨queue, none, false⟩) (d.handle i) := by
  obtain ⟨d₁, out, htake, htaken⟩ := worked_take hw
  have hw₁ : d₁.workers[i]? = some ⟨queue, some out, false⟩ := by
    rw [htaken.workers]
    exact getElem?_set_of_some hw
  have hsent := worked_sends hw₁ (htaken.listened.trans hl)
  generalize hd₂ : out.foldl (fun d _ => (d.send? i).getD d) d₁ = d₂ at hsent
  have hw₂ : d₂.workers[i]? = some ⟨queue, some [], false⟩ := by
    rw [hsent.workers]
    exact getElem?_set_of_some hw₁
  obtain ⟨d₃, hfinish, hdone⟩ := worked_finish hw₂
  have hhandle : d.handle i = d₃ := by
    simp [handle, htake, pending, hw₁, hd₂, hfinish]
  rw [hsent.workers, htaken.workers, List.set_set, List.set_set] at hdone
  rw [hhandle]
  exact (htaken.trans hsent).trans hdone

/-- A worker deals with the packets that have waited longest. -/
theorem worked_repeat (hw : d.workers[i]? = some ⟨queue, none, false⟩) (hl : d.listened = true)
    {n : Nat} (hn : n ≤ queue.length) :
    Worked d (d.workers.set i ⟨queue.drop n, none, false⟩) (Nat.repeat (handle i) n d) := by
  induction n with
  | zero =>
    obtain ⟨hi, hsame⟩ := List.getElem?_eq_some_iff.1 hw
    rw [List.drop_zero, ← hsame, List.set_getElem_self]
    exact .refl d
  | succ n ih =>
    have hfirst := ih (Nat.le_of_succ_le hn)
    generalize hd₁ : Nat.repeat (handle i) n d = d₁ at hfirst
    have hw₁ : d₁.workers[i]? = some ⟨queue[n] :: queue.drop (n + 1), none, false⟩ := by
      rw [hfirst.workers, ← List.drop_eq_getElem_cons hn]
      exact getElem?_set_of_some hw
    have hnext := worked_handle hw₁ (hfirst.listened.trans hl)
    rw [hfirst.workers, List.set_set] at hnext
    rw [Nat.repeat, hd₁]
    exact hfirst.trans hnext

theorem worked_empty (hw : d.workers[i]? = some ⟨queue, none, false⟩) (hl : d.listened = true) :
    Worked d (d.workers.set i .idle) (d.empty i) := by
  have hempty : d.empty i = Nat.repeat (handle i) queue.length d := by simp [empty, hw]
  have hall := worked_repeat hw hl (Nat.le_refl queue.length)
  rw [List.drop_length] at hall
  rw [hempty]
  exact hall

theorem waits_set (h : ∀ w ∈ ws, w.Waits) : ∀ w ∈ ws.set i .idle, w.Waits := by
  intro w hw
  cases List.mem_or_eq_of_mem_set hw with
  | inl hw => exact h w hw
  | inr hw => exact hw ▸ ⟨rfl, rfl⟩

theorem worked_turns (is : List Nat) (hwaits : ∀ w ∈ d.workers, w.Waits)
    (hl : d.listened = true) :
    Worked d (is.foldl (fun ws i => ws.set i .idle) d.workers) (is.foldl empty d) := by
  induction is generalizing d with
  | nil => exact .refl d
  | cons i is ih =>
    have hfirst : Worked d (d.workers.set i .idle) (d.empty i) := by
      cases hw : d.workers[i]? with
      | none =>
        have hempty : d.empty i = d := by simp [empty, hw, Nat.repeat]
        rw [hempty, List.set_eq_of_length_le (List.getElem?_eq_none_iff.1 hw)]
        exact .refl d
      | some w =>
        obtain ⟨queue, sending, stopped⟩ := w
        obtain ⟨rfl, rfl⟩ := hwaits _ (List.mem_of_getElem? hw)
        exact worked_empty hw hl
    have hrest := ih (d := d.empty i) (by rw [hfirst.workers]; exact waits_set hwaits)
      (hfirst.listened.trans hl)
    rw [hfirst.workers] at hrest
    exact hfirst.trans hrest

/-- After its turn a worker is idle; without one it is as it was. -/
theorem getElem?_turns (is : List Nat) (ws : List Worker) (j : Nat) :
    (is.foldl (fun ws i => ws.set i .idle) ws)[j]? =
      if j ∈ is then ws[j]?.map fun _ => .idle else ws[j]? := by
  induction is generalizing ws with
  | nil => rfl
  | cons i is ih =>
    rw [List.foldl_cons, ih, List.getElem?_set']
    by_cases hi : i = j
    · subst hi
      cases ws[i]? <;> simp
    · simp [hi, Ne.symm hi]

/-! ## Between two turns -/

/-- What is sent is listened to, there are workers and room for packets, and who has packets gets a
turn and is in the middle of none. -/
structure Ready (d : Dispatcher) : Prop where
  listened : d.listened = true
  room : 0 < d.capacity
  workers : 0 < d.workers.length
  waits : ∀ w ∈ d.workers, w.Waits
  turns : ∀ i w, d.workers[i]? = some w → w.queue ≠ [] → i ∈ d.turns

theorem ready_start (strategy : Strategy) (route : ClientId → Nat) (b : Broker)
    (workers capacity : Nat) : (start strategy route b workers capacity).Ready where
  listened := rfl
  room := Nat.lt_of_lt_of_le Nat.one_pos (Nat.le_max_left 1 capacity)
  workers := by
    simp only [start, List.length_replicate]
    omega
  waits w hw := List.eq_of_mem_replicate hw ▸ ⟨rfl, rfl⟩
  turns i w hw hqueue := by
    obtain rfl : w = .idle := List.eq_of_mem_replicate (List.mem_of_getElem? hw)
    exact absurd rfl hqueue

/-- When all have had their turn all queues are empty. -/
theorem worked_settle (h : d.Ready) :
    Worked d (List.replicate d.workers.length .idle) d.settle := by
  have hall := worked_turns d.turns h.waits h.listened
  have hidle : d.turns.foldl (fun ws i => ws.set i .idle) d.workers =
      List.replicate d.workers.length .idle := by
    refine List.ext_getElem? fun j => ?_
    rw [getElem?_turns, List.getElem?_replicate]
    cases hw : d.workers[j]? with
    | none => simp [List.getElem?_eq_none_iff.1 hw]
    | some w =>
      obtain ⟨queue, sending, stopped⟩ := w
      obtain ⟨rfl, rfl⟩ := h.waits _ (List.mem_of_getElem? hw)
      rw [if_pos (List.getElem?_eq_some_iff.1 hw).1]
      split
      · rfl
      next hturn =>
        have hqueue : queue = [] := by_contra fun hqueue => hturn (h.turns j _ hw hqueue)
        rw [hqueue, Worker.idle]
  rw [hidle] at hall
  exact hall.note [] _

theorem Worked.eq_idle {n : Nat} (h : Worked d (List.replicate n .idle) d') :
    ∀ w ∈ d'.workers, w = .idle := by
  intro w hw
  rw [h.workers] at hw
  exact List.eq_of_mem_replicate hw

theorem Ready.of_worked (h : d.Ready)
    (hworked : Worked d (List.replicate d.workers.length .idle) d') : d'.Ready := by
  obtain ⟨_, _, _, _, _, rfl⟩ := hworked.eq
  exact {
    listened := h.listened
    room := h.room
    workers := by simpa using h.workers
    waits := fun w hw => List.eq_of_mem_replicate hw ▸ ⟨rfl, rfl⟩
    turns := fun i w hw hqueue => by
      obtain rfl : w = .idle := List.eq_of_mem_replicate (List.mem_of_getElem? hw)
      exact absurd rfl hqueue }

theorem ready_offer (h : d.Ready) (hopen : d.accepting = true) {w : Worker}
    (hw : d.workers[d.workerOf p.sender]? = some w) (hroom : w.queue.length < d.capacity) :
    ∃ d', d.offer p = .queued d' ∧ d'.Ready ∧ d'.accepting = true := by
  have hwaits := h.waits w (List.mem_of_getElem? hw)
  refine ⟨_, offer_eq_queued_iff.2 ⟨w, hw, hopen, hwaits.2, hroom, rfl⟩, ?_, hopen⟩
  exact {
    listened := h.listened
    room := h.room
    workers := by simpa using h.workers
    waits := fun v hv => by
      cases List.mem_or_eq_of_mem_set hv with
      | inl hv => exact h.waits v hv
      | inr hv => exact hv ▸ hwaits
    turns := fun j v hv hqueue => by
      by_cases hj : d.workerOf p.sender = j
      · subst hj
        split
        next hturn => simpa using hturn
        · exact List.mem_append_right _ (List.mem_singleton_self _)
      · simp only [List.getElem?_set_ne hj] at hv
        have hturn := h.turns j v hv hqueue
        split
        · exact hturn
        · exact List.mem_append_left _ hturn }

/-! ## Handing over -/

/-- The packets that an event queues. -/
def Event.packets : Event → List Packet
  | .offer p => [p]
  | _ => []

theorem offered_foldl (l : Ledger) (es : List Event) :
    (es.foldl Ledger.record l).offered = l.offered ++ es.flatMap Event.packets := by
  induction es generalizing l with
  | nil => simp
  | cons e es ih =>
    rw [List.foldl_cons, ih]
    cases e <;> simp [Ledger.record, Event.packets]

theorem packets_of_work {es : List Event} (hes : ∀ e ∈ es, e.isWork = true) :
    es.flatMap Event.packets = [] := by
  refine List.flatMap_eq_nil_iff.2 fun e he => ?_
  have hwork := hes e he
  cases e with
  | offer | close => cases hwork
  | take | send | finish => rfl

/-- A packet that is handed over is queued, if need be after all workers have had their turn. -/
theorem ready_dispatch (h : d.Ready) (hopen : d.accepting = true) (p : Packet) :
    ∃ es d', d.dispatch p = (d', true) ∧ Run d es d' ∧ es.flatMap Event.packets = [p] ∧
      d'.Ready ∧ d'.accepting = true := by
  have hlt : d.workerOf p.sender < d.workers.length := Nat.mod_lt _ h.workers
  have hw := List.getElem?_eq_getElem hlt
  by_cases hroom : (d.workers[d.workerOf p.sender]).queue.length < d.capacity
  · obtain ⟨d', hoffer, hready, hopen'⟩ := ready_offer h hopen hw hroom
    exact ⟨[] ++ [.offer p], d', by simp only [dispatch, hoffer], Run.nil.step (.offer hoffer), rfl,
      hready, hopen'⟩
  · have hrunning := (h.waits _ (List.mem_of_getElem? hw)).2
    have hfull : d.offer p = .full := offer_eq_full hw hopen hrunning (Nat.le_of_not_lt hroom)
    have hsettled := worked_settle h
    have hready := h.of_worked hsettled
    obtain ⟨es, hrun, hes⟩ := hsettled.run
    have hopen' : d.settle.accepting = true := hsettled.accepting.trans hopen
    have hlt' : d.settle.workerOf p.sender < d.settle.workers.length := Nat.mod_lt _ hready.workers
    have hw' := List.getElem?_eq_getElem hlt'
    have hroom' : (d.settle.workers[d.settle.workerOf p.sender]).queue.length <
        d.settle.capacity := by
      rw [hsettled.eq_idle _ (List.getElem_mem hlt')]
      exact hready.room
    obtain ⟨d', hoffer, hready', hopen''⟩ := ready_offer hready hopen' hw' hroom'
    refine ⟨es ++ [.offer p], d', ?_, hrun.step (.offer hoffer), ?_, hready', hopen''⟩
    · simp only [dispatch, hfull, hoffer]
    · rw [List.flatMap_append, packets_of_work hes]
      rfl

/-- Packets that are handed over one after the other are queued in that order. -/
theorem ready_dispatches (h : d.Ready) (hopen : d.accepting = true) (ps : List Packet)
    (refused : Nat) :
    ∃ es d', ps.foldl (fun (d, refused) p =>
        let (d, taken) := d.dispatch p
        (d, if taken then refused else refused + 1)) (d, refused) = (d', refused) ∧
      Run d es d' ∧ es.flatMap Event.packets = ps ∧ d'.Ready ∧ d'.accepting = true := by
  induction ps generalizing d with
  | nil => exact ⟨[], d, rfl, .nil, rfl, h, hopen⟩
  | cons p ps ih =>
    obtain ⟨es, d₁, hdispatch, hrun, hes, hready, hopen₁⟩ := ready_dispatch h hopen p
    obtain ⟨fs, d', hfold, hrun', hfs, hready', hopen'⟩ := ih hready hopen₁
    refine ⟨es ++ fs, d', ?_, hrun.trans hrun', ?_, hready', hopen'⟩
    · simpa [hdispatch] using hfold
    · rw [List.flatMap_append, hes, hfs]
      rfl

/-- When packets have been handed over and the workers are idle, stopping is a run, too. -/
theorem run_stop (h : d.Ready) :
    ∃ es, Run d es d.stop ∧ es.flatMap Event.packets = [] ∧ d.stop.accepting = false ∧
      ∀ w ∈ d.stop.workers, w.isIdle = true := by
  have hclosed : d.close.Ready := { h with }
  have hsettled := worked_settle hclosed
  obtain ⟨es, hrun, hes⟩ := hsettled.run
  refine ⟨([] ++ [.close]) ++ es, ?_, ?_, ?_, ?_⟩
  · exact .note _ _ ((Run.nil.step .close).trans hrun)
  · rw [List.flatMap_append, packets_of_work hes]
    rfl
  · exact hsettled.accepting
  · intro w hw
    rw [hsettled.eq_idle w hw]
    rfl

theorem isAtRest_stop (h : d.Ready) : d.stop.isAtRest = true := by
  obtain ⟨_, -, -, -, hidle⟩ := run_stop h
  exact List.all_eq_true.2 fun w hw => by rw [hidle w hw, Bool.true_or]

/-- A pool that is started, given packets and stopped refuses none of them, and when it has stopped
all have been answered and counted. -/
theorem stop_dispatchAll (strategy : Strategy) (route : ClientId → Nat) (b : Broker)
    (workers capacity : Nat) (ps : List Packet) :
    let d₀ := start strategy route b workers capacity
    (d₀.dispatchAll ps).2 = 0 ∧
    ∃ es, Run d₀ es (d₀.dispatchAll ps).1.stop ∧ (Ledger.of es).offered = ps ∧
      (Ledger.of es).taken.Perm ps ∧ (d₀.dispatchAll ps).1.stop.processed = ps.length := by
  intro d₀
  have hready := ready_start strategy route b workers capacity
  obtain ⟨es, d, hfold, hrun, hes, hd, -⟩ := ready_dispatches hready rfl ps 0
  have hsettled := worked_settle hd
  obtain ⟨fs, hrun', hfs⟩ := hsettled.run
  obtain ⟨gs, hrun'', hgs, -, hidle⟩ := run_stop (hd.of_worked hsettled)
  have hall : d₀.dispatchAll ps = (d.settle, 0) := by
    simp only [dispatchAll, d₀, hfold]
  have hrunAll : Run d₀ (es ++ fs ++ gs) d.settle.stop := (hrun.trans hrun').trans hrun''
  have hoffered : (Ledger.of (es ++ fs ++ gs)).offered = ps := by
    rw [Ledger.of, offered_foldl, List.flatMap_append, List.flatMap_append, hes,
      packets_of_work hfs, hgs]
    simp [Ledger.blank]
  have haccounts := Ledger.accounts_of_start hrunAll
  rw [hall]
  refine ⟨rfl, es ++ fs ++ gs, hrunAll, hoffered, ?_, ?_⟩
  · rw [← hoffered]
    exact Ledger.perm_of_filter_sender fun id => (haccounts.of_idle hready.workers hidle id).taken
  · rw [← hoffered]
    exact haccounts.processed_of_idle hready.workers hidle

end Dispatcher

end Geocast
