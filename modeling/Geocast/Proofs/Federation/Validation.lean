import Geocast.Proofs.Federation.Entries
import Mathlib.Data.List.Induction

/-!
# An area list is accepted as a whole or refused at its first fault

The list is gone through once, with the home area kept apart from the peers. An entry is compared
with both before its boundary is read, so an id is told to be repeated exactly when it stands in the
list before, and the first entry at fault ends the pass. Only a list without faults can miss the
broker itself.

* `Faultless`, `Fault`: lists without faults, and what is wrong with an entry behind such a list.
* `Seen`: what is kept of the entries before.
* `collect_of_faultless`, `collect_of_fault`: one step of the pass.
* `exists_seen`: the pass through entries without faults.
* `FirstFault`, `Described`: what a list is refused for, and what is made of an accepted one.
* `ofEntries_validates`: all of it.
-/
namespace Geocast

/-- Whether the boundary of an entry is a geofence that meets another one. -/
def AreaEntry.meets (e : AreaEntry) (g : Geofence) : Bool :=
  match e.area with
  | .ok area => area.fence.intersects g
  | .error _ => false

namespace Federation

/-! ## Faults -/

/-- No id appears twice, and every boundary is a geofence. -/
structure Faultless (entries : List AreaEntry) : Prop where
  nodup : (entries.map (·.id)).Nodup
  fenced : ∀ e ∈ entries, ∃ g, Geofence.ofWellKnownText e.boundary = .ok g

/-- What is wrong with an entry that comes after others: its id is one of theirs, or else its
boundary is no geofence. -/
inductive Fault (before : List AreaEntry) (e : AreaEntry) : AreaError → Prop where
  | repeated (h : e.id ∈ before.map (·.id)) : Fault before e (.duplicateBroker e.id)
  | unfenced {cause : GeofenceError} (h : e.id ∉ before.map (·.id))
      (hboundary : Geofence.ofWellKnownText e.boundary = .error cause) :
      Fault before e (.invalidBoundary e.id cause)

/-- What a list is refused for: the fault of the earliest entry that has one, or if none has one
that the broker itself is missing. -/
def FirstFault (id : String) (entries : List AreaEntry) (error : AreaError) : Prop :=
  (∃ before e after, entries = before ++ e :: after ∧ Faultless before ∧ Fault before e error) ∨
    (Faultless entries ∧ id ∉ entries.map (·.id) ∧ error = .missingLocalBroker id)

variable {id : String} {entries before rest : List AreaEntry} {e : AreaEntry}

theorem faultless_nil : Faultless [] := ⟨List.nodup_nil, fun _ he => nomatch he⟩

theorem faultless_concat : Faultless (before ++ [e]) ↔
    Faultless before ∧ e.id ∉ before.map (·.id) ∧
      ∃ g, Geofence.ofWellKnownText e.boundary = .ok g := by
  constructor
  · rintro ⟨hnodup, hfenced⟩
    rw [List.map_append, List.map_singleton, ← List.concat_eq_append, List.nodup_concat] at hnodup
    exact ⟨⟨hnodup.2, fun x hx => hfenced x (List.mem_append_left _ hx)⟩, hnodup.1,
      hfenced e (by simp)⟩
  · rintro ⟨⟨hnodup, hfenced⟩, hnew, hown⟩
    refine ⟨?_, fun x hx => ?_⟩
    · rw [List.map_append, List.map_singleton, ← List.concat_eq_append, List.nodup_concat]
      exact ⟨hnew, hnodup⟩
    · rcases List.mem_append.1 hx with hx | hx
      · exact hfenced x hx
      · rwa [List.mem_singleton.1 hx]

/-- A list has no fault, or an earliest entry with one. -/
theorem faultless_or_fault (entries : List AreaEntry) : Faultless entries ∨
    ∃ before e after error,
      entries = before ++ e :: after ∧ Faultless before ∧ Fault before e error := by
  induction entries using List.reverseRecOn with
  | nil => exact .inl faultless_nil
  | append_singleton before e ih =>
    rcases ih with hbefore | ⟨front, x, after, error, rfl, hfront, hfault⟩
    · by_cases hmem : e.id ∈ before.map (·.id)
      · exact .inr ⟨before, e, [], _, rfl, hbefore, .repeated hmem⟩
      · cases hboundary : Geofence.ofWellKnownText e.boundary with
        | ok g => exact .inl (faultless_concat.2 ⟨hbefore, hmem, g, hboundary⟩)
        | error cause => exact .inr ⟨before, e, [], _, rfl, hbefore, .unfenced hmem hboundary⟩
    · exact .inr ⟨front, x, after ++ [e], error, by simp, hfront, hfault⟩

/-! ## The pass through the list -/

/-- What is kept of the entries before: the home area if the broker was among them, and the
others. -/
structure Seen (id : String) (before : List AreaEntry) (home : Option Area) (peers : List Area) :
    Prop where
  home_iff : home.isSome = true ↔ id ∈ before.map (·.id)
  peers_iff : ∀ x, (∃ peer ∈ peers, peer.info.id = x) ↔ x ≠ id ∧ x ∈ before.map (·.id)

variable {home : Option Area} {peers : List Area}

theorem seen_nil (id : String) : Seen id [] none [] :=
  ⟨by simp, by simp⟩

theorem Seen.repeats_iff (h : Seen id before home peers) (e : AreaEntry) :
    ((e.id == id && home.isSome) || peers.any (·.info.id == e.id)) = true ↔
      e.id ∈ before.map (·.id) := by
  simp only [Bool.or_eq_true, Bool.and_eq_true, beq_iff_eq, List.any_eq_true, h.home_iff,
    h.peers_iff]
  constructor
  · rintro (⟨hown, hmem⟩ | ⟨-, hmem⟩)
    · rwa [hown]
    · exact hmem
  · intro hmem
    by_cases hown : e.id = id
    · exact .inl ⟨hown, hown ▸ hmem⟩
    · exact .inr ⟨hown, hmem⟩

theorem collect_of_fault (h : Seen id before home peers) {error : AreaError}
    (hfault : Fault before e error) (rest : List AreaEntry) :
    collect id (e :: rest) home peers = .error error := by
  cases hfault with
  | repeated hmem => rw [collect, if_pos ((h.repeats_iff e).2 hmem)]
  | @unfenced cause hnew hboundary =>
    have harea : e.area = .error (.invalidBoundary e.id cause) := by rw [AreaEntry.area, hboundary]
    rw [collect, if_neg (mt (h.repeats_iff e).1 hnew), harea]

theorem collect_of_faultless (h : Seen id before home peers) (hnew : e.id ∉ before.map (·.id))
    (hfence : ∃ g, Geofence.ofWellKnownText e.boundary = .ok g) :
    ∃ home' peers', Seen id (before ++ [e]) home' peers' ∧
      ∀ rest, collect id (e :: rest) home peers = collect id rest home' peers' := by
  obtain ⟨g, hg⟩ := hfence
  have harea : e.area = .ok ⟨e.info, g⟩ := by rw [AreaEntry.area, hg]; rfl
  have hcollect : ∀ rest, collect id (e :: rest) home peers =
      if e.id == id then collect id rest (some ⟨e.info, g⟩) peers
      else collect id rest home (⟨e.info, g⟩ :: peers) := by
    intro rest
    rw [collect, if_neg (mt (h.repeats_iff e).1 hnew), harea]
  by_cases hown : e.id = id
  · refine ⟨_, _, ⟨?_, fun x => ?_⟩, fun rest => (hcollect rest).trans (if_pos (beq_iff_eq.2 hown))⟩
    · simp [hown]
    · rw [h.peers_iff, List.map_append, List.mem_append, List.map_singleton, List.mem_singleton, hown]
      tauto
  · refine ⟨_, _, ⟨?_, fun x => ?_⟩,
      fun rest => (hcollect rest).trans (if_neg (mt beq_iff_eq.1 hown))⟩
    · simp [h.home_iff, Ne.symm hown]
    · have hid : e.info.id = x ↔ x ≠ id ∧ x = e.id :=
        ⟨fun heq => heq ▸ ⟨hown, rfl⟩, fun heq => heq.2.symm⟩
      rw [List.exists_mem_cons_iff, h.peers_iff, hid, List.map_append, List.mem_append,
        List.map_singleton, List.mem_singleton]
      tauto

theorem exists_seen (id : String) (h : Faultless before) : ∃ home peers, Seen id before home peers ∧
    ∀ rest, collect id (before ++ rest) none [] = collect id rest home peers := by
  induction before using List.reverseRecOn with
  | nil => exact ⟨none, [], seen_nil id, fun _ => rfl⟩
  | append_singleton before e ih =>
    obtain ⟨hbefore, hnew, hfence⟩ := faultless_concat.1 h
    obtain ⟨home, peers, hseen, hcollect⟩ := ih hbefore
    obtain ⟨home', peers', hseen', hstep⟩ := collect_of_faultless hseen hnew hfence
    refine ⟨home', peers', hseen', fun rest => ?_⟩
    rw [List.append_assoc, List.singleton_append, hcollect, hstep]

/-! ## Refused lists -/

/-- A list is refused for its first fault. -/
theorem ofEntries_of_firstFault {error : AreaError} (h : FirstFault id entries error) :
    ofEntries id entries = .error error := by
  rcases h with ⟨before, e, after, rfl, hbefore, hfault⟩ | ⟨hfaultless, hmissing, rfl⟩
  · obtain ⟨home, peers, hseen, hcollect⟩ := exists_seen id hbefore
    rw [ofEntries, hcollect, collect_of_fault hseen hfault]
  · obtain ⟨home, peers, hseen, hcollect⟩ := exists_seen id hfaultless
    have hnone : home = none := Option.not_isSome_iff_eq_none.1 (mt hseen.home_iff.1 hmissing)
    have hend := hcollect []
    rw [List.append_nil] at hend
    rw [ofEntries, hend, hnone, collect]

/-- A list without faults that has the broker in it is accepted. -/
theorem ofEntries_of_faultless (h : Faultless entries) (hmem : id ∈ entries.map (·.id)) :
    ∃ f, ofEntries id entries = .ok f := by
  obtain ⟨home, peers, hseen, hcollect⟩ := exists_seen id h
  obtain ⟨area, rfl⟩ := Option.isSome_iff_exists.1 (hseen.home_iff.2 hmem)
  have hend := hcollect []
  rw [List.append_nil] at hend
  exact ⟨_, hend⟩

theorem accepted_or_firstFault (id : String) (entries : List AreaEntry) :
    (Faultless entries ∧ id ∈ entries.map (·.id)) ∨ ∃ error, FirstFault id entries error := by
  rcases faultless_or_fault entries with hfaultless | ⟨before, e, after, error, hfault⟩
  · by_cases hmem : id ∈ entries.map (·.id)
    · exact .inl ⟨hfaultless, hmem⟩
    · exact .inr ⟨_, .inr ⟨hfaultless, hmem, rfl⟩⟩
  · exact .inr ⟨error, .inl ⟨before, e, after, hfault⟩⟩

/-! ## Accepted lists -/

/-- What is made of an accepted list: the home area is that of the broker's entry, the peers are
those of all other entries in order, with ids that differ from each other and from the broker's. A
peer is found by its id exactly when that is another id of the list, and the peers that meet a
geofence come once each and in order. -/
structure Described (f : Federation) (id : String) (entries : List AreaEntry) : Prop where
  home : ∃ e ∈ entries, e.id = id ∧ e.area = .ok f.home
  peers : List.Forall₂ (fun e area => e.area = .ok area) (entries.filter (·.id ≠ id)) f.peers
  nodup : (f.peers.map (·.info.id)).Nodup
  apart : ∀ peer ∈ f.peers, peer.info.id ≠ id
  isSome_peer? : ∀ x, (f.peer? x).isSome = true ↔ x ≠ id ∧ x ∈ entries.map (·.id)
  peer?_eq : ∀ e ∈ entries, e.id ≠ id → f.peer? e.id = some e.info
  peersMeeting_eq : ∀ g, f.peersMeeting g =
    ((entries.filter (·.id ≠ id)).filter (·.meets g)).map (·.info)
  nodup_peersMeeting : ∀ g, ((f.peersMeeting g).map (·.id)).Nodup

variable {areas : List Area} {f : Federation}

theorem forall₂_filter (id : String)
    (h : List.Forall₂ (fun e area => e.area = .ok area) entries areas) :
    List.Forall₂ (fun e area => e.area = .ok area) (entries.filter (·.id ≠ id))
      (areas.filter fun area => area.info.id ≠ id) := by
  induction h with
  | nil => exact .nil
  | @cons e area _ _ harea _ ih =>
    have hid : area.info.id = e.id := congrArg BrokerInfo.id (AreaEntry.info_area harea)
    by_cases hown : e.id = id
    · rwa [List.filter_cons_of_neg (by simp [hown]), List.filter_cons_of_neg (by simp [hid, hown])]
    · rw [List.filter_cons_of_pos (by simp [hown]), List.filter_cons_of_pos (by simp [hid, hown])]
      exact .cons harea ih

theorem map_info_filter_meets (g : Geofence)
    (h : List.Forall₂ (fun e area => e.area = .ok area) entries areas) :
    (areas.filter (·.fence.intersects g)).map (·.info) =
      (entries.filter (·.meets g)).map (·.info) := by
  induction h with
  | nil => rfl
  | @cons e area _ _ harea _ ih =>
    have hmeets : e.meets g = area.fence.intersects g := by rw [AreaEntry.meets, harea]
    rw [List.filter_cons, List.filter_cons, hmeets]
    split
    · rw [List.map_cons, List.map_cons, ih, AreaEntry.info_area harea]
    · exact ih

/-- No peer is found by the broker's own id or by one that is not in the list. -/
theorem mem_of_peer? (h : f.Sees id areas) {x : String} (hx : (f.peer? x).isSome = true) :
    ∃ area ∈ areas, area.info.id ≠ id ∧ area.info.id = x := by
  rw [peer?, Option.isSome_map, List.find?_isSome] at hx
  obtain ⟨area, hmem, hid⟩ := hx
  rw [h.peers_eq, List.mem_filter, decide_eq_true_eq] at hmem
  exact ⟨area, hmem.1, hmem.2, beq_iff_eq.1 hid⟩

theorem faultless_of_ofEntries (h : ofEntries id entries = .ok f) :
    Faultless entries ∧ id ∈ entries.map (·.id) := by
  rcases accepted_or_firstFault id entries with haccepted | ⟨error, herror⟩
  · exact haccepted
  · rw [ofEntries_of_firstFault herror] at h
    cases h

theorem described_of_ofEntries (h : ofEntries id entries = .ok f) : f.Described id entries := by
  obtain ⟨areas, hareas, hsees⟩ := sees_of_ofEntries h
  have hpeers := forall₂_filter id hareas
  rw [← hsees.peers_eq] at hpeers
  have hfound : ∀ e ∈ entries, e.id ≠ id → f.peer? e.id = some e.info := by
    intro e he hne
    obtain ⟨area, harea, hof, hid⟩ := exists_area hareas he
    rw [← hid, peer?_of_sees hsees harea (by rwa [hid]), AreaEntry.info_area hof]
  refine ⟨?_, hpeers, ?_, ?_, fun x => ⟨fun hx => ?_, ?_⟩, hfound, fun g => ?_,
    nodup_peersMeeting hsees⟩
  · obtain ⟨e, he, hof, hid⟩ := exists_entry hareas hsees.home_mem
    exact ⟨e, he, hid.trans hsees.home_id, hof⟩
  · rw [hsees.peers_eq]
    exact hsees.nodup.sublist (List.filter_sublist.map _)
  · intro peer hpeer
    rw [hsees.peers_eq, List.mem_filter, decide_eq_true_eq] at hpeer
    exact hpeer.2
  · obtain ⟨area, harea, hne, rfl⟩ := mem_of_peer? hsees hx
    obtain ⟨e, he, -, hid⟩ := exists_entry hareas harea
    exact ⟨hne, List.mem_map.2 ⟨e, he, hid⟩⟩
  · rintro ⟨hne, hmem⟩
    obtain ⟨e, he, rfl⟩ := List.mem_map.1 hmem
    rw [hfound e he hne]
    rfl
  · exact map_info_filter_meets g hpeers

/-! ## The whole -/

/-- An area list is accepted when no id appears twice, every boundary is a geofence and the broker
is in it; then the federation is the one it describes. Otherwise it is refused for its first
fault. -/
theorem ofEntries_validates (id : String) (entries : List AreaEntry) :
    ((∃ f, ofEntries id entries = .ok f) ↔ Faultless entries ∧ id ∈ entries.map (·.id)) ∧
      (∀ f, ofEntries id entries = .ok f → f.Described id entries) ∧
      ∀ error, ofEntries id entries = .error error ↔ FirstFault id entries error := by
  refine ⟨⟨fun ⟨f, hf⟩ => faultless_of_ofEntries hf, fun h => ofEntries_of_faultless h.1 h.2⟩,
    fun f => described_of_ofEntries, fun error => ⟨fun h => ?_, ofEntries_of_firstFault⟩⟩
  rcases accepted_or_firstFault id entries with haccepted | ⟨first, hfirst⟩
  · obtain ⟨f, hf⟩ := ofEntries_of_faultless haccepted.1 haccepted.2
    rw [hf] at h
    cases h
  · rw [ofEntries_of_firstFault hfirst] at h
    cases h
    exact hfirst

/-- Two brokers on both sides of a meridian, seen from the western one. -/
theorem ofEntries_validates_two :
    let west : AreaEntry := ⟨"west", "localhost", 5559, "POLYGON((-9 0, 0 0, 0 9, -9 9))"⟩
    let east : AreaEntry := ⟨"east", "localhost", 5560, "POLYGON((0 0, 9 0, 9 9, 0 9))"⟩
    ∃ f, ofEntries "west" [west, east] = .ok f ∧ f.Described "west" [west, east] := by
  intro west east
  have hok : (ofEntries "west" [west, east]).isOk = true := by decide +kernel
  cases hf : ofEntries "west" [west, east] with
  | error error =>
    rw [hf] at hok
    cases hok
  | ok f => exact ⟨f, rfl, (ofEntries_validates "west" [west, east]).2.1 f hf⟩

-- Of two faults of one entry the repeated id is told, and of two entries the earlier one.
example :
    let west : AreaEntry := ⟨"west", "localhost", 5559, "POLYGON((-9 0, 0 0, 0 9, -9 9))"⟩
    let point : String := "POINT(1 1)"
    (match ofEntries "west" [west, ⟨"west", "", 0, point⟩, ⟨"east", "", 0, point⟩] with
      | .error error => error.message
      | .ok _ => "") = (AreaError.duplicateBroker "west").message := by
  decide +kernel

end Federation

end Geocast
