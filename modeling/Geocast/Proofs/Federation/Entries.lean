import Geocast.Federation
import Mathlib.Data.List.Forall2
import Mathlib.Data.List.Nodup

/-!
# The brokers of one area list see one federation

Each broker reads the area list for itself and keeps its own area apart from the others. When the
list is accepted, the areas are those of the entries, no id appears twice, and what two brokers see
differs only in which area is at home.

* `Sees`: a federation as one broker of a list of areas sees it.
* `sees_of_ofEntries`: what comes of an accepted area list.
* `exists_ofEntries`: a list that one broker accepts, every broker in it accepts.
* `map_info_peers`: the peers stand in the order of the list.
* `peer?_of_sees`: every broker but itself is found by its id.
* `mem_peersMeeting_iff`: the peers that meet a geofence.
-/
namespace Geocast

def AreaEntry.info (e : AreaEntry) : BrokerInfo := ⟨e.id, e.address, e.port⟩

theorem AreaEntry.info_area {e : AreaEntry} {area : Area} (h : e.area = .ok area) :
    area.info = e.info := by
  rw [AreaEntry.area] at h
  split at h
  · cases h
    rfl
  · cases h

namespace Federation

/-- The home area is the one with the id, the peers are the others in order, and all ids differ. -/
structure Sees (f : Federation) (id : String) (areas : List Area) : Prop where
  nodup : (areas.map (·.info.id)).Nodup
  home_mem : f.home ∈ areas
  home_id : f.home.info.id = id
  peers_eq : f.peers = areas.filter fun area => area.info.id ≠ id

/-! ## Reading the list -/

/-- What going through the rest of a list comes to: `areas` are its areas, `home` and `peers` are
what was found before. -/
structure Collects (id : String) (home : Option Area) (peers areas : List Area) (f : Federation) :
    Prop where
  home_eq : (home = some f.home ∧ ∀ area ∈ areas, area.info.id ≠ id) ∨
    (home = none ∧ f.home ∈ areas ∧ f.home.info.id = id)
  peers_eq : f.peers = peers.reverse ++ areas.filter fun area => area.info.id ≠ id
  nodup : (areas.map (·.info.id)).Nodup
  fresh : ∀ area ∈ areas, ∀ peer ∈ peers, peer.info.id ≠ area.info.id

variable {id : String} {home : Option Area} {peers areas : List Area} {f : Federation}

theorem collects_nil (h : home = some f.home) (hpeers : f.peers = peers.reverse) :
    Collects id home peers [] f where
  home_eq := .inl ⟨h, fun _ hmem => nomatch hmem⟩
  peers_eq := hpeers.trans (List.append_nil _).symm
  nodup := List.nodup_nil
  fresh _ hmem := nomatch hmem

theorem collects_home {area : Area} (h : Collects id (some area) peers areas f)
    (hnone : home = none) (hid : area.info.id = id)
    (hfresh : ∀ peer ∈ peers, peer.info.id ≠ area.info.id) :
    Collects id home peers (area :: areas) f := by
  rcases h.home_eq with ⟨hhome, hlast⟩ | ⟨hhome, -⟩
  · obtain rfl := Option.some.inj hhome
    refine ⟨.inr ⟨hnone, List.mem_cons_self, hid⟩, ?_, ?_, ?_⟩
    · rw [h.peers_eq, List.filter_cons_of_neg (by simp [hid])]
    · rw [List.map_cons, List.nodup_cons]
      refine ⟨fun hmem => ?_, h.nodup⟩
      obtain ⟨other, hother, heq⟩ := List.mem_map.1 hmem
      exact hlast other hother (heq.trans hid)
    · intro other hmem peer hpeer
      rcases List.mem_cons.1 hmem with rfl | hmem
      · exact hfresh peer hpeer
      · exact h.fresh other hmem peer hpeer
  · cases hhome

theorem collects_peer {area : Area} (h : Collects id home (area :: peers) areas f)
    (hid : area.info.id ≠ id) (hfresh : ∀ peer ∈ peers, peer.info.id ≠ area.info.id) :
    Collects id home peers (area :: areas) f := by
  refine ⟨?_, ?_, ?_, ?_⟩
  · rcases h.home_eq with ⟨hhome, hlast⟩ | ⟨hhome, hmem, hhid⟩
    · exact .inl ⟨hhome, List.forall_mem_cons.2 ⟨hid, hlast⟩⟩
    · exact .inr ⟨hhome, List.mem_cons_of_mem area hmem, hhid⟩
  · rw [h.peers_eq, List.filter_cons_of_pos (by simpa using hid), List.reverse_cons,
      List.append_assoc]
    rfl
  · rw [List.map_cons, List.nodup_cons]
    refine ⟨fun hmem => ?_, h.nodup⟩
    obtain ⟨other, hother, heq⟩ := List.mem_map.1 hmem
    exact h.fresh other hother area List.mem_cons_self heq.symm
  · intro other hmem peer hpeer
    rcases List.mem_cons.1 hmem with rfl | hmem
    · exact hfresh peer hpeer
    · exact h.fresh other hmem peer (List.mem_cons_of_mem area hpeer)

theorem collect_ok {entries : List AreaEntry} (h : collect id entries home peers = .ok f) :
    ∃ areas, List.Forall₂ (fun e area => e.area = .ok area) entries areas ∧
      Collects id home peers areas f := by
  induction entries generalizing home peers with
  | nil =>
    cases home with
    | none => cases h
    | some found =>
      cases h
      exact ⟨[], .nil, collects_nil rfl rfl⟩
  | cons e rest ih =>
    rw [collect] at h
    split at h
    · cases h
    next hnew =>
      rw [Bool.or_eq_true, Bool.and_eq_true, beq_iff_eq, List.any_eq_true, not_or] at hnew
      obtain ⟨honce, hseen⟩ := hnew
      split at h
      · cases h
      next area harea =>
        have hid : area.info.id = e.id := congrArg BrokerInfo.id (AreaEntry.info_area harea)
        have hfresh : ∀ peer ∈ peers, peer.info.id ≠ area.info.id := by
          intro peer hpeer heq
          exact hseen ⟨peer, hpeer, beq_iff_eq.2 (heq.trans hid)⟩
        split at h
        next hown =>
          rw [beq_iff_eq] at hown
          have hnone : home = none := by
            cases home with
            | none => rfl
            | some found => exact absurd ⟨hown, rfl⟩ honce
          obtain ⟨areas, hareas, hrest⟩ := ih h
          exact ⟨area :: areas, .cons harea hareas,
            collects_home hrest hnone (hid.trans hown) hfresh⟩
        next hown =>
          rw [beq_iff_eq] at hown
          obtain ⟨areas, hareas, hrest⟩ := ih h
          exact ⟨area :: areas, .cons harea hareas,
            collects_peer hrest (fun heq => hown (hid.symm.trans heq)) hfresh⟩

/-- An accepted area list, as the broker with the id sees it. -/
theorem sees_of_ofEntries {entries : List AreaEntry} (h : ofEntries id entries = .ok f) :
    ∃ areas, List.Forall₂ (fun e area => e.area = .ok area) entries areas ∧ f.Sees id areas := by
  obtain ⟨areas, hareas, hcollects⟩ := collect_ok h
  rcases hcollects.home_eq with ⟨hhome, -⟩ | ⟨-, hmem, hhid⟩
  · cases hhome
  · exact ⟨areas, hareas, hcollects.nodup, hmem, hhid, hcollects.peers_eq⟩

theorem areas_unique {entries : List AreaEntry} {areas areas' : List Area}
    (h : List.Forall₂ (fun e area => e.area = .ok area) entries areas)
    (h' : List.Forall₂ (fun e area => e.area = .ok area) entries areas') : areas = areas' := by
  induction h generalizing areas' with
  | nil =>
    cases h'
    rfl
  | cons harea _ ih =>
    cases h' with
    | cons harea' hrest' =>
      rw [harea] at harea'
      cases harea'
      rw [ih hrest']

theorem map_info_areas {entries : List AreaEntry}
    (h : List.Forall₂ (fun e area => e.area = .ok area) entries areas) :
    areas.map (·.info) = entries.map (·.info) := by
  induction h with
  | nil => rfl
  | cons harea _ ih => rw [List.map_cons, List.map_cons, ih, AreaEntry.info_area harea]

theorem eq_of_id_eq (h : (areas.map (·.info.id)).Nodup) {area other : Area} (harea : area ∈ areas)
    (hother : other ∈ areas) (heq : area.info.id = other.info.id) : area = other :=
  List.inj_on_of_nodup_map h harea hother heq

theorem exists_entry {entries : List AreaEntry} {area : Area}
    (hareas : List.Forall₂ (fun e area => e.area = .ok area) entries areas)
    (harea : area ∈ areas) : ∃ e ∈ entries, e.area = .ok area ∧ e.id = area.info.id := by
  induction hareas with
  | nil => cases harea
  | cons h _ ih =>
    rcases List.mem_cons.1 harea with rfl | hmem
    · exact ⟨_, List.mem_cons_self, h, congrArg BrokerInfo.id (AreaEntry.info_area h).symm⟩
    · obtain ⟨e, he, hlast⟩ := ih hmem
      exact ⟨e, List.mem_cons_of_mem _ he, hlast⟩

theorem exists_area {entries : List AreaEntry}
    (hareas : List.Forall₂ (fun e area => e.area = .ok area) entries areas) {e : AreaEntry}
    (he : e ∈ entries) : ∃ area ∈ areas, e.area = .ok area ∧ area.info.id = e.id := by
  induction hareas with
  | nil => cases he
  | cons h _ ih =>
    rcases List.mem_cons.1 he with rfl | hmem
    · exact ⟨_, List.mem_cons_self, h, congrArg BrokerInfo.id (AreaEntry.info_area h)⟩
    · obtain ⟨area, harea, hlast⟩ := ih hmem
      exact ⟨area, List.mem_cons_of_mem _ harea, hlast⟩

/-! ## Accepted lists -/

/-- Going through a list in which every boundary is a geofence and no id appears twice, neither in
the list nor among the peers before, comes to an end, if the broker itself was found before or is
still to come. -/
theorem exists_collect {entries : List AreaEntry}
    (hareas : List.Forall₂ (fun e area => e.area = .ok area) entries areas)
    (hnodup : (areas.map (·.info.id)).Nodup)
    (hfresh : ∀ area ∈ areas, ∀ peer ∈ peers, peer.info.id ≠ area.info.id)
    (hhome : (home.isSome = true ∧ ∀ area ∈ areas, area.info.id ≠ id) ∨
      (home = none ∧ ∃ area ∈ areas, area.info.id = id)) :
    ∃ f, collect id entries home peers = .ok f := by
  induction hareas generalizing home peers with
  | nil =>
    rcases hhome with ⟨hsome, -⟩ | ⟨-, area, harea, -⟩
    · obtain ⟨found, rfl⟩ := Option.isSome_iff_exists.1 hsome
      exact ⟨_, rfl⟩
    · cases harea
  | @cons e area rest areas harea _ ih =>
    have hid : area.info.id = e.id := congrArg BrokerInfo.id (AreaEntry.info_area harea)
    rw [List.map_cons, List.nodup_cons] at hnodup
    rw [List.forall_mem_cons] at hfresh
    have hlater : ∀ other ∈ areas, other.info.id ≠ area.info.id := fun other hother heq =>
      hnodup.1 (List.mem_map.2 ⟨other, hother, heq⟩)
    have hnew : ¬ ((e.id == id && home.isSome) || peers.any (·.info.id == e.id)) = true := by
      rw [Bool.or_eq_true, Bool.and_eq_true, beq_iff_eq, List.any_eq_true]
      rintro (⟨hown, hsome⟩ | ⟨peer, hpeer, heq⟩)
      · rcases hhome with ⟨-, hothers⟩ | ⟨rfl, -⟩
        · exact hothers area List.mem_cons_self (hid.trans hown)
        · cases hsome
      · exact hfresh.1 peer hpeer ((beq_iff_eq.1 heq).trans hid.symm)
    rw [collect, if_neg hnew, harea]
    dsimp only
    split
    next hown =>
      rw [beq_iff_eq] at hown
      refine ih hnodup.2 hfresh.2 (.inl ⟨rfl, fun other hother heq => ?_⟩)
      exact hlater other hother (heq.trans (hown.symm.trans hid.symm))
    next hother =>
      rw [beq_iff_eq] at hother
      refine ih hnodup.2 (fun later hmem => ?_) ?_
      · rw [List.forall_mem_cons]
        exact ⟨(hlater later hmem).symm, hfresh.2 later hmem⟩
      · rcases hhome with ⟨hsome, hothers⟩ | ⟨hnone, own, hown, howner⟩
        · exact .inl ⟨hsome, fun later hmem => hothers later (List.mem_cons_of_mem area hmem)⟩
        · rcases List.mem_cons.1 hown with rfl | hmem
          · exact absurd (hid.symm.trans howner) hother
          · exact .inr ⟨hnone, own, hmem, howner⟩

/-- An area list that is accepted from one broker is accepted from every other one in it, whose own
area is then at home. -/
theorem exists_ofEntries {entries : List AreaEntry} {area : Area}
    (hareas : List.Forall₂ (fun e area => e.area = .ok area) entries areas)
    (hnodup : (areas.map (·.info.id)).Nodup) (harea : area ∈ areas) :
    ∃ f, ofEntries area.info.id entries = .ok f ∧ f.home = area := by
  obtain ⟨f, hf⟩ : ∃ f, ofEntries area.info.id entries = .ok f :=
    exists_collect hareas hnodup (fun _ _ _ hpeer => nomatch hpeer) (.inr ⟨rfl, area, harea, rfl⟩)
  obtain ⟨areas', hareas', hsees⟩ := sees_of_ofEntries hf
  obtain rfl := areas_unique hareas hareas'
  exact ⟨f, hf, eq_of_id_eq hnodup hsees.home_mem harea hsees.home_id⟩

/-! ## Peers -/

theorem map_info_peers {entries : List AreaEntry} (h : ofEntries id entries = .ok f) :
    f.peers.map (·.info) = (entries.filter (·.id ≠ id)).map (·.info) := by
  obtain ⟨areas, hareas, hsees⟩ := sees_of_ofEntries h
  calc f.peers.map (·.info)
      = (areas.filter ((fun info => decide (info.id ≠ id)) ∘ (·.info))).map (·.info) := by
        rw [hsees.peers_eq]; rfl
    _ = (areas.map (·.info)).filter fun info => decide (info.id ≠ id) := List.filter_map.symm
    _ = (entries.map (·.info)).filter fun info => decide (info.id ≠ id) := by
        rw [map_info_areas hareas]
    _ = (entries.filter (·.id ≠ id)).map (·.info) := List.filter_map

theorem peer?_of_sees (h : f.Sees id areas) {area : Area} (harea : area ∈ areas)
    (hne : area.info.id ≠ id) : f.peer? area.info.id = some area.info := by
  have hmem : area ∈ f.peers := by
    rw [h.peers_eq, List.mem_filter]
    exact ⟨harea, decide_eq_true hne⟩
  have hsome : (f.peers.find? (·.info.id == area.info.id)).isSome = true := by
    rw [List.find?_isSome]
    exact ⟨area, hmem, beq_self_eq_true _⟩
  obtain ⟨found, hfound⟩ := Option.isSome_iff_exists.1 hsome
  have hid : found.info.id = area.info.id := by simpa using List.find?_some hfound
  have hpeer := List.mem_of_find?_eq_some hfound
  rw [h.peers_eq, List.mem_filter] at hpeer
  rw [peer?, hfound, eq_of_id_eq h.nodup hpeer.1 harea hid]
  rfl

theorem mem_peersMeeting_iff (h : f.Sees id areas) {g : Geofence} {info : BrokerInfo} :
    info ∈ f.peersMeeting g ↔
      ∃ area ∈ areas, area.info = info ∧ area.info.id ≠ id ∧ area.fence.intersects g = true := by
  simp only [peersMeeting, h.peers_eq, List.mem_map, List.mem_filter, decide_eq_true_eq]
  constructor
  · rintro ⟨area, ⟨⟨harea, hne⟩, hmeets⟩, rfl⟩
    exact ⟨area, harea, rfl, hne, hmeets⟩
  · rintro ⟨area, harea, rfl, hne, hmeets⟩
    exact ⟨area, ⟨⟨harea, hne⟩, hmeets⟩, rfl⟩

theorem nodup_peersMeeting (h : f.Sees id areas) (g : Geofence) :
    ((f.peersMeeting g).map (·.id)).Nodup := by
  rw [peersMeeting, List.map_map, h.peers_eq]
  exact h.nodup.sublist ((List.filter_sublist.trans List.filter_sublist).map _)

end Federation

end Geocast
