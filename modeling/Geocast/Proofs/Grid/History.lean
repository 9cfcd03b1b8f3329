import Geocast.Proofs.Grid.Buckets
import Geocast.Proofs.Grid.Count
import Geocast.Proofs.Grid.Order

/-!
# A grid remembers the last edit

Ids are entered under geofences and taken out from under geofences, in any order: an id may be
entered twice, taken out without having been entered, or taken out from under another geofence than
the one under which it was entered. What the grid holds afterwards is told by the last edit that
names the id and whose geofence touches the cell.

* `Edit`, `run`: entering an id under a geofence or taking it out, and a sequence of these.
* `holds_run_iff`: after a sequence a cell holds an id if the last edit of the id there entered it,
  or if there was none and the cell held the id before.
* `entries_of_edits`: what an empty grid holds after a sequence, with its list, counter and buckets.
* `lookup_covers`: an id is found at every location of its geofence until it is taken out there.
-/
namespace Geocast

namespace Bucket

/-- No client is kept without numbers. -/
def Tidy (b : Bucket) : Prop :=
  ∀ (client : ClientId) (seqs : Std.TreeSet Nat), b[client]? = some seqs → seqs.isEmpty = false

theorem tidy_empty : Tidy ∅ := by
  intro client seqs h
  simp at h

theorem tidy_insert {b : Bucket} (h : Tidy b) (client : ClientId) {seqs : Std.TreeSet Nat}
    (hseqs : seqs.isEmpty = false) : Tidy (b.insert client seqs) := by
  intro other found hfound
  rw [Std.TreeMap.getElem?_insert] at hfound
  split at hfound
  · cases hfound
    exact hseqs
  · exact h other found hfound

theorem tidy_put {b : Bucket} (h : Tidy b) (id : SubscriptionId) : Tidy (put b id) :=
  tidy_insert h id.client Std.TreeSet.isEmpty_insert

theorem tidy_drop {b : Bucket} (h : Tidy b) (id : SubscriptionId) : Tidy (drop b id) := by
  simp only [drop]
  split
  · intro client seqs hseqs
    rw [Std.TreeMap.getElem?_erase] at hseqs
    split at hseqs
    · cases hseqs
    · exact h client seqs hseqs
  next hrest => exact tidy_insert h id.client (eq_false_of_ne_true hrest)

end Bucket

namespace Grid

/-! ## Edits -/

/-- A change of a grid: an id is entered under a geofence, or taken out from under one. -/
inductive Edit where
  | insert (id : SubscriptionId) (geofence : Geofence)
  | erase (id : SubscriptionId) (geofence : Geofence)

namespace Edit

def id : Edit → SubscriptionId
  | insert id _ => id
  | erase id _ => id

def geofence : Edit → Geofence
  | insert _ geofence => geofence
  | erase _ geofence => geofence

def apply (g : Grid) : Edit → Grid
  | insert id geofence => g.insert id geofence.box
  | erase id geofence => g.erase id geofence.box

/-- An edit concerns an id in a cell when it names the id and its geofence touches the cell. -/
def Concerns (e : Edit) (g : Grid) (c : Cell) (id : SubscriptionId) : Prop :=
  e.id = id ∧ c ∈ g.cellsFor e.geofence.box

/-- An edit enters an id in a cell when it concerns them and is an insertion. -/
def Enters (e : Edit) (g : Grid) (c : Cell) (id : SubscriptionId) : Prop :=
  ∃ geofence, e = insert id geofence ∧ c ∈ g.cellsFor geofence.box

end Edit

def run (g : Grid) (edits : List Edit) : Grid := edits.foldl Edit.apply g

variable {g : Grid} {c : Cell} {id : SubscriptionId} {edits : List Edit} {e : Edit}

theorem granularity_apply (g : Grid) (e : Edit) : (e.apply g).granularity = g.granularity := by
  cases e with
  | insert id geofence => exact granularity_insert g id geofence.box
  | erase id geofence => exact granularity_erase g id geofence.box

theorem run_concat (g : Grid) (edits : List Edit) (e : Edit) :
    g.run (edits ++ [e]) = e.apply (g.run edits) := by
  unfold run
  rw [List.foldl_append]
  rfl

theorem run_induction {P : Grid → Prop} (h : P g)
    (hstep : ∀ (g : Grid) (e : Edit), P g → P (e.apply g)) (edits : List Edit) :
    P (g.run edits) :=
  List.foldlRecOn edits Edit.apply h fun g hg e _ => hstep g e hg

theorem granularity_run (g : Grid) (edits : List Edit) :
    (g.run edits).granularity = g.granularity :=
  run_induction (P := fun h => h.granularity = g.granularity) rfl
    (fun h e hh => (granularity_apply h e).trans hh) edits

/-! ## The last edit -/

/-- The last edit that concerns an id in a cell enters it. -/
def LastEnters (g : Grid) (edits : List Edit) (c : Cell) (id : SubscriptionId) : Prop :=
  ∃ before e after, edits = before ++ e :: after ∧ e.Enters g c id ∧
    ∀ later ∈ after, ¬ later.Concerns g c id

theorem lastEnters_concat :
    LastEnters g (edits ++ [e]) c id ↔
      e.Enters g c id ∨ ¬ e.Concerns g c id ∧ LastEnters g edits c id := by
  constructor
  · intro h
    obtain ⟨before, enter, after, hedits, henter, hafter⟩ := h
    rcases List.eq_nil_or_concat after with rfl | ⟨after', last, rfl⟩
    · obtain ⟨-, hlast⟩ := List.append_inj' hedits rfl
      cases hlast
      exact .inl henter
    · rw [List.concat_eq_append, ← List.cons_append, ← List.append_assoc] at hedits
      obtain ⟨hsame, hlast⟩ := List.append_inj' hedits rfl
      cases hlast
      refine .inr ⟨hafter _ (by simp), before, enter, after', hsame, henter, ?_⟩
      intro later hlater
      exact hafter later (by simp [hlater])
  · intro h
    rcases h with henter | ⟨hnot, before, enter, after, rfl, henter, hafter⟩
    · exact ⟨edits, e, [], rfl, henter, by simp⟩
    · refine ⟨before, enter, after ++ [e], by simp, henter, ?_⟩
      intro later hlater
      rcases List.mem_append.1 hlater with hlater | hlater
      · exact hafter later hlater
      · rw [List.mem_singleton.1 hlater]
        exact hnot

/-- After an edit a cell holds an id if the edit enters it there, or if the edit does not concern it
there and it was there before. -/
theorem holds_apply_iff (g : Grid) (e : Edit) (c : Cell) (id : SubscriptionId) :
    (e.apply g).holds c id = true ↔
      e.Enters g c id ∨ ¬ e.Concerns g c id ∧ g.holds c id = true := by
  cases e with
  | insert x geofence =>
    have henters : (Edit.insert x geofence).Enters g c id ↔
        (Edit.insert x geofence).Concerns g c id := by
      simp [Edit.Enters, Edit.Concerns, Edit.id, Edit.geofence]
    rw [henters, Edit.apply, holds_insert, Bool.or_eq_true, Bool.and_eq_true, beq_iff_eq,
      List.contains_iff_mem]
    simp only [Edit.Concerns, Edit.id, Edit.geofence]
    tauto
  | erase x geofence =>
    have henters : ¬ (Edit.erase x geofence).Enters g c id := by simp [Edit.Enters]
    rw [Edit.apply, holds_erase, Bool.and_eq_true, Bool.not_eq_true', ← Bool.not_eq_true,
      Bool.and_eq_true, beq_iff_eq, List.contains_iff_mem]
    simp only [Edit.Concerns, Edit.id, Edit.geofence]
    tauto

theorem holds_run_iff (g : Grid) (edits : List Edit) (c : Cell) (id : SubscriptionId) :
    (g.run edits).holds c id = true ↔
      LastEnters g edits c id ∨ (∀ e ∈ edits, ¬ e.Concerns g c id) ∧ g.holds c id = true := by
  induction edits using List.reverseRecOn with
  | nil => simp [run, LastEnters]
  | append_singleton edits e ih =>
    have hcells : ∀ box, (g.run edits).cellsFor box = g.cellsFor box :=
      cellsFor_congr (granularity_run g edits)
    rw [run_concat, holds_apply_iff, ih, lastEnters_concat]
    simp only [Edit.Enters, Edit.Concerns, hcells, List.mem_append, List.mem_singleton]
    constructor
    · intro h
      rcases h with h | ⟨hnot, h | ⟨hall, hold⟩⟩
      · exact .inl (.inl h)
      · exact .inl (.inr ⟨hnot, h⟩)
      · refine .inr ⟨?_, hold⟩
        intro x hx
        rcases hx with hx | rfl
        · exact hall x hx
        · exact hnot
    · intro h
      rcases h with (h | ⟨hnot, h⟩) | ⟨hall, hold⟩
      · exact .inl h
      · exact .inr ⟨hnot, .inl h⟩
      · exact .inr ⟨hall e (.inr rfl), .inr ⟨fun x hx => hall x (.inl hx), hold⟩⟩

/-! ## Lists, counter and buckets -/

/-- No bucket keeps a client without numbers. -/
def Tidy (g : Grid) : Prop :=
  ∀ (c : Cell) (bucket : Bucket), g.buckets[c]? = some bucket → bucket.Tidy

theorem Tidy.bucket (h : g.Tidy) (c : Cell) : Bucket.Tidy (g.bucket c) := by
  unfold Grid.bucket
  cases hc : g.buckets[c]? with
  | none => exact Bucket.tidy_empty
  | some bucket => exact h c bucket hc

theorem Tidy.withBucket (h : g.Tidy) (c : Cell) {bucket : Bucket} (hbucket : bucket.Tidy)
    (k : Int) : Tidy { g with buckets := g.buckets.insert c bucket, memberships := k } := by
  intro d found hfound
  rw [Std.TreeMap.getElem?_insert] at hfound
  split at hfound
  · cases hfound
    exact hbucket
  · exact h d found hfound

theorem tidy_insertAt (id : SubscriptionId) (h : g.Tidy) (c : Cell) : (g.insertAt id c).Tidy := by
  unfold insertAt
  split
  · exact h
  · exact h.withBucket c (Bucket.tidy_put (h.bucket c) id) _

theorem tidy_eraseAt (id : SubscriptionId) (h : g.Tidy) (c : Cell) : (g.eraseAt id c).Tidy := by
  unfold eraseAt
  split
  · exact h.withBucket c (Bucket.tidy_drop (h.bucket c) id) _
  · exact h

theorem tidy_empty (n : Nat) : (Grid.empty n).Tidy := by
  intro c bucket h
  simp [Grid.empty] at h

theorem tidy_apply (h : g.Tidy) (e : Edit) : (e.apply g).Tidy := by
  cases e with
  | insert id geofence => exact List.foldlRecOn _ _ h fun _ hg c _ => tidy_insertAt id hg c
  | erase id geofence => exact List.foldlRecOn _ _ h fun _ hg c _ => tidy_eraseAt id hg c

theorem counted_apply (h : g.Counted) (e : Edit) : (e.apply g).Counted := by
  cases e with
  | insert id geofence => exact counted_insert id geofence.box h
  | erase id geofence => exact counted_erase id geofence.box h

/-- The cells in which edits enter something, each as often as they do. -/
def entered (g : Grid) (edits : List Edit) : List Cell :=
  edits.flatMap fun
    | .insert _ geofence => g.cellsFor geofence.box
    | .erase _ _ => []

theorem hasBucket_run (g : Grid) (edits : List Edit) (c : Cell) :
    (g.run edits).hasBucket c = true ↔ g.hasBucket c = true ∨ c ∈ g.entered edits := by
  induction edits using List.reverseRecOn with
  | nil => simp [run, entered]
  | append_singleton edits e ih =>
    have hcells := cellsFor_congr (granularity_run g edits)
    rw [run_concat]
    cases e with
    | insert id geofence =>
      rw [Edit.apply, hasBucket_insert, Bool.or_eq_true, ih, hcells, List.contains_iff_mem]
      simp [entered, or_assoc]
    | erase id geofence =>
      rw [Edit.apply, hasBucket_erase, ih]
      simp [entered]

/-- After any sequence of edits an empty grid is the set of the cells and ids whose last edit
entered the id in the cell. Looking up a location lists the ids of its cell, each once; the counter
is the size of the set; no client is kept without numbers; and the buckets are those of the cells in
which something was ever entered. -/
theorem entries_of_edits (n : Nat) (edits : List Edit) :
    let g := (Grid.empty n).run edits
    (∀ c id, g.holds c id = true ↔ (Grid.empty n).LastEnters edits c id) ∧
    (∀ p, (g.lookup p).Nodup ∧ ∀ id, id ∈ g.lookup p ↔ g.holds (g.cellOf p) id = true) ∧
    (0 ≤ g.memberships ∧ ∃ entries : Finset (Cell × SubscriptionId),
      (∀ c id, (c, id) ∈ entries ↔ g.holds c id = true) ∧ g.memberships = entries.card) ∧
    (∀ (c : Cell) (bucket : Bucket) (client : ClientId) (seqs : Std.TreeSet Nat),
      g.buckets[c]? = some bucket → bucket[client]? = some seqs → seqs.isEmpty = false) ∧
    g.bucketCount = ((Grid.empty n).entered edits).toFinset.card := by
  intro g
  have htidy : g.Tidy := run_induction (tidy_empty n) (fun _ e h => tidy_apply h e) edits
  have hcounted : g.Counted :=
    run_induction (counted_empty n) (fun _ e h => counted_apply h e) edits
  refine ⟨?_, ?_, ⟨?_, hcounted⟩, ?_, ?_⟩
  · intro c id
    rw [holds_run_iff]
    simp
  · intro p
    exact ⟨nodup_idsAt g _, mem_idsAt g _⟩
  · obtain ⟨entries, -, hcard⟩ := hcounted
    omega
  · intro c bucket client seqs hbucket hseqs
    exact htidy c bucket hbucket client seqs hseqs
  · refine bucketCount_eq_card ?_
    intro c
    rw [List.mem_toFinset, hasBucket_run]
    simp

/-! ## Locations of a geofence -/

theorem holds_run_of_kept (hholds : g.holds c id = true)
    (hkept : ∀ geofence, .erase id geofence ∈ edits → c ∉ g.cellsFor geofence.box) :
    (g.run edits).holds c id = true := by
  induction edits using List.reverseRecOn with
  | nil => exact hholds
  | append_singleton edits e ih =>
    have hcells := cellsFor_congr (granularity_run g edits)
    have hbefore := ih fun geofence he => hkept geofence (List.mem_append_left _ he)
    rw [run_concat, holds_apply_iff]
    by_cases hconcerns : e.Concerns (g.run edits) c id
    · obtain ⟨rfl, hc⟩ := hconcerns
      cases e with
      | insert x geofence => exact .inl ⟨geofence, rfl, hc⟩
      | erase x geofence =>
        rw [hcells] at hc
        exact absurd hc (hkept geofence (by simp [Edit.id]))
    · exact .inr ⟨hconcerns, hbefore⟩

/-- Looking up a location of a geofence finds the id that was entered under it, until the id is
taken out of the cell of the location. -/
theorem mem_lookup_of_contains (g : Grid) (id : SubscriptionId) {geofence : Geofence}
    {p : Location} (hcontains : geofence.contains p = true)
    (hkept : ∀ other, .erase id other ∈ edits → g.cellOf p ∉ g.cellsFor other.box) :
    id ∈ ((g.insert id geofence.box).run edits).lookup p := by
  have hbox : geofence.box.contains p = true := by
    rw [Geofence.contains, Bool.and_eq_true] at hcontains
    exact hcontains.1
  have hentered : (g.insert id geofence.box).holds (g.cellOf p) id = true := by
    rw [holds_insert]
    simp [cellOf_mem_cellsFor g hbox]
  have hgranularity := granularity_insert g id geofence.box
  have hcell : ((g.insert id geofence.box).run edits).cellOf p = g.cellOf p := by
    simp only [cellOf, granularity_run, hgranularity]
  rw [lookup, hcell, mem_idsAt]
  refine holds_run_of_kept hentered ?_
  intro other hother
  rw [cellsFor_congr hgranularity]
  exact hkept other hother

/-- An id that is entered under a geofence is found at every location of it, whatever else the grid
holds and until the id is taken out there. For the cells of a box are those between the cells of its
corners, each once, and a location in the box falls into one of them. -/
theorem lookup_covers (g : Grid) :
    (∀ (id : SubscriptionId) (geofence : Geofence) (p : Location) (edits : List Edit),
      geofence.contains p = true →
      (∀ other, .erase id other ∈ edits → g.cellOf p ∉ g.cellsFor other.box) →
      id ∈ ((g.insert id geofence.box).run edits).lookup p) ∧
    ∀ box : BoundingBox, (∀ p, box.contains p = true → g.cellOf p ∈ g.cellsFor box) ∧
      (g.cellsFor box).Nodup ∧ ∀ c, c ∈ g.cellsFor box ↔
        (g.cellOf box.southWest).lat ≤ c.lat ∧ c.lat ≤ (g.cellOf box.northEast).lat ∧
        (g.cellOf box.southWest).lon ≤ c.lon ∧ c.lon ≤ (g.cellOf box.northEast).lon := by
  refine ⟨?_, ?_⟩
  · intro id geofence p edits hcontains hkept
    exact mem_lookup_of_contains g id hcontains hkept
  · intro box
    refine ⟨?_, nodup_cellsFor g box, fun c => mem_cellsFor⟩
    intro p hp
    exact cellOf_mem_cellsFor g hp

/-- With as many cells as there can be, the places of the north-east end of the globe are cut off;
there the geofence of the globe is found also after its id was taken out at the origin. -/
theorem lookup_covers_last_cell :
    let g := Grid.empty 4294967295
    let origin := Geofence.ofAccepted (.rectangle ⟨0.0, 0.0⟩ ⟨0.0, 0.0⟩) (by decide +kernel)
    g.cellOf ⟨90.0, 180.0⟩ = ⟨maxIndex, maxIndex⟩ ∧
      Geofence.world.contains ⟨90.0, 180.0⟩ = true ∧
      ⟨"x", 0⟩ ∈ ((g.insert ⟨"x", 0⟩ Geofence.world.box).run [.erase ⟨"x", 0⟩ origin]).lookup
        ⟨90.0, 180.0⟩ := by
  intro g origin
  have hcontains : Geofence.world.contains ⟨90.0, 180.0⟩ = true := by decide +kernel
  refine ⟨by decide +kernel, hcontains, (lookup_covers g).1 _ _ _ _ hcontains ?_⟩
  intro other hother
  cases List.mem_singleton.1 hother
  rw [mem_cellsFor]
  decide +kernel

end Grid

end Geocast
