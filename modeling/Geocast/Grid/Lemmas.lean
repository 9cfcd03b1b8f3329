import Geocast.Grid

/-!
# What the operations of a grid do

`holds` is the view of a grid: which ids are entered in which cells. Each operation is described by
what it does to `holds` (`holds_insert`, `holds_erase`), the list of a cell by which ids it has
(`mem_idsAt`, `nodup_idsAt`), and the cells of a box by the cells of its corners (`mem_cellsFor`).
-/
namespace Geocast

namespace Bucket

@[simp] theorem holds_empty (x : SubscriptionId) : holds ∅ x = false := by
  simp [holds, seqs]

theorem holds_put (b : Bucket) (id x : SubscriptionId) :
    holds (put b id) x = (holds b x || id == x) := by
  cases id with | mk client seq =>
  cases x with | mk client' seq' =>
  rw [Bool.eq_iff_iff]
  by_cases hc : client = client'
  · subst hc
    simp [holds, seqs, put, or_comm]
  · simp [holds, seqs, put, hc, Std.TreeMap.getElem?_insert]

/-- Taking an id out of a bucket takes its number from its client. -/
theorem seqs_drop (b : Bucket) (id : SubscriptionId) (client : ClientId) (seq : Nat) :
    seq ∈ seqs (drop b id) client ↔ seq ∈ seqs b client ∧ ¬(id.client = client ∧ id.seq = seq) := by
  simp only [drop]
  by_cases hc : id.client = client
  · subst hc
    split
    next h =>
      have hnone : ¬seq ∈ (seqs b id.client).erase id.seq :=
        Std.TreeSet.isEmpty_iff_forall_not_mem.1 h seq
      simp only [seqs] at hnone ⊢
      simp at hnone ⊢
      grind
    next h => simp [seqs, and_comm]
  · split <;> simp [seqs, hc, Std.TreeMap.getElem?_insert, Std.TreeMap.getElem?_erase]

theorem holds_drop (b : Bucket) (id x : SubscriptionId) :
    holds (drop b id) x = (holds b x && !(id == x)) := by
  rw [Bool.eq_iff_iff]
  have := seqs_drop b id x.client x.seq
  cases id; cases x
  simpa [holds] using this

end Bucket

namespace Grid

/-! ## Cells -/

@[simp] theorem mem_span {first last i : Int} : i ∈ span first last ↔ first ≤ i ∧ i ≤ last := by
  simp only [span, List.mem_map, List.mem_range]
  constructor
  · rintro ⟨n, hn, rfl⟩
    omega
  · rintro ⟨h, h'⟩
    exact ⟨(i - first).toNat, by omega, by omega⟩

theorem nodup_span (first last : Int) : (span first last).Nodup := by
  unfold span
  rw [List.nodup_iff_pairwise_ne, List.pairwise_map]
  exact List.nodup_range.imp fun h => by omega

/-- The cells of a box are those between the cells of its corners. -/
theorem mem_cellsFor {g : Grid} {box : BoundingBox} {c : Cell} :
    c ∈ g.cellsFor box ↔
      (g.cellOf box.southWest).lat ≤ c.lat ∧ c.lat ≤ (g.cellOf box.northEast).lat ∧
      (g.cellOf box.southWest).lon ≤ c.lon ∧ c.lon ≤ (g.cellOf box.northEast).lon := by
  cases c with | mk lat lon =>
  simp only [cellsFor, List.mem_flatMap, List.mem_map, mem_span, Cell.mk.injEq]
  constructor
  · rintro ⟨_, ⟨h₁, h₂⟩, _, ⟨h₃, h₄⟩, rfl, rfl⟩
    exact ⟨h₁, h₂, h₃, h₄⟩
  · rintro ⟨h₁, h₂, h₃, h₄⟩
    exact ⟨lat, ⟨h₁, h₂⟩, lon, ⟨h₃, h₄⟩, rfl, rfl⟩

theorem nodup_cellsFor (g : Grid) (box : BoundingBox) : (g.cellsFor box).Nodup := by
  simp only [cellsFor, List.nodup_iff_pairwise_ne, List.pairwise_flatMap, List.pairwise_map]
  constructor
  · intro lat _
    exact (nodup_span _ _).imp fun h e => h (Cell.mk.inj e).2
  · refine (nodup_span _ _).imp fun h => ?_
    simp only [List.mem_map]
    rintro _ ⟨_, _, rfl⟩ _ ⟨_, _, rfl⟩ e
    exact h (Cell.mk.inj e).1

/-! ## Entering and taking out -/

@[simp] theorem holds_empty (n : Nat) (c : Cell) (id : SubscriptionId) :
    (Grid.empty n).holds c id = false := by
  simp [holds, bucket, Grid.empty]

theorem holds_insertAt (g : Grid) (c d : Cell) (id x : SubscriptionId) :
    (g.insertAt id c).holds d x = (g.holds d x || (c == d && id == x)) := by
  unfold insertAt
  by_cases hcd : c = d
  · subst hcd
    split
    next h => by_cases hix : id = x <;> simp_all
    next h => simp [holds, bucket, Bucket.holds_put]
  · split <;> simp [holds, bucket, hcd, Std.TreeMap.getElem?_insert]

theorem holds_eraseAt (g : Grid) (c d : Cell) (id x : SubscriptionId) :
    (g.eraseAt id c).holds d x = (g.holds d x && !(c == d && id == x)) := by
  unfold eraseAt
  by_cases hcd : c = d
  · subst hcd
    split
    next h => simp [holds, bucket, Bucket.holds_drop]
    next h => by_cases hix : id = x <;> simp_all
  · split <;> simp [holds, bucket, hcd, Std.TreeMap.getElem?_insert]

theorem holds_foldl_insertAt (id x : SubscriptionId) (d : Cell) (cells : List Cell) (g : Grid) :
    (cells.foldl (insertAt id) g).holds d x = (g.holds d x || (cells.contains d && id == x)) := by
  induction cells generalizing g with
  | nil => simp
  | cons c cells ih =>
    rw [List.foldl_cons, ih, holds_insertAt, List.contains_cons]
    rw [Bool.eq_iff_iff]
    simp only [Bool.or_eq_true, Bool.and_eq_true, beq_iff_eq]
    grind

theorem holds_foldl_eraseAt (id x : SubscriptionId) (d : Cell) (cells : List Cell) (g : Grid) :
    (cells.foldl (eraseAt id) g).holds d x =
      (g.holds d x && !(cells.contains d && id == x)) := by
  induction cells generalizing g with
  | nil => simp
  | cons c cells ih =>
    rw [List.foldl_cons, ih, holds_eraseAt, List.contains_cons]
    rw [Bool.eq_iff_iff]
    simp only [Bool.and_eq_true, Bool.not_eq_true', Bool.and_eq_false_iff, Bool.or_eq_false_iff,
      beq_eq_false_iff_ne]
    grind

/-- After an id is entered under a box, the cells of the box hold it. -/
theorem holds_insert (g : Grid) (id x : SubscriptionId) (box : BoundingBox) (d : Cell) :
    (g.insert id box).holds d x = (g.holds d x || ((g.cellsFor box).contains d && id == x)) :=
  holds_foldl_insertAt id x d (g.cellsFor box) g

/-- After an id is taken out from under a box, no cell of the box holds it. -/
theorem holds_erase (g : Grid) (id x : SubscriptionId) (box : BoundingBox) (d : Cell) :
    (g.erase id box).holds d x = (g.holds d x && !((g.cellsFor box).contains d && id == x)) :=
  holds_foldl_eraseAt id x d (g.cellsFor box) g

/-- The ids listed for a cell are those that it holds. -/
theorem mem_idsAt (g : Grid) (c : Cell) (id : SubscriptionId) :
    id ∈ g.idsAt c ↔ g.holds c id = true := by
  cases id with | mk client seq =>
  simp only [idsAt, holds, Bucket.ids, Bucket.holds, Bucket.seqs, List.mem_flatMap, List.mem_map,
    Std.TreeSet.mem_toList, Prod.exists, Std.TreeMap.mem_toList_iff_getElem?_eq_some]
  constructor
  · rintro ⟨a, s, h, n, hn, e⟩
    cases e
    simp [h, hn]
  · intro h
    cases hs : (g.bucket c)[client]? with
    | none => simp [hs] at h
    | some s => exact ⟨client, s, hs, seq, by simpa [hs] using h, rfl⟩

theorem nodup_idsAt (g : Grid) (c : Cell) : (g.idsAt c).Nodup := by
  simp only [idsAt, Bucket.ids, List.nodup_iff_pairwise_ne, List.pairwise_flatMap,
    List.pairwise_map]
  constructor
  · intro p _
    exact (Std.TreeSet.distinct_toList (t := p.2)).imp fun h e => h (by simp_all)
  · refine Std.TreeMap.distinct_keys_toList.imp fun h => ?_
    simp only [List.mem_map]
    rintro _ ⟨_, _, rfl⟩ _ ⟨_, _, rfl⟩ e
    exact h (by simp_all)

/-! ## What stays -/

@[simp] theorem granularity_insert (g : Grid) (id : SubscriptionId) (box : BoundingBox) :
    (g.insert id box).granularity = g.granularity := by
  unfold insert
  generalize g.cellsFor box = cells
  induction cells generalizing g with
  | nil => rfl
  | cons c cells ih =>
    rw [List.foldl_cons, ih]
    unfold insertAt
    split <;> rfl

@[simp] theorem granularity_erase (g : Grid) (id : SubscriptionId) (box : BoundingBox) :
    (g.erase id box).granularity = g.granularity := by
  unfold erase
  generalize g.cellsFor box = cells
  induction cells generalizing g with
  | nil => rfl
  | cons c cells ih =>
    rw [List.foldl_cons, ih]
    unfold eraseAt
    split <;> rfl

theorem cellsFor_congr {g h : Grid} (e : g.granularity = h.granularity) (box : BoundingBox) :
    g.cellsFor box = h.cellsFor box := by
  simp only [cellsFor, e]

end Grid

end Geocast
