import Geocast.Grid.Lemmas
import Mathlib.Data.Finset.Card
import Mathlib.Data.List.Nodup

/-!
# The buckets of a grid

A cell gets its bucket when an id is entered there for the first time and keeps it for good. So the
cells with buckets are those of all the boxes under which anything was ever entered.

* `hasBucket`: a cell has a bucket.
* `hasBucket_insert`, `hasBucket_erase`: entering an id under a box gives buckets to the cells of
  the box, taking it out takes none away.
* `bucketCount_congr`, `bucketCount_eq_card`: grids with buckets in the same cells have the same
  number of them, and it is the number of these cells.
-/
namespace Geocast.Grid

def hasBucket (g : Grid) (c : Cell) : Bool := g.buckets.contains c

variable {g h : Grid} {c d : Cell} {id : SubscriptionId}

@[simp] theorem hasBucket_empty (n : Nat) (c : Cell) : (Grid.empty n).hasBucket c = false := by
  simp [hasBucket, Grid.empty]

theorem hasBucket_of_holds (hholds : g.holds c id = true) : g.hasBucket c = true := by
  by_contra hnot
  have hnone : g.buckets[c]? = none := by
    simpa [hasBucket] using hnot
  rw [holds, bucket, hnone, Option.getD_none, Bucket.holds_empty] at hholds
  cases hholds

theorem contains_insert_bucket (buckets : Std.TreeMap Cell Bucket Cell.order) (bucket : Bucket) :
    (buckets.insert c bucket).contains d = (buckets.contains d || c == d) := by
  rw [Std.TreeMap.contains_insert, Bool.or_comm]
  congr 1
  rw [Bool.eq_iff_iff, beq_iff_eq, beq_iff_eq]
  exact Std.LawfulEqCmp.compare_eq_iff_eq

theorem hasBucket_insertAt : (g.insertAt id c).hasBucket d = (g.hasBucket d || c == d) := by
  unfold insertAt
  split
  next hholds =>
    by_cases hcd : c = d
    · subst hcd
      simp [hasBucket_of_holds hholds]
    · simp [hcd]
  next => exact contains_insert_bucket g.buckets _

theorem hasBucket_eraseAt : (g.eraseAt id c).hasBucket d = g.hasBucket d := by
  unfold eraseAt
  split
  next hholds =>
    have hold := hasBucket_of_holds hholds
    change (g.buckets.insert c _).contains d = g.buckets.contains d
    rw [contains_insert_bucket]
    by_cases hcd : c = d
    · subst hcd
      simpa [hasBucket] using hold
    · simp [hcd]
  next => rfl

theorem hasBucket_insert (g : Grid) (id : SubscriptionId) (box : BoundingBox) (d : Cell) :
    (g.insert id box).hasBucket d = (g.hasBucket d || (g.cellsFor box).contains d) := by
  unfold insert
  generalize g.cellsFor box = cells
  induction cells generalizing g with
  | nil => simp
  | cons c cells ih =>
    rw [List.foldl_cons, ih, hasBucket_insertAt, List.contains_cons, Bool.or_assoc,
      Bool.beq_comm (a := c)]

theorem hasBucket_erase (g : Grid) (id : SubscriptionId) (box : BoundingBox) (d : Cell) :
    (g.erase id box).hasBucket d = g.hasBucket d := by
  unfold erase
  generalize g.cellsFor box = cells
  induction cells generalizing g with
  | nil => rfl
  | cons c cells ih => rw [List.foldl_cons, ih, hasBucket_eraseAt]

theorem bucketCount_congr (hsame : ∀ c, g.hasBucket c = h.hasBucket c) :
    g.bucketCount = h.bucketCount := by
  have hperm : g.buckets.keys.Perm h.buckets.keys := by
    rw [List.perm_ext_iff_of_nodup Std.TreeMap.nodup_keys Std.TreeMap.nodup_keys]
    intro c
    rw [Std.TreeMap.mem_keys, Std.TreeMap.mem_keys, Std.TreeMap.mem_iff_contains,
      Std.TreeMap.mem_iff_contains]
    exact Bool.eq_iff_iff.1 (hsame c)
  have hlength := hperm.length_eq
  rwa [Std.TreeMap.length_keys, Std.TreeMap.length_keys] at hlength

theorem bucketCount_eq_card {cells : Finset Cell} (h : ∀ c, c ∈ cells ↔ g.hasBucket c = true) :
    g.bucketCount = cells.card := by
  have hnodup : g.buckets.keys.Nodup := Std.TreeMap.nodup_keys
  have hset : g.buckets.keys.toFinset = cells := by
    ext c
    rw [h, List.mem_toFinset, Std.TreeMap.mem_keys, Std.TreeMap.mem_iff_contains]
    rfl
  rw [← hset, List.toFinset_card_of_nodup hnodup, Std.TreeMap.length_keys]
  rfl

end Geocast.Grid
