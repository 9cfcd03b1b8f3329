import Std.Data.TreeMap
import Std.Data.TreeSet
import Geocast.Subscription

/-!
# A grid of subscriptions

The globe is divided into cells of `1 / granularity` degrees. A subscription is entered in every
cell that the bounding box of its geofence touches, so looking up the cell of a location gives all
subscriptions whose geofence can contain it, and some more.

* `cellOf`, `cellsFor`: the cell of a location, the cells of a box.
* `insert`, `erase`: enter a subscription under a box, take it out from under a box.
* `lookup`: the ids entered in the cell of a location, in order.

`memberships` counts the (cell, id) pairs. A cell's bucket stays after its last id has gone, but no
bucket keeps a client without numbers.
-/
namespace Geocast

/-- The place of a cell in the grid. -/
structure Cell where
  lat : Int
  lon : Int
  deriving DecidableEq, Repr

namespace Cell

/-- Cells from south to north, in a row from west to east. -/
def order (a b : Cell) : Ordering := (compare a.lat b.lat).then (compare a.lon b.lon)

theorem order_eq : order = compareLex (compareOn Cell.lat) (compareOn Cell.lon) := by
  funext a b
  rfl

instance : Std.TransCmp order := by
  rw [order_eq]
  infer_instance

instance : Std.LawfulEqCmp order where
  eq_of_compare {a b} h := by
    rw [order, Ordering.then_eq_eq, Std.compare_eq_iff_eq, Std.compare_eq_iff_eq] at h
    cases a
    cases b
    simp_all

end Cell

/-- The ids of one cell: for each client its numbers. -/
abbrev Bucket := Std.TreeMap ClientId (Std.TreeSet Nat)

namespace Bucket

def seqs (b : Bucket) (client : ClientId) : Std.TreeSet Nat := b[client]?.getD ∅

def holds (b : Bucket) (id : SubscriptionId) : Bool := (seqs b id.client).contains id.seq

def put (b : Bucket) (id : SubscriptionId) : Bucket :=
  b.insert id.client ((seqs b id.client).insert id.seq)

/-- The bucket with an id taken out; a client whose last number goes is forgotten. -/
def drop (b : Bucket) (id : SubscriptionId) : Bucket :=
  let rest := (seqs b id.client).erase id.seq
  if rest.isEmpty then b.erase id.client else b.insert id.client rest

/-- The ids in the bucket, by client and number. -/
def ids (b : Bucket) : List SubscriptionId :=
  b.toList.flatMap fun (client, seqs) => seqs.toList.map fun seq => ⟨client, seq⟩

end Bucket

structure Grid where
  granularity : Nat
  buckets : Std.TreeMap Cell Bucket Cell.order
  memberships : Int

namespace Grid

/-- A grid with nothing entered; no cells per degree count as one. -/
def empty (granularity : Nat) : Grid := ⟨max 1 granularity, ∅, 0⟩

/-! ## Cells -/

def minIndex : Int := -2147483648

def maxIndex : Int := 2147483647

/-- The whole part of a double, downwards, kept between the least and the greatest place. NaN gives
zero. -/
def place (x : Float) : Int :=
  if x.isNaN then 0
  else if x.isInf then if x < 0.0 then minIndex else maxIndex
  else max minIndex (min maxIndex (Binary64.floor x))

/-- The number of cells from zero to an angle in degrees. -/
def index (granularity : Nat) (deg : Float) : Int := place (deg * Float.ofNat granularity)

def cellOf (g : Grid) (p : Location) : Cell :=
  ⟨index g.granularity p.lat, index g.granularity p.lon⟩

/-- The south-west corner of a cell. -/
def cellOrigin (g : Grid) (c : Cell) : Location :=
  let n := Float.ofNat g.granularity
  ⟨Float.ofInt c.lat / n, Float.ofInt c.lon / n⟩

/-- The integers from the first to the second, ends included. -/
def span (first last : Int) : List Int :=
  (List.range (last - first + 1).toNat).map fun (i : Nat) => first + i

/-- Every cell that a box touches, from south to north and from west to east. -/
def cellsFor (g : Grid) (box : BoundingBox) : List Cell :=
  let lons := span (index g.granularity box.minLon) (index g.granularity box.maxLon)
  (span (index g.granularity box.minLat) (index g.granularity box.maxLat)).flatMap fun lat =>
    lons.map fun lon => ⟨lat, lon⟩

/-! ## Entering and taking out -/

def bucket (g : Grid) (c : Cell) : Bucket := g.buckets[c]?.getD ∅

def holds (g : Grid) (c : Cell) (id : SubscriptionId) : Bool := Bucket.holds (g.bucket c) id

def insertAt (id : SubscriptionId) (g : Grid) (c : Cell) : Grid :=
  if g.holds c id then g
  else
    { g with
      buckets := g.buckets.insert c (Bucket.put (g.bucket c) id)
      memberships := g.memberships + 1 }

def eraseAt (id : SubscriptionId) (g : Grid) (c : Cell) : Grid :=
  if g.holds c id then
    { g with
      buckets := g.buckets.insert c (Bucket.drop (g.bucket c) id)
      memberships := g.memberships - 1 }
  else g

def insert (g : Grid) (id : SubscriptionId) (box : BoundingBox) : Grid :=
  (g.cellsFor box).foldl (insertAt id) g

def erase (g : Grid) (id : SubscriptionId) (box : BoundingBox) : Grid :=
  (g.cellsFor box).foldl (eraseAt id) g

/-- The ids entered in a cell, by client and number. -/
def idsAt (g : Grid) (c : Cell) : List SubscriptionId := Bucket.ids (g.bucket c)

/-- The ids entered in the cell of a location. -/
def lookup (g : Grid) (p : Location) : List SubscriptionId := g.idsAt (g.cellOf p)

/-- The number of cells in which an id was ever entered. -/
def bucketCount (g : Grid) : Nat := g.buckets.size

def summary (g : Grid) : String :=
  "SpatialRaster \x7b granularity: " ++ toString g.granularity ++ ", buckets: " ++
    toString g.bucketCount ++ ", ids: " ++ toString g.memberships ++ " \x7d"

end Grid

end Geocast
