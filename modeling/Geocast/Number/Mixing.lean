/-!
# Mixing

`mix` gives every list of bytes a word of 64 bits, so that lists which differ in little get words
which have nothing in common. The bytes are taken as words, and a running word takes them in by
multiplications whose two halves are laid over each other.
-/
namespace Geocast.Mixing

/-! ## Words -/

/-- The two halves of the product of two words, laid over each other. -/
def folded (a b : UInt64) : UInt64 :=
  let product := a.toNat * b.toNat
  UInt64.ofNat product ^^^ UInt64.ofNat (product >>> 64)

/-- A word with its bits moved upwards, those from the upper end coming back at the lower one. -/
def rotated (w bits : UInt64) : UInt64 := (w <<< bits) ||| (w >>> (64 - bits))

/-- The word of at most eight bytes, the first byte the lowest. -/
def word (bytes : List UInt8) : UInt64 :=
  bytes.foldr (fun b w => (w <<< 8) ||| b.toUInt64) 0

/-- The two words of at most sixteen bytes, one from their front and one from their end. They share
bytes where there are few. -/
def ends (bytes : List UInt8) : UInt64 × UInt64 :=
  let n := bytes.length
  let (front, back) :=
    if 8 < n then (8, 8) else if 4 ≤ n then (4, 4) else if 2 ≤ n then (2, 1) else (1, 1)
  (word (bytes.take front), word (bytes.drop (n - back)))

/-- Sixteen bytes at a time, as long as there are more than sixteen. -/
def blocks (bytes : List UInt8) : List (List UInt8) :=
  if 16 < bytes.length then bytes.take 16 :: blocks (bytes.drop 16) else []
termination_by bytes.length
decreasing_by simp only [List.length_drop]; omega

/-- The pieces of at most sixteen bytes that are taken in: the last sixteen bytes and the blocks
before them, or all bytes if they are few. -/
def pieces (bytes : List UInt8) : List (List UInt8) :=
  if 16 < bytes.length then bytes.drop (bytes.length - 16) :: blocks bytes else [bytes]

/-! ## Mixing -/

def factor : UInt64 := 6364136223846793005

/-- The running word at the beginning. -/
def seed : UInt64 := 0xbe5466cf34e90c6e

/-- What is added to the running word, and what it is multiplied with at the end. -/
def pad : UInt64 := 0x452821e638d01376

/-- What is laid over the two words of a piece. -/
def masks : UInt64 × UInt64 := (0xc0ac29b7c97c50de, 0x3f84d5b5b5470913)

/-- The running word after a piece. -/
def takeIn (w : UInt64) (piece : List UInt8) : UInt64 :=
  let (a, b) := ends piece
  rotated ((w + pad) ^^^ folded (a ^^^ masks.1) (b ^^^ masks.2)) 23

/-- The word of a list of bytes. The number of bytes counts, and a last byte closes the list. -/
def mix (bytes : List UInt8) : UInt64 :=
  let start := (seed + UInt64.ofNat bytes.length) * factor
  let all := (pieces bytes).foldl takeIn start
  let closed := folded (0xff ^^^ all) factor
  rotated (folded closed pad) (closed &&& 63)

end Geocast.Mixing
