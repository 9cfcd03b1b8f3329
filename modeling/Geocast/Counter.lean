/-!
# A gauge

A gauge is counted up and down by several hands at once. Its number has sixty-four bits and wraps
around. No step depends on another, so the number in the end does not tell in which order the steps
came; and it is the right one even if it wrapped around on the way.

* `run_perm`: steps in any order lead to the same number.
* `count_run`, `toInt_count_run`: what the number is, and when nothing is lost.
-/
namespace Geocast

@[ext]
structure Counter where
  count : Int64
  deriving DecidableEq, Repr

namespace Counter

def new : Counter := ⟨0⟩

inductive Step where
  | up
  | down
  deriving DecidableEq, Repr

/-- What a step adds. -/
def Step.amount : Step → Int64
  | up => 1
  | down => -1

def step (c : Counter) (s : Step) : Counter := ⟨c.count + s.amount⟩

def run (c : Counter) (steps : List Step) : Counter := steps.foldl step c

def display (c : Counter) : String := toString c.count

variable {steps steps' : List Step}

theorem step_comm (c : Counter) (s t : Step) : (c.step s).step t = (c.step t).step s :=
  Counter.ext (by rw [step, step, Int64.add_assoc, Int64.add_comm s.amount, ← Int64.add_assoc]; rfl)

/-- The order of the steps makes no difference, so that of the hands makes none. -/
theorem run_perm (c : Counter) (h : steps.Perm steps') : c.run steps = c.run steps' :=
  h.foldl_eq' (fun s _ t _ c => step_comm c s t) c

/-- What the steps up are more than the steps down. -/
def excess (steps : List Step) : Int := steps.count .up - steps.count .down

theorem excess_cons (s : Step) (steps : List Step) :
    Int64.ofInt (excess (s :: steps)) = s.amount + Int64.ofInt (excess steps) := by
  cases s with
  | up =>
    have hone : excess (.up :: steps) = 1 + excess steps := by simp [excess]; omega
    rw [hone, Int64.ofInt_add]
    rfl
  | down =>
    have hone : excess (.down :: steps) = -1 + excess steps := by simp [excess]; omega
    rw [hone, Int64.ofInt_add]
    rfl

theorem count_run (c : Counter) (steps : List Step) :
    (c.run steps).count = c.count + Int64.ofInt (excess steps) := by
  induction steps generalizing c with
  | nil => exact (Int64.add_zero _).symm
  | cons s steps ih =>
    calc ((c.step s).run steps).count
        = c.count + s.amount + Int64.ofInt (excess steps) := ih _
      _ = c.count + Int64.ofInt (excess (s :: steps)) := by rw [Int64.add_assoc, excess_cons]

/-- The number is that excess, if it has sixty-four bits, however far it strayed on the way. -/
theorem toInt_count_run (hlow : Int64.minValue.toInt ≤ excess steps)
    (hhigh : excess steps ≤ Int64.maxValue.toInt) :
    (new.run steps).count.toInt = excess steps := by
  rw [count_run, new, Int64.zero_add]
  exact Int64.toInt_ofInt_of_le hlow (Int.lt_of_le_of_lt hhigh (by decide))

example : (new.run [.down, .up, .down]).display = "-1" := by decide +kernel

end Counter

end Geocast
