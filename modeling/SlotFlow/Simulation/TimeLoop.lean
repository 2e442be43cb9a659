/-!
# Time stepping

A time loop runs at least once, never passes its target, and stops as soon as its time plus a
tolerance lies beyond the target. The rule needs little of the numbers it works with: they are a
`TimeNumber`, of which the doubles are one.

* `TimeLoop.advance` — one step;
* `TimeLoop.advances` — one step after the other.
-/

namespace SlotFlow

/-- The numbers that times and steps are measured in. -/
class TimeNumber (R : Type) where
  /-- A literal of a workflow. -/
  ofFloat : Float → R
  add : R → R → R
  /-- The smaller one of two numbers. -/
  earlier : R → R → R
  /-- Whether the first number is greater than the second one. -/
  exceeds : R → R → Bool
  /-- The smallest one of several numbers. -/
  least : List R → R
  /-- Whether a number can be the length of a step. -/
  isStep : R → Bool

namespace TimeNumber

/-- The smaller one of two doubles. A double that is no number counts only where both are none, and
of two zeros the second one is taken. -/
def earlierFloat (x y : Float) : Float :=
  if x.isNaN then y else if y.isNaN then x else if x < y then x else y

/-- Doubles measure time; a step is positive and finite. -/
instance : TimeNumber Float where
  ofFloat := id
  add := (· + ·)
  earlier := earlierFloat
  exceeds x y := y < x
  least := List.foldl earlierFloat (1.0 / 0.0)
  isStep x := 0.0 < x && x.isFinite

end TimeNumber

open TimeNumber

/-- A time step as a model gets to see it. -/
structure TimeStep (R : Type) where
  time : R
  dt : R
  target : R
  number : Nat
  deriving Repr

/-- The step in which everything happens that happens outside of all steps. -/
def TimeStep.none {R : Type} [TimeNumber R] : TimeStep R :=
  ⟨ofFloat 0.0, ofFloat 0.0, ofFloat 0.0, 0⟩

/-- How far a time loop has come. -/
structure TimeLoop (R : Type) where
  time : R
  target : R
  tolerance : R
  /-- The number of steps made. -/
  number : Nat := 0
  running : Bool := true

namespace TimeLoop

variable {R : Type} [TimeNumber R]

/-- A loop that is about to make its first step. -/
def start (time target tolerance : R) : TimeLoop R :=
  { time, target, tolerance }

/-- Makes a step of a length, or one up to the target if that is nearer. -/
def advance (loop : TimeLoop R) (dt : R) : TimeStep R × TimeLoop R :=
  let time := earlier (add loop.time dt) loop.target
  let number := loop.number + 1
  ({ time := time, dt := dt, target := loop.target, number := number },
   { loop with
     time := time
     number := number
     running := loop.running && !exceeds (add time loop.tolerance) loop.target })

/-- Makes one step after the other, whether or not the loop is still running: each step, with how
far the loop has come then. -/
def advances (loop : TimeLoop R) : List R → List (TimeStep R × TimeLoop R)
  | [] => []
  | dt :: dts =>
    let next := loop.advance dt
    next :: next.2.advances dts

/-- Every length makes one step. -/
@[simp] theorem length_advances (loop : TimeLoop R) (dts : List R) :
    (loop.advances dts).length = dts.length := by
  induction dts generalizing loop with
  | nil => rfl
  | cons dt dts ih => simp [advances, ih]

/-- A step bears the next number. -/
@[simp] theorem advance_number (loop : TimeLoop R) (dt : R) :
    (loop.advance dt).1.number = loop.number + 1 := rfl

end TimeLoop

end SlotFlow
