import Mathlib.Algebra.BigOperators.Group.Finset.Basic
import Mathlib.Algebra.Order.Archimedean.Basic
import Mathlib.Algebra.Order.BigOperators.Group.Finset
import Mathlib.Data.Rat.Floor
import Mathlib.Order.Bounds.Basic
import SlotFlow.Decimal.Binary64
import SlotFlow.Simulation.TimeLoop
/-!
# Time stepping in closed form

Over exact numbers the time of a loop after some steps is the sum of their lengths, or the target where the
sum lies beyond it. The loop cuts its time off at every step, and goes on from there; since the lengths are
positive, that makes no difference to a sum that has passed the target. So the loop stops with the first
step whose sum lies beyond the target or within the tolerance of it, and there is such a step if the lengths
do not become arbitrarily small.

* `TimeLoop.reach` — the start and the lengths of the steps after it, all together;
* `TimeLoop.after` — a loop after steps of given lengths; `TimeLoop.Makes` — the steps that it makes;
* `TimeLoop.Suffices` — numbers of steps with which the loop comes close enough to its target.

## Results

* `TimeLoop.time_after` — the time after some steps: the invariant;
* `TimeLoop.running_after_iff` — a loop runs as long as no number of steps so far has sufficed;
* `TimeLoop.exists_isLeast` — some number of steps suffices;
* `TimeLoop.makes_iff` — the steps of a loop, in closed form;
* `TimeLoop.exists_stepsInClosedForm` — there is such a form for every loop.
-/

namespace SlotFlow

open Finset

-- ---------------------------------------------------------------------------
-- Exact numbers
-- ---------------------------------------------------------------------------

/-- The number that a double holds. What is no finite number counts as zero. -/
def Binary64.value : Binary64 → ℚ
  | nan | infinite _ => 0
  | finite negative mantissa exponent => (if negative then -1 else 1) * mantissa * 2 ^ exponent

/-- Rational numbers measure time exactly. There is no least one of none, for which zero stands; it is not
the length of a step. -/
instance : TimeNumber ℚ where
  ofFloat x := (Binary64.ofFloat x).value
  add := (· + ·)
  earlier := min
  exceeds x y := y < x
  least xs := xs.min?.getD 0
  isStep x := 0 < x

namespace TimeLoop

-- ---------------------------------------------------------------------------
-- Loops whose steps have given lengths
-- ---------------------------------------------------------------------------

section Loops

variable {R : Type} [TimeNumber R] {dts : Nat → R}

/-- A loop after `k` steps, whether or not it is still running. -/
def after (loop : TimeLoop R) (dts : Nat → R) : Nat → TimeLoop R
  | 0 => loop
  | k + 1 => ((loop.after dts k).advance (dts k)).2

/-- The step that a loop makes after `k` others. -/
def stepAfter (loop : TimeLoop R) (dts : Nat → R) (k : Nat) : TimeStep R :=
  ((loop.after dts k).advance (dts k)).1

/-- The steps that a loop makes until it stops, where the first of them comes after `k` others. There are
none if it never stops. -/
inductive Makes (dts : Nat → R) : Nat → TimeLoop R → List (TimeStep R) → Prop where
  | stopped {k : Nat} {loop : TimeLoop R} (h : loop.running = false) : Makes dts k loop []
  | step {k : Nat} {loop : TimeLoop R} {steps : List (TimeStep R)} (h : loop.running = true)
      (hrest : Makes dts (k + 1) (loop.advance (dts k)).2 steps) :
      Makes dts k loop ((loop.advance (dts k)).1 :: steps)

/-- The steps of a loop are determined. -/
theorem Makes.unique {k : Nat} {loop : TimeLoop R} {steps others : List (TimeStep R)}
    (h : Makes dts k loop steps) (h' : Makes dts k loop others) : steps = others := by
  induction h generalizing others with
  | stopped hstopped =>
    cases h' with
    | stopped => rfl
    | step hrunning =>
      rw [hstopped] at hrunning
      cases hrunning
  | step hrunning _ ih =>
    cases h' with
    | stopped hstopped =>
      rw [hstopped] at hrunning
      cases hrunning
    | step _ hrest => rw [ih hrest]

/-- A loop that is running before each of `n` steps and not after them makes these steps. -/
theorem makes_of_running {loop : TimeLoop R} {n : Nat}
    (hrunning : ∀ k < n, (loop.after dts k).running = true)
    (hstopped : (loop.after dts n).running = false) :
    Makes dts 0 loop ((List.range n).map (loop.stepAfter dts)) := by
  -- The induction is on the steps that are still to be made.
  have hrest : ∀ m k, k + m = n →
      Makes dts k (loop.after dts k) ((List.range' k m).map (loop.stepAfter dts)) := by
    intro m
    induction m with
    | zero =>
      rintro k rfl
      exact .stopped hstopped
    | succ m ih =>
      intro k hk
      exact .step (hrunning k (by omega)) (ih (k + 1) (by omega))
  rw [List.range_eq_range']
  exact hrest n 0 (Nat.zero_add n)

end Loops

-- ---------------------------------------------------------------------------
-- Exact times
-- ---------------------------------------------------------------------------

/-- The start and the lengths of the first `k` steps, all together. -/
def reach (time : ℚ) (dts : Nat → ℚ) (k : Nat) : ℚ :=
  time + ∑ i ∈ range k, dts i

/-- After this many steps, one at least, the sum of their lengths leads beyond the target or within the
tolerance of it. -/
def Suffices (time target tolerance : ℚ) (dts : Nat → ℚ) (n : Nat) : Prop :=
  1 ≤ n ∧ target < reach time dts n + tolerance

variable {time target tolerance δ : ℚ} {dts : Nat → ℚ} {n : Nat}

theorem reach_succ (time : ℚ) (dts : Nat → ℚ) (k : Nat) :
    reach time dts (k + 1) = reach time dts k + dts k := by
  rw [reach, sum_range_succ, reach, add_assoc]

@[simp] theorem target_after (time target tolerance : ℚ) (dts : Nat → ℚ) (k : Nat) :
    ((start time target tolerance).after dts k).target = target := by
  induction k with
  | zero => rfl
  | succ k ih => exact ih

@[simp] theorem tolerance_after (time target tolerance : ℚ) (dts : Nat → ℚ) (k : Nat) :
    ((start time target tolerance).after dts k).tolerance = tolerance := by
  induction k with
  | zero => rfl
  | succ k ih => exact ih

@[simp] theorem number_after (time target tolerance : ℚ) (dts : Nat → ℚ) (k : Nat) :
    ((start time target tolerance).after dts k).number = k := by
  induction k with
  | zero => rfl
  | succ k ih => exact congrArg (· + 1) ih

/-- The time after a step is that before it and the length of the step, or the target. -/
theorem time_after_succ (time target tolerance : ℚ) (dts : Nat → ℚ) (k : Nat) :
    ((start time target tolerance).after dts (k + 1)).time =
      min (((start time target tolerance).after dts k).time + dts k) target := by
  have htarget := target_after time target tolerance dts k
  show min _ ((start time target tolerance).after dts k).target = _
  rw [htarget]
  rfl

/-- A time that has been cut off at the target leads to the same time after another step. -/
theorem min_add_of_nonneg {x dt : ℚ} (hdt : 0 ≤ dt) :
    min (min x target + dt) target = min (x + dt) target := by
  rcases le_total x target with hle | hle
  · rw [min_eq_left hle]
  · have hbeyond : target ≤ x + dt := by linarith
    have hcut : target ≤ target + dt := by linarith
    rw [min_eq_right hle, min_eq_right hcut, min_eq_right hbeyond]

/-- **The time after some steps** is the sum of their lengths, cut off at the target once. -/
theorem time_after (hdts : ∀ k, 0 ≤ dts k) (k : Nat) :
    ((start time target tolerance).after dts (k + 1)).time = min (reach time dts (k + 1)) target := by
  induction k with
  | zero =>
    rw [time_after_succ, reach_succ, reach, sum_range_zero, add_zero]
    rfl
  | succ k ih => rw [time_after_succ, ih, min_add_of_nonneg (hdts (k + 1)), ← reach_succ]

/-- The step after `k` others, in closed form. -/
theorem stepAfter_start (hdts : ∀ k, 0 ≤ dts k) (k : Nat) :
    (start time target tolerance).stepAfter dts k =
      ⟨min (reach time dts (k + 1)) target, dts k, target, k + 1⟩ := by
  let loop := start time target tolerance
  show TimeStep.mk (loop.after dts (k + 1)).time (dts k) (loop.after dts k).target
    (loop.after dts (k + 1)).number = _
  rw [time_after hdts, target_after, number_after]

/-- A time that has been cut off is as close to the target as before, if there is any tolerance. -/
theorem lt_min_add_iff (htolerance : 0 < tolerance) (x : ℚ) :
    target < min x target + tolerance ↔ target < x + tolerance := by
  rcases le_total x target with hle | hle
  · rw [min_eq_left hle]
  · rw [min_eq_right hle]
    constructor <;> intro _ <;> linarith

/-- **A loop runs as long as no number of steps so far has sufficed.** -/
theorem running_after_iff (htolerance : 0 < tolerance) (hdts : ∀ k, 0 ≤ dts k) (k : Nat) :
    ((start time target tolerance).after dts k).running = true ↔
      ∀ j ≤ k, ¬Suffices time target tolerance dts j := by
  induction k with
  | zero =>
    refine iff_of_true rfl fun j hj hsuffices => ?_
    exact absurd hsuffices.1 (by omega)
  | succ k ih =>
    have hstep : ((start time target tolerance).after dts (k + 1)).running = true ↔
        ((start time target tolerance).after dts k).running = true ∧
          ¬target < ((start time target tolerance).after dts (k + 1)).time + tolerance := by
      have htarget := target_after time target tolerance dts k
      have htol := tolerance_after time target tolerance dts k
      show (_ && !decide (((start time target tolerance).after dts k).target <
        ((start time target tolerance).after dts (k + 1)).time +
          ((start time target tolerance).after dts k).tolerance)) = true ↔ _
      rw [htarget, htol, Bool.and_eq_true, Bool.not_eq_true', decide_eq_false_iff_not]
    rw [hstep, ih, time_after hdts, lt_min_add_iff htolerance]
    constructor
    · rintro ⟨hbefore, hnow⟩ j hj hsuffices
      rcases Nat.lt_or_ge k j with hlt | hge
      · obtain rfl : j = k + 1 := by omega
        exact hnow hsuffices.2
      · exact hbefore j hge hsuffices
    · intro hall
      exact ⟨fun j hj => hall j (by omega), fun hnow => hall (k + 1) le_rfl ⟨by omega, hnow⟩⟩

/-- A loop is running after `k` steps exactly if that is less than the least number that suffices. -/
theorem running_after_iff_lt (htolerance : 0 < tolerance) (hdts : ∀ k, 0 ≤ dts k)
    (hn : IsLeast {n | Suffices time target tolerance dts n} n) (k : Nat) :
    ((start time target tolerance).after dts k).running = true ↔ k < n := by
  rw [running_after_iff htolerance hdts]
  constructor
  · intro hnone
    by_contra hge
    exact hnone n (by omega) hn.1
  · intro hlt j hj hsuffices
    have hle := hn.2 hsuffices
    omega

/-- A loop has stopped after the least number of steps that suffices. -/
theorem stopped_after (htolerance : 0 < tolerance) (hdts : ∀ k, 0 ≤ dts k)
    (hn : IsLeast {n | Suffices time target tolerance dts n} n) :
    ((start time target tolerance).after dts n).running = false := by
  rw [Bool.eq_false_iff, ne_eq, running_after_iff_lt htolerance hdts hn]
  exact Nat.lt_irrefl n

/-- Steps that are not arbitrarily small add up. -/
theorem le_reach (time : ℚ) (hdts : ∀ k, δ ≤ dts k) (k : Nat) : time + k * δ ≤ reach time dts k := by
  induction k with
  | zero => simp [reach]
  | succ k ih =>
    have hstep := hdts k
    rw [reach_succ]
    push_cast
    linarith

/-- **Some number of steps suffices**, however far the target is. -/
theorem exists_isLeast (htolerance : 0 < tolerance) (hδ : 0 < δ) (hdts : ∀ k, δ ≤ dts k) :
    ∃ n, IsLeast {n | Suffices time target tolerance dts n} n := by
  obtain ⟨m, hm⟩ := exists_nat_gt ((target - time) / δ)
  have hfar : target - time < m * δ := (div_lt_iff₀ hδ).mp hm
  have hsome : ∃ n, Suffices time target tolerance dts n := by
    refine ⟨m + 1, by omega, ?_⟩
    have hreach := le_reach time hdts (m + 1)
    push_cast at hreach
    linarith
  classical
  exact ⟨Nat.find hsome, Nat.find_spec hsome, fun k hk => Nat.find_min' hsome hk⟩

/-- **The steps of a loop, in closed form.** If the least number of steps that suffices is `n`, the loop stops
after these steps; the time of each of them is the sum of the lengths up to it, cut off at the target. -/
theorem makes_iff (htolerance : 0 < tolerance) (hdts : ∀ k, 0 ≤ dts k)
    (hn : IsLeast {n | Suffices time target tolerance dts n} n) (steps : List (TimeStep ℚ)) :
    Makes dts 0 (start time target tolerance) steps ↔
      steps = (List.range n).map fun k =>
        ⟨min (reach time dts (k + 1)) target, dts k, target, k + 1⟩ := by
  have hrunning := running_after_iff_lt htolerance hdts hn
  have hmakes := makes_of_running (fun k hk => (hrunning k).mpr hk) (stopped_after htolerance hdts hn)
  rw [funext (stepAfter_start hdts)] at hmakes
  constructor
  · intro h
    exact h.unique hmakes
  · rintro rfl
    exact hmakes

/-- Time stepping in closed form: what a loop does whose steps have given lengths. -/
structure StepsInClosedForm (time target tolerance : ℚ) (dts : Nat → ℚ) (n : Nat) : Prop where
  least : IsLeast {n | Suffices time target tolerance dts n} n
  /-- The loop is running before each of the `n` steps, and not after them. -/
  running : ∀ k, ((start time target tolerance).after dts k).running = true ↔ k < n
  /-- The loop makes these steps and stops. -/
  makes : ∀ steps, Makes dts 0 (start time target tolerance) steps ↔
    steps = (List.range n).map fun k => ⟨min (reach time dts (k + 1)) target, dts k, target, k + 1⟩
  bounded : ∀ steps, Makes dts 0 (start time target tolerance) steps →
    ∀ step ∈ steps, step.time ≤ target
  last : ∀ steps, Makes dts 0 (start time target tolerance) steps →
    ∃ step, steps.getLast? = some step ∧ target - tolerance < step.time

/-- Where steps are not arbitrarily small, a loop makes as many of them as suffice. -/
theorem exists_stepsInClosedForm (htolerance : 0 < tolerance) (hδ : 0 < δ) (hdts : ∀ k, δ ≤ dts k) :
    ∃ n, StepsInClosedForm time target tolerance dts n := by
  obtain ⟨n, hn⟩ := exists_isLeast htolerance hδ hdts
  have hnonneg : ∀ k, 0 ≤ dts k := fun k => hδ.le.trans (hdts k)
  have hmakes := makes_iff htolerance hnonneg hn
  refine ⟨n, hn, running_after_iff_lt htolerance hnonneg hn, hmakes, fun steps hsteps step hin => ?_,
    fun steps hsteps => ?_⟩
  · rw [(hmakes steps).mp hsteps, List.mem_map] at hin
    obtain ⟨k, -, rfl⟩ := hin
    exact min_le_right ..
  · obtain ⟨hone, hsuffices⟩ := hn.1
    obtain ⟨m, rfl⟩ : ∃ m, n = m + 1 := ⟨n - 1, by omega⟩
    have hlast := (lt_min_add_iff htolerance _).mpr hsuffices
    rw [(hmakes steps).mp hsteps, List.range_succ, List.map_append, List.map_singleton,
      List.getLast?_concat]
    refine ⟨_, rfl, ?_⟩
    dsimp only
    linarith

end TimeLoop

end SlotFlow
