import SlotFlow.Proofs.Graph.History
import SlotFlow.Proofs.Simulation.Over
import SlotFlow.Proofs.Simulation.Stepping
/-!
# How often a time loop goes round

Over exact numbers it is known in advance how often a time loop goes round: as often as the lengths of its
steps need to come to the target. If its children succeed every time, that is how often they are executed,
and the steps that are counted in a run grow by that number and by those of the loops among the children.

* `Simulation.Adds` — how many steps time loops make in an action that succeeds;
* `Simulation.Activation` — how one execution of a time loop goes, round by round.

## Results

* `Simulation.adds_counted` — the steps that are counted are those of all time loops together;
* `Simulation.run_eq_ok_iff` — a run answers with the number of the steps of all time loops;
* `Simulation.repeatCounted_eq` — rounds that succeed, one after the other;
* `Simulation.Activation.countedLoop_eq` — an execution of a time loop in closed form;
* `Simulation.stepsInClosedForm` — time stepping in closed form, by itself and within a simulation.
-/

namespace SlotFlow

/-- When the children of a time loop are executed in one of its steps. -/
def Moment.within {R : Type} (step : TimeStep R) : Moment R where
  time := some step.time
  step := some step

namespace Simulation

open Workflow

variable {R μ α β : Type}

-- ---------------------------------------------------------------------------
-- Steps that are counted
-- ---------------------------------------------------------------------------

/-- If an action succeeds, time loops have made some steps; `post` says how many, given the answer. -/
structure Adds (action : Action R μ α) (post : α → Nat → Prop) : Prop where
  steps : ∀ sim a after, action sim = (.ok a, after) →
    ∃ steps, after.timeSteps = sim.timeSteps + steps ∧ post a steps

/-- An action in which no time loop makes a step. -/
abbrev Still (action : Action R μ α) : Prop :=
  Adds action fun _ steps => steps = 0

variable {action : Action R μ α} {next : α → Action R μ β} {post : α → Nat → Prop}
  {final : β → Nat → Prop}

theorem adds_pure {a : α} (h : post a 0) : Adds (pure a : Action R μ α) post where
  steps := by
    rintro sim _ _ ⟨⟩
    exact ⟨0, rfl, h⟩

theorem adds_throw (error : RunError R) : Adds (throw error : Action R μ α) post where
  steps _ _ _ ha := by cases ha

theorem adds_get {next : Simulation R μ → Action R μ β} (h : ∀ sim, Adds (next sim) final) :
    Adds (get >>= next) final where
  steps sim b after hb := (h sim).steps sim b after hb

/-- What models do in an action does not matter for its steps. -/
theorem Quiet.still (h : ∀ sim, Quiet action sim) : Still action where
  steps sim a after ha := by
    have hleads := h sim
    rw [Quiet, Performs, ha] at hleads
    obtain ⟨_, steps, -, hsteps, -, hnone⟩ := hleads.done a rfl
    exact ⟨steps, hsteps, hnone⟩

/-- Of two actions, the second one goes on from where the first one has succeeded. -/
theorem bind_of_ok {sim after : Simulation R μ} {a : α} (h : action sim = (.ok a, after)) :
    (action >>= next) sim = next a after := by
  rw [bind_apply, h]

/-- The steps of actions one after the other come together. -/
theorem Adds.bind (h : Adds action post)
    (hnext : ∀ a steps, post a steps → Adds (next a) fun b more => final b (steps + more)) :
    Adds (action >>= next) final where
  steps sim b after hb := by
    rcases houtcome : action sim with ⟨error | a, middle⟩
    · rw [bind_apply, houtcome] at hb
      cases hb
    · rw [bind_of_ok houtcome] at hb
      obtain ⟨steps, hsteps, hpost⟩ := h.steps sim a middle houtcome
      obtain ⟨more, hmore, hfinal⟩ := (hnext a steps hpost).steps middle b after hb
      exact ⟨steps + more, by rw [hmore, hsteps, Nat.add_assoc], hfinal⟩

/-- What comes after an action in which no time loop makes a step. -/
theorem Still.bind (h : Still action) (hnext : ∀ a, Adds (next a) final) :
    Adds (action >>= next) final := by
  refine Adds.bind h fun a steps hnone => ?_
  obtain rfl := hnone
  simpa only [Nat.zero_add] using hnext a

theorem still_callModel (id : BlockId) (className : String) (call : ModelCall R)
    (act : μ → Except String Unit × μ) : Still (callModel id className call act) where
  steps sim a after ha := by
    unfold callModel at ha
    split at ha
    · cases ha
      exact ⟨0, rfl, rfl⟩
    · dsimp only at ha
      split at ha
      · cases ha
        exact ⟨0, rfl, rfl⟩
      · cases ha

/-- Going round a time loop counts its own steps and those from within them. -/
theorem adds_repeatCounted [TimeNumber R] (name : String) {next : Action R μ R}
    {body : TimeStep R → Action R μ (List Nat)} (hnext : Still next)
    (hbody : ∀ step, Adds (body step) fun counts steps => steps = counts.sum)
    (fuel : Nat) (loop : TimeLoop R) :
    Adds (repeatCounted name next body fuel loop) fun made steps => steps = made.1 + made.2.sum := by
  induction fuel generalizing loop with
  | zero =>
    rw [repeatCounted]
    split
    · exact adds_throw _
    · exact adds_pure rfl
  | succ fuel ih =>
    rw [repeatCounted]
    split
    · refine Still.bind hnext fun dt => ?_
      have hcount : Adds (modify fun sim => { sim with timeSteps := sim.timeSteps + 1 } :
          Action R μ PUnit) fun _ steps => steps = 1 := by
        refine ⟨?_⟩
        rintro sim _ _ ⟨⟩
        exact ⟨1, rfl, rfl⟩
      refine hcount.bind fun _ own hown => (hbody _).bind fun counts inner hinner =>
        (ih _).bind fun made more hmore => adds_pure ?_
      rw [List.sum_append]
      omega
    · exact adds_pure rfl

variable [TimeNumber R] [NativeModel R μ]

theorem still_takeInput (block : Block) (className : String) (moment : Moment R) (slot : Slot) :
    Still (takeInput block className moment slot : Action R μ Unit) := by
  unfold takeInput
  split
  · refine adds_get fun sim => ?_
    split
    · exact adds_pure rfl
    · exact Still.bind (Quiet.still fun _ => quiet_provided ..) fun value => still_callModel ..
  · exact adds_pure rfl

theorem still_takeInputs (block : Block) (className : String) (moment : Moment R)
    (slots : List Slot) : Still (takeInputs block className moment slots : Action R μ Unit) := by
  induction slots with
  | nil => exact adds_pure rfl
  | cons slot slots ih =>
    rw [takeInputs]
    exact Still.bind (still_takeInput ..) fun _ => ih

theorem still_executeModel (block : Block) (setup : ModelSetup) (moment : Moment R) :
    Still (executeModel block setup moment : Action R μ Unit) := by
  unfold executeModel
  exact Still.bind (still_takeInputs ..) fun _ => still_callModel ..

theorem adds_countedLoop (block : Block) (models : List Block) (moment : Moment R)
    {body : Moment R → Action R μ (List Nat)}
    (hbody : ∀ moment, Adds (body moment) fun counts steps => steps = counts.sum) :
    Adds (countedLoop block models moment body) fun counts steps => steps = counts.sum := by
  unfold countedLoop
  refine adds_get fun sim => ?_
  dsimp only
  split
  · exact adds_throw _
  · refine Still.bind (Quiet.still fun _ => quiet_readTime ..) fun time =>
      Still.bind (Quiet.still fun _ => quiet_readTime ..) fun target => ?_
    refine Adds.bind (adds_repeatCounted _ (Quiet.still fun _ => quiet_nextStep ..)
      (fun step => hbody _) _ _) fun made steps hmade => adds_pure ?_
    rw [List.sum_cons]
    exact hmade

/-- **The steps that are counted are those of all time loops together**, whatever the simulation is. -/
theorem adds_counted (forest : Forest Block) (moment : Moment R) :
    Adds (counted forest moment : Action R μ (List Nat)) fun counts steps => steps = counts.sum := by
  induction forest generalizing moment with
  | nil => exact adds_pure rfl
  | node block below after ihBelow ihAfter =>
    -- What the first block does comes before what the others do.
    have hthen : ∀ {action : Action R μ (List Nat)}, Adds action (fun counts steps => steps = counts.sum) →
        Adds (do
          let counts ← action
          let others ← counted after moment
          return counts ++ others) fun counts steps => steps = counts.sum := by
      intro action haction
      refine haction.bind fun counts steps hsteps => (ihAfter moment).bind fun others more hmore =>
        adds_pure ?_
      rw [List.sum_append]
      omega
    rw [counted]
    cases block.kind with
    | ifElse => exact hthen (adds_throw _)
    | workflow | sequential => exact hthen (ihBelow moment)
    | timeLoop => exact hthen (adds_countedLoop _ _ _ ihBelow)
    | model setup =>
      have hboth := hthen (Still.bind (still_executeModel block setup moment) fun _ =>
        adds_pure (a := []) rfl)
      rwa [bind_assoc] at hboth
    | named =>
      have hboth := hthen (Still.bind (Quiet.still fun _ => quiet_executeNamed block moment) fun _ =>
        adds_pure (a := []) rfl)
      rwa [bind_assoc] at hboth
    | constant | code => exact hthen (adds_pure rfl)

theorem timeSteps_of_countedRun {sim after : Simulation R μ} {counts : List Nat}
    (h : countedRun sim = (.ok counts, after)) : after.timeSteps = counts.sum := by
  obtain ⟨steps, hsteps, rfl⟩ :=
    (adds_counted sim.workflow.tree {}).steps { sim with timeSteps := 0 } counts after h
  rw [hsteps, Nat.zero_add]

/-- **A run answers with the number of the steps of all time loops** that were executed in it. -/
theorem run_eq_ok_iff {sim after : Simulation R μ} {total : Nat} :
    run sim = (.ok total, after) ↔
      ∃ counts, countedRun sim = (.ok counts, after) ∧ total = counts.sum := by
  rw [run_apply]
  constructor
  · intro h
    rcases hcounted : countedRun sim with ⟨error | counts, final⟩ <;> rw [hcounted] at h
    · cases h
    · cases h
      exact ⟨counts, rfl, timeSteps_of_countedRun hcounted⟩
  · rintro ⟨counts, hcounted, rfl⟩
    rw [hcounted, ← timeSteps_of_countedRun hcounted]
    rfl

-- ---------------------------------------------------------------------------
-- Rounds
-- ---------------------------------------------------------------------------

section Rounds

omit [NativeModel R μ]

variable {dts : Nat → R} {states : Nat → Simulation R μ} {nested : Nat → List Nat} {n : Nat}

/-- Rounds that succeed, one after the other: a loop that is running before each of `n` rounds and not
after them goes round `n` times. -/
theorem repeatCounted_eq (name : String) {next : Action R μ R}
    {body : TimeStep R → Action R μ (List Nat)} {loop : TimeLoop R}
    (hrunning : ∀ k < n, (loop.after dts k).running = true)
    (hstopped : (loop.after dts n).running = false)
    (hround : ∀ k < n, ∃ middle, next (states k) = (.ok (dts k), middle) ∧
      body (loop.stepAfter dts k) { middle with timeSteps := middle.timeSteps + 1 } =
        (.ok (nested k), states (k + 1)))
    {fuel : Nat} (hfuel : n ≤ fuel) :
    repeatCounted name next body fuel loop (states 0) =
      (.ok (n, (List.range n).flatMap nested), states n) := by
  -- The induction is on the rounds that are still to be gone.
  have hrest : ∀ m k fuel, k + m = n → m ≤ fuel →
      repeatCounted name next body fuel (loop.after dts k) (states k) =
        (.ok (m, (List.range' k m).flatMap nested), states n) := by
    intro m
    induction m with
    | zero =>
      rintro k fuel rfl -
      unfold repeatCounted
      rw [Nat.add_zero] at hstopped ⊢
      rw [hstopped]
      rfl
    | succ m ih =>
      intro k fuel hk hm
      obtain ⟨fuel, rfl⟩ : ∃ less, fuel = less + 1 := ⟨fuel - 1, by omega⟩
      obtain ⟨middle, hnext, hbody⟩ := hround k (by omega)
      have hothers := ih (k + 1) fuel (by omega) (by omega)
      rw [repeatCounted, if_pos (hrunning k (by omega)), bind_of_ok hnext]
      show (body (loop.stepAfter dts k) >>= _) { middle with timeSteps := middle.timeSteps + 1 } = _
      rw [bind_of_ok hbody]
      exact bind_of_ok hothers
  rw [List.range_eq_range']
  exact hrest n 0 fuel (Nat.zero_add n) hfuel

end Rounds

/-- How one execution of a time loop goes. Its start and its target are read. For as long as the loop is
running, the next step turns out to be `dts k` long, and the children succeed in that step: their execution
answers with the numbers `nested k` of the steps that the time loops among them make. After `k` rounds the
simulation is `states k`. -/
structure Activation (block : Block) (below : Forest Block) (moment : Moment R)
    (sim : Simulation R μ) (time target : R) (dts : Nat → R) (states : Nat → Simulation R μ)
    (nested : Nat → List Nat) : Prop where
  kind : block.kind = .timeLoop
  times : ∃ middle, readTime block BlockKind.startTimeSlot moment sim = (.ok time, middle) ∧
    readTime block BlockKind.targetTimeSlot moment middle = (.ok target, states 0)
  rounds : ∀ k, ((TimeLoop.start time target sim.tolerance).after dts k).running = true →
    ∃ middle, nextStep block (maxStepSlot? sim.workflow block) (below.toList.filter Block.isModel)
        moment (states k) = (.ok (dts k), middle) ∧
      counted below (.within ((TimeLoop.start time target sim.tolerance).stepAfter dts k))
        { middle with timeSteps := middle.timeSteps + 1 } = (.ok (nested k), states (k + 1))

-- ---------------------------------------------------------------------------
-- Exact times
-- ---------------------------------------------------------------------------

section Exact

variable {μ : Type} [NativeModel ℚ μ] {block : Block} {below : Forest Block} {moment : Moment ℚ}
  {sim : Simulation ℚ μ} {time target : ℚ} {dts : Nat → ℚ} {states : Nat → Simulation ℚ μ}
  {nested : Nat → List Nat} {n : Nat}

/-- There is no next step without anything that says how long it is. -/
theorem source_of_nextStep {maxStep : Option Slot} {models : List Block} {middle : Simulation ℚ μ}
    {dt : ℚ} (h : nextStep block maxStep models moment sim = (.ok dt, middle)) :
    ¬(maxStep.isNone && models.isEmpty) = true := by
  intro hnone
  rw [Bool.and_eq_true, Option.isNone_iff_eq_none, List.isEmpty_iff] at hnone
  obtain ⟨rfl, rfl⟩ := hnone
  have hzero : nextStep block none [] moment sim = (.error (.nonPositiveStep block.name 0), sim) := rfl
  rw [hzero] at h
  cases h

namespace Activation

variable (h : Activation block below moment sim time target dts states nested)
  (htolerance : 0 < sim.tolerance) (hdts : ∀ k, 0 ≤ dts k)
  (hn : IsLeast {n | TimeLoop.Suffices time target sim.tolerance dts n} n) (hlimit : n ≤ sim.stepLimit)

include h htolerance hdts hn hlimit

/-- **A time loop goes round as often as the lengths of its steps need** to come to the target, and its
children are executed as often. -/
theorem countedLoop_eq :
    countedLoop block (below.toList.filter Block.isModel) moment (counted below) sim =
      (.ok (n :: (List.range n).flatMap nested), states n) := by
  have hrunning := TimeLoop.running_after_iff_lt htolerance hdts hn
  obtain ⟨middle, htime, htarget⟩ := h.times
  obtain ⟨_, hfirst, -⟩ := h.rounds 0 rfl
  have hmade := @repeatCounted_eq ℚ μ _ dts states nested n block.name
    (nextStep block (maxStepSlot? sim.workflow block) (below.toList.filter Block.isModel) moment)
    (fun step => counted below (.within step)) (.start time target sim.tolerance)
    (fun k hk => (hrunning k).mpr hk) (TimeLoop.stopped_after htolerance hdts hn)
    (fun k hk => h.rounds k ((hrunning k).mpr hk)) sim.stepLimit hlimit
  unfold countedLoop
  rw [get_bind_apply]
  dsimp only
  rw [if_neg (source_of_nextStep hfirst), bind_of_ok htime, bind_of_ok htarget]
  exact bind_of_ok hmade

/-- What comes after the time loop is executed where its last round has led. -/
theorem execute_eq (later : Forest Block) :
    execute (.node block below later) moment sim = execute later moment (states n) := by
  have hloop : executeLoop block (below.toList.filter Block.isModel) moment (execute below) sim =
      (.ok (), states n) := by
    rw [funext (execute_eq_forget below), executeLoop_eq_forget]
    exact bind_of_ok (h.countedLoop_eq htolerance hdts hn hlimit)
  rw [execute, h.kind]
  exact bind_of_ok hloop

/-- The steps that are counted grow by those of the loop and of all loops within it. -/
theorem timeSteps_eq :
    (states n).timeSteps = sim.timeSteps + n + ∑ k ∈ Finset.range n, (nested k).sum := by
  obtain ⟨steps, hsteps, hsum⟩ := (adds_countedLoop block _ moment (adds_counted below)).steps _ _ _
    (h.countedLoop_eq htolerance hdts hn hlimit)
  have hnested : ((List.range n).flatMap nested).sum = ∑ k ∈ Finset.range n, (nested k).sum := by
    rw [List.flatMap, List.sum_flatten, List.map_map]
    rfl
  rw [hsteps, hsum, List.sum_cons, hnested, Nat.add_assoc]

end Activation

end Exact

-- ---------------------------------------------------------------------------
-- Main result
-- ---------------------------------------------------------------------------

/-- **Time stepping in closed form.** For every start, target and positive tolerance, and for all lengths of
steps that are not arbitrarily small, a loop stops after the least number of steps, one at least, whose
lengths lead beyond the target or within the tolerance of it; the time of each step is the sum of the
lengths up to it, cut off at the target. In a simulation, whatever it is and whenever a time loop is
executed in it, a loop with these lengths whose children succeed goes round that often, as long as this is
within the limit of steps. The children are executed once in each round, and the steps that are counted grow
by that number and the numbers of steps of the loops among the children. -/
theorem stepsInClosedForm {time target tolerance δ : ℚ} {dts : Nat → ℚ} (htolerance : 0 < tolerance)
    (hδ : 0 < δ) (hdts : ∀ k, δ ≤ dts k) :
    (∃ n, TimeLoop.StepsInClosedForm time target tolerance dts n ∧
      ∀ {μ : Type} [NativeModel ℚ μ] {block : Block} {below : Forest Block} {moment : Moment ℚ}
        {sim : Simulation ℚ μ} {states : Nat → Simulation ℚ μ} {nested : Nat → List Nat},
        sim.tolerance = tolerance →
        Activation block below moment sim time target dts states nested → n ≤ sim.stepLimit →
        countedLoop block (below.toList.filter Block.isModel) moment (counted below) sim =
            (.ok (n :: (List.range n).flatMap nested), states n) ∧
          (∀ later, execute (.node block below later) moment sim = execute later moment (states n)) ∧
          (states n).timeSteps = sim.timeSteps + n + ∑ k ∈ Finset.range n, (nested k).sum) ∧
    ∀ {μ : Type} [NativeModel ℚ μ] {sim after : Simulation ℚ μ} {total : Nat},
      run sim = (.ok total, after) ↔
        ∃ counts, countedRun sim = (.ok counts, after) ∧ total = counts.sum := by
  refine ⟨?_, run_eq_ok_iff⟩
  obtain ⟨n, hform⟩ := TimeLoop.exists_stepsInClosedForm htolerance hδ hdts
  refine ⟨n, hform, ?_⟩
  rintro μ _ block below moment sim states nested rfl hactivation hlimit
  have hnonneg : ∀ k, 0 ≤ dts k := fun k => hδ.le.trans (hdts k)
  exact ⟨hactivation.countedLoop_eq htolerance hnonneg hform.least hlimit,
    hactivation.execute_eq htolerance hnonneg hform.least hlimit,
    hactivation.timeSteps_eq htolerance hnonneg hform.least hlimit⟩

/-- There are workflows without models. -/
instance : NativeModel ℚ Empty where
  declaration := Empty.elim
  criticalTimeStep := Empty.elim
  solveStep _ model := model.elim
  set _ _ model := model.elim
  get _ _ _ model := model.elim
  terminate := id

/-- A time loop as it is made, with a number of its own. -/
def loopBlock (id : Nat) : Block where
  id := ⟨id⟩
  uid := freshUid "uid-" id
  name := "TimeLoopBlock"
  kind := .timeLoop
  slots := makeSlots "uid-" (id + 1) BlockKind.timeLoop.defaultSlots

/-- A time loop within another one. Both go from 0 to 10 in steps of 3, all of which comes from the border. -/
def loopInLoop : Simulation ℚ Empty where
  workflow := (new "uid-" "Plan" .empty).after
    [.edit (.addBlock rootId .timeLoop none), .edit (.addBlock ⟨1⟩ .timeLoop none),
      .edit (.addSlot rootId { name := "from", type := .physicalQuantity, kind := ⟨.output, true⟩ }),
      .edit (.addSlot rootId { name := "to", type := .physicalQuantity, kind := ⟨.output, true⟩ }),
      .edit (.addSlot rootId { name := "by", type := .physicalQuantity, kind := ⟨.output, true⟩ }),
      .edit (.connect ⟨9⟩ ⟨2⟩ none), .edit (.connect ⟨10⟩ ⟨3⟩ none), .edit (.connect ⟨11⟩ ⟨4⟩ none),
      .edit (.connect ⟨9⟩ ⟨6⟩ none), .edit (.connect ⟨10⟩ ⟨7⟩ none), .edit (.connect ⟨11⟩ ⟨8⟩ none)]
  models := []
  inputs := [(⟨9⟩, .scalar 0), (⟨10⟩, .scalar 10), (⟨11⟩, .scalar 3)]
  tolerance := 1 / 1000000

/-- The outer loop goes round four times, and so does the inner one each time: twenty steps. -/
theorem stepsInClosedForm_of_loopInLoop :
    ∃ (steps : List (TimeStep ℚ)) (after : Simulation ℚ Empty),
      loopInLoop.workflow.body = .tree (loopBlock 1) (.tree (loopBlock 5) .nil) ∧
      TimeLoop.Makes (fun _ => 3) 0 (.start 0 10 (1 / 1000000)) steps ∧
      steps.map TimeStep.time = [3, 6, 9, 10] ∧
      execute (.tree (loopBlock 1) (.tree (loopBlock 5) .nil)) {} loopInLoop = (.ok (), after) ∧
      after.timeSteps = 20 ∧
      countedRun loopInLoop = (.ok [4, 4, 4, 4, 4], after) ∧ run loopInLoop = (.ok 20, after) := by
  have hreach : ∀ k : Nat, TimeLoop.reach 0 (fun _ => 3) k = 3 * k := by
    intro k
    simp [TimeLoop.reach, mul_comm]
  have hleast : IsLeast {n | TimeLoop.Suffices 0 10 (1 / 1000000) (fun _ => 3) n} 4 := by
    refine ⟨⟨by decide, by rw [hreach]; norm_num⟩, fun k hk => ?_⟩
    obtain ⟨-, hfar⟩ := hk
    rw [hreach] at hfar
    by_contra hless
    have hle : (k : ℚ) ≤ 3 := by exact_mod_cast (by omega : k ≤ 3)
    linarith
  obtain ⟨⟨n, hform, hloops⟩, hruns⟩ := @stepsInClosedForm 0 10 (1 / 1000000) 3 (fun _ => 3)
    (by norm_num) (by norm_num) fun _ => le_rfl
  obtain rfl := hform.least.unique hleast
  have hinner : ∀ moment total, Activation (loopBlock 5) .nil moment
      { loopInLoop with timeSteps := total } 0 10 (fun _ => 3)
      (fun k => { loopInLoop with timeSteps := total + k }) fun _ => [] :=
    fun moment total => ⟨rfl, ⟨_, rfl, rfl⟩, fun k _ => ⟨_, rfl, rfl⟩⟩
  have houter : Activation (loopBlock 1) (.tree (loopBlock 5) .nil) {} loopInLoop 0 10 (fun _ => 3)
      (fun k => { loopInLoop with timeSteps := 5 * k }) fun _ => [4] := by
    refine ⟨rfl, ⟨_, rfl, rfl⟩, fun k _ => ⟨_, rfl, ?_⟩⟩
    obtain ⟨hcounted, -, -⟩ := hloops rfl (hinner (.within _) (5 * k + 1))
      (show 4 ≤ UInt32.size by decide)
    exact bind_of_ok hcounted
  obtain ⟨hcounted, hexecuted, htotal⟩ := hloops rfl houter (show 4 ≤ UInt32.size by decide)
  have hbelow : counted (.tree (loopBlock 1) (.tree (loopBlock 5) .nil)) {} loopInLoop =
      (.ok [4, 4, 4, 4, 4], { loopInLoop with timeSteps := 20 }) := bind_of_ok hcounted
  have hrun : countedRun loopInLoop =
      (.ok [4, 4, 4, 4, 4], { loopInLoop with timeSteps := 20 }) := bind_of_ok hbelow
  refine ⟨_, _, rfl, (hform.makes _).mpr rfl, ?_, hexecuted .nil, htotal, hrun,
    hruns.mpr ⟨_, hrun, rfl⟩⟩
  simp only [List.range_succ, List.range_zero, List.nil_append, List.cons_append, List.map_cons,
    List.map_nil, hreach]
  norm_num

end Simulation

end SlotFlow
