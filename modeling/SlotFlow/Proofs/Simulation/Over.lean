import SlotFlow.Proofs.Simulation.Counted
/-!
# Simulations of a workflow

A simulation starts with an instance for each model block below the root, and nothing that can be
asked of it from outside takes one away. A workflow is executed with these instances, as a whole run
or for a step that is given from outside.

* `Simulation.Ready` — a simulation has an instance for every model in the tree;
* `Simulation.Over` — the simulations of a workflow;
* `Simulation.countedRun`, `Simulation.countedSolveStep` — a run and a step with the numbers of
  steps that time loops make.

## Results

* `Simulation.run_apply`, `Simulation.solveStep_apply` — the numbers make no other difference;
* `Simulation.Over.ready` — every simulation of a workflow is ready, if the root is no model.
-/

namespace SlotFlow.Simulation

variable {R μ : Type} {w : Workflow μ} {sim after : Simulation R μ} {plan : Plan}

-- ---------------------------------------------------------------------------
-- Instances
-- ---------------------------------------------------------------------------

/-- A simulation is of a workflow, with an instance for every model in the tree. -/
structure Ready (w : Workflow μ) (sim : Simulation R μ) : Prop where
  workflow : sim.workflow = w
  models : sim.HasModels w.tree

theorem Ready.continues (h : Ready w sim) (hcontinues : sim.Continues after) : Ready w after :=
  ⟨hcontinues.workflow.trans h.workflow, hcontinues.hasModels h.models⟩

theorem hasModel_of_instantiate {registry : Registry μ} {blocks : List Block}
    {models : List (BlockId × μ)}
    (h : (instantiate registry blocks : Except (RunError R) _) = .ok models) :
    ∀ block ∈ blocks, block.isModel = true → block.id ∈ models.map Prod.fst := by
  induction blocks generalizing models with
  | nil => nofun
  | cons first blocks ih =>
    rw [instantiate] at h
    intro block hb hmodel
    split at h
    · rename_i hnone
      refine ih h block ((List.mem_cons.mp hb).resolve_left ?_) hmodel
      rintro rfl
      rw [Block.isModel, hnone] at hmodel
      cases hmodel
    · split at h
      · obtain ⟨others, hothers, h⟩ := bind_eq_ok.mp h
        cases pure_eq_ok.mp h
        rcases List.mem_cons.mp hb with rfl | hin
        · exact List.mem_cons_self
        · exact List.mem_cons_of_mem _ (ih hothers block hin hmodel)
      · cases h

theorem ready_of_start [TimeNumber R] {registry : Registry μ} (h : start w registry = .ok sim)
    (hroot : w.root.isModel = false) : Ready w sim := by
  obtain ⟨models, hmodels, h⟩ := bind_eq_ok.mp h
  cases pure_eq_ok.mp h
  refine ⟨rfl, fun block hb hmodel => ?_⟩
  refine hasModel_of_instantiate hmodels block (List.mem_filter.mpr ⟨?_, hmodel⟩) hmodel
  rw [Workflow.tree, Forest.toList_tree, List.mem_cons] at hb
  rcases hb with rfl | hin
  · rw [hroot] at hmodel
    cases hmodel
  · exact hin

-- ---------------------------------------------------------------------------
-- What does not execute blocks
-- ---------------------------------------------------------------------------

theorem continues_setInput (name : String) (value : Value R) :
    sim.Continues (setInput name value sim).2 := by
  rw [setInput, get_bind_apply]
  cases sim.externalSlot? .output name with
  | none => exact .refl sim
  | some slot => exact ⟨rfl, rfl⟩

theorem continues_output [TimeNumber R] [NativeModel R μ] (name : String) (time : R) :
    sim.Continues (output name time sim).2 := by
  rw [output, get_bind_apply]
  cases sim.externalSlot? .input name with
  | none => exact .refl sim
  | some slot => exact (quiet_linked ..).continues

theorem continues_terminateAll [NativeModel R μ] {models : List (BlockId × μ)}
    (h : ∀ model ∈ models, sim.HasModel model.1) : sim.Continues (terminateAll models sim) := by
  induction models generalizing sim with
  | nil => exact .refl sim
  | cons model models ih =>
    have hfirst : sim.Continues { sim.noteCall model.1 .terminate with
        models := assign model.1 (NativeModel.terminate model.2) sim.models } :=
      ⟨rfl, map_fst_assign_of_mem _ (h model List.mem_cons_self)⟩
    exact hfirst.trans (ih fun other ho => hfirst.hasModel (h other (List.mem_cons_of_mem _ ho)))

theorem continues_finish [NativeModel R μ] : sim.Continues (finish sim) := by
  unfold finish
  split
  · exact .refl sim
  · have hall : sim.Continues (terminateAll sim.models sim) :=
      continues_terminateAll fun model hin => List.mem_map_of_mem hin
    exact ⟨hall.workflow, hall.blocks⟩

-- ---------------------------------------------------------------------------
-- Runs and steps
-- ---------------------------------------------------------------------------

variable [TimeNumber R] [NativeModel R μ]

/-- Runs the whole tree once; gives the numbers of steps that time loops have made. -/
def countedRun : Action R μ (List Nat) := do
  modify fun sim => { sim with timeSteps := 0 }
  counted (← get).workflow.tree {}

/-- Executes the whole tree for one step; gives the numbers of steps that time loops have made. -/
def countedSolveStep (step : TimeStep R) : Action R μ (List Nat) := do
  counted (← get).workflow.tree { time := some step.time, step := some step }

/-- A run gives the number of all steps. -/
theorem run_apply (sim : Simulation R μ) :
    run sim =
      ((countedRun sim).1.map fun _ => (countedRun sim).2.timeSteps, (countedRun sim).2) := by
  show (execute sim.workflow.tree {} >>= fun _ => get >>= fun sim => pure sim.timeSteps)
    { sim with timeSteps := 0 } = _
  rw [bind_apply, execute_eq_forget, forget, bind_apply,
    show counted sim.workflow.tree {} { sim with timeSteps := 0 } = countedRun sim from rfl]
  rcases countedRun sim with ⟨_ | _, _⟩ <;> rfl

theorem solveStep_apply (step : TimeStep R) (sim : Simulation R μ) : solveStep step sim =
    ((countedSolveStep step sim).1.map fun _ => (), (countedSolveStep step sim).2) := by
  show execute sim.workflow.tree { time := some step.time, step := some step } sim = _
  rw [execute_eq_forget, forget, bind_apply,
    show counted sim.workflow.tree { time := some step.time, step := some step } sim =
      countedSolveStep step sim from rfl]
  rcases countedSolveStep step sim with ⟨_ | _, _⟩ <;> rfl

/-- What comes of a run with instances for all models, of a workflow that can be executed. -/
theorem Ready.leads_countedRun (h : Ready w sim) (hplan : w.plan? w.tree = some plan) :
    Leads { sim with timeSteps := 0 } (countedRun sim) (GoesBy plan) := by
  obtain ⟨rfl, hmodels⟩ := h
  have hreset : sim.Continues { sim with timeSteps := 0 } := ⟨rfl, rfl⟩
  exact performs_counted (hreset.hasModels hmodels) hplan {}

/-- What comes of a step with instances for all models, of a workflow that can be executed. -/
theorem Ready.leads_countedSolveStep (h : Ready w sim) (hplan : w.plan? w.tree = some plan)
    (step : TimeStep R) : Leads sim (countedSolveStep step sim) (GoesBy plan) := by
  obtain ⟨rfl, hmodels⟩ := h
  exact performs_counted hmodels hplan _

-- ---------------------------------------------------------------------------
-- All simulations
-- ---------------------------------------------------------------------------

/-- The simulations of a workflow: one that has been started on it, and what becomes of it by all
that can be asked of it from outside, whether that succeeds or fails. -/
inductive Over (w : Workflow μ) : Simulation R μ → Prop where
  | started {registry : Registry μ} {sim : Simulation R μ} (h : start w registry = .ok sim) :
      Over w sim
  | adjusted {sim : Simulation R μ} (h : Over w sim) (tolerance : R) (stepLimit : Nat) :
      Over w { sim with tolerance, stepLimit }
  | inputSet {sim : Simulation R μ} (h : Over w sim) (name : String) (value : Value R) :
      Over w (setInput name value sim).2
  | outputRead {sim : Simulation R μ} (h : Over w sim) (name : String) (time : R) :
      Over w (output name time sim).2
  | ran {sim : Simulation R μ} (h : Over w sim) : Over w (run sim).2
  | stepped {sim : Simulation R μ} (h : Over w sim) (step : TimeStep R) :
      Over w (solveStep step sim).2
  | finished {sim : Simulation R μ} (h : Over w sim) : Over w (finish sim)

/-- **Every simulation of a workflow is ready**, if the root is no model and there is a plan for the
tree. -/
theorem Over.ready (h : Over w sim) (hroot : w.root.isModel = false)
    (hplan : w.plan? w.tree = some plan) : Ready w sim := by
  induction h with
  | started h => exact ready_of_start h hroot
  | adjusted _ tolerance stepLimit ih => exact ih.continues ⟨rfl, rfl⟩
  | inputSet _ name value ih => exact ih.continues (continues_setInput name value)
  | outputRead _ name time ih => exact ih.continues (continues_output name time)
  | @ran sim _ ih =>
    have hreset : sim.Continues { sim with timeSteps := 0 } := ⟨rfl, rfl⟩
    rw [run_apply]
    exact ih.continues (hreset.trans (ih.leads_countedRun hplan).continues)
  | @stepped sim _ step ih =>
    rw [solveStep_apply]
    exact ih.continues (ih.leads_countedSolveStep hplan step).continues
  | finished _ ih => exact ih.continues continues_finish

end SlotFlow.Simulation
