import SlotFlow.Proofs.Naming.Unnamed
import SlotFlow.Proofs.Program.Executed
import SlotFlow.Proofs.Simulation.Over
/-!
# A run does what the program says

The program of a workflow and its simulation come about by two different walks over the tree of
blocks: the one writes lines, with a loop around what a time loop repeats, and the other one calls
models. Both have the models do the same, in the same order, as long as the root is no model. A root
that is one is part of the program only: a simulation has instances for the models below the root.

* `Workflow.Emits` — the lines of a program, and what is in the method that executes the blocks;
* `Simulation.Follows` — what models have done is what a plan says.

## Results

* `Simulation.Over.follows_program` — what models do in a run is what the program has them do;
* `Simulation.not_follows_of_root_model` — a run in which the root does nothing.
-/

namespace SlotFlow

/-- Whether something has come to nothing by a mishap. -/
def endsInMishap {R α : Type} : Except (RunError R) α → Bool
  | .ok _ => false
  | .error error => error.isMishap

theorem endsInMishap_map {R α β : Type} (f : α → β) (outcome : Except (RunError R) α) :
    endsInMishap (outcome.map f) = endsInMishap outcome := by
  cases outcome <;> rfl

/-- Lines are those of a workflow's program. What its method executes is `body`, and the lines in it
that have a model do something say which model, and what it is handed, in the words of the
workflow. -/
def Workflow.Emits {μ : Type} (w : Workflow μ) (options : ProgramOptions) (form : ProgramForm)
    (lines : List String) (body : Code) : Prop :=
  ∃ program, w.programCode options form = .ok program ∧ lines = program.lines ∧
    program.methodBody? form.executing = some body ∧ ∀ line ∈ body.toList, w.Spells line

namespace Simulation

variable {R μ α : Type}

/-- What models do from one simulation to another is what a plan unrolls to, if each activation of a
loop goes round as often as `counts` says. -/
def Follows (sim after : Simulation R μ) (plan : Plan) (counts : List Nat) : Prop :=
  ∃ calls, after.calls = calls ++ sim.calls ∧ plan.unroll counts = some (actsOf calls, [])

/-- Without a mishap there is an answer. -/
theorem Leads.exists_ok {sim : Simulation R μ} {outcome : Except (RunError R) α × Simulation R μ}
    {post : α → List ModelAct → Nat → Prop} (h : Leads sim outcome post)
    (hnone : endsInMishap outcome.1 = false) : ∃ a after, outcome = (.ok a, after) := by
  obtain ⟨result, after⟩ := outcome
  cases result with
  | ok a => exact ⟨a, after, rfl⟩
  | error error =>
    rw [endsInMishap, h.mishap error rfl] at hnone
    cases hnone

theorem Leads.follows_plan {sim after : Simulation R μ} {plan : Plan} {counts : List Nat}
    (h : Leads sim (.ok counts, after) (GoesBy plan)) :
    sim.Follows after plan counts ∧ after.timeSteps = sim.timeSteps + counts.sum := by
  obtain ⟨calls, steps, hcalls, hsteps, hunrolls, rfl⟩ := h.done counts rfl
  exact ⟨⟨calls, hcalls, hunrolls.unroll⟩, hsteps⟩

variable [TimeNumber R] [NativeModel R μ] {v w : Workflow μ} {sim : Simulation R μ}

/-- The body of a generated program amounts to the plan of the workflow, also of one that has the same
elements by other names. -/
theorem exists_emits {options : ProgramOptions} {form : ProgramForm} {lines : List String}
    (hg : (w.generate options form).1 = .ok lines) (hsame : v.unnamed = w.unnamed) :
    ∃ body, w.assignNames.Emits options form lines body ∧ v.plan? v.tree = some body.plan := by
  obtain ⟨program, hprogram, rfl⟩ := Workflow.generate_eq_ok hg
  obtain ⟨body, hbody, hplan, hspells⟩ := Workflow.methodBody?_executing hprogram
  refine ⟨body, ⟨program, hprogram, rfl, hbody, hspells⟩, ?_⟩
  rw [← hplan]
  exact Workflow.plan?_of_unnamed (hsame.trans w.unnamed_assignNames.symm)

/-- **A run does what the program says.** Take a workflow whose root is no model, and a simulation of
it, which may have been started before the elements got their names. If there is a program that runs
the workflow once, then a run that ends without a mishap succeeds, and the models are handed their
inputs and solve their steps just as the lines of the method `solve` say, with each activation of a
loop going round as often as the time loop makes steps. In the same way a step that is given from
outside does what the method `solveStep` of a class says. -/
theorem Over.follows_program (h : Over v sim) (hsame : v.unnamed = w.unnamed)
    (hroot : w.root.isModel = false) :
    (∀ options lines, (w.generate options .execution).1 = .ok lines →
      endsInMishap (run sim).1 = false → ∃ body counts after,
        w.assignNames.Emits options .execution lines body ∧ countedRun sim = (.ok counts, after) ∧
        run sim = (.ok counts.sum, after) ∧ sim.Follows after body.plan counts) ∧
    (∀ options lines step, (w.generate options .component).1 = .ok lines →
      endsInMishap (solveStep step sim).1 = false → ∃ body counts after,
        w.assignNames.Emits options .component lines body ∧
        countedSolveStep step sim = (.ok counts, after) ∧
        solveStep step sim = (.ok (), after) ∧ sim.Follows after body.plan counts) := by
  have hrootless : v.root.isModel = false := by
    rw [Block.isModel, Block.kind_of_unnamed (congrArg Workflow.root hsame)]
    exact hroot
  constructor
  · intro options lines hg hrun
    obtain ⟨body, hemits, hplan⟩ := exists_emits hg hsame
    have hleads := (h.ready hrootless hplan).leads_countedRun hplan
    rw [run_apply, endsInMishap_map] at hrun
    obtain ⟨counts, after, hcounted⟩ := hleads.exists_ok hrun
    rw [hcounted] at hleads
    obtain ⟨hfollows, hsteps⟩ := hleads.follows_plan
    refine ⟨body, counts, after, hemits, hcounted, ?_, hfollows⟩
    rw [run_apply, hcounted]
    dsimp only [Except.map]
    rw [hsteps, Nat.zero_add]
  · intro options lines step hg hrun
    obtain ⟨body, hemits, hplan⟩ := exists_emits hg hsame
    have hleads := (h.ready hrootless hplan).leads_countedSolveStep hplan step
    rw [solveStep_apply, endsInMishap_map] at hrun
    obtain ⟨counts, after, hcounted⟩ := hleads.exists_ok hrun
    rw [hcounted] at hleads
    refine ⟨body, counts, after, hemits, hcounted, ?_, hleads.follows_plan.1⟩
    rw [solveStep_apply, hcounted]
    rfl

-- ---------------------------------------------------------------------------
-- Two runs
-- ---------------------------------------------------------------------------

/-- A model that has been told when to stop. -/
structure Timer where
  stop : Nat

/-- Time in whole ticks. -/
instance : TimeNumber Nat where
  ofFloat x := x.toUInt64.toNat
  add := (· + ·)
  earlier := min
  exceeds x y := y < x
  least xs := xs.min?.getD 0
  isStep x := 0 < x

/-- A timer gives the time at which to start and the time at which to stop, and takes steps of one
tick. -/
instance : NativeModel Nat Timer where
  declaration _ :=
    { name := "Timer"
      inputs := [{ name := "signal", type := .physicalQuantity }]
      outputs := [{ name := "start", type := .physicalQuantity, objectId := .name "start" },
        { name := "stop", type := .physicalQuantity, objectId := .name "stop" }] }
  criticalTimeStep _ := 1
  solveStep _ timer := (.ok (), timer)
  set _ _ timer := (.ok (), timer)
  get _ _ objectId timer := .ok (.scalar (if objectId = .name "stop" then timer.stop else 0))
  terminate := id

/-- A workflow that can be reached has the simulations that are started on it with its classes. -/
theorem over_of_reachable (_ : w.Reachable) (h : start w w.registry = .ok sim) : Over w sim :=
  .started h

/-- The registry of timers that stop after two ticks. -/
def timers : Registry Timer :=
  (Registry.empty.registerNative "Timer" "from timers import Timer" ⟨2⟩).2

/-- A timer sets the times of a loop around another one, which it signals. The loop goes round twice,
in a run as well as in a step that is given from outside. -/
theorem follows_program_of_timers :
    ∃ (w : Workflow Timer) (sim after later : Simulation Nat Timer) (body method : Code),
      w.Reachable ∧ Over w sim ∧
      body.plan = .act (.solve ⟨1⟩)
        (.loop (.act (.set ⟨9⟩ ⟨4⟩ .default) (.act (.solve ⟨9⟩) .nil)) .nil) ∧
      run sim = (.ok 2, after) ∧ sim.Follows after body.plan [2] ∧
      solveStep ⟨1, 1, 2, 1⟩ sim = (.ok (), later) ∧ sim.Follows later method.plan [2] := by
  have hmaster := @Workflow.Reachable.edited Timer _ _
    (.addModel Workflow.rootId ⟨"Timer", none, none⟩ none) _ (.new "uid-" "Plan" timers) rfl
  have hloop := @Workflow.Reachable.edited Timer _ _
    (.addBlock Workflow.rootId .timeLoop none) _ hmaster rfl
  have hinner := @Workflow.Reachable.edited Timer _ _
    (.addModel ⟨5⟩ ⟨"Timer", none, none⟩ none) _ hloop rfl
  have hstart := @Workflow.Reachable.edited Timer _ _ (.connect ⟨3⟩ ⟨6⟩ none) _ hinner rfl
  have hstop := @Workflow.Reachable.edited Timer _ _ (.connect ⟨4⟩ ⟨7⟩ none) _ hstart rfl
  have hsignal := @Workflow.Reachable.edited Timer _ _ (.connect ⟨4⟩ ⟨10⟩ none) _ hstop rfl
  have hover := (over_of_reachable hsignal rfl).adjusted 1 10
  obtain ⟨hrun, hstep⟩ := hover.follows_program rfl rfl
  obtain ⟨body, counts, after, ⟨program, hprogram, -, hbody, -⟩, hcounted, hran, hfollows⟩ :=
    hrun {} _ rfl (by decide +kernel)
  obtain ⟨method, numbers, later, -, hnumbers, hstepped, hfollowed⟩ :=
    hstep {} _ ⟨1, 1, 2, 1⟩ rfl (by decide +kernel)
  obtain rfl : [2] = counts := Option.some.inj ((show some [2] = _ by decide +kernel).trans
    (congrArg (fun outcome => outcome.1.toOption) hcounted))
  obtain rfl : [2] = numbers := Option.some.inj ((show some [2] = _ by decide +kernel).trans
    (congrArg (fun outcome => outcome.1.toOption) hnumbers))
  refine ⟨_, _, after, later, body, method, hsignal, hover, ?_, hran, hfollows, hstepped, hfollowed⟩
  have hfound : _ = (program.methodBody? .solve).map Code.plan := congrArg (fun outcome =>
    (outcome.toOption.bind fun program => program.methodBody? .solve).map Code.plan) hprogram
  rw [show program.methodBody? .solve = some body from hbody] at hfound
  exact (Option.some.inj ((show some _ = _ by decide +kernel).trans hfound)).symm

/-- A run that does not do what the program says. The root has been made a model, which the program
has solve a step; the simulation has no instance for it, and nothing happens. -/
theorem not_follows_of_root_model :
    ∃ (w : Workflow Timer) (program body : Code) (sim after : Simulation Nat Timer), w.Reachable ∧
      w.assignNames.programCode {} .execution = .ok program ∧
      "\t\tself.model_1.solveStep(None)" ∈ program.lines ∧
      program.methodBody? .solve = some body ∧ Over w sim ∧ run sim = (.ok 0, after) ∧
      ∀ counts, ¬sim.Follows after body.plan counts := by
  have hturned := @Workflow.Reachable.edited Timer _ _
    (.setBlockKind Workflow.rootId (.model ⟨"Timer", none, none⟩)) _ (.new "uid-" "Plan" timers) rfl
  have hover := over_of_reachable hturned rfl
  refine ⟨_, _, _, _, _, hturned, rfl, by decide +kernel, rfl, hover, rfl, ?_⟩
  rintro counts ⟨calls, hcalls, hunroll⟩
  have hnone : [] = calls ++ [] := hcalls
  rw [List.append_nil] at hnone
  subst hnone
  have hsolve : some ([ModelAct.solve Workflow.rootId], counts) = some ([], []) := hunroll
  cases hsolve

end Simulation

end SlotFlow
