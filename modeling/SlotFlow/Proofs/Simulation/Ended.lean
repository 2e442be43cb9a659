import SlotFlow.Proofs.Simulation.Called
import SlotFlow.Proofs.Simulation.Instantiated
/-!
# The end of a simulation

A simulation may be asked for anything in any order, and may fail at any time. It ends when it is asked to,
or else when it is given up, and then all its models end: one right after the other in tree order, each of
them once. What it is asked for later reaches models that have ended already, but does not end them again.

* `SimulationRequest` — what can be asked of a simulation;
* `Simulation.carryOut`, `Simulation.afterAll` — a simulation after requests;
* `Simulation.givenUp` — a simulation that has been given up after requests;
* `Simulation.EndsTogether` — no model has ended so far, or all of them have at once;
* `Simulation.Traced` — the calls that have been noted account for the states of all models.

## Results

* `Simulation.Over.receives_finish` — what models receive at the end;
* `Simulation.Traced.carryOut`, `Simulation.Traced.afterAll` — what one request keeps, and what all keep;
* `Simulation.endsModelsOnce` — every model ends exactly once.
-/

namespace SlotFlow

/-- What can be asked of a simulation from outside. -/
inductive SimulationRequest (R : Type) where
  /-- Time loops reach their targets with another slack, or may make more or fewer steps. -/
  | adjust (tolerance : R) (stepLimit : Nat)
  | setInput (name : String) (value : Value R)
  | run
  | solveStep (step : TimeStep R)
  | output (name : String) (time : R)
  | criticalTimeStep
  | finish

namespace Simulation

variable {R μ : Type} {w : Workflow μ} {first sim after : Simulation R μ}

-- ---------------------------------------------------------------------------
-- Requests
-- ---------------------------------------------------------------------------

section Requests

variable [TimeNumber R] [NativeModel R μ]

/-- A simulation after a request, whether the request succeeds or fails. The longest step that models
accept is only looked up. -/
def carryOut (sim : Simulation R μ) : SimulationRequest R → Simulation R μ
  | .adjust tolerance stepLimit => { sim with tolerance, stepLimit }
  | .setInput name value => (setInput name value sim).2
  | .run => (run sim).2
  | .solveStep step => (solveStep step sim).2
  | .output name time => (output name time sim).2
  | .criticalTimeStep => sim
  | .finish => finish sim

/-- A simulation after requests, one after the other. -/
def afterAll (sim : Simulation R μ) (requests : List (SimulationRequest R)) : Simulation R μ :=
  requests.foldl carryOut sim

/-- A simulation that has been given up after requests, one after the other. It is finished then, whether
or not this has been asked for. -/
def givenUp (sim : Simulation R μ) (requests : List (SimulationRequest R)) : Simulation R μ :=
  finish (sim.afterAll requests)

/-- After a request a simulation is still one of the same workflow. -/
theorem Over.carryOut (h : Over w sim) (request : SimulationRequest R) :
    Over w (sim.carryOut request) := by
  cases request with
  | adjust tolerance stepLimit => exact h.adjusted tolerance stepLimit
  | setInput name value => exact h.inputSet name value
  | run => exact h.ran
  | solveStep step => exact h.stepped step
  | output name time => exact h.outputRead name time
  | criticalTimeStep => exact h
  | finish => exact h.finished

/-- Nothing but changes comes of a request, unless it is the one to finish. -/
theorem becomes_carryOut (sim : Simulation R μ) {request : SimulationRequest R}
    (h : request ≠ .finish) : Becomes sim (sim.carryOut request) := by
  cases request with
  | adjust tolerance stepLimit =>
    exact .single (.aside sim sim.bound sim.inputs tolerance stepLimit sim.timeSteps)
  | setInput name value => exact (proceeds_setInput name value).becomes sim
  | run => exact proceeds_run.becomes sim
  | solveStep step => exact (proceeds_solveStep step).becomes sim
  | output name time => exact (proceeds_output name time).becomes sim
  | criticalTimeStep => exact .refl
  | finish => exact absurd rfl h

end Requests

-- ---------------------------------------------------------------------------
-- Calls that end models
-- ---------------------------------------------------------------------------

/-- The calls that end the models of a workflow, in tree order. -/
def endings (w : Workflow μ) : List (BlockId × ModelCall R) :=
  w.models.map fun block => (block.id, .terminate)

/-- Where the models have different numbers, each of them gets one of these calls. -/
theorem callsTo_endings (h : (w.models.map Block.id).Nodup) {id : BlockId}
    (hid : id ∈ w.models.map Block.id) :
    callsTo id (endings w).reverse = [(ModelCall.terminate : ModelCall R)] := by
  have hcalls : callsTo id (endings w).reverse =
      ((w.models.map Block.id).filter fun other => other = id).map fun _ =>
        (ModelCall.terminate : ModelCall R) := by
    rw [callsTo, List.reverse_reverse, endings, List.filter_map, List.filter_map, List.map_map,
      List.map_map]
    rfl
  rw [hcalls, List.filter_eq, List.count_eq_one_of_mem h hid]
  rfl

theorem lookup_map {κ α β : Type} [BEq κ] (f : α → β) (pairs : List (κ × α)) (key : κ) :
    (pairs.map fun pair => (pair.1, f pair.2)).lookup key = (pairs.lookup key).map f := by
  induction pairs with
  | nil => rfl
  | cons pair pairs ih =>
    rw [List.map_cons, List.lookup_cons, List.lookup_cons, ih]
    cases key == pair.1 <;> rfl

variable [TimeNumber R] [NativeModel R μ]

/-- **What models receive at the end**, whatever has been asked of the simulation before. -/
theorem Over.receives_finish (h : Over w sim) (hw : w.WellFormed) (hpending : sim.terminated = false) :
    sim.Receives (endings w).reverse (finish sim) := by
  have hfinish := h.finish_eq rfl hw
  rw [hpending, if_neg Bool.false_ne_true] at hfinish
  refine ⟨continues_finish, by rw [hfinish]; rfl, fun id => ?_⟩
  rw [hfinish, model?, lookup_map, ← model?]
  cases hstate : sim.model? id with
  | none => rfl
  | some state =>
    have hid : id ∈ w.models.map Block.id := by
      rw [← h.map_fst_models]
      exact hasModel_of_model? hstate
    rw [Option.map_some, Option.map_some, callsTo_endings hw.nodup_models hid]
    rfl

-- ---------------------------------------------------------------------------
-- What is kept
-- ---------------------------------------------------------------------------

/-- No model of a workflow has ended so far, or all of them have, one right after the other in tree
order. -/
inductive EndsTogether (w : Workflow μ) (sim : Simulation R μ) : Prop where
  | pending (h : sim.terminated = false) (hspared : Spared sim.calls)
  | ended (h : sim.terminated = true) {earlier later : List (BlockId × ModelCall R)}
      (hcalls : sim.calls = later ++ ((endings w).reverse ++ earlier)) (hlater : Spared later)
      (hearlier : Spared earlier)

/-- A simulation that has started as `first` and may have ended: the calls that are noted account for the
states of all models. -/
structure Traced (w : Workflow μ) (first sim : Simulation R μ) : Prop where
  belongs : Over w sim
  receives : first.Receives sim.calls sim
  together : EndsTogether w sim

theorem traced_of_start {registry : Registry μ} (h : start w registry = .ok first) :
    Traced w first first := by
  have hover : Over w first := .started h
  obtain ⟨models, -, h⟩ := bind_eq_ok.mp h
  cases pure_eq_ok.mp h
  exact ⟨hover, receives_nil rfl rfl rfl, .pending rfl nofun⟩

/-- Changes end no model. -/
theorem Traced.becomes (h : Traced w first sim) (hover : Over w after) (hchanges : Becomes sim after) :
    Traced w first after := by
  obtain ⟨hsame, made, hmade, hspared⟩ := hchanges.receives
  refine ⟨hover, hmade.calls ▸ h.receives.trans hmade, ?_⟩
  cases h.together with
  | pending hpending hcalls =>
    refine .pending (hsame.trans hpending) ?_
    rw [hmade.calls]
    exact hspared.append hcalls
  | ended hended hcalls hlater hearlier =>
    refine .ended (hsame.trans hended) ?_ (hspared.append hlater) hearlier
    rw [hmade.calls, hcalls, List.append_assoc]

omit [TimeNumber R] in
theorem terminated_finish (sim : Simulation R μ) : (finish sim).terminated = true := by
  unfold finish
  split
  · assumption
  · rfl

/-- Models end when a simulation is finished for the first time, and only then. -/
theorem Traced.finish (h : Traced w first sim) (hw : w.WellFormed) : Traced w first (finish sim) := by
  cases h.together with
  | pending hpending hspared =>
    have hends := h.belongs.receives_finish hw hpending
    have hcalls : (Simulation.finish sim).calls = [] ++ ((endings w).reverse ++ sim.calls) := hends.calls
    exact ⟨h.belongs.finished, hends.calls ▸ h.receives.trans hends,
      .ended (terminated_finish sim) hcalls nofun hspared⟩
  | ended hended =>
    rw [Simulation.finish, if_pos hended]
    exact h

/-- **What a request keeps**, whether it succeeds or fails. -/
theorem Traced.carryOut (h : Traced w first sim) (hw : w.WellFormed) (request : SimulationRequest R) :
    Traced w first (sim.carryOut request) := by
  by_cases hrequest : request = .finish
  · subst hrequest
    exact h.finish hw
  · exact h.becomes (h.belongs.carryOut request) (becomes_carryOut sim hrequest)

/-- **What all requests keep.** -/
theorem Traced.afterAll (h : Traced w first sim) (hw : w.WellFormed)
    (requests : List (SimulationRequest R)) : Traced w first (sim.afterAll requests) := by
  induction requests generalizing sim with
  | nil => exact h
  | cons request requests ih => exact ih (h.carryOut hw request)

-- ---------------------------------------------------------------------------
-- Main result
-- ---------------------------------------------------------------------------

/-- **Every model ends exactly once.** Take a reachable workflow, a simulation that has been started on it,
and any requests, of which each may succeed, or fail somewhere in the tree. After these the simulation is
given up. It has instances for the models below the root. Take all calls that these have received, in the
order in which they have received them. The calls that end the models stand one right after the other, one
for each model, in tree order of the blocks, and no call before or after them ends a model. Seen from one
model, exactly one of its calls has ended it, and its state is what all its calls have made of the state in
which it started. -/
theorem endsModelsOnce (hw : w.Reachable) {registry : Registry μ} (h : start w registry = .ok first)
    (requests : List (SimulationRequest R)) :
    first.models.map Prod.fst = w.models.map Block.id ∧
    (∃ earlier later : List (BlockId × ModelCall R),
      (first.givenUp requests).calls.reverse =
        earlier ++ (w.models.map fun block => (block.id, .terminate)) ++ later ∧
      Spared (earlier ++ later)) ∧
    ∀ id fresh, first.model? id = some fresh →
      (callsTo id (first.givenUp requests).calls).countP ModelCall.isTerminate = 1 ∧
      (first.givenUp requests).model? id =
        some (afterCalls fresh (callsTo id (first.givenUp requests).calls)) := by
  have hwell := hw.wellFormed
  have hids := (Over.started h).map_fst_models
  obtain ⟨-, hreceives, htogether⟩ := ((traced_of_start h).afterAll hwell requests).finish hwell
  cases htogether with
  | pending hpending =>
    rw [terminated_finish] at hpending
    cases hpending
  | @ended _ earlier later hcalls hlater hearlier =>
    refine ⟨hids, ⟨earlier.reverse, later.reverse, ?_, ?_⟩, fun id fresh hfresh => ⟨?_, ?_⟩⟩
    · rw [givenUp, hcalls, List.reverse_append, List.reverse_append, List.reverse_reverse, endings]
    · intro call hcall
      rw [List.mem_append, List.mem_reverse, List.mem_reverse] at hcall
      exact hcall.elim (hearlier call) (hlater call)
    · have hid : id ∈ w.models.map Block.id := by
        rw [← hids]
        exact hasModel_of_model? hfresh
      -- of the three parts of all calls, only the one in the middle ends this model
      rw [givenUp, hcalls, callsTo_append, callsTo_append, List.countP_append, List.countP_append,
        hlater.countP_callsTo, hearlier.countP_callsTo, callsTo_endings hwell.nodup_models hid]
      rfl
    · rw [givenUp, hreceives.states, hfresh]
      rfl

/-- A timer, and another one in a time loop that is not told when to start. A run fails when it comes to the
loop. The simulation is finished after it, and still asked for a step, which fails like the run. When it is
given up nothing happens any more: each timer has ended once, between the two calls of the first one. -/
theorem endsModelsOnce_of_timers :
    ∃ (w : Workflow Timer) (first : Simulation Nat Timer), w.Reachable ∧ start w w.registry = .ok first ∧
      (run first).1 = .error (.typeMismatch "start_time" "None") ∧
      (first.givenUp [.run, .finish, .solveStep ⟨1, 1, 2, 1⟩]).calls.reverse.map
        (fun call => (call.1, call.2.isTerminate)) =
          [(⟨1⟩, false), (⟨1⟩, true), (⟨9⟩, true), (⟨1⟩, false)] ∧
      (∃ earlier later : List (BlockId × ModelCall Nat),
        (first.givenUp [.run, .finish, .solveStep ⟨1, 1, 2, 1⟩]).calls.reverse =
          earlier ++ [(⟨1⟩, .terminate), (⟨9⟩, .terminate)] ++ later ∧ Spared (earlier ++ later)) ∧
      (callsTo ⟨1⟩ (first.givenUp [.run, .finish, .solveStep ⟨1, 1, 2, 1⟩]).calls).countP
        ModelCall.isTerminate = 1 := by
  have hmaster := @Workflow.Reachable.edited Timer _ _
    (.addModel Workflow.rootId ⟨"Timer", none, none⟩ none) _ (.new "uid-" "Plan" timers) rfl
  have hloop := @Workflow.Reachable.edited Timer _ _
    (.addBlock Workflow.rootId .timeLoop none) _ hmaster rfl
  have hinner := @Workflow.Reachable.edited Timer _ _
    (.addModel ⟨5⟩ ⟨"Timer", none, none⟩ none) _ hloop rfl
  obtain ⟨-, hblock, hones⟩ := endsModelsOnce hinner (show start _ timers = .ok _ from rfl)
    [.run, .finish, .solveStep ⟨1, 1, 2, 1⟩]
  exact ⟨_, _, hinner, rfl, rfl, rfl, hblock, (hones ⟨1⟩ ⟨2⟩ rfl).1⟩

end Simulation

end SlotFlow
