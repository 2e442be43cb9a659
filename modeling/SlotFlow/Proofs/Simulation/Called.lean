import Mathlib.Logic.Relation
import SlotFlow.Proofs.Simulation.Counted
/-!
# The calls that models receive

Whatever becomes of a simulation comes about by single changes: a model that is there receives a call, or
something changes that no model is concerned with. A failure only means that the changes stop earlier, so
that what every change keeps is kept by every action, whether it succeeds or fails. Since all calls are
noted, one can tell from them in which state a model is.

* `ModelCall.isTerminate`, `ModelCall.apply` — the call that ends a model, and the state after a call;
* `Simulation.callsTo`, `Simulation.afterCalls` — the calls of one model, and its state after them;
* `Simulation.Spared` — no call ends a model;
* `Simulation.Change`, `Simulation.Becomes` — one change, and one change after the other;
* `Simulation.Proceeds` — an action of which nothing but changes comes;
* `Simulation.Receives` — the models have received certain calls, and nothing else has happened to them.

## Results

* `Simulation.proceeds_execute` — nothing but changes comes of an execution, however far it gets;
* `Simulation.Becomes.receives` — changes are calls of models, none of which ends a model.
-/

namespace SlotFlow

namespace ModelCall

variable {R μ : Type}

/-- Whether a call tells a model that the end has come. -/
def isTerminate : ModelCall R → Bool
  | terminate => true
  | _ => false

/-- The state of a model after a call, whether the call succeeds or fails. -/
def apply [NativeModel R μ] : ModelCall R → μ → μ
  | set _ value objectId, state => (NativeModel.set value objectId state).2
  | get .., state => state
  | solveStep step, state => (NativeModel.solveStep step state).2
  | terminate, state => NativeModel.terminate state

end ModelCall

/-- A value that is put in its own place changes nothing. -/
theorem assign_eq_self {κ α : Type} [DecidableEq κ] {key : κ} {value : α} {pairs : List (κ × α)}
    (h : pairs.lookup key = some value) : assign key value pairs = pairs := by
  induction pairs with
  | nil => cases h
  | cons pair pairs ih => grind [assign]

namespace Simulation

variable {R μ α β : Type}

-- ---------------------------------------------------------------------------
-- Calls of one model
-- ---------------------------------------------------------------------------

/-- The calls of the model behind a block, the first one first, among those of all models, the last one
first. -/
def callsTo (id : BlockId) (calls : List (BlockId × ModelCall R)) : List (ModelCall R) :=
  (calls.reverse.filter (·.1 = id)).map Prod.snd

theorem callsTo_append (id : BlockId) (later earlier : List (BlockId × ModelCall R)) :
    callsTo id (later ++ earlier) = callsTo id earlier ++ callsTo id later := by
  rw [callsTo, List.reverse_append, List.filter_append, List.map_append]
  rfl

/-- None of the calls ends a model. -/
def Spared (calls : List (BlockId × ModelCall R)) : Prop :=
  ∀ call ∈ calls, call.2.isTerminate = false

theorem Spared.append {later earlier : List (BlockId × ModelCall R)} (h : Spared later)
    (h' : Spared earlier) : Spared (later ++ earlier) :=
  fun call hcall => (List.mem_append.mp hcall).elim (h call) (h' call)

theorem Spared.countP_callsTo {calls : List (BlockId × ModelCall R)} (h : Spared calls) (id : BlockId) :
    (callsTo id calls).countP ModelCall.isTerminate = 0 := by
  rw [List.countP_eq_zero]
  intro call hcall
  obtain ⟨entry, hentry, rfl⟩ := List.mem_map.mp hcall
  rw [h entry (List.mem_reverse.mp (List.mem_of_mem_filter hentry))]
  exact Bool.false_ne_true

/-- The state of a model after calls, one after the other. -/
def afterCalls [NativeModel R μ] (state : μ) (calls : List (ModelCall R)) : μ :=
  calls.foldl (fun state call => call.apply state) state

variable [NativeModel R μ]

/-- A simulation in which the model behind a block, in a certain state so far, receives one more call. -/
def receive (id : BlockId) (state : μ) (call : ModelCall R) (sim : Simulation R μ) : Simulation R μ :=
  { sim.noteCall id call with models := assign id (call.apply state) sim.models }

-- ---------------------------------------------------------------------------
-- Changes
-- ---------------------------------------------------------------------------

/-- A single change of a simulation: a model that is there receives a call that does not end it, or
something changes that no model is concerned with. -/
inductive Change : Simulation R μ → Simulation R μ → Prop where
  | call {sim : Simulation R μ} {id : BlockId} {state : μ} (h : sim.model? id = some state)
      {call : ModelCall R} (hcall : call.isTerminate = false) : Change sim (sim.receive id state call)
  | aside (sim : Simulation R μ) (bound : List (BlockId × Value R)) (inputs : List (SlotId × Value R))
      (tolerance : R) (stepLimit timeSteps : Nat) :
      Change sim { sim with bound, inputs, tolerance, stepLimit, timeSteps }

/-- What a simulation becomes by one change after the other. -/
abbrev Becomes (sim after : Simulation R μ) : Prop :=
  Relation.ReflTransGen Change sim after

/-- Nothing but changes comes of an action, whether it succeeds or fails. -/
structure Proceeds (action : Action R μ α) : Prop where
  becomes : ∀ sim, Becomes sim (action sim).2

variable {action : Action R μ α} {next : α → Action R μ β}

theorem proceeds_pure (a : α) : Proceeds (pure a : Action R μ α) :=
  ⟨fun _ => .refl⟩

theorem proceeds_throw (error : RunError R) : Proceeds (throw error : Action R μ α) :=
  ⟨fun _ => .refl⟩

/-- Actions one after the other: where the first one fails, what it has changed so far stays. -/
theorem Proceeds.bind (h : Proceeds action) (hnext : ∀ a, Proceeds (next a)) :
    Proceeds (action >>= next) := by
  refine ⟨fun sim => ?_⟩
  have hfirst := h.becomes sim
  rw [bind_apply]
  rcases houtcome : action sim with ⟨result, middle⟩
  rw [houtcome] at hfirst
  cases result with
  | error error => exact hfirst
  | ok a => exact hfirst.trans ((hnext a).becomes middle)

theorem proceeds_get {next : Simulation R μ → Action R μ β} (h : ∀ sim, Proceeds (next sim)) :
    Proceeds (get >>= next) :=
  ⟨fun sim => (h sim).becomes sim⟩

theorem proceeds_modify {f : Simulation R μ → Simulation R μ} (h : ∀ sim, Change sim (f sim)) :
    Proceeds (modify f : Action R μ PUnit) :=
  ⟨fun sim => .single (h sim)⟩

/-- A call of a model comes to nothing if the model is not there. -/
theorem proceeds_callModel (id : BlockId) (className : String) {call : ModelCall R}
    (hcall : call.isTerminate = false) {act : μ → Except String Unit × μ}
    (hact : ∀ state, (act state).2 = call.apply state) :
    Proceeds (callModel id className call act) := by
  refine ⟨fun sim => ?_⟩
  unfold callModel
  split
  · exact .refl
  · rename_i state hstate
    have hchange : Change sim { sim.noteCall id call with
        models := assign id (act state).2 sim.models } := by
      rw [hact]
      exact .call hstate hcall
    rcases houtcome : act state with ⟨outcome, after⟩
    rw [houtcome] at hchange
    cases outcome with
    | ok => exact .single hchange
    | error => exact .single hchange

/-- A question is a call that leaves the model as it is. -/
theorem proceeds_askModel (id : BlockId) (className : String) (objectType : Option String) (time : R)
    (objectId : ObjectId) :
    Proceeds (askModel id className objectType time objectId : Action R μ (Value R)) := by
  refine ⟨fun sim => ?_⟩
  unfold askModel
  split
  · exact .refl
  · rename_i state hstate
    have hchange : Change sim (sim.noteCall id (.get objectType time objectId)) := by
      -- the state is put back where it is
      have hcall : Change sim (sim.receive id state (.get objectType time objectId)) :=
        .call hstate rfl
      rwa [receive, ModelCall.apply, assign_eq_self hstate] at hcall
    dsimp only
    split
    · exact .single hchange
    · exact .single hchange

/-- Counting a step is none of the models' business. -/
theorem proceeds_repeatSteps [TimeNumber R] (name : String) {next : Action R μ R}
    {body : TimeStep R → Action R μ Unit} (hnext : Proceeds next)
    (hbody : ∀ step, Proceeds (body step)) (fuel : Nat) (loop : TimeLoop R) :
    Proceeds (repeatSteps name next body fuel loop) := by
  induction fuel generalizing loop with
  | zero =>
    refine ⟨fun sim => ?_⟩
    unfold repeatSteps
    split
    · exact .refl
    · exact .refl
  | succ fuel ih =>
    by_cases hrunning : loop.running = true
    · rw [repeatSteps_succ name next body fuel hrunning]
      have hcount : Proceeds (modify fun sim => { sim with timeSteps := sim.timeSteps + 1 } :
          Action R μ PUnit) :=
        proceeds_modify fun sim => .aside sim sim.bound sim.inputs sim.tolerance sim.stepLimit _
      exact hnext.bind fun dt => hcount.bind fun _ => (hbody _).bind fun _ => ih _
    · refine ⟨fun sim => ?_⟩
      unfold repeatSteps
      rw [if_neg hrunning]

-- ---------------------------------------------------------------------------
-- Values of slots
-- ---------------------------------------------------------------------------

variable [TimeNumber R]

theorem proceeds_provided (id : SlotId) (moment : Moment R) :
    Proceeds (provided id moment : Action R μ (Value R)) := by
  unfold provided
  refine proceeds_get fun sim => ?_
  split
  · exact proceeds_pure _
  · split
    · exact proceeds_askModel ..
    · exact proceeds_pure _
    · exact proceeds_pure _
    · split
      · exact proceeds_pure _
      · exact proceeds_pure _
    · exact proceeds_pure _

theorem proceeds_linked (id : SlotId) (moment : Moment R) :
    Proceeds (linked id moment : Action R μ (Value R)) := by
  unfold linked
  refine proceeds_get fun sim => ?_
  split
  · exact proceeds_provided ..
  · exact proceeds_pure _

theorem proceeds_linkedNumber (id : SlotId) (label : String) (moment : Moment R) :
    Proceeds (linkedNumber id label moment : Action R μ R) := by
  unfold linkedNumber
  refine (proceeds_linked id moment).bind fun value => ?_
  split
  · exact proceeds_pure _
  · exact proceeds_throw _

theorem proceeds_readTime (loop : Block) (name : String) (moment : Moment R) :
    Proceeds (readTime loop name moment : Action R μ R) := by
  unfold readTime
  split
  · exact proceeds_linkedNumber ..
  · exact proceeds_throw _

theorem proceeds_nextStep (loop : Block) (maxStep : Option Slot) (models : List Block)
    (moment : Moment R) : Proceeds (nextStep loop maxStep models moment : Action R μ R) := by
  have hrest : ∀ limit : List R, Proceeds (do
      let sim ← get
      let critical := models.filterMap fun block =>
        (sim.model? block.id).map NativeModel.criticalTimeStep
      let dt := TimeNumber.least (limit ++ critical)
      if TimeNumber.isStep dt then return dt else throw (.nonPositiveStep loop.name dt) :
        Action R μ R) := by
    refine fun limit => proceeds_get fun sim => ?_
    dsimp only
    split
    · exact proceeds_pure _
    · exact proceeds_throw _
  unfold nextStep
  cases maxStep with
  | none => exact hrest []
  | some slot => exact (proceeds_linkedNumber ..).bind fun limit => hrest [limit]

-- ---------------------------------------------------------------------------
-- Blocks
-- ---------------------------------------------------------------------------

theorem proceeds_takeInputs (block : Block) (className : String) (moment : Moment R)
    (slots : List Slot) : Proceeds (takeInputs block className moment slots : Action R μ Unit) := by
  induction slots with
  | nil => exact proceeds_pure ()
  | cons slot slots ih =>
    have hfirst : Proceeds (takeInput block className moment slot : Action R μ Unit) := by
      unfold takeInput
      split
      · refine proceeds_get fun sim => ?_
        split
        · exact proceeds_pure ()
        · refine (proceeds_provided ..).bind fun value => ?_
          exact proceeds_callModel _ _ rfl fun _ => rfl
      · exact proceeds_pure ()
    rw [takeInputs]
    exact hfirst.bind fun _ => ih

theorem proceeds_executeModel (block : Block) (setup : ModelSetup) (moment : Moment R) :
    Proceeds (executeModel block setup moment : Action R μ Unit) := by
  unfold executeModel
  refine (proceeds_takeInputs ..).bind fun _ => ?_
  exact proceeds_callModel _ _ rfl fun _ => rfl

theorem proceeds_executeNamed (block : Block) (moment : Moment R) :
    Proceeds (executeNamed block moment : Action R μ Unit) := by
  unfold executeNamed
  split
  · exact proceeds_pure ()
  · refine (proceeds_linked ..).bind fun value => ?_
    exact proceeds_modify fun sim =>
      .aside sim _ sim.inputs sim.tolerance sim.stepLimit sim.timeSteps

theorem proceeds_executeLoop (block : Block) (models : List Block) (moment : Moment R)
    {body : Moment R → Action R μ Unit} (hbody : ∀ moment, Proceeds (body moment)) :
    Proceeds (executeLoop block models moment body) := by
  unfold executeLoop
  refine proceeds_get fun sim => ?_
  dsimp only
  split
  · exact proceeds_throw _
  · refine (proceeds_readTime ..).bind fun time => (proceeds_readTime ..).bind fun target => ?_
    exact proceeds_repeatSteps _ (proceeds_nextStep ..) (fun step => hbody _) _ _

/-- **Nothing but changes comes of an execution**, however far it gets. -/
theorem proceeds_execute (forest : Forest Block) (moment : Moment R) :
    Proceeds (execute forest moment : Action R μ Unit) := by
  induction forest generalizing moment with
  | nil => exact proceeds_pure ()
  | node block below after ihBelow ihAfter =>
    have hthen : ∀ {action : Action R μ Unit}, Proceeds action →
        Proceeds (action >>= fun _ => execute after moment) :=
      fun haction => haction.bind fun _ => ihAfter moment
    rw [execute]
    cases block.kind with
    | ifElse => exact hthen (proceeds_throw _)
    | workflow | sequential => exact hthen (ihBelow moment)
    | timeLoop => exact hthen (proceeds_executeLoop _ _ _ ihBelow)
    | model setup => exact hthen (proceeds_executeModel ..)
    | named => exact hthen (proceeds_executeNamed ..)
    | constant | code => exact hthen (proceeds_pure ())

-- ---------------------------------------------------------------------------
-- From outside
-- ---------------------------------------------------------------------------

omit [TimeNumber R] in
theorem proceeds_setInput (name : String) (value : Value R) :
    Proceeds (setInput name value : Action R μ Unit) := by
  unfold setInput
  refine proceeds_get fun sim => ?_
  split
  · exact proceeds_throw _
  · exact proceeds_modify fun sim =>
      .aside sim sim.bound _ sim.tolerance sim.stepLimit sim.timeSteps

theorem proceeds_output (name : String) (time : R) :
    Proceeds (output name time : Action R μ (Value R)) := by
  unfold output
  refine proceeds_get fun sim => ?_
  split
  · exact proceeds_throw _
  · exact proceeds_linked ..

theorem proceeds_run : Proceeds (run : Action R μ Nat) := by
  unfold run
  have hreset : Proceeds (modify fun sim => { sim with timeSteps := 0 } : Action R μ PUnit) :=
    proceeds_modify fun sim => .aside sim sim.bound sim.inputs sim.tolerance sim.stepLimit 0
  refine hreset.bind fun _ => proceeds_get fun sim => (proceeds_execute ..).bind fun _ => ?_
  exact proceeds_get fun sim => proceeds_pure _

theorem proceeds_solveStep (step : TimeStep R) : Proceeds (solveStep step : Action R μ Unit) := by
  unfold solveStep
  exact proceeds_get fun sim => proceeds_execute ..

-- ---------------------------------------------------------------------------
-- What models have received
-- ---------------------------------------------------------------------------

omit [TimeNumber R]

/-- Models have received certain calls, the last one first, and nothing else has happened to them: there
are the same ones as before, and each is in the state in which its calls have left it. -/
structure Receives (sim : Simulation R μ) (made : List (BlockId × ModelCall R))
    (after : Simulation R μ) : Prop where
  continues : sim.Continues after
  calls : after.calls = made ++ sim.calls
  states : ∀ id, after.model? id = (sim.model? id).map fun state => afterCalls state (callsTo id made)

variable {sim middle after : Simulation R μ} {id : BlockId} {state : μ} {call : ModelCall R}

/-- What no model is concerned with. -/
theorem receives_nil (hworkflow : after.workflow = sim.workflow) (hmodels : after.models = sim.models)
    (hcalls : after.calls = sim.calls) : sim.Receives [] after where
  continues := ⟨hworkflow, congrArg (List.map Prod.fst) hmodels⟩
  calls := hcalls
  states id := by
    rw [model?, model?, hmodels]
    cases sim.models.lookup id <;> rfl

theorem Receives.trans {earlier later : List (BlockId × ModelCall R)} (h : sim.Receives earlier middle)
    (h' : middle.Receives later after) : sim.Receives (later ++ earlier) after where
  continues := h.continues.trans h'.continues
  calls := by rw [h'.calls, h.calls, List.append_assoc]
  states id := by
    rw [h'.states, h.states, Option.map_map, callsTo_append]
    refine congrFun (congrArg Option.map ?_) _
    funext state
    exact (List.foldl_append ..).symm

/-- What becomes of a simulation in which one model receives one call. -/
theorem receives_receive (h : sim.model? id = some state) (call : ModelCall R) :
    sim.Receives [(id, call)] (sim.receive id state call) where
  continues := ⟨rfl, map_fst_assign_of_mem _ (hasModel_of_model? h)⟩
  calls := rfl
  states other := by
    rw [model?, receive, lookup_assign]
    split
    · rename_i hsame
      subst hsame
      rw [h]
      simp [callsTo, afterCalls]
    · rename_i hother
      have hnone : callsTo other [(id, call)] = [] := by simp [callsTo, Ne.symm hother]
      rw [hnone]
      cases hstate : sim.model? other with
      | none => exact hstate
      | some present => exact hstate

/-- **Changes are calls of models, none of which ends a model.** -/
theorem Becomes.receives (h : Becomes sim after) : after.terminated = sim.terminated ∧
    ∃ made, sim.Receives made after ∧ Spared made := by
  induction h with
  | refl => exact ⟨rfl, [], receives_nil rfl rfl rfl, nofun⟩
  | tail _ hchange ih =>
    obtain ⟨hsame, made, hmade, hspared⟩ := ih
    cases hchange with
    | call hstate hcall =>
      refine ⟨hsame, _, hmade.trans (receives_receive hstate _), Spared.append ?_ hspared⟩
      intro last hlast
      rw [List.mem_singleton.mp hlast]
      exact hcall
    | aside => exact ⟨hsame, [] ++ made, hmade.trans (receives_nil rfl rfl rfl), hspared⟩

end Simulation

end SlotFlow
