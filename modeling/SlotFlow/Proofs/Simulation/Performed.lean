import SlotFlow.Proofs.Program.Plan
import SlotFlow.Simulation.Run
/-!
# What an action has the models do

Of the calls that models receive those count here that hand them an input or have them solve a step.
An action leaves a simulation with the same workflow and with an instance for the same blocks. If it
succeeds, it has had the models do certain things, one after the other; if it fails, that is the
fault of a model, of a value or of the length of a step.

* `Simulation.actsOf` — what models have done, in order;
* `Simulation.Leads`, `Simulation.Performs` — what comes of an action, and what it has models do.

## Results

* `Simulation.Performs.bind` — actions one after the other have models do one thing after the other;
* `Simulation.performs_callModel`, `Simulation.performs_executeModel` — calls of a model.
-/

namespace SlotFlow

/-- Whether an error comes about while blocks are executed: a model fails, a value is no number, or
a time loop gets no step that it can make or makes too many steps. -/
def RunError.isMishap {R : Type} : RunError R → Bool
  | nonPositiveStep .. | typeMismatch .. | modelFailed .. | stepLimit _ => true
  | _ => false

/-- What a call has a model do. -/
def ModelCall.act? {R : Type} (model : BlockId) : ModelCall R → Option ModelAct
  | .set source _ objectId => some (.set model source objectId)
  | .solveStep _ => some (.solve model)
  | _ => none

namespace Simulation

variable {R μ α β : Type}

/-- What calls have models do, in the order in which that happens. -/
def actsOf (calls : List (BlockId × ModelCall R)) : List ModelAct :=
  calls.reverse.filterMap fun call => call.2.act? call.1

theorem actsOf_append (later earlier : List (BlockId × ModelCall R)) :
    actsOf (later ++ earlier) = actsOf earlier ++ actsOf later := by
  rw [actsOf, List.reverse_append, List.filterMap_append]
  rfl

theorem actsOf_singleton (id : BlockId) (call : ModelCall R) :
    actsOf [(id, call)] = (call.act? id).toList := by
  rw [actsOf, List.reverse_singleton, List.filterMap_cons]
  cases call.act? id <;> rfl

-- ---------------------------------------------------------------------------
-- Simulations that go on
-- ---------------------------------------------------------------------------

/-- A simulation goes on as another one: with the same workflow, and with instances for the same
blocks. -/
structure Continues (sim after : Simulation R μ) : Prop where
  workflow : after.workflow = sim.workflow
  blocks : after.models.map Prod.fst = sim.models.map Prod.fst

theorem Continues.refl (sim : Simulation R μ) : sim.Continues sim := ⟨rfl, rfl⟩

theorem Continues.trans {sim middle after : Simulation R μ} (h : sim.Continues middle)
    (h' : middle.Continues after) : sim.Continues after :=
  ⟨h'.workflow.trans h.workflow, h'.blocks.trans h.blocks⟩

/-- There is an instance for a block. -/
def HasModel (sim : Simulation R μ) (id : BlockId) : Prop :=
  id ∈ sim.models.map Prod.fst

theorem Continues.hasModel {sim after : Simulation R μ} (h : sim.Continues after) {id : BlockId}
    (hid : sim.HasModel id) : after.HasModel id := by
  rwa [HasModel, h.blocks]

theorem HasModel.exists_model? {sim : Simulation R μ} {id : BlockId} (h : sim.HasModel id) :
    ∃ state, sim.model? id = some state := by
  obtain ⟨⟨key, state⟩, hin, rfl⟩ := List.mem_map.mp h
  refine Option.ne_none_iff_exists'.mp fun hnone => ?_
  have hother := List.lookup_eq_none_iff.mp hnone _ hin
  rw [bne_self_eq_false] at hother
  cases hother

theorem model?_eq_none {sim : Simulation R μ} {id : BlockId} (h : ¬sim.HasModel id) :
    sim.model? id = none := by
  refine List.lookup_eq_none_iff.mpr fun model hin => bne_iff_ne.mpr ?_
  rintro rfl
  exact h (List.mem_map_of_mem hin)

theorem hasModel_of_model? {sim : Simulation R μ} {id : BlockId} {state : μ}
    (h : sim.model? id = some state) : sim.HasModel id := by
  by_contra hnone
  rw [model?_eq_none hnone] at h
  cases h

-- ---------------------------------------------------------------------------
-- What comes of an action
-- ---------------------------------------------------------------------------

/-- What a simulation leads to: whatever the outcome is, it goes on; with an answer, models have
acted and time loops have made steps as `post` says; without one, there has been a mishap. -/
structure Leads (sim : Simulation R μ) (outcome : Except (RunError R) α × Simulation R μ)
    (post : α → List ModelAct → Nat → Prop) : Prop where
  continues : sim.Continues outcome.2
  done : ∀ a, outcome.1 = .ok a → ∃ calls steps, outcome.2.calls = calls ++ sim.calls ∧
    outcome.2.timeSteps = sim.timeSteps + steps ∧ post a (actsOf calls) steps
  mishap : ∀ error, outcome.1 = .error error → error.isMishap = true

theorem Leads.ok {sim after : Simulation R μ} {a : α} {post : α → List ModelAct → Nat → Prop}
    {steps : Nat} (calls : List (BlockId × ModelCall R)) (hcontinues : sim.Continues after)
    (hcalls : after.calls = calls ++ sim.calls) (hsteps : after.timeSteps = sim.timeSteps + steps)
    (hpost : post a (actsOf calls) steps) : Leads sim (.ok a, after) post where
  continues := hcontinues
  done := by
    rintro _ ⟨⟩
    exact ⟨calls, steps, hcalls, hsteps, hpost⟩
  mishap := nofun

theorem Leads.error {sim after : Simulation R μ} {error : RunError R}
    {post : α → List ModelAct → Nat → Prop} (hcontinues : sim.Continues after)
    (herror : error.isMishap = true) : Leads sim (.error error, after) post where
  continues := hcontinues
  done := nofun
  mishap := by
    rintro _ ⟨⟩
    exact herror

/-- Of two actions, the second one goes on from where the first one has succeeded. -/
theorem bind_apply (action : Action R μ α) (next : α → Action R μ β) (sim : Simulation R μ) :
    (action >>= next) sim = match action sim with
      | (.ok a, after) => next a after
      | (.error error, after) => (.error error, after) := by
  show (match action sim with | (result, after) => ExceptT.bindCont next result after) = _
  rcases action sim with ⟨_ | _, _⟩ <;> rfl

theorem get_bind_apply (next : Simulation R μ → Action R μ β) (sim : Simulation R μ) :
    (get >>= next) sim = next sim sim := rfl

/-- What an action has models do, and how many steps time loops make then. -/
def Performs (action : Action R μ α) (sim : Simulation R μ)
    (post : α → List ModelAct → Nat → Prop) : Prop :=
  Leads sim (action sim) post

/-- An action during which models only answer questions. -/
abbrev Quiet (action : Action R μ α) (sim : Simulation R μ) : Prop :=
  Performs action sim fun _ acts steps => acts = [] ∧ steps = 0

variable {sim : Simulation R μ} {post : α → List ModelAct → Nat → Prop}
  {final : β → List ModelAct → Nat → Prop}

theorem performs_pure {a : α} (h : post a [] 0) : Performs (pure a) sim post :=
  .ok [] (.refl sim) (List.nil_append _).symm rfl h

theorem performs_throw {error : RunError R} (h : error.isMishap = true) :
    Performs (throw error : Action R μ α) sim post :=
  .error (.refl sim) h

/-- **Actions one after the other have models do one thing after the other.** -/
theorem Performs.bind {action : Action R μ α} {next : α → Action R μ β}
    (h : Performs action sim post)
    (hnext : ∀ a acts steps after, post a acts steps → sim.Continues after →
      Performs (next a) after fun b more others => final b (acts ++ more) (steps + others)) :
    Performs (action >>= next) sim final := by
  unfold Performs at h ⊢
  rw [bind_apply]
  rcases houtcome : action sim with ⟨result, after⟩
  rw [houtcome] at h
  cases result with
  | error error => exact .error h.continues (h.mishap error rfl)
  | ok a =>
    obtain ⟨calls, steps, hcalls, hsteps, hpost⟩ := h.done a rfl
    obtain ⟨hcontinues, hdone, hmishap⟩ := hnext a _ _ _ hpost h.continues
    refine ⟨h.continues.trans hcontinues, fun b hb => ?_, hmishap⟩
    obtain ⟨more, others, hmore, hothers, hfinal⟩ := hdone b hb
    refine ⟨more ++ calls, steps + others, ?_, ?_, ?_⟩
    · rw [hmore, hcalls, List.append_assoc]
    · rw [hothers, hsteps, Nat.add_assoc]
    · rwa [actsOf_append]

theorem Performs.mono {post' : α → List ModelAct → Nat → Prop} {action : Action R μ α}
    (h : Performs action sim post)
    (hpost : ∀ a acts steps, post a acts steps → post' a acts steps) :
    Performs action sim post' where
  continues := h.continues
  done a ha := by
    obtain ⟨calls, steps, hcalls, hsteps, hp⟩ := h.done a ha
    exact ⟨calls, steps, hcalls, hsteps, hpost _ _ _ hp⟩
  mishap := h.mishap

/-- What comes after an action in which no model acts. -/
theorem Quiet.bind {action : Action R μ α} {next : α → Action R μ β} (h : Quiet action sim)
    (hnext : ∀ a after, sim.Continues after → Performs (next a) after final) :
    Performs (action >>= next) sim final := by
  refine Performs.bind h fun a acts steps after hnone hcontinues => ?_
  obtain ⟨rfl, rfl⟩ := hnone
  refine (hnext a after hcontinues).mono fun b more others hfinal => ?_
  rwa [List.nil_append, Nat.zero_add]

theorem performs_get {next : Simulation R μ → Action R μ β} (h : Performs (next sim) sim final) :
    Performs (get >>= next) sim final := h

-- ---------------------------------------------------------------------------
-- Calls of models
-- ---------------------------------------------------------------------------

/-- A call of a model that is there. -/
theorem performs_callModel {id : BlockId} (h : sim.HasModel id) (className : String)
    (call : ModelCall R) (act : μ → Except String Unit × μ) :
    Performs (callModel id className call act) sim fun _ acts steps =>
      acts = (call.act? id).toList ∧ steps = 0 := by
  obtain ⟨state, hstate⟩ := h.exists_model?
  have hcontinues : sim.Continues
      { sim.noteCall id call with models := assign id (act state).2 sim.models } :=
    ⟨rfl, map_fst_assign_of_mem _ h⟩
  unfold Performs callModel
  rw [hstate]
  dsimp only
  rcases hact : act state with ⟨outcome, after⟩
  rw [hact] at hcontinues
  cases outcome with
  | ok => exact .ok [(id, call)] hcontinues rfl rfl ⟨actsOf_singleton id call, rfl⟩
  | error => exact .error hcontinues rfl

theorem quiet_askModel [NativeModel R μ] (id : BlockId) (className : String)
    (objectType : Option String) (time : R) (objectId : ObjectId) :
    Quiet (askModel id className objectType time objectId) sim := by
  have hcontinues : sim.Continues (sim.noteCall id (.get objectType time objectId)) := ⟨rfl, rfl⟩
  unfold Quiet Performs askModel
  split
  · exact .ok [] (.refl sim) (List.nil_append _).symm rfl ⟨rfl, rfl⟩
  · dsimp only
    split
    · exact .ok [_] hcontinues rfl rfl ⟨rfl, rfl⟩
    · exact .error hcontinues rfl

-- ---------------------------------------------------------------------------
-- Values of slots
-- ---------------------------------------------------------------------------

variable [TimeNumber R] [NativeModel R μ]

theorem quiet_provided (id : SlotId) (moment : Moment R) : Quiet (provided id moment) sim := by
  unfold provided
  refine performs_get ?_
  split
  · exact performs_pure ⟨rfl, rfl⟩
  · split
    · exact quiet_askModel ..
    · exact performs_pure ⟨rfl, rfl⟩
    · exact performs_pure ⟨rfl, rfl⟩
    · split <;> exact performs_pure ⟨rfl, rfl⟩
    · exact performs_pure ⟨rfl, rfl⟩

theorem quiet_linked (id : SlotId) (moment : Moment R) : Quiet (linked id moment) sim := by
  unfold linked
  refine performs_get ?_
  split
  · exact quiet_provided ..
  · exact performs_pure ⟨rfl, rfl⟩

theorem quiet_linkedNumber (id : SlotId) (label : String) (moment : Moment R) :
    Quiet (linkedNumber id label moment) sim := by
  unfold linkedNumber
  refine (quiet_linked id moment).bind fun value after _ => ?_
  split
  · exact performs_pure ⟨rfl, rfl⟩
  · exact performs_throw rfl

theorem quiet_readTime (loop : Block) (name : String) (moment : Moment R) :
    Quiet (readTime loop name moment) sim := by
  unfold readTime
  split
  · exact quiet_linkedNumber ..
  · exact performs_throw rfl

theorem quiet_nextStep (loop : Block) (maxStep : Option Slot) (models : List Block)
    (moment : Moment R) : Quiet (nextStep loop maxStep models moment) sim := by
  have hrest : ∀ (limit : List R) (after : Simulation R μ), Quiet (do
      let sim ← get
      let critical := models.filterMap fun block =>
        (sim.model? block.id).map NativeModel.criticalTimeStep
      let dt := TimeNumber.least (limit ++ critical)
      if TimeNumber.isStep dt then return dt else throw (.nonPositiveStep loop.name dt)) after := by
    intro limit after
    refine performs_get ?_
    dsimp only
    split
    · exact performs_pure ⟨rfl, rfl⟩
    · exact performs_throw rfl
  unfold nextStep
  cases maxStep with
  | none => exact hrest [] sim
  | some slot => exact (quiet_linkedNumber ..).bind fun limit after _ => hrest [limit] after

-- ---------------------------------------------------------------------------
-- Blocks
-- ---------------------------------------------------------------------------

theorem performs_takeInput {block : Block} (h : sim.HasModel block.id) (className : String)
    (moment : Moment R) (slot : Slot) :
    Performs (takeInput block className moment slot) sim fun _ acts steps =>
      acts = (sim.workflow.setAct? block slot).toList ∧ steps = 0 := by
  unfold takeInput Workflow.setAct?
  split
  · refine performs_get ?_
    split
    · rename_i hnone
      rw [hnone]
      exact performs_pure ⟨rfl, rfl⟩
    · rename_i source hsource
      rw [hsource]
      refine (quiet_provided source moment).bind fun value after hcontinues => ?_
      exact performs_callModel (hcontinues.hasModel h) ..
  · exact performs_pure ⟨rfl, rfl⟩

theorem performs_takeInputs {block : Block} (h : sim.HasModel block.id) (className : String)
    (moment : Moment R) (slots : List Slot) :
    Performs (takeInputs block className moment slots) sim fun _ acts steps =>
      acts = slots.filterMap (sim.workflow.setAct? block) ∧ steps = 0 := by
  induction slots generalizing sim with
  | nil => exact performs_pure ⟨rfl, rfl⟩
  | cons slot slots ih =>
    rw [takeInputs]
    refine (performs_takeInput h className moment slot).bind
      fun _ acts steps after hfirst hcontinues => ?_
    obtain ⟨rfl, rfl⟩ := hfirst
    refine (ih (hcontinues.hasModel h)).mono fun _ more others hrest => ?_
    obtain ⟨rfl, rfl⟩ := hrest
    rw [hcontinues.workflow, filterMap_cons_toList]
    exact ⟨rfl, rfl⟩

/-- A model that is executed takes in its linked inputs, and then solves a step. -/
theorem performs_executeModel {block : Block} (h : sim.HasModel block.id) (setup : ModelSetup)
    (moment : Moment R) :
    Performs (executeModel block setup moment) sim fun _ acts steps =>
      acts = sim.workflow.modelActs block ∧ steps = 0 := by
  unfold executeModel
  refine (performs_takeInputs h setup.className moment block.slots).bind
    fun _ acts steps after hinputs hcontinues => ?_
  obtain ⟨rfl, rfl⟩ := hinputs
  refine (performs_callModel (hcontinues.hasModel h) ..).mono fun _ more others hsolve => ?_
  obtain ⟨rfl, rfl⟩ := hsolve
  exact ⟨rfl, rfl⟩

theorem quiet_executeNamed (block : Block) (moment : Moment R) :
    Quiet (executeNamed block moment) sim := by
  unfold executeNamed
  split
  · exact performs_pure ⟨rfl, rfl⟩
  · rename_i slot _
    refine (quiet_linked slot.id moment).bind fun value after _ => ?_
    exact .ok [] ⟨rfl, rfl⟩ rfl rfl ⟨rfl, rfl⟩

end Simulation

end SlotFlow
