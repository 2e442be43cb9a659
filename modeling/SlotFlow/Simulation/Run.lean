import SlotFlow.Graph.Workflow
import SlotFlow.Program.Error
import SlotFlow.Simulation.Model
/-!
# Running a workflow

A simulation executes the tree of a workflow on native models: constants provide their literals, a
model takes in every linked input before it solves, and a time loop executes its children once per
step.

* `Simulation.start` — an instance for every model block;
* `Simulation.execute` — the tree itself, by recursion on the forest of blocks;
* `Simulation.run`, `Simulation.solveStep`, `Simulation.output`, `Simulation.finish` — what is asked
  of a simulation from outside.

Every operation gives the simulation after it, whether it fails or not. The calls that models
receive are kept, the last one first.
-/

namespace SlotFlow

/-- Why a simulation cannot start or go on. -/
inductive RunError (R : Type) where
  | missingNative (className : String)
  | nonPositiveStep (block : String) (dt : R)
  | typeMismatch (slot found : String)
  | modelFailed (className message : String)
  | unknownInput (name : String)
  | unknownOutput (name : String)
  | generation (error : GenerationError)
  /-- A time loop has made as many steps as a simulation allows. -/
  | stepLimit (block : String)

/-- The wording of an error. -/
def RunError.message : RunError Float → String
  | missingNative name => s!"No native implementation registered for model class '{name}'"
  | nonPositiveStep block dt =>
    s!"Time loop '{block}' computed a non-positive time step " ++
      "(" ++ NumberFormat.message.render dt ++ ")"
  | typeMismatch slot found => s!"Expected a numeric value for '{slot}', but found {found}"
  | modelFailed name message => s!"Model '{name}' failed: {message}"
  | unknownInput name => s!"Workflow has no input named '{name}'"
  | unknownOutput name => s!"Workflow has no output named '{name}'"
  | generation error => error.message
  | stepLimit block => s!"Time loop '{block}' makes too many steps"

/-- Puts a value under a key, in the place of one that is there. -/
def assign {κ α : Type} [DecidableEq κ] (key : κ) (value : α) : List (κ × α) → List (κ × α)
  | [] => [(key, value)]
  | (other, present) :: rest =>
    if other = key then (key, value) :: rest else (other, present) :: assign key value rest

/-- The value under a key is the one that was put there last. -/
theorem lookup_assign {κ α : Type} [DecidableEq κ] (key other : κ) (value : α)
    (pairs : List (κ × α)) :
    (assign key value pairs).lookup other =
      if other = key then some value else pairs.lookup other := by
  induction pairs with
  | nil => grind [assign]
  | cons pair pairs ih => grind [assign]

/-- A key that is there keeps its place. -/
theorem map_fst_assign_of_mem {κ α : Type} [DecidableEq κ] {key : κ} (value : α)
    {pairs : List (κ × α)} (h : key ∈ pairs.map Prod.fst) :
    (assign key value pairs).map Prod.fst = pairs.map Prod.fst := by
  induction pairs with
  | nil => simp at h
  | cons pair pairs ih =>
    by_cases hk : pair.1 = key
    · simp [assign, hk]
    · have rest : key ∈ pairs.map Prod.fst := by simpa [Ne.symm hk] using h
      simp [assign, hk, ih rest]

/-- A workflow with live models. -/
structure Simulation (R μ : Type) where
  workflow : Workflow μ
  /-- The instance behind each model block, in tree order. -/
  models : List (BlockId × μ)
  /-- What the named values stand for at present. -/
  bound : List (BlockId × Value R) := []
  /-- What has been set from outside. -/
  inputs : List (SlotId × Value R) := []
  tolerance : R
  /-- The greatest number of steps that one execution of a time loop may make. -/
  stepLimit : Nat := UInt32.size
  /-- The steps that the time loops have made in the present run. -/
  timeSteps : Nat := 0
  terminated : Bool := false
  /-- The calls that models have received, the last one first. -/
  calls : List (BlockId × ModelCall R) := []

/-- When a block is executed: the time, and the step of the time loop around it. -/
structure Moment (R : Type) where
  time : Option R := none
  step : Option (TimeStep R) := none

/-- What happens in a simulation: it may fail, and the simulation goes on from where it failed. -/
abbrev Action (R μ α : Type) := ExceptT (RunError R) (StateM (Simulation R μ)) α

namespace Simulation

variable {R μ : Type} [TimeNumber R] [NativeModel R μ]

/-- The slack with which a time loop reaches its target where nothing else is said. -/
def defaultTolerance : R := TimeNumber.ofFloat 1e-6

/-- An instance for each of the model blocks. -/
def instantiate (registry : Registry μ) : List Block → Except (RunError R) (List (BlockId × μ))
  | [] => .ok []
  | block :: blocks =>
    match block.kind.model? with
    | none => instantiate registry blocks
    | some setup => do
      let some fresh := registry.native? setup.className
        | throw (.missingNative setup.className)
      let others ← instantiate registry blocks
      return (block.id, fresh) :: others

/-- A simulation of a workflow on instances of the native models of a registry. -/
def start (workflow : Workflow μ) (registry : Registry μ) :
    Except (RunError R) (Simulation R μ) := do
  let models ← instantiate registry workflow.models
  return { workflow := workflow, models := models, tolerance := defaultTolerance }

/-- The instance behind a model block. -/
def model? (sim : Simulation R μ) (id : BlockId) : Option μ :=
  sim.models.lookup id

-- ---------------------------------------------------------------------------
-- Calls of models
-- ---------------------------------------------------------------------------

/-- Notes a call of the model behind a block. -/
def noteCall (id : BlockId) (call : ModelCall R) (sim : Simulation R μ) : Simulation R μ :=
  { sim with calls := (id, call) :: sim.calls }

/-- Calls the model behind a block, if there is one. -/
def callModel (id : BlockId) (className : String) (call : ModelCall R)
    (act : μ → Except String Unit × μ) : Action R μ Unit := fun sim =>
  match sim.model? id with
  | none => (.ok (), sim)
  | some state =>
    let (outcome, after) := act state
    let sim := { sim.noteCall id call with models := assign id after sim.models }
    match outcome with
    | .ok _ => (.ok (), sim)
    | .error message => (.error (.modelFailed className message), sim)

/-- Asks the model behind a block for a quantity; without a model there is no value. -/
def askModel (id : BlockId) (className : String) (objectType : Option String) (time : R)
    (objectId : ObjectId) : Action R μ (Value R) := fun sim =>
  match sim.model? id with
  | none => (.ok .none, sim)
  | some state =>
    let sim := sim.noteCall id (.get objectType time objectId)
    match NativeModel.get objectType time objectId state with
    | .ok value => (.ok value, sim)
    | .error message => (.error (.modelFailed className message), sim)

-- ---------------------------------------------------------------------------
-- Values of slots
-- ---------------------------------------------------------------------------

/-- The value of a literal. -/
def constantValue : Constant → Value R
  | .property values propertyId _ units =>
    .property (values.map TimeNumber.ofFloat) propertyId units
  | .quantity value units => .quantity (TimeNumber.ofFloat value) units
  | .number value => .scalar (TimeNumber.ofFloat value)

/-- The value that a slot provides. -/
def provided (id : SlotId) (moment : Moment R) : Action R μ (Value R) := do
  let sim ← get
  match sim.workflow.ownedSlot? id with
  | none => return .none
  | some owned =>
    match owned.owner.kind with
    | .model setup =>
      askModel owned.owner.id setup.className owned.slot.objectType
        (moment.time.getD (TimeNumber.ofFloat 0.0)) owned.slot.objectId
    | .constant literal => return constantValue literal
    | .named .. => return (sim.bound.lookup owned.owner.id).getD .none
    | .workflow =>
      if owned.slot.external then return (sim.inputs.lookup id).getD .none else return .none
    | _ => return .none

/-- The value at the other end of a slot's link. -/
def linked (id : SlotId) (moment : Moment R) : Action R μ (Value R) := do
  match (← get).workflow.partner? id with
  | some source => provided source moment
  | none => return .none

/-- The number at the other end of a slot's link; `label` names the slot in a complaint. -/
def linkedNumber (id : SlotId) (label : String) (moment : Moment R) : Action R μ R := do
  let value ← linked id moment
  match value.number? with
  | some x => return x
  | none => throw (.typeMismatch label value.typeName)

/-- The number that a named slot of a time loop takes in. -/
def readTime (loop : Block) (name : String) (moment : Moment R) : Action R μ R := do
  match loop.slot? name with
  | some slot => linkedNumber slot.id name moment
  | none => throw (.typeMismatch name "None")

-- ---------------------------------------------------------------------------
-- Execution
-- ---------------------------------------------------------------------------

/-- Hands a model the value for one of its slots, if this is a linked input. -/
def takeInput (block : Block) (className : String) (moment : Moment R) (slot : Slot) :
    Action R μ Unit := do
  if slot.direction = .input then
    match (← get).workflow.partner? slot.id with
    | none => return ()
    | some source =>
      let value ← provided source moment
      callModel block.id className (.set source value slot.objectId)
        (NativeModel.set value slot.objectId)

/-- Hands a model the values of its linked inputs, in the order of its slots. -/
def takeInputs (block : Block) (className : String) (moment : Moment R) :
    List Slot → Action R μ Unit
  | [] => return ()
  | slot :: slots => do
    takeInput block className moment slot
    takeInputs block className moment slots

/-- Executes a model block: it takes in its inputs and solves a step. -/
def executeModel (block : Block) (setup : ModelSetup) (moment : Moment R) : Action R μ Unit := do
  takeInputs block setup.className moment block.slots
  let step := moment.step.getD .none
  callModel block.id setup.className (.solveStep step) (NativeModel.solveStep step)

/-- Binds a named value to what is linked to it. -/
def executeNamed (block : Block) (moment : Moment R) : Action R μ Unit := do
  match block.slot? BlockKind.valueSlot with
  | none => return ()
  | some slot =>
    let value ← linked slot.id moment
    modify fun sim => { sim with bound := assign block.id value sim.bound }

/-- The slot for the longest step of a time loop, if it is linked. -/
def maxStepSlot? (workflow : Workflow μ) (loop : Block) : Option Slot :=
  (loop.slot? BlockKind.maxStepSlot).filter fun slot => workflow.isLinked slot.id

/-- The length of a time loop's next step: the smallest one of what its slot says and what the
models inside it accept. -/
def nextStep (loop : Block) (maxStep : Option Slot) (models : List Block) (moment : Moment R) :
    Action R μ R := do
  let limit ← match maxStep with
    | some slot => do pure [← linkedNumber slot.id BlockKind.maxStepSlot moment]
    | none => pure []
  let sim ← get
  let critical := models.filterMap fun block =>
    (sim.model? block.id).map NativeModel.criticalTimeStep
  let dt := TimeNumber.least (limit ++ critical)
  if TimeNumber.isStep dt then return dt else throw (.nonPositiveStep loop.name dt)

/-- Makes steps until a time loop stops, at most as many as `fuel`. -/
def repeatSteps (name : String) (next : Action R μ R) (body : TimeStep R → Action R μ Unit) :
    Nat → TimeLoop R → Action R μ Unit
  | fuel, loop => fun sim =>
    if loop.running then
      match fuel with
      | 0 => (.error (.stepLimit name), sim)
      | fuel + 1 =>
        match next sim with
        | (.error error, sim) => (.error error, sim)
        | (.ok dt, sim) =>
          let (step, loop) := loop.advance dt
          match body step { sim with timeSteps := sim.timeSteps + 1 } with
          | (.error error, sim) => (.error error, sim)
          | (.ok _, sim) => repeatSteps name next body fuel loop sim
    else (.ok (), sim)

/-- Executes a time loop, given what it does in each step. -/
def executeLoop (block : Block) (models : List Block) (moment : Moment R)
    (body : Moment R → Action R μ Unit) : Action R μ Unit := do
  let sim ← get
  let maxStep := maxStepSlot? sim.workflow block
  if maxStep.isNone && models.isEmpty then
    throw (.generation (.missingStepSource block.name))
  let time ← readTime block BlockKind.startTimeSlot moment
  let target ← readTime block BlockKind.targetTimeSlot moment
  repeatSteps block.name (nextStep block maxStep models moment)
    (fun step => body { time := some step.time, step := some step })
    sim.stepLimit (.start time target sim.tolerance)

/-- Executes the trees of a forest one after the other. -/
def execute : Forest Block → Moment R → Action R μ Unit
  | .nil, _ => return ()
  | .node block below after, moment => do
    match block.kind with
    | .ifElse => throw (.generation (.unsupportedBlock block.name block.kind.recordName))
    | .workflow | .sequential => execute below moment
    | .timeLoop =>
      executeLoop block (below.toList.filter Block.isModel) moment (execute below)
    | .model setup => executeModel block setup moment
    | .named .. => executeNamed block moment
    | .constant _ | .code _ => pure ()
    execute after moment

-- ---------------------------------------------------------------------------
-- From outside
-- ---------------------------------------------------------------------------

/-- The slot on the border that has a direction and goes by an object id. -/
def externalSlot? (sim : Simulation R μ) (direction : Direction) (name : String) : Option Slot :=
  (sim.workflow.borderSlots direction).find? (·.objectId = .name name)

/-- Sets an input of the workflow. -/
def setInput (name : String) (value : Value R) : Action R μ Unit := do
  match (← get).externalSlot? .output name with
  | none => throw (.unknownInput name)
  | some slot => modify fun sim => { sim with inputs := assign slot.id value sim.inputs }

/-- Reads an output of the workflow at a time. -/
def output (name : String) (time : R) : Action R μ (Value R) := do
  match (← get).externalSlot? .input name with
  | none => throw (.unknownOutput name)
  | some slot => linked slot.id { time := some time }

/-- The smallest critical step of the models directly below the root. -/
def criticalTimeStep? (sim : Simulation R μ) : Option R :=
  let steps := sim.workflow.body.roots.filterMap fun block =>
    (sim.model? block.id).map NativeModel.criticalTimeStep
  match steps with
  | [] => none
  | first :: rest => some (rest.foldl TimeNumber.earlier first)

/-- Executes the whole tree once; gives the number of steps that time loops have made. -/
def run : Action R μ Nat := do
  modify fun sim => { sim with timeSteps := 0 }
  execute (← get).workflow.tree {}
  return (← get).timeSteps

/-- Executes the whole tree for one step that is given from outside. -/
def solveStep (step : TimeStep R) : Action R μ Unit := do
  execute (← get).workflow.tree { time := some step.time, step := some step }

/-- Terminates each of the model blocks. -/
def terminateAll : List (BlockId × μ) → Simulation R μ → Simulation R μ
  | [], sim => sim
  | (id, state) :: rest, sim =>
    terminateAll rest
      { sim.noteCall id .terminate with
        models := assign id (NativeModel.terminate state) sim.models }

/-- Terminates every model, in tree order; a second time nothing happens. -/
def finish (sim : Simulation R μ) : Simulation R μ :=
  if sim.terminated then sim
  else { terminateAll sim.models sim with terminated := true }

end Simulation

end SlotFlow
