import SlotFlow.Naming.Assignment
import SlotFlow.Program.BlockCode
/-!
# The program of a workflow

The class around the code of the blocks, in one of two forms: a class with `set`, `get` and
`solveStep` for use in other programs, or a program that runs the workflow once.

* `Workflow.programCode` — the program as a forest of lines;
* `Workflow.generate` — the same as texts, after every element has been given its identifier.
-/

namespace SlotFlow

namespace Workflow

variable {μ : Type}

-- ---------------------------------------------------------------------------
-- Imports
-- ---------------------------------------------------------------------------

/-- The classes of the models, each one where it is used first. -/
def usedClasses (w : Workflow μ) : List String :=
  (w.models.filterMap fun block => block.kind.model?.map ModelSetup.className).eraseDups

/-- The imports: the runtime module, and the model classes that are registered. -/
def importLines (w : Workflow μ) (options : ProgramOptions) : List Line :=
  .importModule options.runtimeModule ::
    w.usedClasses.filterMap fun name =>
      (w.registry.find? name).map fun modelClass => .importClass modelClass.importStatement

-- ---------------------------------------------------------------------------
-- Inputs and outputs of the workflow
-- ---------------------------------------------------------------------------

/-- The linked slots on the border that feed values to the blocks inside. -/
def inputSlots (w : Workflow μ) : List Slot :=
  (w.borderSlots .output).filter fun slot => w.isLinked slot.id

/-- The linked slots on the border that collect values from the blocks inside. -/
def outputSlots (w : Workflow μ) : List Slot :=
  (w.borderSlots .input).filter fun slot => w.isLinked slot.id

/-- What a class says about one of its inputs or outputs. An input is optional if every slot that it
feeds is, and an object type is taken from a linked slot if the slot itself has none. -/
def describe (w : Workflow μ) (slot : Slot) : SlotDescription :=
  let linked := (w.partners slot.id).filterMap w.slot?
  { slot := slot.id
    name := slot.name
    type := slot.type
    optional := match slot.direction with
      | .output => linked.all (·.optional)
      | .input => true
    objectType := slot.objectType.or (linked.findSome? Slot.objectType)
    objectId := slot.objectId }

/-- The statements that describe a class. -/
def metadataLines (w : Workflow μ) (options : ProgramOptions) : List Line :=
  [.declareName options.className,
   .declareInputs (w.inputSlots.map w.describe),
   .declareOutputs (w.outputSlots.map w.describe)]

/-- The set-up of the inputs, which have no value at first. -/
def inputSetUpLines (w : Workflow μ) : List Line :=
  w.inputSlots.flatMap fun slot =>
    match slot.codeName with
    | none => []
    | some name =>
      [.blank,
       .comment "initialization code of external input",
       .assign name .none,
       .comment "It should be defined from outside using set() method."]

/-- Slots by their types, in the order of `SlotType.all`; a type without slots is left out. -/
def groupByType (slots : List Slot) : List (SlotType × List Slot) :=
  (SlotType.all.map fun type => (type, slots.filter (·.type = type))).filter
    fun group => !group.2.isEmpty

/-- A question for each slot whether it is the one that is meant, by types. -/
def choices (slots : List Slot) (answer : Slot → Line) : Code :=
  Code.concat <| (groupByType slots).map fun group =>
    (Code.ofLines [.blank, .comment ("in case of " ++ group.1.name)]).append <|
      Code.concat <| group.2.map fun slot =>
        Code.block (.ifObject slot.id slot.objectId) (Code.ofLines [answer slot])

-- ---------------------------------------------------------------------------
-- Methods
-- ---------------------------------------------------------------------------

/-- The method that gives the smallest critical step of the models directly below the root. -/
def criticalMethod (w : Workflow μ) : Code :=
  let models := w.body.roots.filter Block.isModel
  Code.block (.methodDef .criticalTimeStep) <| Code.ofLines <|
    if models.isEmpty then [.returnNone]
    else [.returnCritical (models.map fun model => (model.id, model.identifier))]

/-- The method that takes in a value for one of the inputs. -/
def setMethod (w : Workflow μ) : Code :=
  let body := choices w.inputSlots fun slot => .assign slot.identifier .argument
  (Code.ofLines [.comment "set method for all external inputs"]).append <|
    Code.block (.methodDef .set) <|
      if w.inputSlots.isEmpty then Code.ofLines [.pass] else body

/-- The method that gives the value of one of the outputs. -/
def getMethod (w : Workflow μ) : Code :=
  let body := choices w.outputSlots fun slot =>
    .returnValue slot.id (w.readSlot slot.id (.named "time"))
  (Code.ofLines [.comment "get method for all external outputs"]).append <|
    Code.block (.methodDef .get) (body.append (Code.ofLines [.blank, .returnNone]))

/-- The method that terminates all models. -/
def terminateMethod (w : Workflow μ) : Code :=
  Code.block (.methodDef .terminate) <| Code.ofLines <|
    if w.models.isEmpty then [.pass]
    else w.models.map fun model => .terminateModel model.id model.identifier

/-- Several parts of a class, with a blank line before each of them. -/
def spaced (parts : List Code) : Code :=
  Code.concat (parts.map fun part => (Code.ofLines [.blank]).append part)

-- ---------------------------------------------------------------------------
-- Programs
-- ---------------------------------------------------------------------------

/-- What code at the start of the method that executes the workflow refers to. -/
def formScope : ProgramForm → CodeScope
  | .component => { time := .ofStep "tstep", step := some "tstep" }
  | .execution => { time := .none, step := none }

/-- The method that sets the class up, given the set-up of the blocks. -/
def setUpMethod (w : Workflow μ) (options : ProgramOptions) (form : ProgramForm) (blocks : Code) :
    Code :=
  let own := match form with
    | .component => w.metadataLines options ++ w.inputSetUpLines
    | .execution => []
  Code.block (.methodDef .init) <|
    (Code.ofLines (.initBase options.runtimeModule :: own)).append blocks

/-- The method that executes the workflow, given the code of the blocks. -/
def solveMethod (form : ProgramForm) (blocks : Code) : Code :=
  match form with
  | .component => Code.block (.methodDef .solveStep) blocks.orPass
  | .execution =>
    Code.block (.methodDef .solve) <|
      blocks.append (Code.ofLines [.blank, .comment "terminate all models", .terminateSelf])

/-- The end of a program that runs the workflow once. -/
def mainPart (options : ProgramOptions) (form : ProgramForm) : Code :=
  match form with
  | .component => .nil
  | .execution =>
    (Code.ofLines [.blank, .blank]).append <|
      Code.block .ifMain <| Code.ofLines
        [.makeProblem options.className, .solveProblem, .terminateProblem, .blank, .printFinished]

/-- The program of a workflow whose elements have their identifiers. -/
def programCode (w : Workflow μ) (options : ProgramOptions) (form : ProgramForm) :
    Except GenerationError Code := do
  let setUp ← w.setUpCode options w.tree
  let execution ← w.executionCode options w.tree (formScope form)
  let access := match form with
    | .component => [w.criticalMethod, w.setMethod, w.getMethod]
    | .execution => []
  let methods := (w.setUpMethod options form setUp).append <|
    spaced (access ++ [w.terminateMethod, solveMethod form execution])
  return Code.concat
    [Code.ofLines (w.importLines options ++ [.blank, .blank]),
     Code.block (.classDef options.className options.runtimeModule) methods,
     mainPart options form]

/-- Gives every element its identifier and makes a program of the workflow, as lines that are
indented by tabs. The name of the class has to be an identifier; if it is none, the workflow stays
as it was. -/
def generate (w : Workflow μ) (options : ProgramOptions) (form : ProgramForm) :
    Except GenerationError (List String) × Workflow μ :=
  if Identifier.ofName? options.className = some options.className then
    let named := w.assignNames
    ((named.programCode options form).map Code.lines, named)
  else (.error (.invalidClassName options.className), w)

/-- The settings of a program that is named after its workflow. -/
def ownOptions (w : Workflow μ) : ProgramOptions :=
  { className := w.className }

end Workflow

end SlotFlow
