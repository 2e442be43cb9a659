import SlotFlow.Graph.Workflow
import SlotFlow.Program.Error
import SlotFlow.Program.Layout
import SlotFlow.Program.Options
/-!
# The code of the blocks

Each block contributes to two parts of a program: to its set-up, which happens once, and to its
execution, which happens whenever the block is reached.

* `Workflow.readSlot` — the expression for the value at the other end of a slot's link;
* `Workflow.setUpCode`, `Workflow.executionCode` — the code of a forest of blocks.
-/

namespace SlotFlow

/-- What code refers to where it stands: the current time, and the variable that holds the step of
the innermost time loop. -/
structure CodeScope where
  time : TimeExpr
  step : Option String

/-- The identifier of a block in a program. -/
def Block.identifier (block : Block) : String :=
  block.codeName.getD "None"

/-- The identifier of a slot in a program. -/
def Slot.identifier (slot : Slot) : String :=
  slot.codeName.getD "None"

namespace Workflow

variable {μ : Type}

-- ---------------------------------------------------------------------------
-- Expressions for slots
-- ---------------------------------------------------------------------------

/-- The expression for the value that a slot provides. -/
def provideSlot (w : Workflow μ) (id : SlotId) (time : TimeExpr) : Expr :=
  match w.ownedSlot? id with
  | none => .none
  | some owned =>
    match owned.owner.kind with
    | .model _ =>
      .quantity id owned.owner.identifier owned.slot.objectType time owned.slot.objectId
    | .constant _ => .member id owned.owner.identifier
    | .workflow => if owned.slot.external then .member id owned.slot.identifier else .none
    | _ => .none

/-- The expression for the value at the other end of a slot's link. -/
def readSlot (w : Workflow μ) (id : SlotId) (time : TimeExpr) : Expr :=
  match w.partner? id with
  | some source => w.provideSlot source time
  | none => .none

/-- The expression for the value that a named slot of a block takes in. -/
def readNamed (w : Workflow μ) (block : Block) (name : String) (time : TimeExpr) : Expr :=
  match block.slot? name with
  | some slot => w.readSlot slot.id time
  | none => .none

/-- Whether a block has a slot of a name, and the slot has a link. -/
def isNamedLinked (w : Workflow μ) (block : Block) (name : String) : Bool :=
  match block.slot? name with
  | some slot => w.isLinked slot.id
  | none => false

-- ---------------------------------------------------------------------------
-- Set-up
-- ---------------------------------------------------------------------------

/-- A blank line and the comment that stands before the code of a block. -/
def codeHeader (what : String) (block : Block) : List Line :=
  [.blank, .comment s!"{what} code of {block.identifier} ({block.name})"]

/-- The set-up of a single block, which leaves out its children. -/
def setUpLines (w : Workflow μ) (options : ProgramOptions) (block : Block) : List Line :=
  let setUp (value : MemberValue) :=
    codeHeader "initialization" block ++ [.assign block.identifier value]
  match block.kind with
  | .model setup => setUp (.newModel setup)
  | .constant literal =>
    if w.isNamedLinked block BlockKind.valueSlot then
      setUp (.constant options.runtimeModule literal)
    else []
  | .named .. => if w.isNamedLinked block BlockKind.valueSlot then setUp .none else []
  | _ => []

/-- The set-up of a forest of blocks. -/
def setUpCode (w : Workflow μ) (options : ProgramOptions) :
    Forest Block → Except GenerationError Code
  | .nil => return .nil
  | .node block below after => do
    let code ← match block.kind with
      | .ifElse => throw (.unsupportedBlock block.name block.kind.recordName)
      | .workflow | .sequential | .timeLoop => w.setUpCode options below
      | _ => pure (Code.ofLines (w.setUpLines options block))
    return code.append (← w.setUpCode options after)

-- ---------------------------------------------------------------------------
-- Execution
-- ---------------------------------------------------------------------------

/-- The line that hands a model the value for one of its slots, if this is a linked input. -/
def inputLine? (w : Workflow μ) (block : Block) (scope : CodeScope) (slot : Slot) : Option Line :=
  if slot.direction = .input then
    (w.partner? slot.id).map fun source =>
      .setInput block.id block.identifier source (w.provideSlot source scope.time) slot.objectId
  else none

/-- The code that executes a model: it takes in its linked inputs and solves a step. -/
def modelLines (w : Workflow μ) (block : Block) (scope : CodeScope) : List Line :=
  codeHeader "execution" block ++ block.slots.filterMap (w.inputLine? block scope) ++
    [.solveModel block.id block.identifier scope.step]

/-- The code that executes a single block, which leaves out its children. -/
def executionLines (w : Workflow μ) (block : Block) (scope : CodeScope) : List Line :=
  match block.kind with
  | .model _ => w.modelLines block scope
  | .named .. =>
    if w.isNamedLinked block BlockKind.valueSlot then
      codeHeader "execution" block ++
        [.assign block.identifier (.expr (w.readNamed block BlockKind.valueSlot scope.time))]
    else []
  | .code lines => codeHeader "execution" block ++ lines.map Line.verbatim
  | _ => []

/-- What limits the steps of a time loop: its slot for the longest step, and the models in it. -/
def stepSources (w : Workflow μ) (block : Block) (models : List Block) (time : TimeExpr) :
    List StepSource :=
  (if w.isNamedLinked block BlockKind.maxStepSlot then
    [.value (w.readNamed block BlockKind.maxStepSlot time)] else []) ++
  models.map fun model => .critical model.id model.identifier

/-- What code inside a time loop refers to. -/
def loopScope (loop : String) : CodeScope :=
  { time := .ofStep (LoopVariable.step.name loop)
    step := some (LoopVariable.step.name loop) }

/-- The code of a time loop around the code of its children. -/
def loopCode (w : Workflow μ) (options : ProgramOptions) (block : Block) (time : TimeExpr)
    (sources : List StepSource) (children : Code) : Code :=
  let loop := block.identifier
  let opening := codeHeader "execution" block ++
    [.setUnits loop options.timeUnits,
     .setStart loop (w.readNamed block BlockKind.startTimeSlot time),
     .setTarget loop (w.readNamed block BlockKind.targetTimeSlot time),
     .setCompute loop true,
     .resetNumber loop]
  let body := Code.concat
    [Code.ofLines [.countStep loop, .blank, .setLength loop sources, .advanceTime loop, .blank],
     Code.block (.ifReached loop options.timeTolerance) (Code.ofLines [.setCompute loop false]),
     Code.ofLines [.blank, .makeStep loop options.runtimeModule],
     children]
  (Code.ofLines opening).append (Code.block (.whileComputing loop) body)

/-- The code that executes a forest of blocks. -/
def executionCode (w : Workflow μ) (options : ProgramOptions) :
    Forest Block → CodeScope → Except GenerationError Code
  | .nil, _ => return .nil
  | .node block below after, scope => do
    let code ← match block.kind with
      | .ifElse => throw (.unsupportedBlock block.name block.kind.recordName)
      | .workflow | .sequential => w.executionCode options below scope
      | .timeLoop => do
        let sources := w.stepSources block (below.toList.filter Block.isModel) scope.time
        if sources.isEmpty then throw (.missingStepSource block.identifier)
        let children ← w.executionCode options below (loopScope block.identifier)
        pure (w.loopCode options block scope.time sources children)
      | _ => pure (Code.ofLines (w.executionLines block scope))
    return code.append (← w.executionCode options after scope)

end Workflow

end SlotFlow
