import SlotFlow.Graph.Slot
/-!
# Blocks

A block is one node of the tree that a workflow executes: a container, a model, a constant, a named
value or verbatim code.

* `BlockKind` — the variants of blocks, with the names they go by and the slots they are made with;
* `Block` — a node's own data; its place in the tree is the workflow's business.
-/

namespace SlotFlow

/-- The choice of a model class, and where the model finds its input. -/
structure ModelSetup where
  className : String
  inputFile : Option String := none
  inputDirectory : Option String := none
  deriving DecidableEq, Repr

/-- A literal value that a block provides. -/
inductive Constant where
  | property (values : List Float) (propertyId valueType units : String)
  | quantity (value : Float) (units : String)
  | number (value : Float)
  deriving Repr

/-- The variants of blocks. -/
inductive BlockKind where
  /-- The root of a workflow. -/
  | workflow
  /-- Executes its children one after the other. -/
  | sequential
  /-- Executes its children once per time step. -/
  | timeLoop
  /-- A place for conditional execution, for which there is no program. -/
  | ifElse
  | model (setup : ModelSetup)
  | constant (value : Constant)
  /-- Gives a name to whatever is linked to it. -/
  | named (name : String) (type : SlotType)
  /-- Verbatim lines of a program. -/
  | code (lines : List String)
  deriving Repr

namespace BlockKind

/-- Whether blocks of a kind have children. -/
def isContainer : BlockKind → Bool
  | workflow | sequential | timeLoop | ifElse => true
  | _ => false

/-- The name of a kind of block in a document. -/
def recordName : BlockKind → String
  | workflow => "WorkflowBlock"
  | sequential => "SequentialBlock"
  | timeLoop => "TimeLoopBlock"
  | ifElse => "IfElseBlock"
  | model _ => "ModelBlock"
  | constant (.property ..) => "ConstantPropertyBlock"
  | constant (.quantity ..) => "ConstantPhysicalQuantityBlock"
  | constant (.number _) => "FloatVariableBlock"
  | named .. => "CustomNameVariableBlock"
  | code _ => "CustomPythonCodeBlock"

/-- What the numbered identifiers of a kind of block start with. -/
def codeStem : BlockKind → String
  | workflow => "workflow_"
  | sequential => "sequential_"
  | timeLoop => "timeloop_"
  | ifElse => "if_else_"
  | model _ => "model_"
  | constant (.property ..) => "constant_property_"
  | constant (.quantity ..) => "constant_physical_quantity_"
  | constant (.number _) => "float_variable_"
  | named .. => "variable_"
  | code _ => "custom_code_"

/-- The name of the slot through which a constant or a named value is reached. -/
def valueSlot : String := "value"

/-- The name of a time loop's slot for the time at which it starts. -/
def startTimeSlot : String := "start_time"

/-- The name of a time loop's slot for the time at which it ends. -/
def targetTimeSlot : String := "target_time"

/-- The name of a time loop's slot for the longest step. -/
def maxStepSlot : String := "max_dt"

/-- The slots that a block is made with. Those of a model come from its class. -/
def defaultSlots : BlockKind → List SlotRequest
  | timeLoop =>
    [{ name := startTimeSlot, type := .physicalQuantity, kind := ⟨.input, false⟩ },
     { name := targetTimeSlot, type := .physicalQuantity, kind := ⟨.input, false⟩ },
     { name := maxStepSlot, type := .physicalQuantity, kind := ⟨.input, false⟩, optional := true }]
  | constant (.property ..) =>
    [{ name := valueSlot, type := .property, kind := ⟨.output, false⟩ }]
  | constant (.quantity ..) =>
    [{ name := valueSlot, type := .physicalQuantity, kind := ⟨.output, false⟩ }]
  | constant (.number _) =>
    [{ name := valueSlot, type := .double, kind := ⟨.output, false⟩ }]
  | named _ type =>
    [{ name := valueSlot, type := type, kind := ⟨.input, false⟩, optional := true }]
  | _ => []

/-- What a block is set up with if it is a model. -/
def model? : BlockKind → Option ModelSetup
  | model setup => some setup
  | _ => none

end BlockKind

/-- A node of the tree of blocks. -/
structure Block where
  id : BlockId
  uid : String
  name : String
  kind : BlockKind
  slots : List Slot := []
  /-- The identifier that stands for the block in generated programs. -/
  codeName : Option String := none
  deriving Repr

namespace Block

/-- Whether a block is a model. -/
def isModel (block : Block) : Bool :=
  block.kind.model?.isSome

/-- The slot of a block with a name. -/
def slot? (block : Block) (name : String) : Option Slot :=
  block.slots.find? (·.name = name)

end Block

end SlotFlow
