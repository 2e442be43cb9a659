import SlotFlow.Decimal.Format
import SlotFlow.Graph.Block
/-!
# The lines of a generated program

Each line is a value of type `Line` that says what it does: which member it assigns, which slot
it reads, which model it calls. `Line.text` is how it is written, without its indentation. A line
keeps the numbers of the elements it was made for; they do not show in its text.
-/

namespace SlotFlow

-- ---------------------------------------------------------------------------
-- Expressions
-- ---------------------------------------------------------------------------

/-- The literal of a double. -/
def doubleLiteral (x : Float) : String :=
  match Binary64.ofFloat x with
  | .nan => "float('nan')"
  | .infinite negative => if negative then "float('-inf')" else "float('inf')"
  | .finite .. => NumberFormat.program.render x

/-- The literal of a tuple of doubles; a single one is followed by a comma. -/
def doublesLiteral : List Float → String
  | [x] => "(" ++ doubleLiteral x ++ ",)"
  | xs => "(" ++ ", ".intercalate (xs.map doubleLiteral) ++ ")"

/-- How the current time is referred to. -/
inductive TimeExpr where
  | none
  /-- A variable that holds the time. -/
  | named (name : String)
  /-- The time of the step that a variable holds. -/
  | ofStep (step : String)
  deriving DecidableEq, Repr

/-- The text of a reference to the time. -/
def TimeExpr.text : TimeExpr → String
  | none => "None"
  | named name => name
  | ofStep name => name ++ ".getTime()"

/-- How the value of a slot is read. -/
inductive Expr where
  /-- There is no value. -/
  | none
  /-- A quantity that the model behind a member is asked for. -/
  | quantity (source : SlotId) (member : String) (objectType : Option String) (time : TimeExpr)
      (objectId : ObjectId)
  /-- What a member holds. -/
  | member (source : SlotId) (name : String)
  deriving DecidableEq, Repr

/-- The text of an expression. -/
def Expr.text : Expr → String
  | none => "None"
  | quantity _ name objectType time objectId =>
    let type := objectType.getD "None"
    s!"self.{name}.get({type}, {time.text}, {objectId.literal})"
  | member _ name => "self." ++ name

/-- What limits the length of a time step. -/
inductive StepSource where
  | value (expr : Expr)
  /-- The critical step of the model behind a member. -/
  | critical (model : BlockId) (member : String)
  deriving DecidableEq, Repr

/-- The text of a query for the critical step of a model. -/
def criticalText (member : String) : String :=
  "self." ++ member ++ ".getCriticalTimeStep()"

/-- The text of a limit. -/
def StepSource.text : StepSource → String
  | value expr => expr.text
  | critical _ name => criticalText name

/-- What a member is set to. -/
inductive MemberValue where
  | none
  /-- A new instance of a model class. -/
  | newModel (setup : ModelSetup)
  /-- A literal, made with a runtime module. -/
  | constant (runtimeModule : String) (literal : Constant)
  | expr (value : Expr)
  /-- The argument of the method. -/
  | argument

/-- The text of what a member is set to. -/
def MemberValue.text : MemberValue → String
  | none => "None"
  | newModel setup =>
    let file := setup.inputFile.toList.map fun file => "file=" ++ Text.quote file
    let directory := setup.inputDirectory.toList.map fun dir => "workdir=" ++ Text.quote dir
    setup.className ++ "(" ++ ", ".intercalate (file ++ directory) ++ ")"
  | constant runtime (.property values propertyId valueType units) =>
    s!"{runtime}.Property.ConstantProperty({doublesLiteral values}, {propertyId}, {valueType}, " ++
      s!"{Text.quote units}, None, 0)"
  | constant runtime (.quantity value units) =>
    s!"{runtime}.Physics.PhysicalQuantities.PhysicalQuantity({doubleLiteral value}, " ++
      s!"{Text.quote units})"
  | constant _ (.number value) => doubleLiteral value
  | expr value => value.text
  | argument => "obj"

-- ---------------------------------------------------------------------------
-- Variables of time loops
-- ---------------------------------------------------------------------------

/-- The variables that a time loop keeps, all named after the identifier of its block. -/
inductive LoopVariable where
  | time
  | target
  | units
  | compute
  | number
  | dt
  | step
  deriving DecidableEq, Repr

/-- The name of a variable of a time loop. -/
def LoopVariable.name (loop : String) : LoopVariable → String
  | time => loop ++ "_time"
  | target => loop ++ "_target_time"
  | units => loop ++ "_time_units"
  | compute => loop ++ "_compute"
  | number => loop ++ "_time_step_number"
  | dt => loop ++ "_dt"
  | step => loop ++ "_time_step"

-- ---------------------------------------------------------------------------
-- Lines
-- ---------------------------------------------------------------------------

/-- The methods of the generated class. -/
inductive Method where
  | init
  | criticalTimeStep
  | set
  | get
  | terminate
  | solveStep
  | solve
  deriving DecidableEq, Repr

/-- The name and the parameters of a method. -/
def Method.signature : Method → String
  | init => "__init__(self)"
  | criticalTimeStep => "getCriticalTimeStep(self)"
  | set => "set(self, obj, objectID=0)"
  | get => "get(self, objectType, time=None, objectID=0)"
  | terminate => "terminate(self)"
  | solveStep => "solveStep(self, tstep, stageID=0, runInBackground=False)"
  | solve => "solve(self, runInBackground=False)"

/-- The name of a method. -/
def Method.name : Method → String
  | init => "__init__"
  | criticalTimeStep => "getCriticalTimeStep"
  | set => "set"
  | get => "get"
  | terminate => "terminate"
  | solveStep => "solveStep"
  | solve => "solve"

/-- What the generated class says about one of its inputs or outputs. -/
structure SlotDescription where
  slot : SlotId
  name : String
  type : SlotType
  optional : Bool
  objectType : Option String
  objectId : ObjectId
  deriving DecidableEq, Repr

/-- The text of a truth value. -/
def truthText (b : Bool) : String :=
  if b then "True" else "False"

/-- The text of a description. -/
def SlotDescription.text (description : SlotDescription) : String :=
  let objectType := (description.objectType.map Text.quote).getD "None"
  s!"\x7b'name': {Text.quote description.name}, 'type': {Text.quote description.type.name}, " ++
    s!"'optional': {truthText description.optional}, 'description': '', " ++
    s!"'obj_type': {objectType}, 'obj_id': {description.objectId.literal}\x7d"

/-- The text of the update of one entry of the metadata. -/
def metadataText (key value : String) : String :=
  s!"self.metadata.update(\x7b'{key}': {value}\x7d)"

/-- One line of a generated program, apart from its indentation. The lines that open an indented
part come first. -/
inductive Line where
  | classDef (name runtimeModule : String)
  | methodDef (method : Method)
  /-- Goes on for as long as a time loop computes. -/
  | whileComputing (loop : String)
  /-- Asks whether a time loop has reached its target. -/
  | ifReached (loop : String) (tolerance : Float)
  /-- Asks whether an object id is the given one. -/
  | ifObject (slot : SlotId) (objectId : ObjectId)
  | ifMain
  | blank
  | comment (text : String)
  /-- A line that the user wrote. -/
  | verbatim (text : String)
  | pass
  | importModule (name : String)
  /-- The statement that a model class is imported with. -/
  | importClass (statement : String)
  | initBase (runtimeModule : String)
  | declareName (name : String)
  | declareInputs (slots : List SlotDescription)
  | declareOutputs (slots : List SlotDescription)
  | assign (member : String) (value : MemberValue)
  | returnValue (slot : SlotId) (value : Expr)
  | returnNone
  /-- Returns the smallest critical step of the models behind members. -/
  | returnCritical (models : List (BlockId × String))
  /-- Hands the model behind a member the value that a slot provides. -/
  | setInput (model : BlockId) (member : String) (source : SlotId) (value : Expr)
      (objectId : ObjectId)
  /-- Has the model behind a member solve the step that a variable holds. -/
  | solveModel (model : BlockId) (member : String) (step : Option String)
  | terminateModel (model : BlockId) (member : String)
  | terminateSelf
  | setUnits (loop units : String)
  | setStart (loop : String) (value : Expr)
  | setTarget (loop : String) (value : Expr)
  | setCompute (loop : String) (value : Bool)
  | resetNumber (loop : String)
  | countStep (loop : String)
  | setLength (loop : String) (sources : List StepSource)
  | advanceTime (loop : String)
  | makeStep (loop runtimeModule : String)
  | makeProblem (className : String)
  | solveProblem
  | terminateProblem
  | printFinished

open LoopVariable in
/-- How a line is written, without its indentation. -/
def Line.text : Line → String
  | classDef name runtime => s!"class {name}({runtime}.Workflow.Workflow):"
  | methodDef method => s!"def {method.signature}:"
  | whileComputing loop => s!"while {compute.name loop}:"
  | ifReached loop tolerance =>
    s!"if {time.name loop}.inUnitsOf({units.name loop}).getValue() + " ++
      s!"{doubleLiteral tolerance} > {target.name loop}.inUnitsOf({units.name loop}).getValue():"
  | ifObject _ objectId => s!"if objectID == {objectId.literal}:"
  | ifMain => "if __name__ == '__main__':"
  | blank => ""
  | comment text => "# " ++ text
  | verbatim text => text
  | pass => "pass"
  | importModule name => "import " ++ name
  | importClass statement => statement
  | initBase runtime => runtime ++ ".Workflow.Workflow.__init__(self)"
  | declareName name => metadataText "name" (Text.quote name)
  | declareInputs slots =>
    metadataText "inputs" ("[" ++ ", ".intercalate (slots.map SlotDescription.text) ++ "]")
  | declareOutputs slots =>
    metadataText "outputs" ("[" ++ ", ".intercalate (slots.map SlotDescription.text) ++ "]")
  | assign member value => s!"self.{member} = {value.text}"
  | returnValue _ value => "return " ++ value.text
  | returnNone => "return None"
  | returnCritical models =>
    "return min([" ++ ", ".intercalate (models.map fun model => criticalText model.2) ++ "])"
  | setInput _ member _ value objectId =>
    s!"self.{member}.set({value.text}, {objectId.literal})"
  | solveModel _ member held =>
    let argument := held.getD "None"
    s!"self.{member}.solveStep({argument})"
  | terminateModel _ member => s!"self.{member}.terminate()"
  | terminateSelf => "self.terminate()"
  | setUnits loop value => s!"{units.name loop} = {Text.quote value}"
  | setStart loop value => s!"{time.name loop} = {value.text}"
  | setTarget loop value => s!"{target.name loop} = {value.text}"
  | setCompute loop value => s!"{compute.name loop} = {truthText value}"
  | resetNumber loop => s!"{number.name loop} = 0"
  | countStep loop => s!"{number.name loop} += 1"
  | setLength loop sources =>
    s!"{dt.name loop} = min([" ++ ", ".intercalate (sources.map StepSource.text) ++ "])"
  | advanceTime loop =>
    s!"{time.name loop} = min({time.name loop}+{dt.name loop}, {target.name loop})"
  | makeStep loop runtime =>
    s!"{step.name loop} = {runtime}.TimeStep.TimeStep({time.name loop}, {dt.name loop}, " ++
      s!"{target.name loop}, n={number.name loop})"
  | makeProblem className => s!"problem = {className}()"
  | solveProblem => "problem.solve()"
  | terminateProblem => "problem.terminate()"
  | printFinished => "print('Simulation has finished.')"

end SlotFlow
