import SlotFlow.Json.Decode
/-!
# What a generated program is to be like

`ProgramForm` is the shape of the program and `ProgramOptions` its settings, both with their form in
documents.
-/

namespace SlotFlow

/-- The two shapes of a generated program. -/
inductive ProgramForm where
  /-- A class for use in other programs. -/
  | component
  /-- A program that runs the workflow once. -/
  | execution
  deriving DecidableEq, Repr

namespace ProgramForm

/-- The name of a form. -/
def name : ProgramForm → String
  | .component => "class"
  | .execution => "execution"

/-- The form of a name. -/
def ofName? (text : String) : Option ProgramForm :=
  [ProgramForm.component, ProgramForm.execution].find? (·.name = text)

/-- The form that a node stands for: its name, or an object whose only field has that name and no
value. -/
def ofNode? : Json.Node → Option ProgramForm
  | .string text => ofName? text
  | node => match node.alternative? with
    | some (text, .null) => ofName? text
    | _ => none

end ProgramForm

/-- The settings of a generated program. -/
structure ProgramOptions where
  className : String := "MyWorkflow"
  /-- The module that provides the base class, time steps, properties and quantities. -/
  runtimeModule : String := "mupif"
  timeUnits : String := "s"
  /-- The slack with which a time loop reaches its target. -/
  timeTolerance : Float := 1e-6

open Json in
/-- The settings that a node stands for; each of them may be missing. -/
def ProgramOptions.ofNode? (node : Node) : Option ProgramOptions := do
  let fields ← node.record? ["class_name", "runtime_module", "time_units", "time_tolerance"]
  let usual : ProgramOptions := {}
  let className ← fields.withDefault "class_name" Node.string? usual.className
  let runtimeModule ← fields.withDefault "runtime_module" Node.string? usual.runtimeModule
  let timeUnits ← fields.withDefault "time_units" Node.string? usual.timeUnits
  let timeTolerance ← fields.withDefault "time_tolerance" Node.float? usual.timeTolerance
  return { className, runtimeModule, timeUnits, timeTolerance }

end SlotFlow
