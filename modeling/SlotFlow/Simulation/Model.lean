import SlotFlow.Catalog.Registry
import SlotFlow.Simulation.TimeLoop
import SlotFlow.Simulation.Value
/-!
# Native models

What a simulation asks of a model: a class `NativeModel` over the type of the model's states. A call
that may fail gives the state after it whether it fails or not.
-/

namespace SlotFlow

/-- Models whose states are of type `μ` and whose numbers are of type `R`. -/
class NativeModel (R : outParam Type) (μ : Type) where
  declaration : μ → ModelDeclaration
  /-- The longest step that the model takes from its present state. -/
  criticalTimeStep : μ → R
  solveStep : TimeStep R → μ → Except String Unit × μ
  set : Value R → ObjectId → μ → Except String Unit × μ
  /-- A quantity of the model, by its type, at a time. -/
  get : Option String → R → ObjectId → μ → Except String (Value R)
  terminate : μ → μ

/-- A call that a model receives. -/
inductive ModelCall (R : Type) where
  /-- It takes in the value that a slot provides. -/
  | set (source : SlotId) (value : Value R) (objectId : ObjectId)
  | get (objectType : Option String) (time : R) (objectId : ObjectId)
  | solveStep (step : TimeStep R)
  | terminate

namespace Registry

variable {R μ : Type} [NativeModel R μ]

/-- Registers a class whose instances start as a given one, which also says what they declare. -/
def registerNative (registry : Registry μ) (name importStatement : String) (fresh : μ) :
    Bool × Registry μ :=
  registry.register
    { name := name
      importStatement := importStatement
      declaration := NativeModel.declaration fresh
      native := some fresh }

end Registry

end SlotFlow
