import SlotFlow.Graph.Slot
/-!
# What a model class declares

The declaration of a model class: its name, and a declaration for each of its inputs and outputs.

* `ModelDeclaration.slotRequests` — the slots of a block of the class;
* `ModelDeclaration.repeatedSlot?` — the first slot name that is declared twice.
-/

namespace SlotFlow

/-- The declaration of one input or output of a model class. -/
structure SlotDeclaration where
  name : String
  type : SlotType
  optional : Bool := false
  description : String := ""
  objectType : Option String := none
  objectId : ObjectId := .default
  deriving DecidableEq, Repr

/-- The declaration of a model class. -/
structure ModelDeclaration where
  name : String
  inputs : List SlotDeclaration
  outputs : List SlotDeclaration
  description : String := ""
  deriving DecidableEq, Repr

/-- The slot that a declaration asks for. -/
def SlotDeclaration.slotRequest (declaration : SlotDeclaration) (direction : Direction) :
    SlotRequest where
  name := declaration.name
  type := declaration.type
  kind := ⟨direction, false⟩
  optional := declaration.optional
  objectType := declaration.objectType
  objectId := declaration.objectId

/-- The first member of a list that has occurred before. -/
def firstRepeated? : List String → List String → Option String
  | _, [] => none
  | seen, name :: rest =>
    if name ∈ seen then some name else firstRepeated? (name :: seen) rest

namespace ModelDeclaration

/-- The names of all slots: the inputs', then the outputs'. -/
def slotNames (declaration : ModelDeclaration) : List String :=
  (declaration.inputs ++ declaration.outputs).map SlotDeclaration.name

/-- The first slot name that is declared twice. -/
def repeatedSlot? (declaration : ModelDeclaration) : Option String :=
  firstRepeated? [] declaration.slotNames

/-- The slots of a block of the class: its inputs, then its outputs. -/
def slotRequests (declaration : ModelDeclaration) : List SlotRequest :=
  declaration.inputs.map (·.slotRequest .input) ++ declaration.outputs.map (·.slotRequest .output)

end ModelDeclaration

end SlotFlow
