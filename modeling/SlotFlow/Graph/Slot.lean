import SlotFlow.Text.Blank
import SlotFlow.Text.Quoted
/-!
# Data slots

A slot is a typed, named connection point of a block. Values leave a block through its output slots
and enter it through its input slots; the external slots of a workflow stand on its border, so that
an external *output* slot feeds a value from outside to the blocks inside.

* `Slot`, `SlotType`, `SlotKind`, `ObjectId` — what a slot is;
* `SlotRequest` — what is asked for when a slot is made; `Slot.ofRequest` makes it;
* `Slot.compatible` — whether a link between two slots makes sense.
-/

namespace SlotFlow

-- ---------------------------------------------------------------------------
-- Numbers of elements
-- ---------------------------------------------------------------------------

/-- The number of a block in its workflow. -/
structure BlockId where
  val : Nat
  deriving DecidableEq, Repr

/-- The number of a slot in its workflow. -/
structure SlotId where
  val : Nat
  deriving DecidableEq, Repr

/-- The number of a link in its workflow. -/
structure LinkId where
  val : Nat
  deriving DecidableEq, Repr

/-- How a block number reads in a message. -/
def BlockId.label (id : BlockId) : String := "BlockId(" ++ toString id.val ++ ")"

/-- How a slot number reads in a message. -/
def SlotId.label (id : SlotId) : String := "SlotId(" ++ toString id.val ++ ")"

-- ---------------------------------------------------------------------------
-- Types of slots
-- ---------------------------------------------------------------------------

/-- The kind of value that a slot carries. -/
inductive SlotType where
  | unknown
  | property
  | field
  | function
  | physicalQuantity
  | int
  | double
  | string
  | scalar
  deriving DecidableEq, Repr, Inhabited

namespace SlotType

/-- All types, in the order in which programs group their slots. -/
def all : List SlotType :=
  [unknown, property, field, function, physicalQuantity, int, double, string, scalar]

/-- The name of a type. -/
def name : SlotType → String
  | unknown => "Unknown"
  | property => "Property"
  | field => "Field"
  | function => "Function"
  | physicalQuantity => "PhysicalQuantity"
  | int => "Int"
  | double => "Double"
  | string => "String"
  | scalar => "Scalar"

/-- What follows the last point of a text. -/
def afterLastPoint (cs : List Char) : List Char :=
  (cs.reverse.takeWhile (· ≠ '.')).reverse

/-- The type that a text names. The name may be qualified, have blanks around it, and be in any
case. -/
def ofName? (text : String) : Option SlotType :=
  let bare := (Text.trim (afterLastPoint text.toList)).map Char.toLower
  all.find? fun type => type.name.toList.map Char.toLower = bare

/-- The complaint about a text that names no type. -/
def unknownName (text : String) : String :=
  "unknown data slot type '" ++ text ++ "'"

end SlotType

-- ---------------------------------------------------------------------------
-- Kinds of slots
-- ---------------------------------------------------------------------------

/-- The direction of a slot as seen from inside the workflow. -/
inductive Direction where
  | input
  | output
  deriving DecidableEq, Repr

/-- The name of a direction. -/
def Direction.name : Direction → String
  | .input => "input"
  | .output => "output"

/-- A slot has a direction, and stands inside the workflow or on its border. -/
structure SlotKind where
  direction : Direction
  external : Bool := false
  deriving DecidableEq, Repr

namespace SlotKind

/-- The name of a kind of slot in a document. -/
def recordName (kind : SlotKind) : String :=
  match kind.direction, kind.external with
  | .input, false => "InputDataSlot"
  | .output, false => "OutputDataSlot"
  | .input, true => "ExternalInputDataSlot"
  | .output, true => "ExternalOutputDataSlot"

/-- All kinds of slots. -/
def all : List SlotKind :=
  [⟨.input, false⟩, ⟨.output, false⟩, ⟨.input, true⟩, ⟨.output, true⟩]

end SlotKind

-- ---------------------------------------------------------------------------
-- Object ids
-- ---------------------------------------------------------------------------

/-- What a model knows one of its quantities by: a position or a name. -/
inductive ObjectId where
  | index (value : Int64)
  | name (value : String)
  deriving DecidableEq, Repr

namespace ObjectId

/-- The id that is meant where none is given. -/
def default : ObjectId := .index 0

/-- The id as a literal of a generated program. -/
def literal : ObjectId → String
  | index value => toString value.toInt
  | name value => Text.quote value

/-- The id as a text to show. -/
def display : ObjectId → String
  | index value => toString value.toInt
  | name value => value

end ObjectId

-- ---------------------------------------------------------------------------
-- Slots
-- ---------------------------------------------------------------------------

/-- A connection point. Its block and its links are found through the workflow. -/
structure Slot where
  id : SlotId
  uid : String
  name : String
  type : SlotType
  optional : Bool
  kind : SlotKind
  objectType : Option String
  objectId : ObjectId
  /-- The identifier that stands for the slot in generated programs. -/
  codeName : Option String := none
  deriving DecidableEq, Repr

/-- What is asked for when a slot is made. -/
structure SlotRequest where
  name : String
  type : SlotType
  kind : SlotKind
  optional : Bool := false
  objectType : Option String := none
  objectId : ObjectId := .default
  /-- The uid of the slot, if it is not to be a fresh one. -/
  uid : Option String := none
  deriving DecidableEq, Repr

namespace Slot

/-- Makes a slot. An external slot is known by its name, and only a plain input may be required. -/
def ofRequest (id : SlotId) (freshUid : String) (request : SlotRequest) : Slot where
  id := id
  uid := request.uid.getD freshUid
  name := request.name
  type := request.type
  optional := request.optional || request.kind.external || request.kind.direction = .output
  kind := request.kind
  objectType := request.objectType
  objectId := if request.kind.external then .name request.name else request.objectId

/-- The direction of a slot. -/
def direction (slot : Slot) : Direction :=
  slot.kind.direction

/-- Whether a slot stands on the border of the workflow. -/
def external (slot : Slot) : Bool :=
  slot.kind.external

/-- The greatest number of links that a slot takes; `none` where there is no limit. -/
def maxLinks (slot : Slot) : Option Nat :=
  match slot.direction with
  | .input => some 1
  | .output => none

/-- Two slots may be linked if their directions differ, and if they agree in type or one of them
stands on the border. -/
def compatible (a b : Slot) : Bool :=
  a.direction ≠ b.direction && (a.external || b.external || a.type = b.type)

/-- A slot under another name. An external slot is known by its new name, too. -/
def rename (slot : Slot) (name : String) : Slot :=
  { slot with
    name := name
    objectId := if slot.external then .name name else slot.objectId }

end Slot

end SlotFlow
