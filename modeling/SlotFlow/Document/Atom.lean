import SlotFlow.Graph.Slot
import SlotFlow.Json.Decode
/-!
# Slot types and object ids in documents

A slot type is written as its name. An object id is written as an integer or a string.
-/

namespace SlotFlow

open Json

/-- A slot type as JSON data. -/
def SlotType.toJson (type : SlotType) : Json :=
  .string type.name

/-- The slot type that a node stands for. -/
def SlotType.ofNode? (node : Node) : Option SlotType :=
  node.string?.bind SlotType.ofName?

/-- An object id as JSON data. -/
def ObjectId.toJson : ObjectId → Json
  | index value => .int value.toInt
  | name value => .string value

/-- The object id that a node stands for: an integer of 64 bits, or a string. -/
def ObjectId.ofNode? (node : Node) : Option ObjectId :=
  match node.int64?, node.string? with
  | some value, _ => some (.index value)
  | none, some value => some (.name value)
  | none, none => none

/-- A text that may be absent as JSON data. -/
def optionalText : Option String → Json
  | some text => .string text
  | none => .null

end SlotFlow
