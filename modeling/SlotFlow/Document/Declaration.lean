import SlotFlow.Catalog.Declaration
import SlotFlow.Document.Atom
/-!
# Declarations of model classes in documents

A declaration is written as an object with all of its fields. Where one is read, the fields that
have a usual value may be missing.
-/

namespace SlotFlow

open Json

/-- A declaration as JSON data. -/
def SlotDeclaration.toJson (declaration : SlotDeclaration) : Json :=
  .object
    [("name", .string declaration.name),
     ("type", declaration.type.toJson),
     ("optional", .bool declaration.optional),
     ("description", .string declaration.description),
     ("obj_type", optionalText declaration.objectType),
     ("obj_id", declaration.objectId.toJson)]

/-- The declaration that a node stands for. -/
def SlotDeclaration.ofNode? (node : Node) : Option SlotDeclaration := do
  let fields ← node.record? ["name", "type", "optional", "description", "obj_type", "obj_id"]
  let name ← fields.required "name" Node.string?
  let type ← fields.required "type" SlotType.ofNode?
  let optional ← fields.withDefault "optional" Node.bool? false
  let description ← fields.withDefault "description" Node.string? ""
  let objectType ← fields.optional "obj_type" Node.string?
  let objectId ← fields.withDefault "obj_id" ObjectId.ofNode? .default
  return { name, type, optional, description, objectType, objectId }

/-- A declaration as JSON data. -/
def ModelDeclaration.toJson (declaration : ModelDeclaration) : Json :=
  .object
    [("name", .string declaration.name),
     ("inputs", .array (declaration.inputs.map SlotDeclaration.toJson)),
     ("outputs", .array (declaration.outputs.map SlotDeclaration.toJson)),
     ("description", .string declaration.description)]

/-- The declaration that a node stands for. -/
def ModelDeclaration.ofNode? (node : Node) : Option ModelDeclaration := do
  let fields ← node.record? ["name", "inputs", "outputs", "description"]
  let name ← fields.required "name" Node.string?
  let inputs ← fields.required "inputs" (Node.list? SlotDeclaration.ofNode?)
  let outputs ← fields.required "outputs" (Node.list? SlotDeclaration.ofNode?)
  let description ← fields.withDefault "description" Node.string? ""
  return { name, inputs, outputs, description }

end SlotFlow
