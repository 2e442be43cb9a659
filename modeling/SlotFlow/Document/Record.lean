import SlotFlow.Document.Atom
import SlotFlow.Graph.Block
/-!
# The records of a workflow document

A document is a flat list of records for blocks, slots and links, which refer to each other by
uid. `Record.toJson` writes a record and `Record.ofNode?` reads one; `Document.toText` and
`Document.read?` do the same for whole documents.
-/

namespace SlotFlow

open Json

-- ---------------------------------------------------------------------------
-- Records
-- ---------------------------------------------------------------------------

/-- What is recorded of every block. -/
structure BlockData where
  uid : String
  parent : Option String := none
  name : Option String := none
  deriving DecidableEq, Repr

/-- What is recorded of a slot. -/
structure SlotData where
  uid : String
  owner : Option String := none
  name : String
  type : SlotType := .unknown
  objectType : Option String := none
  objectId : ObjectId := .default
  optional : Bool := false
  deriving DecidableEq, Repr

/-- What is recorded of a link: its uid, and those of its ends. -/
structure LinkData where
  uid : String
  source : String
  target : String
  deriving DecidableEq, Repr

/-- A record of a document. -/
inductive Record where
  | block (data : BlockData) (kind : BlockKind)
  | slot (data : SlotData) (kind : SlotKind)
  | link (data : LinkData)
  deriving Repr

namespace Record

/-- The name that the records of links go by. -/
def linkName : String := "DataLink"

/-- The name of the kind of a record. -/
def className : Record → String
  | block _ kind => kind.recordName
  | slot _ kind => kind.recordName
  | link _ => linkName

-- ---------------------------------------------------------------------------
-- Writing
-- ---------------------------------------------------------------------------

/-- The fields of a record that only its kind of block has. -/
def kindFields : BlockKind → List (String × Json)
  | .model setup =>
    [("model_classname", .string setup.className),
     ("model_input_file_name", optionalText setup.inputFile),
     ("model_input_file_directory", optionalText setup.inputDirectory)]
  | .constant (.property values propertyId valueType units) =>
    [("value", .array (values.map Json.float)), ("property_id", .string propertyId),
     ("value_type", .string valueType), ("units", .string units)]
  | .constant (.quantity value units) => [("value", .float value), ("units", .string units)]
  | .constant (.number value) => [("value", .float value)]
  | .named name type => [("variable_name", .string name), ("type", type.toJson)]
  | .code lines => [("code_lines", .array (lines.map Json.string))]
  | _ => []

/-- The fields of a record, apart from the name of its kind. -/
def fields : Record → List (String × Json)
  | block data kind =>
    [("uuid", .string data.uid), ("parent_uuid", optionalText data.parent),
     ("name", optionalText data.name)] ++ kindFields kind
  | slot data _ =>
    [("uuid", .string data.uid), ("parent_uuid", optionalText data.owner),
     ("name", .string data.name), ("type", data.type.toJson),
     ("obj_type", optionalText data.objectType), ("obj_id", data.objectId.toJson),
     ("optional", .bool data.optional)]
  | link data =>
    [("uuid", .string data.uid), ("ds1_uuid", .string data.source),
     ("ds2_uuid", .string data.target)]

/-- A record as JSON data. -/
def toJson (record : Record) : Json :=
  .object (("classname", .string record.className) :: record.fields)

-- ---------------------------------------------------------------------------
-- Reading
-- ---------------------------------------------------------------------------

/-- The data of a block that fields describe. -/
def blockData? (fields : Node.Fields) : Option BlockData := do
  let uid ← fields.required "uuid" Node.string?
  let parent ← fields.optional "parent_uuid" Node.string?
  let name ← fields.optional "name" Node.string?
  return { uid, parent, name }

/-- The kind of block that goes by a name, with what the fields say about it. -/
def kind? (fields : Node.Fields) : String → Option BlockKind
  | "WorkflowBlock" => some .workflow
  | "SequentialBlock" => some .sequential
  | "TimeLoopBlock" => some .timeLoop
  | "IfElseBlock" => some .ifElse
  | "ModelBlock" => do
    let className ← fields.required "model_classname" Node.string?
    let inputFile ← fields.optional "model_input_file_name" Node.string?
    let inputDirectory ← fields.optional "model_input_file_directory" Node.string?
    return .model { className, inputFile, inputDirectory }
  | "ConstantPropertyBlock" => do
    let values ← fields.withDefault "value" (Node.list? Node.float?) []
    let propertyId ← fields.withDefault "property_id" Node.string? ""
    let valueType ← fields.withDefault "value_type" Node.string? ""
    let units ← fields.withDefault "units" Node.string? ""
    return .constant (.property values propertyId valueType units)
  | "ConstantPhysicalQuantityBlock" => do
    let value ← fields.withDefault "value" Node.float? 0.0
    let units ← fields.withDefault "units" Node.string? ""
    return .constant (.quantity value units)
  | "FloatVariableBlock" => do
    let value ← fields.withDefault "value" Node.float? 0.0
    return .constant (.number value)
  | "CustomNameVariableBlock" => do
    let name ← fields.withDefault "variable_name" Node.string? ""
    let type ← fields.withDefault "type" SlotType.ofNode? .unknown
    return .named name type
  | "CustomPythonCodeBlock" => do
    let lines ← fields.withDefault "code_lines" (Node.list? Node.string?) []
    return .code lines
  | _ => none

/-- The data of a slot that fields describe. -/
def slotData? (fields : Node.Fields) : Option SlotData := do
  let uid ← fields.required "uuid" Node.string?
  let owner ← fields.optional "parent_uuid" Node.string?
  let name ← fields.required "name" Node.string?
  let type ← fields.withDefault "type" SlotType.ofNode? .unknown
  let objectType ← fields.optional "obj_type" Node.string?
  let objectId ← fields.withDefault "obj_id" ObjectId.ofNode? .default
  let optional ← fields.withDefault "optional" Node.bool? false
  return { uid, owner, name, type, objectType, objectId, optional }

/-- The data of a link that fields describe. -/
def linkData? (fields : Node.Fields) : Option LinkData := do
  let uid ← fields.required "uuid" Node.string?
  let source ← fields.required "ds1_uuid" Node.string?
  let target ← fields.required "ds2_uuid" Node.string?
  return { uid, source, target }

/-- The record of a kind that fields describe. -/
def ofFields? (className : String) (fields : Node.Fields) : Option Record :=
  if className = linkName then (linkData? fields).map link
  else match SlotKind.all.find? (·.recordName = className) with
    | some kind => (slotData? fields).map (slot · kind)
    | none => do return block (← blockData? fields) (← kind? fields className)

/-- The fields of a record in order, for the kinds that may be written as an array. These are the
ones whose fields are not made up of those of all blocks and further ones. -/
def fieldNames? (className : String) : Option (List String) :=
  if className = linkName then some ["uuid", "ds1_uuid", "ds2_uuid"]
  else if (SlotKind.all.map SlotKind.recordName).contains className then
    some ["uuid", "parent_uuid", "name", "type", "obj_type", "obj_id", "optional"]
  else if ["WorkflowBlock", "SequentialBlock", "TimeLoopBlock", "IfElseBlock"].contains className
  then some ["uuid", "parent_uuid", "name"]
  else none

/-- The record that a node stands for: an object, or an array that starts with the name of the
kind. -/
def ofNode? : Node → Option Record
  | .object fields => do
    let fields ← Node.namedFields? fields
    let className ← Node.Fields.required fields "classname" Node.string?
    ofFields? className fields
  | .array (.string className :: items) => do
    let names ← fieldNames? className
    if items.length ≤ names.length then ofFields? className (names.zip items) else none
  | _ => none

end Record

-- ---------------------------------------------------------------------------
-- Documents
-- ---------------------------------------------------------------------------

namespace Document

/-- The text of a document. -/
def toText (records : List Record) : String :=
  (Json.object [("elements", .array (records.map Record.toJson))]).pretty

/-- The records of the document that a text holds. The text has to be a list of JSON values; those
that are no records are passed over. -/
def read? (text : String) (conversion : Conversion := .scaled) : Option (List Record) := do
  let node ← Node.read text conversion
  let fields ← node.record? ["elements"]
  let items ← fields.required "elements" (Node.list? Node.plain?)
  return items.filterMap fun item => Record.ofNode? item.node

end Document

end SlotFlow
