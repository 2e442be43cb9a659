import SlotFlow.Json.Decode
/-!
# Values

What travels along a link while a workflow runs. The numbers are of a type `R`: doubles when a
workflow is executed, and any other numbers when one reasons about a run.

* `Value.number?`, `Value.typeName`, `Value.display` — what is asked of a value;
* `Value.toJson`, `Value.ofNode?` — values in documents.
-/

namespace SlotFlow

/-- A value that travels along a link. -/
inductive Value (R : Type) where
  | none
  | scalar (value : R)
  | quantity (value : R) (units : String)
  | property (values : List R) (propertyId units : String)
  | text (value : String)
  /-- Data that is passed on untouched. -/
  | field (data : Json)
  deriving Inhabited

namespace Value

variable {R : Type}

/-- The magnitude of a value, if it has one; a property has that of its first component. -/
def number? : Value R → Option R
  | scalar x => some x
  | quantity x _ => some x
  | property xs _ _ => xs.head?
  | _ => Option.none

/-- The name of a type of value in messages. -/
def typeName : Value R → String
  | none => "None"
  | scalar _ => "Scalar"
  | quantity .. => "PhysicalQuantity"
  | property .. => "Property"
  | text _ => "String"
  | field _ => "Field"

/-- Whether there is no value. -/
def isNone : Value R → Bool
  | none => true
  | _ => false

/-- The text that shows a value. -/
def display : Value Float → String
  | none => "None"
  | scalar x => NumberFormat.message.render x
  | quantity x units => NumberFormat.message.render x ++ " " ++ units
  | property xs propertyId units =>
    propertyId ++ " [" ++ ", ".intercalate (xs.map NumberFormat.program.render) ++ "] " ++ units
  | text s => s
  | field data => data.compact

/-- A value as JSON data: its variant names the only field of an object. -/
def toJson : Value Float → Json
  | none => .string "None"
  | scalar x => .object [("Scalar", .float x)]
  | quantity x units =>
    .object [("Quantity", .object [("value", .float x), ("units", .string units)])]
  | property xs propertyId units =>
    .object [("Property", .object
      [("values", .array (xs.map .float)), ("property_id", .string propertyId),
       ("units", .string units)])]
  | text s => .object [("Text", .string s)]
  | field data => .object [("Field", data)]

open Json in
/-- The value that a node stands for. -/
def ofNode? : Node → Option (Value Float)
  | .string name => if name = "None" then some none else Option.none
  | document => do
    let (variant, content) ← document.alternative?
    match variant with
    | "None" => match content with
      | .null => some none
      | _ => Option.none
    | "Scalar" => return scalar (← content.float?)
    | "Quantity" =>
      let fields ← content.record? ["value", "units"]
      let x ← fields.required "value" Node.float?
      let units ← fields.required "units" Node.string?
      return quantity x units
    | "Property" =>
      let fields ← content.record? ["values", "property_id", "units"]
      let xs ← fields.required "values" (Node.list? Node.float?)
      let propertyId ← fields.required "property_id" Node.string?
      let units ← fields.required "units" Node.string?
      return property xs propertyId units
    | "Text" => return text (← content.string?)
    | "Field" => return field (← content.plain?)
    | _ => Option.none

end Value

end SlotFlow
