import SlotFlow.Json.Node
/-!
# Taking values out of JSON

The small readers that the record readers are made of. A record is an object with a field per name,
in any order and among fields of other names, or an array of the values in the order of declaration.
-/

namespace SlotFlow.Json.Node

/-- A text. -/
def string? : Node → Option String
  | string s => some s
  | _ => none

/-- A truth value. -/
def bool? : Node → Option Bool
  | bool b => some b
  | _ => none

/-- A number, as the double nearest to it. -/
def float? : Node → Option Float
  | int i => some (Binary64.ofInt i)
  | float x => some x
  | _ => none

/-- An integer that fits into 64 bits with its sign. -/
def int64? : Node → Option Int64
  | int i =>
    if Int64.minValue.toInt ≤ i ∧ i ≤ Int64.maxValue.toInt then some (Int64.ofInt i) else none
  | _ => none

/-- An array whose items are all read in the same way. -/
def list? {α : Type} (decode : Node → Option α) : Node → Option (List α)
  | array items => items.mapM decode
  | _ => none

/-- A value that may be absent. -/
def optional? {α : Type} (decode : Node → Option α) : Node → Option (Option α)
  | null => some none
  | node => (decode node).map some

/-- The fields of a record that a document gives. -/
abbrev Fields := List (String × Node)

/-- The fields of an object; all of their names have to be texts. -/
def namedFields? (fields : List (Option String × Node)) : Option Fields :=
  fields.mapM fun (name, value) => name.map (·, value)

/-- Whether no name occurs twice. -/
def distinct (names : List String) : Bool :=
  decide names.Nodup

/-- The fields of a record with these field names: each of them at most once. -/
def record? (names : List String) : Node → Option Fields
  | object fields => do
    let fields ← namedFields? fields
    let known := fields.filter fun field => names.contains field.1
    if distinct (known.map Prod.fst) then some known else none
  | array items => if items.length ≤ names.length then some (names.zip items) else none
  | _ => none

namespace Fields

/-- A field that has to be there. -/
def required {α : Type} (fields : Fields) (name : String) (decode : Node → Option α) : Option α :=
  (fields.lookup name).bind decode

/-- A field with a default. -/
def withDefault {α : Type} (fields : Fields) (name : String) (decode : Node → Option α)
    (default : α) : Option α :=
  match fields.lookup name with
  | none => some default
  | some node => decode node

/-- A field that may be missing or null. -/
def optional {α : Type} (fields : Fields) (name : String) (decode : Node → Option α) :
    Option (Option α) :=
  fields.withDefault name (optional? decode) none

end Fields

/-- The single field of an object that names one of several alternatives. -/
def alternative? : Node → Option (String × Node)
  | object [(some name, value)] => some (name, value)
  | _ => none

end SlotFlow.Json.Node
