import SlotFlow.Decimal.Format
/-!
# JSON data and its text

`Json` is a piece of JSON data as programs handle it: integers and doubles are told apart, and an
object is a list of fields in the order in which they are written.

* `Json.compact` — the text without any blanks;
* `Json.pretty` — the text over several lines, indented by two spaces a level.
-/

namespace SlotFlow

/-- A piece of JSON data. -/
inductive Json where
  | null
  | bool (value : Bool)
  | int (value : Int)
  | float (value : Float)
  | string (value : String)
  | array (items : List Json)
  | object (fields : List (String × Json))
  deriving Inhabited

namespace Json

-- ---------------------------------------------------------------------------
-- Strings and numbers
-- ---------------------------------------------------------------------------

/-- How one character stands in a JSON string. -/
def escape (c : Char) : List Char :=
  match c with
  | '"' => ['\\', '"']
  | '\\' => ['\\', '\\']
  | '\x08' => ['\\', 'b']
  | '\t' => ['\\', 't']
  | '\n' => ['\\', 'n']
  | '\x0c' => ['\\', 'f']
  | '\r' => ['\\', 'r']
  | c =>
    if c.toNat < 0x20 then
      ['\\', 'u', '0', '0', Nat.digitChar (c.toNat / 16), Nat.digitChar (c.toNat % 16)]
    else [c]

/-- The JSON string that stands for a text. -/
def stringChars (text : String) : List Char :=
  '"' :: (text.toList.flatMap escape ++ ['"'])

/-- The text of a double; one that is not finite is absent. -/
def floatChars (x : Float) : List Char :=
  match Binary64.ofFloat x with
  | .finite .. => (NumberFormat.json.render x).toList
  | _ => "null".toList

/-- The text of a truth value. -/
def boolChars (b : Bool) : List Char :=
  if b then "true".toList else "false".toList

-- ---------------------------------------------------------------------------
-- Compact text
-- ---------------------------------------------------------------------------

mutual

/-- The characters of the text without blanks. -/
def compactChars : Json → List Char
  | null => "null".toList
  | bool b => boolChars b
  | int i => (toString i).toList
  | float x => floatChars x
  | string s => stringChars s
  | array [] => ['[', ']']
  | array (item :: items) => '[' :: (compactChars item ++ compactItems items)
  | object [] => ['{', '}']
  | object ((name, value) :: fields) =>
    '{' :: (stringChars name ++ ':' :: (compactChars value ++ compactFields fields))

/-- The items after the first one, with the end of the array. -/
def compactItems : List Json → List Char
  | [] => [']']
  | item :: items => ',' :: (compactChars item ++ compactItems items)

/-- The fields after the first one, with the end of the object. -/
def compactFields : List (String × Json) → List Char
  | [] => ['}']
  | (name, value) :: fields =>
    ',' :: (stringChars name ++ ':' :: (compactChars value ++ compactFields fields))

end

/-- The text without any blanks. -/
def compact (json : Json) : String :=
  String.ofList json.compactChars

-- ---------------------------------------------------------------------------
-- Pretty text
-- ---------------------------------------------------------------------------

/-- The start of a line at a level of nesting. -/
def newLine (level : Nat) : List Char :=
  '\n' :: List.replicate (2 * level) ' '

mutual

/-- The characters of the text over several lines, for a value at a level of nesting. -/
def prettyChars (level : Nat) : Json → List Char
  | null => "null".toList
  | bool b => boolChars b
  | int i => (toString i).toList
  | float x => floatChars x
  | string s => stringChars s
  | array [] => ['[', ']']
  | array (item :: items) =>
    '[' :: (newLine (level + 1) ++ prettyChars (level + 1) item ++ prettyItems level items)
  | object [] => ['{', '}']
  | object ((name, value) :: fields) =>
    '{' :: (newLine (level + 1) ++ stringChars name ++ ':' :: ' ' ::
      (prettyChars (level + 1) value ++ prettyFields level fields))

/-- The items after the first one, with the end of the array that stands at a level. -/
def prettyItems (level : Nat) : List Json → List Char
  | [] => newLine level ++ [']']
  | item :: items =>
    ',' :: (newLine (level + 1) ++ prettyChars (level + 1) item ++ prettyItems level items)

/-- The fields after the first one, with the end of the object that stands at a level. -/
def prettyFields (level : Nat) : List (String × Json) → List Char
  | [] => newLine level ++ ['}']
  | (name, value) :: fields =>
    ',' :: (newLine (level + 1) ++ stringChars name ++ ':' :: ' ' ::
      (prettyChars (level + 1) value ++ prettyFields level fields))

end

/-- The text over several lines. -/
def pretty (json : Json) : String :=
  String.ofList (json.prettyChars 0)

end Json

end SlotFlow
