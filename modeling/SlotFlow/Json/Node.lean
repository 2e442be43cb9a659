import SlotFlow.Json.Basic
import SlotFlow.Json.Conversion
/-!
# JSON as it stands in a document

`Json.Node` is what a JSON text says before anything is made of it: repeated names are still there,
and a part that is well formed but cannot be made a value of (a string with half a surrogate pair,
a numeral beyond the doubles, a container nested too deeply) is `Json.Node.unusable`. Such a part
does no harm where nothing looks at it.

* `Json.Node.read` — the reader;
* `Json.Node.plain?` — the data that a node stands for;
* `Json.node` — the node that stands for a piece of data.
-/

namespace SlotFlow.Json

/-- A JSON value as it stands in a document. The name of a field is `none` where its string stands
for no text. -/
inductive Node where
  | null
  | bool (value : Bool)
  | int (value : Int)
  | float (value : Float)
  | string (value : String)
  | array (items : List Node)
  | object (fields : List (Option String × Node))
  | unusable
  deriving Inhabited

namespace Node

/-- The deepest nesting of arrays and objects that a value can be made of. -/
def maxDepth : Nat := 127

-- ---------------------------------------------------------------------------
-- Blanks and strings
-- ---------------------------------------------------------------------------

/-- The four blank characters of JSON. -/
def isBlank (c : Char) : Bool :=
  c = ' ' || c = '\n' || c = '\t' || c = '\r'

/-- The text from its first character that is not blank. -/
def skipBlanks (cs : List Char) : List Char :=
  cs.dropWhile isBlank

/-- A part of a string: a character, or a sixteen-bit unit that was written as an escape. -/
inductive Piece where
  | char (c : Char)
  | unit (n : Nat)
  deriving DecidableEq, Repr

/-- The value of a hexadecimal digit. -/
def hexValue? (c : Char) : Option Nat :=
  if '0' ≤ c ∧ c ≤ '9' then some (c.toNat - '0'.toNat)
  else if 'a' ≤ c ∧ c ≤ 'f' then some (c.toNat - 'a'.toNat + 10)
  else if 'A' ≤ c ∧ c ≤ 'F' then some (c.toNat - 'A'.toNat + 10)
  else none

/-- The value of four hexadecimal digits. -/
def unitValue? (a b c d : Char) : Option Nat := do
  let a ← hexValue? a
  let b ← hexValue? b
  let c ← hexValue? c
  let d ← hexValue? d
  return ((a * 16 + b) * 16 + c) * 16 + d

/-- The character that a backslash and one further character stand for. -/
def shortEscape? : Char → Option Char
  | '"' => some '"'
  | '\\' => some '\\'
  | '/' => some '/'
  | 'b' => some '\x08'
  | 'f' => some '\x0c'
  | 'n' => some '\n'
  | 'r' => some '\r'
  | 't' => some '\t'
  | _ => none

/-- Reads a string up to its closing quote: its pieces, the last one first, and what follows. -/
def readPieces (acc : List Piece) : List Char → Option (List Piece × List Char)
  | [] => none
  | '"' :: rest => some (acc, rest)
  | '\\' :: 'u' :: a :: b :: c :: d :: rest =>
    match unitValue? a b c d with
    | some n => readPieces (.unit n :: acc) rest
    | none => none
  | '\\' :: mark :: rest =>
    match shortEscape? mark with
    | some c => readPieces (.char c :: acc) rest
    | none => none
  | c :: rest => if c.toNat < 0x20 then none else readPieces (.char c :: acc) rest

/-- The units that open a surrogate pair. -/
def isHigh (n : Nat) : Bool := 0xD800 ≤ n && n < 0xDC00

/-- The units that close a surrogate pair. -/
def isLow (n : Nat) : Bool := 0xDC00 ≤ n && n < 0xE000

/-- The character that a surrogate pair stands for. -/
def paired (high low : Nat) : Char :=
  Char.ofNat (0x10000 + (high - 0xD800) * 0x400 + (low - 0xDC00))

/-- The text that pieces stand for; half a surrogate pair stands for none. -/
def textOf : List Piece → Option (List Char)
  | [] => some []
  | .char c :: rest => (textOf rest).map (c :: ·)
  | .unit high :: .unit low :: rest =>
    if isHigh high then
      if isLow low then (textOf rest).map (paired high low :: ·) else none
    else if isLow high then none
    else (textOf (.unit low :: rest)).map (Char.ofNat high :: ·)
  | .unit n :: rest =>
    if isHigh n || isLow n then none else (textOf rest).map (Char.ofNat n :: ·)

/-- Reads a string after its opening quote: its text, if it stands for one, and what follows. -/
def readString (cs : List Char) : Option (Option String × List Char) :=
  (readPieces [] cs).map fun (pieces, rest) => ((textOf pieces.reverse).map String.ofList, rest)

-- ---------------------------------------------------------------------------
-- Numbers
-- ---------------------------------------------------------------------------

/-- The exponent at the start of a text, if there is one: `none` where it has no digits. -/
def readExponent (cs : List Char) : Option (Option Int × List Char) :=
  match cs with
  | [] => some (none, [])
  | mark :: rest =>
    if mark = 'e' ∨ mark = 'E' then
      let (negative, rest) := Numeral.takeSign rest
      let digits := rest.takeWhile Char.isDigit
      let value : Int := Numeral.digitsValue digits
      if digits = [] then none
      else some (some (if negative then -value else value), rest.dropWhile Char.isDigit)
    else some (none, cs)

/-- The decimal places at the start of a text: `none` where a point has no digits. -/
def readPlaces (cs : List Char) : Option (List Char × List Char) :=
  match cs with
  | '.' :: rest =>
    let places := rest.takeWhile Char.isDigit
    if places = [] then none else some (places, rest.dropWhile Char.isDigit)
  | _ => some ([], cs)

section Numbers

variable (conversion : Conversion)

/-- The node of a double. -/
def ofDouble (x : Float) : Node :=
  match Binary64.ofFloat x with
  | .finite .. => .float x
  | _ => .unusable

/-- The node of a numeral. Without a point and an exponent it is an integer if it fits into 64 bits,
signed or not; the integer zero has no sign. -/
def ofNumeral (negative : Bool) (whole places : List Char) (exponent : Option Int) : Node :=
  let digits := Numeral.digitsValue (whole ++ places)
  let integral := places = [] ∧ exponent = none ∧
    (if negative then digits ≠ 0 ∧ 2 * digits ≤ UInt64.size else digits < UInt64.size)
  if integral then .int (if negative then -(digits : Int) else digits)
  else ofDouble (conversion.double negative whole places exponent)

/-- Reads a number without its sign. -/
def readUnsigned (negative : Bool) (cs : List Char) : Option (Node × List Char) := do
  let (whole, rest) ← match cs with
    | '0' :: rest => some (['0'], rest)
    | cs =>
      let whole := cs.takeWhile Char.isDigit
      if whole = [] then none else some (whole, cs.dropWhile Char.isDigit)
  let (places, rest) ← readPlaces rest
  let (exponent, rest) ← readExponent rest
  return (ofNumeral conversion negative whole places exponent, rest)

/-- Reads a number. -/
def readNumber : List Char → Option (Node × List Char)
  | '-' :: rest => readUnsigned conversion true rest
  | cs => readUnsigned conversion false cs

end Numbers

-- ---------------------------------------------------------------------------
-- Values
-- ---------------------------------------------------------------------------

/-- A container where `room` further levels of nesting are allowed, itself included. -/
def nested (room : Nat) (node : Node) : Node :=
  if room = 0 then .unusable else node

section Values

variable (conversion : Conversion)

mutual

/-- Reads a value at the start of a text, `room` levels above the deepest allowed one. -/
def readValue : Nat → Nat → List Char → Option (Node × List Char)
  | 0, _, _ => none
  | fuel + 1, room, cs =>
    match cs with
    | 'n' :: 'u' :: 'l' :: 'l' :: rest => some (.null, rest)
    | 't' :: 'r' :: 'u' :: 'e' :: rest => some (.bool true, rest)
    | 'f' :: 'a' :: 'l' :: 's' :: 'e' :: rest => some (.bool false, rest)
    | '"' :: rest => (readString rest).map fun (text, rest) =>
        (match text with | some text => .string text | none => .unusable, rest)
    | '[' :: rest =>
      match skipBlanks rest with
      | ']' :: rest => some (nested room (.array []), rest)
      | rest => (readItems fuel (room - 1) [] rest).map fun (items, rest) =>
          (nested room (.array items), rest)
    | '{' :: rest =>
      match skipBlanks rest with
      | '}' :: rest => some (nested room (.object []), rest)
      | rest => (readFields fuel (room - 1) [] rest).map fun (fields, rest) =>
          (nested room (.object fields), rest)
    | cs => readNumber conversion cs

/-- Reads the items of an array from the start of one, after those in `acc` (the last one first). -/
def readItems : Nat → Nat → List Node → List Char → Option (List Node × List Char)
  | 0, _, _, _ => none
  | fuel + 1, room, acc, cs =>
    match readValue fuel room cs with
    | none => none
    | some (item, rest) =>
      match skipBlanks rest with
      | ',' :: rest => readItems fuel room (item :: acc) (skipBlanks rest)
      | ']' :: rest => some ((item :: acc).reverse, rest)
      | _ => none

/-- Reads the fields of an object from the start of one, after those in `acc` (the last one
first). -/
def readFields : Nat → Nat → List (Option String × Node) → List Char →
    Option (List (Option String × Node) × List Char)
  | 0, _, _, _ => none
  | fuel + 1, room, acc, cs =>
    match cs with
    | '"' :: rest =>
      match readString rest with
      | none => none
      | some (name, rest) =>
        match skipBlanks rest with
        | ':' :: rest =>
          match readValue fuel room (skipBlanks rest) with
          | none => none
          | some (value, rest) =>
            match skipBlanks rest with
            | ',' :: rest => readFields fuel room ((name, value) :: acc) (skipBlanks rest)
            | '}' :: rest => some (((name, value) :: acc).reverse, rest)
            | _ => none
        | _ => none
    | _ => none

end

end Values

/-- Reads a text that holds one value and nothing else, and makes doubles as a conversion says. Every
call of a reader but the first follows a character it has used up, and an item costs two calls, which
bounds the calls. -/
def read (text : String) (conversion : Conversion := .scaled) : Option Node :=
  let cs := text.toList
  match readValue conversion (2 * cs.length + 2) maxDepth (skipBlanks cs) with
  | some (node, rest) => if skipBlanks rest = [] then some node else none
  | none => none

-- ---------------------------------------------------------------------------
-- Plain data
-- ---------------------------------------------------------------------------

/-- Puts a field among fields that are ordered by name; the value of a name already there is
replaced. -/
def insertField (name : String) (value : Json) : List (String × Json) → List (String × Json)
  | [] => [(name, value)]
  | (other, present) :: rest =>
    if name < other then (name, value) :: (other, present) :: rest
    else if name = other then (name, value) :: rest
    else (other, present) :: insertField name value rest

mutual

/-- The data that a node stands for. An object has each name once, with its last value, in the order
of the names. -/
def plain? : Node → Option Json
  | null => some .null
  | bool b => some (.bool b)
  | int i => some (.int i)
  | float x => some (.float x)
  | string s => some (.string s)
  | array items => (plainItems? items).map .array
  | object fields => (plainFields? [] fields).map .object
  | unusable => none

/-- The data that the items of an array stand for. -/
def plainItems? : List Node → Option (List Json)
  | [] => some []
  | item :: items =>
    match plain? item, plainItems? items with
    | some item, some items => some (item :: items)
    | _, _ => none

/-- The fields of an object, added to those already there. -/
def plainFields? (acc : List (String × Json)) :
    List (Option String × Node) → Option (List (String × Json))
  | [] => some acc
  | (name, value) :: fields =>
    match name, plain? value with
    | some name, some value => plainFields? (insertField name value acc) fields
    | _, _ => none

end

end Node

mutual

/-- The node that stands for a piece of data. -/
def node : Json → Node
  | null => .null
  | bool b => .bool b
  | int i => .int i
  | float x => .float x
  | string s => .string s
  | array items => .array (nodes items)
  | object fields => .object (nodeFields fields)

/-- The nodes that stand for the items of an array. -/
def nodes : List Json → List Node
  | [] => []
  | item :: items => node item :: nodes items

/-- The nodes that stand for the fields of an object. -/
def nodeFields : List (String × Json) → List (Option String × Node)
  | [] => []
  | (name, value) :: fields => (some name, node value) :: nodeFields fields

end

end SlotFlow.Json
