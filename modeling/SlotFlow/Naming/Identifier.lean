import SlotFlow.Text.Blank
/-!
# Identifiers

What a user calls a thing, turned into an identifier of a generated program: `ofName?`. The names
that mean something to the program already are the `keywords`, which no identifier may be, and the
`reservedMembers`, which no attribute of the generated class may hide.
-/

namespace SlotFlow.Identifier

/-- The keywords of the language of the generated programs. -/
def keywords : List String :=
  ["False", "None", "True", "and", "as", "assert", "async", "await", "break", "class", "continue",
   "def", "del", "elif", "else", "except", "finally", "for", "from", "global", "if", "import", "in",
   "is", "lambda", "nonlocal", "not", "or", "pass", "raise", "return", "try", "while", "with",
   "yield"]

/-- The members of the generated class and of the class it extends. -/
def reservedMembers : List String :=
  ["metadata", "set", "get", "solve", "solveStep", "terminate", "getCriticalTimeStep", "initialize",
   "getMetadata", "setMetadata", "updateMetadata", "printMetadata", "getApplicationSignature",
   "getAPIVersion"]

/-- The characters of an identifier: the ASCII letters and digits, and the underscore. -/
def isPart (c : Char) : Bool :=
  c.isAlphanum || c = '_'

/-- A character as it stands in an identifier. -/
def part (c : Char) : Char :=
  if isPart c then c else '_'

/-- An identifier may not start with a digit. -/
def startLegally (cs : List Char) : List Char :=
  match cs with
  | c :: _ => if c.isDigit then '_' :: cs else cs
  | [] => []

/-- The identifier for a name, if there is one: the name has to hold more than underscores once
other characters are replaced by them, and the result may be no keyword. -/
def ofName? (name : String) : Option String :=
  let parts := (Text.trim name.toList).map part
  if parts.all (· = '_') then none
  else
    let identifier := String.ofList (startLegally parts)
    if identifier ∈ keywords then none else some identifier

end SlotFlow.Identifier
