import SlotFlow.Program.Options
/-!
# Command lines

A command line names a command, gives values to its options, and lists files. Options may stand in
any order between the files: `--option value`, `--option=value`, `-o value`, `-ovalue`, `-o=value`,
and several options of one letter together. After `--` there are only files.
-/

namespace SlotFlow.CommandLine

/-- What the command line asks for. -/
inductive Command where
  /-- Report the issues of a workflow. -/
  | check (workflow : String) (models : List String) (execution : Bool)
  /-- Generate the program of a workflow, into a file or not. -/
  | generate (workflow : String) (models : List String) (form : ProgramForm)
      (config output : Option String)
  /-- List the model classes of model files. -/
  | models (files : List String)
  deriving DecidableEq, Repr

/-- An option: a letter, a word, and whether a value belongs to it. -/
structure OptionSpec where
  letter : Char
  word : String
  hasValue : Bool
  deriving DecidableEq, Repr

/-- Model files to load first. -/
def modelsOption : OptionSpec := ⟨'m', "models", true⟩

/-- Check for a program that stands alone. -/
def executionOption : OptionSpec := ⟨'e', "execution", false⟩

/-- The form of the program. -/
def formOption : OptionSpec := ⟨'f', "form", true⟩

/-- A file with settings of the program. -/
def configOption : OptionSpec := ⟨'c', "config", true⟩

/-- A file to write the program to. -/
def outputOption : OptionSpec := ⟨'o', "output", true⟩

/-- An argument once it is understood: a file, or an option with its value, which is empty where
none belongs to it. -/
inductive Argument where
  | file (name : String)
  | option (spec : OptionSpec) (value : String)
  deriving DecidableEq, Repr

/-- What several letters after a hyphen say: options, and the one that waits for a value. -/
def readLetters (specs : List OptionSpec) :
    List Char → Option (List Argument × Option OptionSpec)
  | [] => some ([], none)
  | letter :: rest => do
    let spec ← specs.find? (·.letter = letter)
    if spec.hasValue then
      match rest with
      | [] => return ([], some spec)
      | '=' :: value => return ([.option spec (String.ofList value)], none)
      | value => return ([.option spec (String.ofList value)], none)
    else
      let (others, waiting) ← readLetters specs rest
      return (.option spec "" :: others, waiting)

/-- What a word after two hyphens says. -/
def readWord (specs : List OptionSpec) (cs : List Char) :
    Option (List Argument × Option OptionSpec) := do
  let word := String.ofList (cs.takeWhile (· ≠ '='))
  let spec ← specs.find? (·.word = word)
  match cs.dropWhile (· ≠ '='), spec.hasValue with
  | _ :: value, true => return ([.option spec (String.ofList value)], none)
  | [], true => return ([], some spec)
  | [], false => return ([.option spec ""], none)
  | _ :: _, false => none

/-- Understands arguments; `waiting` is an option whose value comes next. -/
def readArguments (specs : List OptionSpec) :
    Option OptionSpec → List String → Option (List Argument)
  | none, [] => some []
  | some _, [] => none
  | some spec, value :: rest => do
    return .option spec value :: (← readArguments specs none rest)
  | none, argument :: rest => do
    let (found, waiting) ← match argument.toList with
      | ['-', '-'] => return rest.map Argument.file
      | '-' :: '-' :: word => readWord specs word
      | '-' :: letter :: letters => readLetters specs (letter :: letters)
      | _ => some ([.file argument], none)
    return found ++ (← readArguments specs waiting rest)

/-- The files among arguments. -/
def files (arguments : List Argument) : List String :=
  arguments.filterMap fun argument => match argument with
    | .file name => some name
    | .option .. => none

/-- The values that an option is given. -/
def valuesOf (spec : OptionSpec) (arguments : List Argument) : List String :=
  arguments.filterMap fun argument => match argument with
    | .option given value => if given = spec then some value else none
    | .file _ => none

/-- The value of an option that may be given once. -/
def valueOf? (spec : OptionSpec) (arguments : List Argument) : Option (Option String) :=
  match valuesOf spec arguments with
  | [] => some none
  | [value] => some (some value)
  | _ => none

/-- The command of a command line; `none` if it is not understood. -/
def Command.parse? : List String → Option Command
  | "check" :: rest => do
    let arguments ← readArguments [modelsOption, executionOption] none rest
    let [workflow] := files arguments | none
    let execution ← valueOf? executionOption arguments
    return .check workflow (valuesOf modelsOption arguments) execution.isSome
  | "generate" :: rest => do
    let arguments ← readArguments [modelsOption, formOption, configOption, outputOption] none rest
    let [workflow] := files arguments | none
    let form ← valueOf? formOption arguments
    let form ← ProgramForm.ofName? (form.getD ProgramForm.component.name)
    let config ← valueOf? configOption arguments
    let output ← valueOf? outputOption arguments
    return .generate workflow (valuesOf modelsOption arguments) form config output
  | "models" :: rest => do
    return .models (files (← readArguments [] none rest))
  | _ => none

end SlotFlow.CommandLine
