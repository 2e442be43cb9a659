import SlotFlow.CommandLine.Arguments
import SlotFlow.Document.ModelFile
import SlotFlow.Document.Assembly
import SlotFlow.Graph.Readiness
import SlotFlow.Program.Generate
/-!
# Carrying out commands

`Command.execute` says what a command does, given the contents of the files that can be read: which
text it prints or writes, or why it fails. The first thing that goes wrong ends it.
-/

namespace SlotFlow.CommandLine

/-- Why a command fails. -/
inductive Failure where
  | unreadableModels (path : String)
  | malformedModels (path : String)
  | unreadableWorkflow (path : String)
  | document (error : DocumentError)
  | unreadableConfig (path : String)
  | malformedConfig
  | generation (error : GenerationError)
  | unwritable (path : String)
  deriving DecidableEq, Repr

/-- The wording of a failure. -/
def Failure.message : Failure → String
  | unreadableModels path => s!"Could not read model file '{path}'"
  | malformedModels path => s!"Failed to parse model file '{path}'"
  | unreadableWorkflow path => s!"Could not access workflow file '{path}'"
  | document error => error.message
  | unreadableConfig path => s!"Failed to read config file '{path}'"
  | malformedConfig => "Invalid generator config"
  | generation error => "Code generation failed: " ++ error.message
  | unwritable path => s!"Could not write to file '{path}'"

/-- What a command comes to. -/
inductive Outcome where
  /-- It prints a text, and ends with an exit code. -/
  | prints (text : String) (code : Nat)
  /-- It writes a text to a file. -/
  | writes (path text : String)
  deriving DecidableEq, Repr

/-- The exit code of a command that fails. -/
def failureCode : Nat := 1

/-- The exit code of a check that finds issues. -/
def issuesCode : Nat := 2

/-- The contents of the files that can be read. -/
abbrev Files := String → Option String

/-- Model classes without native models: a command line runs none. -/
abbrev Classes := Registry Empty

/-- The classes of model files, one file after the other. -/
def loadModels (contents : Files) : Classes → List String → Except Failure Classes
  | registry, [] => return registry
  | registry, path :: paths => do
    let some text := contents path | throw (.unreadableModels path)
    let some (_, grown) := registry.load? text (ModelFile.fallbackModule path)
      | throw (.malformedModels path)
    loadModels contents grown paths

/-- The workflow of a file, over the classes of model files. An element without a record gets a uid
that starts with `uidStem`. -/
def loadWorkflow (uidStem : String) (contents : Files) (path : String) (models : List String) :
    Except Failure (Workflow Empty) := do
  let registry ← loadModels contents .empty models
  let some text := contents path | throw (.unreadableWorkflow path)
  match Workflow.ofText uidStem text registry with
  | .ok workflow => return workflow
  | .error error => throw (.document error)

/-- The settings of a file, or those of the workflow itself. -/
def loadOptions (contents : Files) (workflow : Workflow Empty) :
    Option String → Except Failure ProgramOptions
  | none => return workflow.ownOptions
  | some path => do
    let some text := contents path | throw (.unreadableConfig path)
    match (Json.Node.read text).bind ProgramOptions.ofNode? with
    | some options => return options
    | none => throw .malformedConfig

/-- The report on the issues of a workflow. -/
def report (workflow : Workflow Empty) (issues : List Issue) : Outcome :=
  if issues.isEmpty then .prints s!"Workflow '{workflow.name}' is consistent.\n" 0
  else
    let heading := s!"Workflow '{workflow.name}' has {issues.length} issue(s):\n"
    .prints (heading ++ String.join (issues.map fun issue => s!"  -> {issue.message}\n")) issuesCode

/-- The lines about a model class in a list. -/
def describeClass (modelClass : ModelClass Empty) : String :=
  let declaration := modelClass.declaration
  s!"  -> {modelClass.name} ({declaration.name}): {declaration.inputs.length} inputs, " ++
    s!"{declaration.outputs.length} outputs\n     {modelClass.importStatement}\n"

/-- What a command comes to. No uid in its files should start with `uidStem`. -/
def Command.execute (uidStem : String) (contents : Files) : Command → Except Failure Outcome
  | .check path catalogs execution => do
    let workflow ← loadWorkflow uidStem contents path catalogs
    return report workflow (workflow.issues execution)
  | .generate path catalogs form config output => do
    let workflow ← loadWorkflow uidStem contents path catalogs
    let options ← loadOptions contents workflow config
    match (workflow.generate options form).1 with
    | .error error => throw (.generation error)
    | .ok lines =>
      let text := renderLines lines ++ "\n"
      match output with
      | some path => return .writes path text
      | none => return .prints text 0
  | .models paths => do
    let registry ← loadModels contents .empty paths
    let heading := s!"Found {registry.size} model class(es):\n"
    return .prints (heading ++ String.join (registry.classes.map describeClass)) 0

/-- The files that a command reads. -/
def Command.reads : Command → List String
  | .check path catalogs _ => path :: catalogs
  | .generate path catalogs _ config _ => path :: (catalogs ++ config.toList)
  | .models paths => paths

end SlotFlow.CommandLine
