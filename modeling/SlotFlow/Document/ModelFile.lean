import SlotFlow.Catalog.Registry
import SlotFlow.Document.Declaration
/-!
# Model files

A model file lists the model classes of a module. An entry that is no declaration, or that declares
a slot name twice, is passed over, so that other definitions may stand beside the models.

* `ModelFile.read?` — the file that a text holds;
* `Registry.load?` — the registry with the classes of a file.
-/

namespace SlotFlow

open Json

/-- What a model file says: the module that its classes are imported from, and its entries in the
order of their names. -/
structure ModelFile where
  module? : Option String
  entries : List (String × Json)

namespace ModelFile

-- ---------------------------------------------------------------------------
-- Names of modules
-- ---------------------------------------------------------------------------

/-- The parts of a path that name something. -/
def pathParts (path : String) : List String :=
  (path.splitOn "/").filter fun part => part ≠ "" && part ≠ "."

/-- The name of a file without what follows its last point. A point at the start of a name separates
nothing. -/
def stem (name : String) : String :=
  let cs := name.toList
  let before := ((cs.reverse.dropWhile (· ≠ '.')).drop 1).reverse
  if before.isEmpty then name else String.ofList before

/-- The module whose classes the file at a path lists, if it does not name one itself. -/
def fallbackModule (path : String) : String :=
  match (pathParts path).getLast? with
  | none => "models"
  | some name => if name = ".." then "models" else stem name

-- ---------------------------------------------------------------------------
-- Reading
-- ---------------------------------------------------------------------------

/-- The fields of a plain object. -/
def entries? (node : Node) : Option (List (String × Json)) :=
  match node.plain? with
  | some (.object fields) => some fields
  | _ => none

/-- The model file that a text holds. -/
def read? (text : String) : Option ModelFile := do
  let node ← Node.read text
  let fields ← node.record? ["module", "classes"]
  let name ← fields.optional "module" Node.string?
  let entries ← fields.withDefault "classes" entries? []
  return ⟨name, entries⟩

/-- The class that an entry declares, imported from a module. -/
def modelClass? {μ : Type} (source : String) (entry : String × Json) : Option (ModelClass μ) := do
  let declaration ← ModelDeclaration.ofNode? entry.2.node
  guard declaration.repeatedSlot?.isNone
  return { name := entry.1
           importStatement := s!"from {source} import {entry.1}"
           declaration := declaration }

/-- The classes that a file declares, in the order of their names. `fallback` is the module of a
file that names none. -/
def modelClasses {μ : Type} (file : ModelFile) (fallback : String) : List (ModelClass μ) :=
  file.entries.filterMap (modelClass? (file.module?.getD fallback))

end ModelFile

namespace Registry

variable {μ : Type}

/-- Registers one class after the other; counts those whose names were free. -/
def registerAll (registry : Registry μ) : List (ModelClass μ) → Nat × Registry μ
  | [] => (0, registry)
  | added :: rest =>
    let (isNew, registry) := registry.register added
    let (count, registry) := registry.registerAll rest
    (if isNew then count + 1 else count, registry)

/-- Registers the classes of the model file that a text holds: how many were new, and the registry
with them. -/
def load? (registry : Registry μ) (text fallback : String) : Option (Nat × Registry μ) :=
  (ModelFile.read? text).map fun file => registry.registerAll (file.modelClasses fallback)

end Registry

end SlotFlow
