import SlotFlow.Catalog.Declaration
/-!
# The registry of model classes

The model classes that a workflow may use, in the order of registration and each name once. A class
may come with a native model, of a type `μ` that the registry does not look into: every instance of
the class starts as this one.
-/

namespace SlotFlow

/-- A model class, with the statement that imports it into a program. -/
structure ModelClass (μ : Type) where
  name : String
  importStatement : String
  declaration : ModelDeclaration
  /-- The state in which a native instance of the class starts. -/
  native : Option μ := none

/-- Model classes in the order of registration. -/
structure Registry (μ : Type) where
  classes : List (ModelClass μ) := []

namespace Registry

variable {μ : Type}

/-- The registry without classes. -/
def empty : Registry μ := {}

/-- The class of a name. -/
def find? (registry : Registry μ) (name : String) : Option (ModelClass μ) :=
  registry.classes.find? (·.name = name)

/-- Whether there is a class of a name. -/
def contains (registry : Registry μ) (name : String) : Bool :=
  (registry.find? name).isSome

/-- Adds a class after the others, unless its name is taken. -/
def register (registry : Registry μ) (added : ModelClass μ) : Bool × Registry μ :=
  if registry.contains added.name then (false, registry)
  else (true, { classes := registry.classes ++ [added] })

/-- A class whose name is taken changes nothing. -/
theorem register_of_contains {registry : Registry μ} {added : ModelClass μ}
    (h : registry.contains added.name = true) : registry.register added = (false, registry) := by
  simp [register, h]

/-- A class whose name is free becomes the last one. -/
theorem register_of_not_contains {registry : Registry μ} {added : ModelClass μ}
    (h : registry.contains added.name = false) :
    registry.register added = (true, { classes := registry.classes ++ [added] }) := by
  simp [register, h]

/-- A name that has a class keeps it. -/
theorem find?_register {registry : Registry μ} {added present : ModelClass μ} {name : String}
    (h : registry.find? name = some present) :
    (registry.register added).2.find? name = some present := by
  unfold register
  split
  · exact h
  · simp only [find?] at h ⊢
    simp [List.find?_append, h]

/-- The instance that a class of a name starts its native models with. -/
def native? (registry : Registry μ) (name : String) : Option μ :=
  (registry.find? name).bind ModelClass.native

/-- The number of classes. -/
def size (registry : Registry μ) : Nat :=
  registry.classes.length

end Registry

end SlotFlow
