import Mathlib.Data.List.Induction
import SlotFlow.Document.ModelFile
import SlotFlow.Proofs.Graph.Lookup
import SlotFlow.Simulation.Model
/-!
# Requests to a registry

A registry may be kept in two containers: a list of classes, and a table in which the instances that
native models start as stand under the names of their classes. A request changes the one after the other.
The two say the same as the registry, in which each class comes with its instance.

* `CatalogRequest`, `CatalogAnswer` — what may be asked of a registry;
* `Registry.carryOut`, `Registry.after` — a registry after requests;
* `Catalog` — the two containers; `Registry.catalog` — those of a registry;
* `Catalog.carryOut`, `Catalog.after` — the same requests, step by step.

## Results

* `Registry.carryOut_catalog`, `Registry.after_catalog` — the two containers stay those of the registry;
* `Catalog.Sound.after` — class names are distinct, and instances stand under names of classes;
* `Catalog.extends_after` — unless it is cleared, a registry only grows.
-/

namespace SlotFlow

variable {R μ : Type}

-- ---------------------------------------------------------------------------
-- Requests
-- ---------------------------------------------------------------------------

/-- A request to a registry. A file that cannot be read has no content. -/
inductive CatalogRequest (μ : Type) where
  | register (name importStatement : String) (declaration : ModelDeclaration)
  | registerNative (name importStatement : String) (fresh : μ)
  | loadText (text fallback : String)
  | loadFile (path : String) (content : Option String)
  | clear

/-- What a request is answered with. -/
inductive CatalogAnswer where
  | registered (isNew : Bool)
  | loaded (count : Nat)
  | failed
  | cleared
  deriving DecidableEq, Repr

/-- A request loads the document that a text holds. Its classes are imported from `fallback` if it names
no module. -/
inductive CatalogRequest.Loads : CatalogRequest μ → (text fallback : String) → Prop where
  | text (text fallback : String) : Loads (.loadText text fallback) text fallback
  | file (path text : String) : Loads (.loadFile path (some text)) text (ModelFile.fallbackModule path)

namespace Registry

/-- What comes of reading a document. -/
def answerLoad (registry : Registry μ) : Option (Nat × Registry μ) → CatalogAnswer × Registry μ
  | some (count, grown) => (.loaded count, grown)
  | none => (.failed, registry)

variable [NativeModel R μ]

/-- Carries out a request. -/
def carryOut (registry : Registry μ) : CatalogRequest μ → CatalogAnswer × Registry μ
  | .register name importStatement declaration =>
    (registry.register { name, importStatement, declaration }).map .registered id
  | .registerNative name importStatement fresh =>
    (registry.registerNative name importStatement fresh).map .registered id
  | .loadText text fallback => registry.answerLoad (registry.load? text fallback)
  | .loadFile path content =>
    registry.answerLoad (content.bind (registry.load? · (ModelFile.fallbackModule path)))
  | .clear => (.cleared, .empty)

/-- A registry after requests, one after the other. -/
def after (registry : Registry μ) (requests : List (CatalogRequest μ)) : Registry μ :=
  requests.foldl (fun registry request => (registry.carryOut request).2) registry

end Registry

-- ---------------------------------------------------------------------------
-- Two containers
-- ---------------------------------------------------------------------------

/-- A class as it stands in the list of classes. -/
structure ClassRow where
  name : String
  importStatement : String
  declaration : ModelDeclaration
  deriving DecidableEq, Repr

/-- The classes in the order of registration, and the instances of native models by class names. -/
@[ext] structure Catalog (μ : Type) where
  classes : List ClassRow
  factories : String → Option μ

/-- A class without its instance. -/
def ModelClass.row (modelClass : ModelClass μ) : ClassRow :=
  ⟨modelClass.name, modelClass.importStatement, modelClass.declaration⟩

/-- The two containers of a registry. -/
def Registry.catalog (registry : Registry μ) : Catalog μ where
  classes := registry.classes.map ModelClass.row
  factories := registry.native?

/-- The class that an entry of a file declares, imported from a module. -/
def ModelFile.row? (source : String) (entry : String × Json) : Option ClassRow := do
  let declaration ← ModelDeclaration.ofNode? entry.2.node
  guard declaration.repeatedSlot?.isNone
  return ⟨entry.1, s!"from {source} import {entry.1}", declaration⟩

/-- The classes that a file declares, in the order of their names. -/
def ModelFile.rows (file : ModelFile) (fallback : String) : List ClassRow :=
  file.entries.filterMap (row? (file.module?.getD fallback))

namespace Catalog

/-- Two empty containers. -/
def empty : Catalog μ := ⟨[], fun _ => none⟩

/-- The names of the classes. -/
def names (catalog : Catalog μ) : List String :=
  catalog.classes.map ClassRow.name

/-- Puts a class at the end of the list, unless its name is taken. -/
def register (catalog : Catalog μ) (row : ClassRow) : Bool × Catalog μ :=
  if row.name ∈ catalog.names then (false, catalog)
  else (true, { catalog with classes := catalog.classes ++ [row] })

/-- Puts an instance into the table. -/
def putFactory (name : String) (fresh : μ) (catalog : Catalog μ) : Catalog μ :=
  { catalog with factories := fun other => if other = name then some fresh else catalog.factories other }

/-- Registers one class after the other; counts those whose names were free. -/
def registerAll (catalog : Catalog μ) : List ClassRow → Nat × Catalog μ
  | [] => (0, catalog)
  | row :: rows =>
    let (isNew, catalog) := catalog.register row
    let (count, catalog) := catalog.registerAll rows
    (if isNew then count + 1 else count, catalog)

/-- Loads the model file that a text holds, if it holds one. -/
def load (catalog : Catalog μ) (text fallback : String) : CatalogAnswer × Catalog μ :=
  match ModelFile.read? text with
  | some file => (catalog.registerAll (file.rows fallback)).map .loaded id
  | none => (.failed, catalog)

variable [NativeModel R μ]

/-- Registers a class, and puts the instance into the table if the class is new. -/
def registerNative (catalog : Catalog μ) (name importStatement : String) (fresh : μ) :
    Bool × Catalog μ :=
  let (isNew, grown) := catalog.register ⟨name, importStatement, NativeModel.declaration fresh⟩
  (isNew, if isNew then grown.putFactory name fresh else grown)

/-- Carries out a request. -/
def carryOut (catalog : Catalog μ) : CatalogRequest μ → CatalogAnswer × Catalog μ
  | .register name importStatement declaration =>
    (catalog.register ⟨name, importStatement, declaration⟩).map .registered id
  | .registerNative name importStatement fresh =>
    (catalog.registerNative name importStatement fresh).map .registered id
  | .loadText text fallback => catalog.load text fallback
  | .loadFile path (some text) => catalog.load text (ModelFile.fallbackModule path)
  | .loadFile _ none => (.failed, catalog)
  | .clear => (.cleared, .empty)

/-- The two containers after requests, one after the other. -/
def after (catalog : Catalog μ) (requests : List (CatalogRequest μ)) : Catalog μ :=
  requests.foldl (fun catalog request => (catalog.carryOut request).2) catalog

end Catalog

-- ---------------------------------------------------------------------------
-- In step
-- ---------------------------------------------------------------------------

namespace Registry

variable {registry : Registry μ}

theorem names_catalog (registry : Registry μ) :
    registry.catalog.names = registry.classes.map ModelClass.name := by
  simp [Catalog.names, catalog, ModelClass.row]

theorem contains_iff {name : String} :
    registry.contains name = true ↔ name ∈ registry.catalog.names := by
  rw [contains, find?, names_catalog, Option.isSome_iff_ne_none, ne_eq, find?_key_eq_none, not_not]

/-- No instance stands under a name that has no class. -/
theorem native?_of_not_contains {name : String} (h : ¬registry.contains name = true) :
    registry.native? name = none := by
  rw [contains, Option.not_isSome_iff_eq_none] at h
  rw [native?, h]
  rfl

/-- A class that is registered comes to the end of the list, and its instance to the table. -/
theorem catalog_register {added : ModelClass μ} (h : ¬registry.contains added.name = true) :
    (registry.register added).2.catalog =
      { classes := registry.catalog.classes ++ [added.row]
        factories := fun name =>
          if name = added.name then added.native else registry.catalog.factories name } := by
  rw [register_of_not_contains (by simpa using h)]
  rw [contains, Option.not_isSome_iff_eq_none, find?] at h
  refine Catalog.ext ?_ (funext fun name => ?_)
  · simp [catalog]
  · simp only [catalog, native?, find?, List.find?_append]
    split_ifs with hname
    · rw [hname, h]
      simp
    · cases registry.classes.find? (·.name = name) with
      | some present => rfl
      | none => simp [Ne.symm hname]

/-- A class without an instance comes to the list only. -/
theorem register_catalog {added : ModelClass μ} (hnative : added.native = none) :
    (registry.register added).map id catalog = registry.catalog.register added.row := by
  rw [Catalog.register]
  split_ifs with hm
  · rw [register_of_contains (contains_iff.mpr hm)]
    rfl
  · have hfree : ¬registry.contains added.name = true := fun hc => hm (contains_iff.mp hc)
    refine Prod.ext ?_ ((catalog_register hfree).trans (Catalog.ext rfl (funext fun name => ?_)))
    · rw [register_of_not_contains (by simpa using hfree)]
      rfl
    · dsimp only
      split_ifs with hname
      · rw [hnative, hname]
        exact (native?_of_not_contains hfree).symm
      · rfl

theorem registerAll_catalog {classes : List (ModelClass μ)}
    (hnative : ∀ added ∈ classes, added.native = none) :
    (registry.registerAll classes).map id catalog =
      registry.catalog.registerAll (classes.map ModelClass.row) := by
  induction classes generalizing registry with
  | nil => rfl
  | cons added classes ih =>
    have hfirst := @register_catalog _ registry _ (hnative added List.mem_cons_self)
    have hrest := @ih (registry.register added).2
      fun other ho => hnative other (List.mem_cons_of_mem _ ho)
    rw [List.map_cons, Catalog.registerAll, ← hfirst]
    dsimp only [Prod.map]
    rw [← hrest]
    rfl

/-- An entry declares the same class to both. -/
theorem modelClass?_eq (source : String) (entry : String × Json) :
    (ModelFile.modelClass? source entry : Option (ModelClass μ)) =
      (ModelFile.row? source entry).map fun row =>
        { name := row.name, importStatement := row.importStatement, declaration := row.declaration } := by
  unfold ModelFile.modelClass? ModelFile.row?
  cases ModelDeclaration.ofNode? entry.2.node with
  | none => rfl
  | some declaration =>
    rw [Option.bind_eq_bind, Option.bind_some, Option.bind_eq_bind, Option.bind_eq_bind,
      Option.bind_some]
    cases declaration.repeatedSlot? <;> rfl

theorem modelClasses_eq (file : ModelFile) (fallback : String) :
    (file.modelClasses fallback : List (ModelClass μ)) = (file.rows fallback).map fun row =>
      { name := row.name, importStatement := row.importStatement, declaration := row.declaration } := by
  rw [ModelFile.modelClasses, ModelFile.rows, List.map_filterMap]
  exact List.filterMap_congr fun entry _ => modelClass?_eq ..

theorem load_catalog (text fallback : String) :
    (registry.answerLoad (registry.load? text fallback)).map id catalog =
      registry.catalog.load text fallback := by
  rw [load?, Catalog.load]
  cases ModelFile.read? text with
  | none => rfl
  | some file =>
    have hrows := @registerAll_catalog _ registry (file.modelClasses fallback) fun added ha => by
      rw [modelClasses_eq] at ha
      obtain ⟨row, -, rfl⟩ := List.mem_map.mp ha
      rfl
    have hsame : (file.modelClasses fallback : List (ModelClass μ)).map ModelClass.row =
        file.rows fallback := by
      rw [modelClasses_eq, List.map_map]
      exact List.map_id _
    rw [hsame] at hrows
    dsimp only
    rw [← hrows]
    rfl

variable [NativeModel R μ]

theorem registerNative_catalog (name importStatement : String) (fresh : μ) :
    (registry.registerNative name importStatement fresh).map id catalog =
      registry.catalog.registerNative name importStatement fresh := by
  rw [registerNative, Catalog.registerNative, Catalog.register]
  split_ifs with hm
  · rw [register_of_contains (contains_iff.mpr hm)]
    rfl
  · have hfree : ¬registry.contains name = true := fun hc => hm (contains_iff.mp hc)
    refine Prod.ext ?_ (catalog_register hfree)
    rw [register_of_not_contains (by simpa using hfree)]
    rfl

/-- The two containers stay those of the registry, and they answer what the registry answers. -/
theorem carryOut_catalog (registry : Registry μ) (request : CatalogRequest μ) :
    (registry.carryOut request).map id catalog = registry.catalog.carryOut request := by
  cases request with
  | register name importStatement declaration =>
    rw [Catalog.carryOut, carryOut]
    exact congrArg (Prod.map CatalogAnswer.registered id)
      (@register_catalog _ registry { name, importStatement, declaration } rfl)
  | registerNative name importStatement fresh =>
    rw [Catalog.carryOut, carryOut, ← registerNative_catalog]
    rfl
  | loadText text fallback => exact load_catalog text fallback
  | loadFile path content =>
    cases content with
    | none => rfl
    | some text => exact load_catalog text (ModelFile.fallbackModule path)
  | clear => rfl

/-- The two containers are those of the registry after all requests. -/
theorem after_catalog (registry : Registry μ) (requests : List (CatalogRequest μ)) :
    (registry.after requests).catalog = registry.catalog.after requests := by
  induction requests generalizing registry with
  | nil => rfl
  | cons request requests ih =>
    have hstep := congrArg Prod.snd (carryOut_catalog registry request)
    rw [after, List.foldl_cons, ← after, ih]
    exact congrArg (Catalog.after · requests) hstep

end Registry

-- ---------------------------------------------------------------------------
-- What stays
-- ---------------------------------------------------------------------------

/-- Class names are distinct, and instances stand under names of classes. -/
structure Catalog.Sound (catalog : Catalog μ) : Prop where
  names : catalog.names.Nodup
  factories : ∀ name fresh, catalog.factories name = some fresh → name ∈ catalog.names

/-- The classes have stayed in their places, each with the instance that it came with. -/
structure Catalog.Extends (catalog grown : Catalog μ) : Prop where
  classes : catalog.classes <+: grown.classes
  factories : ∀ name ∈ catalog.names, grown.factories name = catalog.factories name

namespace Catalog

variable {catalog grown : Catalog μ}

theorem sound_empty : (empty : Catalog μ).Sound :=
  ⟨List.nodup_nil, fun _ _ h => nomatch h⟩

theorem Extends.refl (catalog : Catalog μ) : catalog.Extends catalog :=
  ⟨List.prefix_refl _, fun _ _ => rfl⟩

theorem Extends.names (h : catalog.Extends grown) : catalog.names ⊆ grown.names :=
  (h.classes.map _).subset

theorem Extends.trans {larger : Catalog μ} (h : catalog.Extends grown) (h' : grown.Extends larger) :
    catalog.Extends larger where
  classes := h.classes.trans h'.classes
  factories name hn := (h'.factories name (h.names hn)).trans (h.factories name hn)

theorem names_append (catalog : Catalog μ) (rows : List ClassRow) :
    ({ catalog with classes := catalog.classes ++ rows } : Catalog μ).names =
      catalog.names ++ rows.map ClassRow.name :=
  List.map_append

/-- A class is registered, or its name is taken. -/
theorem register_cases (catalog : Catalog μ) (row : ClassRow) :
    row.name ∈ catalog.names ∧ catalog.register row = (false, catalog) ∨
      row.name ∉ catalog.names ∧
        catalog.register row = (true, { catalog with classes := catalog.classes ++ [row] }) := by
  rw [register]
  split_ifs with hm
  · exact .inl ⟨hm, rfl⟩
  · exact .inr ⟨hm, rfl⟩

theorem extends_append (catalog : Catalog μ) (rows : List ClassRow) :
    catalog.Extends { catalog with classes := catalog.classes ++ rows } :=
  ⟨List.prefix_append .., fun _ _ => rfl⟩

theorem Sound.append_one (h : catalog.Sound) {row : ClassRow} (hfree : row.name ∉ catalog.names) :
    ({ catalog with classes := catalog.classes ++ [row] } : Catalog μ).Sound where
  names := by
    rw [names_append]
    exact h.names.append (List.nodup_singleton _) (by simpa using hfree)
  factories name fresh hf := by
    rw [names_append]
    exact List.mem_append_left _ (h.factories name fresh hf)

theorem Sound.register (h : catalog.Sound) (row : ClassRow) : (catalog.register row).2.Sound := by
  rcases catalog.register_cases row with ⟨-, heq⟩ | ⟨hfree, heq⟩
  · exact heq ▸ h
  · exact heq ▸ h.append_one hfree

theorem extends_register (catalog : Catalog μ) (row : ClassRow) :
    catalog.Extends (catalog.register row).2 := by
  rcases catalog.register_cases row with ⟨-, heq⟩ | ⟨-, heq⟩
  · exact heq ▸ .refl catalog
  · exact heq ▸ catalog.extends_append [row]

theorem Sound.registerAll (h : catalog.Sound) (rows : List ClassRow) :
    (catalog.registerAll rows).2.Sound := by
  induction rows generalizing catalog with
  | nil => exact h
  | cons row rows ih => exact ih (h.register row)

theorem extends_registerAll (catalog : Catalog μ) (rows : List ClassRow) :
    catalog.Extends (catalog.registerAll rows).2 := by
  induction rows generalizing catalog with
  | nil => exact .refl catalog
  | cons row rows ih => exact (catalog.extends_register row).trans (ih _)

theorem Sound.load (h : catalog.Sound) (text fallback : String) :
    (catalog.load text fallback).2.Sound := by
  unfold Catalog.load
  split
  · exact h.registerAll _
  · exact h

theorem extends_load (catalog : Catalog μ) (text fallback : String) :
    catalog.Extends (catalog.load text fallback).2 := by
  unfold Catalog.load
  split
  · exact catalog.extends_registerAll _
  · exact .refl catalog

variable [NativeModel R μ]

/-- The instance of a new class stands under its name, and no other changes. -/
theorem registerNative_cases (catalog : Catalog μ) (name importStatement : String) (fresh : μ) :
    (catalog.registerNative name importStatement fresh).2 = catalog ∨
      name ∉ catalog.names ∧ (catalog.registerNative name importStatement fresh).2 =
        putFactory name fresh { catalog with classes := catalog.classes ++
          [⟨name, importStatement, NativeModel.declaration fresh⟩] } := by
  rw [registerNative]
  rcases catalog.register_cases ⟨name, importStatement, NativeModel.declaration fresh⟩ with
    ⟨-, heq⟩ | ⟨hfree, heq⟩
  · exact .inl (by rw [heq]; rfl)
  · exact .inr ⟨hfree, by rw [heq]; rfl⟩

theorem Sound.registerNative (h : catalog.Sound) (name importStatement : String) (fresh : μ) :
    (catalog.registerNative name importStatement fresh).2.Sound := by
  rcases catalog.registerNative_cases name importStatement fresh with heq | ⟨hfree, heq⟩
  · rw [heq]
    exact h
  · rw [heq]
    have hgrown := @Sound.append_one _ _ h ⟨name, importStatement, NativeModel.declaration fresh⟩ hfree
    refine ⟨hgrown.names, fun other held hf => ?_⟩
    unfold putFactory at hf
    dsimp only at hf
    split_ifs at hf with hname
    · rw [hname]
      exact List.mem_map.mpr ⟨_, List.mem_append_right _ (List.mem_singleton.mpr rfl), rfl⟩
    · exact hgrown.factories other held hf

theorem extends_registerNative (catalog : Catalog μ) (name importStatement : String) (fresh : μ) :
    catalog.Extends (catalog.registerNative name importStatement fresh).2 := by
  rcases catalog.registerNative_cases name importStatement fresh with heq | ⟨hfree, heq⟩
  · exact heq.symm ▸ .refl catalog
  · rw [heq]
    refine ⟨List.prefix_append .., fun other ho => if_neg ?_⟩
    rintro rfl
    exact hfree ho

theorem Sound.carryOut (h : catalog.Sound) (request : CatalogRequest μ) :
    (catalog.carryOut request).2.Sound := by
  cases request with
  | register name importStatement declaration => exact h.register _
  | registerNative name importStatement fresh => exact h.registerNative ..
  | loadText text fallback => exact h.load ..
  | loadFile path content =>
    cases content with
    | none => exact h
    | some text => exact h.load ..
  | clear => exact sound_empty

theorem extends_carryOut (catalog : Catalog μ) {request : CatalogRequest μ} (hr : request ≠ .clear) :
    catalog.Extends (catalog.carryOut request).2 := by
  cases request with
  | register name importStatement declaration => exact catalog.extends_register _
  | registerNative name importStatement fresh => exact catalog.extends_registerNative ..
  | loadText text fallback => exact catalog.extends_load ..
  | loadFile path content =>
    cases content with
    | none => exact .refl catalog
    | some text => exact catalog.extends_load ..
  | clear => exact absurd rfl hr

/-- Whatever is asked, class names stay distinct, and instances stand under names of classes. -/
theorem Sound.after (h : catalog.Sound) (requests : List (CatalogRequest μ)) :
    (catalog.after requests).Sound := by
  induction requests generalizing catalog with
  | nil => exact h
  | cons request requests ih => exact ih (h.carryOut request)

/-- Unless it is cleared, a registry only grows. -/
theorem extends_after (catalog : Catalog μ) {requests : List (CatalogRequest μ)}
    (hclear : .clear ∉ requests) : catalog.Extends (catalog.after requests) := by
  induction requests generalizing catalog with
  | nil => exact .refl catalog
  | cons request requests ih =>
    rw [List.mem_cons, not_or] at hclear
    exact (catalog.extends_carryOut (Ne.symm hclear.1)).trans (ih _ hclear.2)

theorem after_append (catalog : Catalog μ) (requests more : List (CatalogRequest μ)) :
    catalog.after (requests ++ more) = (catalog.after requests).after more :=
  List.foldl_append ..

theorem after_cons (catalog : Catalog μ) (request : CatalogRequest μ)
    (requests : List (CatalogRequest μ)) :
    catalog.after (request :: requests) = (catalog.carryOut request).2.after requests := rfl

end Catalog

end SlotFlow
