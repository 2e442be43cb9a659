import SlotFlow.Proofs.Catalog.Requests
import SlotFlow.Proofs.Graph.Reachable
import SlotFlow.Proofs.Json.Plain
import SlotFlow.Proofs.Text.Bytes
/-!
# Registered classes

A registry holds each class once, in the order of registration, and unless it is cleared it only grows. A
model file brings the classes that it declares and that are new, in the order of their names, and it
brings none when it is loaded again. A block of such a class can be added to every container.

* `Catalog.Brings` — the classes that a file brings to a registry;
* `ModelDeclaration.Makes` — the slots that a declaration makes;
* `Catalog.Lasts` — a registry over all requests.

## Results

* `ModelFile.ordered_rows` — the classes of a file come in the order of their names;
* `Catalog.brings_load` — what a file brings;
* `Catalog.load_again` — a file brings nothing twice;
* `Workflow.WellFormed.addModel_of_declared` — a block of a class that names its slots apart is added;
* `Catalog.lasts_of_requests` — a registry holds each class once, and only grows.
-/

namespace SlotFlow

variable {R μ : Type}

-- ---------------------------------------------------------------------------
-- What a file declares
-- ---------------------------------------------------------------------------

theorem ModelDeclaration.repeatedSlot?_eq_none {declaration : ModelDeclaration} :
    declaration.repeatedSlot? = none ↔ declaration.slotNames.Nodup := by
  rw [repeatedSlot?, firstRepeated?_eq_none]
  exact and_iff_left fun _ _ hm => nomatch hm

namespace ModelFile

/-- The entries of a file come in the order of their names, each name once. -/
theorem ordered_entries {text : String} {file : ModelFile} (h : read? text = some file) :
    Json.Node.Ordered file.entries := by
  simp only [read?, Option.bind_eq_bind, Option.bind_eq_some_iff, Option.pure_def,
    Option.some.injEq] at h
  obtain ⟨node, -, fields, -, name, -, entries, hentries, rfl⟩ := h
  unfold Json.Node.Fields.withDefault at hentries
  split at hentries
  · injection hentries with hentries
    exact hentries ▸ List.Pairwise.nil
  · unfold entries? at hentries
    split at hentries
    · rename_i hplain
      injection hentries with hentries
      exact hentries ▸ Json.Node.ordered_of_plain? hplain
    · cases hentries

/-- An entry declares a class if it can be read as a declaration that names its slots apart. -/
theorem row?_eq_some {source : String} {entry : String × Json} {row : ClassRow} :
    row? source entry = some row ↔
      ModelDeclaration.ofNode? entry.2.node = some row.declaration ∧ row.declaration.slotNames.Nodup ∧
        row.name = entry.1 ∧ row.importStatement = s!"from {source} import {entry.1}" := by
  unfold row?
  cases ModelDeclaration.ofNode? entry.2.node with
  | none => simp
  | some declaration =>
    rw [Option.bind_eq_bind, Option.bind_some]
    cases hrepeated : declaration.repeatedSlot? with
    | none =>
      have hnodup := ModelDeclaration.repeatedSlot?_eq_none.mp hrepeated
      constructor
      · intro hrow
        cases hrow
        exact ⟨rfl, hnodup, rfl, rfl⟩
      · rintro ⟨hread, -, hname, himport⟩
        cases hread
        rw [← hname] at himport ⊢
        rw [← himport]
        rfl
    | some name =>
      constructor
      · intro hrow
        cases hrow
      · rintro ⟨hread, hnodup, -⟩
        cases hread
        rw [ModelDeclaration.repeatedSlot?_eq_none.mpr hnodup] at hrepeated
        cases hrepeated

theorem mem_rows {file : ModelFile} {fallback : String} {row : ClassRow} :
    row ∈ file.rows fallback ↔ row.declaration.slotNames.Nodup ∧
      row.importStatement = s!"from {file.module?.getD fallback} import {row.name}" ∧
      ∃ entry ∈ file.entries, row.name = entry.1 ∧
        ModelDeclaration.ofNode? entry.2.node = some row.declaration := by
  rw [rows, List.mem_filterMap]
  constructor
  · rintro ⟨entry, hentry, hrow⟩
    obtain ⟨hread, hnodup, hname, himport⟩ := row?_eq_some.mp hrow
    exact ⟨hnodup, hname ▸ himport, entry, hentry, hname, hread⟩
  · rintro ⟨hnodup, himport, entry, hentry, hname, hread⟩
    exact ⟨entry, hentry, row?_eq_some.mpr ⟨hread, hnodup, hname, hname ▸ himport⟩⟩

/-- The classes of a file come in the order of their names, each name once. -/
theorem ordered_rows {text : String} {file : ModelFile} (h : read? text = some file)
    (fallback : String) : (file.rows fallback).Pairwise fun first second => first.name < second.name := by
  refine (ordered_entries h).filterMap _ fun entry other hlt row hrow row' hrow' => ?_
  obtain ⟨-, -, hname, -⟩ := row?_eq_some.mp hrow
  obtain ⟨-, -, hname', -⟩ := row?_eq_some.mp hrow'
  rwa [hname, hname']

end ModelFile

-- ---------------------------------------------------------------------------
-- What a file brings
-- ---------------------------------------------------------------------------

/-- The classes that a file brings to a registry, in the order of their names in bytes: those that can be
read as declarations, name their slots apart and are not there yet. -/
structure Catalog.Brings (catalog : Catalog μ) (file : ModelFile) (fallback : String)
    (added : List ClassRow) : Prop where
  ordered : added.Pairwise fun first second => Text.bytes first.name < Text.bytes second.name
  mem : ∀ row, row ∈ added ↔ row.name ∉ catalog.names ∧ row.declaration.slotNames.Nodup ∧
    row.importStatement = s!"from {file.module?.getD fallback} import {row.name}" ∧
    ∃ entry ∈ file.entries, row.name = entry.1 ∧
      ModelDeclaration.ofNode? entry.2.node = some row.declaration

namespace Catalog

variable {catalog : Catalog μ}

/-- Of classes with distinct names, those are registered whose names are free at the beginning. -/
theorem registerAll_eq {rows : List ClassRow} (hrows : (rows.map ClassRow.name).Nodup) :
    catalog.registerAll rows =
      ((rows.filter (·.name ∉ catalog.names)).length,
        { catalog with classes := catalog.classes ++ rows.filter (·.name ∉ catalog.names) }) := by
  induction rows generalizing catalog with
  | nil => simp [registerAll]
  | cons row rows ih =>
    rw [List.map_cons, List.nodup_cons] at hrows
    rw [registerAll]
    rcases catalog.register_cases row with ⟨hm, heq⟩ | ⟨hfree, heq⟩
    · rw [heq, List.filter_cons_of_neg (by simpa using hm)]
      dsimp only
      rw [ih hrows.2]
      rfl
    · -- the names of the others are not that of the first one
      have hothers : rows.filter (·.name ∉ ({ catalog with
          classes := catalog.classes ++ [row] } : Catalog μ).names) =
          rows.filter (·.name ∉ catalog.names) := by
        refine List.filter_congr fun other ho => ?_
        have hne : other.name ≠ row.name := fun hsame => hrows.1 (hsame ▸ List.mem_map_of_mem ho)
        simp [names_append, hne]
      rw [heq, List.filter_cons_of_pos (by simpa using hfree)]
      dsimp only
      rw [ih hrows.2, hothers]
      simp

/-- What a file brings comes to the end of the list, and is counted. -/
theorem brings_load {text : String} {file : ModelFile} (h : ModelFile.read? text = some file)
    (fallback : String) : ∃ added, catalog.Brings file fallback added ∧
      catalog.load text fallback =
        (.loaded added.length, { catalog with classes := catalog.classes ++ added }) := by
  have hordered := ModelFile.ordered_rows h fallback
  have hnodup : ((file.rows fallback).map ClassRow.name).Nodup := by
    rw [List.Nodup, List.pairwise_map]
    exact hordered.imp fun hlt => ne_of_lt hlt
  refine ⟨(file.rows fallback).filter (·.name ∉ catalog.names), ⟨?_, fun row => ?_⟩, ?_⟩
  · exact (hordered.filter _).imp Text.bytes_lt
  · rw [List.mem_filter, ModelFile.mem_rows, decide_eq_true_eq, and_comm]
  · rw [load, h]
    dsimp only
    rw [registerAll_eq hnodup]
    rfl

/-- Where the classes of a file are, it brings none. -/
theorem load_again {text : String} {file : ModelFile} (h : ModelFile.read? text = some file)
    (fallback : String) (hthere : ∀ row ∈ file.rows fallback, row.name ∈ catalog.names) :
    catalog.load text fallback = (.loaded 0, catalog) := by
  obtain ⟨added, hbrings, hload⟩ := @brings_load _ catalog _ _ h fallback
  have hnone : added = [] := by
    refine List.eq_nil_iff_forall_not_mem.mpr fun row hrow => ?_
    obtain ⟨hfree, hdeclares⟩ := (hbrings.mem row).mp hrow
    exact hfree (hthere row (ModelFile.mem_rows.mpr hdeclares))
  rw [hload, hnone, List.append_nil]
  rfl

/-- After a file has been loaded, its classes are there. -/
theorem names_load {text : String} {file : ModelFile} (h : ModelFile.read? text = some file)
    (fallback fallback' : String) :
    ∀ row ∈ file.rows fallback', row.name ∈ (catalog.load text fallback).2.names := by
  obtain ⟨added, hbrings, hload⟩ := @brings_load _ catalog _ _ h fallback
  intro row hrow
  rw [hload, names_append, List.mem_append]
  by_cases hm : row.name ∈ catalog.names
  · exact .inl hm
  · -- the module it is imported from does not decide on that
    obtain ⟨hnodup, -, hentry⟩ := ModelFile.mem_rows.mp hrow
    have hadded : ⟨row.name, s!"from {file.module?.getD fallback} import {row.name}",
        row.declaration⟩ ∈ added := (hbrings.mem _).mpr ⟨hm, hnodup, rfl, hentry⟩
    exact .inr (List.mem_map.mpr ⟨_, hadded, rfl⟩)

variable [NativeModel R μ]

/-- A request that loads a text does what is done for that text. -/
theorem carryOut_of_loads {request : CatalogRequest μ} {text fallback : String}
    (h : request.Loads text fallback) : catalog.carryOut request = catalog.load text fallback := by
  cases h <;> rfl

theorem unchanged_of_failed {request : CatalogRequest μ}
    (h : (catalog.carryOut request).1 = .failed) : (catalog.carryOut request).2 = catalog := by
  have hload : ∀ text fallback, (catalog.load text fallback).1 = .failed →
      (catalog.load text fallback).2 = catalog := by
    intro text fallback hfailed
    unfold load at hfailed ⊢
    split at hfailed
    · cases hfailed
    · rfl
  cases request with
  | loadText text fallback => exact hload _ _ h
  | loadFile path content =>
    cases content with
    | none => rfl
    | some text => exact hload _ _ h
  | _ => cases h

/-- Whatever is asked between, a file brings nothing when it is loaded again. -/
theorem carryOut_again {request again : CatalogRequest μ} {text fallback fallback' : String}
    (hloads : request.Loads text fallback) (hagain : again.Loads text fallback') {file : ModelFile}
    (hread : ModelFile.read? text = some file) {middle : List (CatalogRequest μ)}
    (hclear : .clear ∉ middle) : (catalog.after (request :: middle)).carryOut again =
      (.loaded 0, catalog.after (request :: middle)) := by
  rw [carryOut_of_loads hagain, after_cons, carryOut_of_loads hloads]
  refine load_again hread fallback' fun row hrow => ?_
  exact (extends_after _ hclear).names (names_load hread fallback fallback' row hrow)

end Catalog

-- ---------------------------------------------------------------------------
-- Blocks of registered classes
-- ---------------------------------------------------------------------------

/-- Slots as a declaration asks for them: its inputs, then its outputs. -/
def ModelDeclaration.Makes (declaration : ModelDeclaration) (slots : List Slot) : Prop :=
  List.Forall₂ (fun request slot => slot = Slot.ofRequest slot.id slot.uid request)
    (declaration.inputs.map (·.slotRequest .input) ++ declaration.outputs.map (·.slotRequest .output))
    slots

theorem ModelDeclaration.makes_makeSlots (declaration : ModelDeclaration) (uidStem : String)
    (first : Nat) : declaration.Makes (Workflow.makeSlots uidStem first declaration.slotRequests) := by
  refine (Workflow.forall₂_makeSlots uidStem first declaration.slotRequests).imp ?_
  rintro request _ ⟨id, uid, rfl⟩
  unfold Slot.ofRequest
  cases request.uid <;> rfl

namespace Workflow

variable {w : Workflow μ}

/-- A block of a class that names its slots apart is added to every container. -/
theorem WellFormed.addModel_of_declared (h : w.WellFormed) {className : String}
    {modelClass : ModelClass μ} (hfind : w.registry.find? className = some modelClass)
    (hnodup : modelClass.declaration.slotNames.Nodup) {container : Block} (hc : container ∈ w.blocks)
    (hkind : container.kind.isContainer = true) :
    ∃ id w' block, w.addModel container.id className = .ok (id, w') ∧
      w'.blocks.Perm (w.blocks ++ [block]) ∧ block.id = id ∧ block.name = className ∧
      block.kind = .model { className } ∧ modelClass.declaration.Makes block.slots := by
  have hget : w.getContainer container.id = .ok container :=
    getContainer_eq_ok.mpr ⟨h.block?_eq_some.mpr ⟨hc, rfl⟩, hkind⟩
  have hadded := (@addModelSetup_eq_ok _ w container.id { className } none _).mpr ⟨modelClass, hfind,
    ModelDeclaration.repeatedSlot?_eq_none.mpr hnodup, ⟨container, hget⟩, rfl⟩
  exact ⟨_, _, _, hadded, perm_blocks_attachBlock h.blocks.ids (List.mem_map_of_mem hc) .. , rfl, rfl,
    rfl, modelClass.declaration.makes_makeSlots ..⟩

end Workflow

/-- A class is found in the registry by the name that it has in the list. -/
theorem Registry.exists_find?_of_mem_catalog {registry : Registry μ}
    (hnames : registry.catalog.names.Nodup) {row : ClassRow} (hrow : row ∈ registry.catalog.classes) :
    ∃ modelClass, registry.find? row.name = some modelClass ∧ modelClass.row = row := by
  obtain ⟨modelClass, hm, rfl⟩ := List.mem_map.mp hrow
  rw [names_catalog] at hnames
  exact ⟨modelClass, find?_key_of_mem hnames hm, rfl⟩

-- ---------------------------------------------------------------------------
-- Main result
-- ---------------------------------------------------------------------------

/-- What holds of a registry after requests, and of what is asked of it next. -/
structure Catalog.Lasts [NativeModel R μ] (prior : List (CatalogRequest μ)) : Prop where
  /-- The two containers are those of the registry, and they answer what the registry answers. -/
  inStep : ((Registry.empty : Registry μ).after prior).catalog = empty.after prior ∧
    ∀ request, ((Registry.empty.after prior).carryOut request).map id Registry.catalog =
      (empty.after prior).carryOut request
  /-- No two classes have the same name. -/
  names : (empty.after prior).names.Nodup
  /-- The instance that native models start as is that of a class. -/
  factories : ∀ name fresh, (empty.after prior).factories name = some fresh →
    name ∈ (empty.after prior).names
  /-- Until the registry is cleared, all classes stay in their places, each with its instance. -/
  grows : ∀ more, .clear ∉ more → (empty.after prior).Extends (empty.after (prior ++ more))
  /-- What fails changes nothing. -/
  failed : ∀ request, ((empty.after prior).carryOut request).1 = .failed →
    ((empty.after prior).carryOut request).2 = empty.after prior
  /-- A request to load a text that holds no model file fails. -/
  fails : ∀ request text fallback, request.Loads text fallback → ModelFile.read? text = none →
    ((empty.after prior).carryOut request).1 = .failed
  /-- A request to load a model file succeeds. What the file brings comes to the end of the list, and is
  counted. -/
  loads : ∀ request text fallback file, request.Loads text fallback →
    ModelFile.read? text = some file → ∃ added, (empty.after prior).Brings file fallback added ∧
      (empty.after prior).carryOut request = (.loaded added.length,
        { empty.after prior with classes := (empty.after prior).classes ++ added })
  /-- Until the registry is cleared, the same model file brings nothing any more. -/
  again : ∀ request next text fallback fallback' file middle, request.Loads text fallback →
    next.Loads text fallback' → ModelFile.read? text = some file → .clear ∉ middle →
      (empty.after (prior ++ request :: middle)).carryOut next =
        (.loaded 0, empty.after (prior ++ request :: middle))
  /-- Until the registry is cleared, a block of a class that a file has brought can be added to every
  container of every workflow with that registry. It has the inputs and then the outputs of the class. -/
  inserts : ∀ request text fallback middle, request.Loads text fallback → .clear ∉ middle →
    ∀ row ∈ ((empty.after prior).carryOut request).2.classes, row ∉ (empty.after prior).classes →
      ∀ w : Workflow μ, w.Reachable → w.registry = Registry.empty.after (prior ++ request :: middle) →
        ∀ container ∈ w.blocks, container.kind.isContainer = true →
          ∃ id w' block, w.addModel container.id row.name = .ok (id, w') ∧
            w'.blocks.Perm (w.blocks ++ [block]) ∧ block.id = id ∧ block.name = row.name ∧
            block.kind = .model { className := row.name } ∧ row.declaration.Makes block.slots

/-- **A registry holds each class once, and only grows.** After all requests, class names are distinct
and instances stand under names of classes. Nothing goes or changes its place until the registry is
cleared, and a model file brings the classes that it declares and that are new, in the order of their
names. Blocks of these can be added everywhere. -/
theorem Catalog.lasts_of_requests [NativeModel R μ] (prior : List (CatalogRequest μ)) :
    Catalog.Lasts prior where
  inStep := by
    have hstep : ((Registry.empty : Registry μ).after prior).catalog = empty.after prior :=
      Registry.after_catalog ..
    exact ⟨hstep, fun request => hstep ▸ Registry.carryOut_catalog ..⟩
  names := (sound_empty.after prior).names
  factories := (sound_empty.after prior).factories
  grows more hclear := by
    rw [after_append]
    exact extends_after _ hclear
  failed request := unchanged_of_failed
  fails request text fallback hloads hnone := by
    rw [carryOut_of_loads hloads, load, hnone]
  loads request text fallback file hloads hread := by
    rw [carryOut_of_loads hloads]
    exact brings_load hread fallback
  again request next text fallback fallback' file middle hloads hnext hread hclear := by
    rw [after_append]
    exact carryOut_again hloads hnext hread hclear
  inserts request text fallback middle hloads hclear row hrow hnew w hw hregistry container hc hkind := by
    -- the class is one of those that the file has brought, so that its slots are named apart
    have hnodup : row.declaration.slotNames.Nodup := by
      rw [carryOut_of_loads hloads] at hrow
      cases hread : ModelFile.read? text with
      | none =>
        rw [load, hread] at hrow
        exact absurd hrow hnew
      | some file =>
        obtain ⟨added, hbrings, hload⟩ := @brings_load _ (empty.after prior) _ _ hread fallback
        rw [hload, List.mem_append] at hrow
        exact ((hbrings.mem row).mp (hrow.resolve_left hnew)).2.1
    have hcatalog : w.registry.catalog = empty.after (prior ++ request :: middle) := by
      rw [hregistry]
      exact Registry.after_catalog ..
    have hthere : row ∈ w.registry.catalog.classes := by
      rw [hcatalog, after_append, after_cons]
      exact (extends_after _ hclear).classes.subset hrow
    obtain ⟨modelClass, hfind, rfl⟩ := Registry.exists_find?_of_mem_catalog
      (hcatalog ▸ (sound_empty.after _).names) hthere
    exact hw.wellFormed.addModel_of_declared hfind hnodup hc hkind

/-- Two classes, and something that is none. -/
example : ((Registry.empty : Registry Unit).load?
    ("\x7b\"classes\": \x7b\"Pipe\": \x7b\"name\": \"\", \"inputs\": [], \"outputs\": []\x7d, " ++
      "\"unit\": 1, " ++
      "\"Heat\": \x7b\"name\": \"\", \"inputs\": [], \"outputs\": []\x7d\x7d\x7d") "models").map
      (fun loaded => (loaded.1, loaded.2.classes.map ModelClass.importStatement)) =
        some (2, ["from models import Heat", "from models import Pipe"]) := by
  decide +kernel

end SlotFlow
