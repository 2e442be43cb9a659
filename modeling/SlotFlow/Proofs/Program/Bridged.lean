import SlotFlow.Proofs.Program.Dispatched
/-!
# What a class does with its inputs and outputs

A class declares its inputs and outputs in its first method, takes in a value for an input by one method
and gives the value of an output by another one. All of these parts, and the lines that read an input,
are made by walks of their own over the workflow; they agree on the slots and on the members.

* `Workflow.Describes` — descriptions are those of some slots;
* `Workflow.TakesIn` — how the lines of a class treat the member for an input;
* `Workflow.Bridges` — the parts of a class agree.

## Results

* `Workflow.WellFormed.bridges` — the parts of a class agree.
-/

namespace SlotFlow

/-- Whether a line declares inputs or outputs. -/
def Line.declaresSlots : Line → Bool
  | .declareInputs _ | .declareOutputs _ => true
  | _ => false

namespace Workflow

variable {μ : Type} {w : Workflow μ} {options : ProgramOptions} {program init set get : Code}

/-- Descriptions are those of some slots, each of which is described once and in its place. -/
def Describes (slots : List Slot) (descriptions : List SlotDescription) : Prop :=
  descriptions.map (fun description =>
      (description.slot, description.name, description.type, description.objectId)) =
    slots.map fun slot => (slot.id, slot.name, slot.type, slot.objectId)

/-- The member for an input of a class: the first method gives it no value, and where the root is a
workflow still, everything that is linked to the input reads the member, and nothing else. -/
structure TakesIn (w : Workflow μ) (program init : Code) (slot : Slot) : Prop where
  named : slot.codeName = some slot.identifier
  initial : ∀ value, .assign slot.identifier value ∈ init.toList ↔ value = .none
  linked : w.root.kind = .workflow → ∀ link ∈ w.links, link.source = slot.id →
    ∀ time, w.readSlot link.target time = .member slot.id slot.identifier
  read : w.root.kind = .workflow → ∀ line ∈ program.toList, ∀ expr ∈ line.expressions,
    expr.source? = some slot.id → expr = .member slot.id slot.identifier

/-- The parts of a class that are about its inputs and outputs agree: what it declares, the arms of the
two methods, and the members for inputs. -/
structure Bridges (w : Workflow μ) (program init set get : Code) : Prop where
  inputIds : (w.inputSlots.map Slot.id).Nodup
  outputIds : (w.outputSlots.map Slot.id).Nodup
  members : (w.inputSlots.map Slot.identifier).Nodup
  inputs : Dispatches w.inputSlots (fun slot => .assign slot.identifier .argument) set
  outputs : Dispatches w.outputSlots
    (fun slot => .returnValue slot.id (w.readSlot slot.id (.named "time"))) get
  takesIn : ∀ slot ∈ w.inputSlots, w.TakesIn program init slot
  inputsDeclared : ∃ descriptions, Describes w.inputSlots descriptions ∧
    ∀ other, .declareInputs other ∈ init.toList ↔ other = descriptions
  outputsDeclared : ∃ descriptions, Describes w.outputSlots descriptions ∧
    ∀ other, .declareOutputs other ∈ init.toList ↔ other = descriptions

-- ---------------------------------------------------------------------------
-- The first method
-- ---------------------------------------------------------------------------

theorem describes_describe (w : Workflow μ) (slots : List Slot) : Describes slots (slots.map w.describe) := by
  rw [Describes, List.map_map]
  rfl

section Init

variable {setUp : Code} (hsetUp : w.setUpCode options w.tree = .ok setUp)

/-- The first method of a class, given the set-up of the blocks. -/
def initBody (w : Workflow μ) (options : ProgramOptions) (setUp : Code) : Code :=
  (Code.ofLines (w.openingLines options .component)).append setUp

theorem mem_initBody_of_opening {line : Line} (h : line ∈ w.openingLines options .component) :
    line ∈ (w.initBody options setUp).toList := by
  rw [initBody, Forest.toList_append, Code.toList_ofLines]
  exact List.mem_append_left _ h

include hsetUp

/-- What a line of the first method is. -/
theorem mem_initBody {line : Line} (h : line ∈ (w.initBody options setUp).toList) :
    line ∈ w.openingLines options .component ∨
      ∃ block ∈ w.blocks, line ∈ w.setUpLines options block := by
  rw [initBody, Forest.toList_append, Code.toList_ofLines, List.mem_append] at h
  exact h.imp_right (mem_setUpCode hsetUp)

/-- The first method declares the inputs and outputs of the workflow, and no others. -/
theorem declared_of_mem_initBody {line : Line} (h : line ∈ (w.initBody options setUp).toList)
    (hdeclares : line.declaresSlots = true) :
    line = .declareInputs (w.inputSlots.map w.describe) ∨
      line = .declareOutputs (w.outputSlots.map w.describe) := by
  rcases mem_initBody hsetUp h with hline | ⟨block, -, hline⟩
  · rw [openingLines, List.mem_cons, List.mem_append, metadataLines, inputSetUpLines,
      List.mem_flatMap] at hline
    rcases hline with rfl | hline | ⟨slot, -, hline⟩
    · cases hdeclares
    · simp only [List.mem_cons, List.not_mem_nil, or_false] at hline
      rcases hline with rfl | hline
      · cases hdeclares
      · exact hline
    · split at hline
      · cases hline
      · simp only [List.mem_cons, List.not_mem_nil, or_false] at hline
        rcases hline with rfl | rfl | rfl | rfl <;> cases hdeclares
  · rcases mem_setUpLines hline with rfl | ⟨text, rfl⟩ | ⟨value, -, rfl⟩ <;> cases hdeclares

theorem declareInputs_mem_initBody {descriptions : List SlotDescription} :
    .declareInputs descriptions ∈ (w.initBody options setUp).toList ↔
      descriptions = w.inputSlots.map w.describe := by
  constructor
  · intro h
    rcases declared_of_mem_initBody hsetUp h rfl with heq | heq
    · exact Line.declareInputs.inj heq
    · cases heq
  · rintro rfl
    exact mem_initBody_of_opening (by simp [openingLines, metadataLines])

theorem declareOutputs_mem_initBody {descriptions : List SlotDescription} :
    .declareOutputs descriptions ∈ (w.initBody options setUp).toList ↔
      descriptions = w.outputSlots.map w.describe := by
  constructor
  · intro h
    rcases declared_of_mem_initBody hsetUp h rfl with heq | heq
    · cases heq
    · exact Line.declareOutputs.inj heq
  · rintro rfl
    exact mem_initBody_of_opening (by simp [openingLines, metadataLines])

/-- The first method gives the member for an input no value, where names are told apart. -/
theorem assign_mem_initBody (hnames : w.codeNames.Nodup)
    (hblocks : ∀ block ∈ w.blocks, block.codeName.isSome = true) {slot : Slot}
    (hinput : slot ∈ w.inputSlots) (hsome : slot.codeName.isSome = true) {value : MemberValue} :
    .assign slot.identifier value ∈ (w.initBody options setUp).toList ↔ value = .none := by
  constructor
  · intro h
    exact (input_of_assigned hnames hblocks (mem_inputSlots.mp hinput).1 hsome
      (mem_initBody hsetUp h)).2
  · rintro rfl
    obtain ⟨name, hname⟩ := Option.isSome_iff_exists.mp hsome
    refine mem_initBody_of_opening (List.mem_cons_of_mem _ (List.mem_append_right _ ?_))
    refine List.mem_flatMap.mpr ⟨slot, hinput, ?_⟩
    rw [Slot.identifier, hname]
    simp

end Init

-- ---------------------------------------------------------------------------
-- Agreement
-- ---------------------------------------------------------------------------

namespace WellFormed

/-- What is linked to an input reads the member for it, if the root is a workflow. -/
theorem readSlot_of_link (h : w.WellFormed) (hroot : w.root.kind = .workflow) {slot : Slot}
    (hs : slot ∈ w.slots) (hext : slot.external = true) {link : Link} (hl : link ∈ w.links)
    (hsource : link.source = slot.id) (time : TimeExpr) :
    w.readSlot link.target time = .member slot.id slot.identifier := by
  rw [readSlot, h.partner?_target hl, hsource]
  exact h.provideSlot_border hroot hs hext time

/-- Every expression of a program that takes its value from an input reads the member for it, if the
root is a workflow. -/
theorem expression_of_source (h : w.WellFormed) (hroot : w.root.kind = .workflow)
    {form : ProgramForm} (hprogram : w.programCode options form = .ok program) {slot : Slot}
    (hs : slot ∈ w.slots) (hext : slot.external = true) {line : Line}
    (hline : line ∈ program.toList) {expr : Expr} (hexpr : expr ∈ line.expressions)
    (hsource : expr.source? = some slot.id) : expr = .member slot.id slot.identifier := by
  rcases provided_of_programCode hprogram line hline expr hexpr with rfl | ⟨source, time, rfl⟩
  · cases hsource
  · rw [← source?_provideSlot hsource]
    exact h.provideSlot_border hroot hs hext time

/-- No two inputs have the same member, where names are told apart. -/
theorem nodup_identifiers (hnames : w.codeNames.Nodup)
    (hslots : ∀ slot ∈ w.slots, slot.external = true → slot.codeName.isSome = true) :
    (w.inputSlots.map Slot.identifier).Nodup := by
  have hnamed : w.inputSlots.filterMap Slot.codeName = w.inputSlots.map Slot.identifier := by
    rw [← List.filterMap_eq_map]
    refine List.filterMap_congr fun slot hinput => ?_
    obtain ⟨hs, hext, -⟩ := mem_inputSlots.mp hinput
    obtain ⟨name, hname⟩ := Option.isSome_iff_exists.mp (hslots slot hs hext)
    rw [Function.comp_apply, Slot.identifier, hname, Option.getD_some]
  rw [codeNames, List.nodup_append] at hnames
  have hsub : w.inputSlots.Sublist w.slots := List.filter_sublist.trans List.filter_sublist
  rw [← hnamed]
  exact hnames.2.1.sublist (hsub.filterMap _)

/-- The lines of a class treat the member for an input as they should, where names are told apart. -/
theorem takesIn (h : w.WellFormed) (hnames : w.codeNames.Nodup)
    (hblocks : ∀ block ∈ w.blocks, block.codeName.isSome = true)
    (hslots : ∀ slot ∈ w.slots, slot.external = true → slot.codeName.isSome = true)
    (hprogram : w.programCode options .component = .ok program) {setUp : Code}
    (hsetUp : w.setUpCode options w.tree = .ok setUp) {slot : Slot} (hinput : slot ∈ w.inputSlots) :
    w.TakesIn program (w.initBody options setUp) slot := by
  obtain ⟨hs, hext, -⟩ := mem_inputSlots.mp hinput
  have hsome := hslots slot hs hext
  obtain ⟨name, hname⟩ := Option.isSome_iff_exists.mp hsome
  exact
    { named := by rw [Slot.identifier, hname, Option.getD_some]
      initial := fun _ => assign_mem_initBody hsetUp hnames hblocks hinput hsome
      linked := fun hroot _ hl => h.readSlot_of_link hroot hs hext hl
      read := fun hroot _ hline _ => h.expression_of_source hroot hprogram hs hext hline }

/-- The parts of a class agree, where names are told apart. -/
theorem bridges (h : w.WellFormed) (hnames : w.codeNames.Nodup)
    (hblocks : ∀ block ∈ w.blocks, block.codeName.isSome = true)
    (hslots : ∀ slot ∈ w.slots, slot.external = true → slot.codeName.isSome = true)
    (hprogram : w.programCode options .component = .ok program) :
    ∃ init set get, program.methodBody? .init = some init ∧ program.methodBody? .set = some set ∧
      program.methodBody? .get = some get ∧ w.Bridges program init set get := by
  obtain ⟨setUp, hsetUp, hinit⟩ := methodBody?_init_eq hprogram
  have hids : ∀ slots : List Slot, slots.Sublist w.slots → (slots.map Slot.id).Nodup :=
    fun _ hsub => h.slotIds.sublist (hsub.map _)
  exact ⟨w.initBody options setUp, _, _, hinit, methodBody?_set hprogram, methodBody?_get hprogram,
    { inputIds := hids _ (List.filter_sublist.trans List.filter_sublist)
      outputIds := hids _ (List.filter_sublist.trans List.filter_sublist)
      members := nodup_identifiers hnames hslots
      inputs := h.dispatches_set
      outputs := h.dispatches_get
      takesIn := fun _ => h.takesIn hnames hblocks hslots hprogram hsetUp
      inputsDeclared :=
        ⟨_, describes_describe w _, fun _ => declareInputs_mem_initBody hsetUp⟩
      outputsDeclared :=
        ⟨_, describes_describe w _, fun _ => declareOutputs_mem_initBody hsetUp⟩ }⟩

end WellFormed

end Workflow

end SlotFlow
