import SlotFlow.Proofs.Naming.Unnamed
import SlotFlow.Proofs.Program.Defined
/-!
# When a member is not set up

A time loop takes its times from the slots that have the names it is made with. If such a slot has
been replaced by one of the other direction, the time may come from an output of the workflow. The
program reads a member for that output then, and does not set it up. This is the only way in which a
program comes to read a member that it does not set up.

* `Workflow.ReadsDefined` — a program assigns every member that it reads, in its first method.

## Results

* `Workflow.KindsKept.readsDefined_iff` — when a program assigns every member that it reads;
* `Workflow.not_readsDefined_of_turned_slot` — a program that does not.
-/

namespace SlotFlow.Workflow

variable {μ : Type} {v w : Workflow μ} {options : ProgramOptions} {form : ProgramForm}

-- ---------------------------------------------------------------------------
-- Conditions before and after a naming pass
-- ---------------------------------------------------------------------------

theorem ValuesKept.of_unnamed (hw : w.ValuesKept) (h : v.unnamed = w.unnamed) : v.ValuesKept := by
  intro block hb hvalue
  obtain ⟨other, ho, hsame⟩ := exists_block_of_unnamed h hb
  have hkind := Block.kind_of_unnamed hsame
  have hslots : other.slots.map Slot.unnamed = block.slots.map Slot.unnamed :=
    congrArg Block.slots hsame
  have hkept := hw other ho (by rw [hkind]; exact hvalue)
  have hdata := congrArg (List.map fun slot : Slot => (slot.name, slot.kind)) hslots
  rw [List.map_map, List.map_map] at hdata
  rw [hkind] at hkept
  exact hdata.symm.trans hkept

theorem LoopsFedInside.of_unnamed (hw : w.LoopsFedInside) (h : v.unnamed = w.unnamed) :
    v.LoopsFedInside := by
  intro loop hloop hkind name hname slot hslot source hsource feeding hfeeding hext
  obtain ⟨other, ho, hsame⟩ := exists_block_of_unnamed h hloop
  obtain ⟨slot', hslot', hslots⟩ := Block.exists_slot_of_unnamed hsame.symm hslot
  obtain ⟨owned, howned, rfl⟩ := Option.map_eq_some_iff.mp hfeeding
  obtain ⟨owned', howned', hboth⟩ := exists_ownedSlot_of_unnamed h howned
  have hfed : owned'.slot.kind = owned.slot.kind :=
    Slot.kind_of_unnamed (congrArg OwnedSlot.slot hboth)
  have hpartner : w.partner? slot'.id = some source := by
    rw [Slot.id_of_unnamed hslots, partner?, ← links_of_unnamed h]
    exact hsource
  have hloopKind : other.kind.isTimeLoop = true := by
    rw [Block.kind_of_unnamed hsame]
    exact hkind
  have hdir := hw other ho hloopKind name hname slot' hslot' source
    hpartner owned'.slot (by rw [slot?, howned']; rfl) (by rw [Slot.external, hfed]; exact hext)
  rw [Slot.direction, hfed] at hdir
  exact hdir

theorem BorderFree.of_unnamed (hw : w.BorderFree) (h : v.unnamed = w.unnamed) : v.BorderFree := by
  intro slot hs hext
  obtain ⟨other, ho, hsame⟩ := exists_slot_of_unnamed h hs
  have hsameExternal : other.external = slot.external := by
    rw [Slot.external, Slot.kind_of_unnamed hsame, Slot.external]
  have hfree := hw other ho (hsameExternal.trans hext)
  rw [Slot.id_of_unnamed hsame, isLinked, ← links_of_unnamed h] at hfree
  exact hfree

-- ---------------------------------------------------------------------------
-- An output that is read
-- ---------------------------------------------------------------------------

/-- A program assigns every member that it reads, and does so in its first method. -/
def ReadsDefined (program init : Code) : Prop :=
  ∀ line ∈ program.toList, ∀ member ∈ line.membersRead, ∃ assignment ∈ init.toList,
    assignment.Assigns member

/-- What a slot on the border provides is what its member holds. -/
theorem WellFormed.provideSlot_border (h : w.WellFormed) (hroot : w.root.kind = .workflow)
    {slot : Slot} (hs : slot ∈ w.slots) (hext : slot.external = true) (time : TimeExpr) :
    w.provideSlot slot.id time = .member slot.id slot.identifier := by
  have howned : w.ownedSlot? slot.id = some ⟨w.root, slot⟩ :=
    h.ownedSlot?_eq_some.mpr ⟨w.root_mem_blocks, h.mem_root_of_external hs hext, rfl⟩
  rw [provideSlot, howned]
  dsimp only
  rw [hroot]
  dsimp only
  rw [if_pos hext]

/-- A time loop that is linked to a slot on the border reads the member for that slot. -/
theorem WellFormed.members_readNamed (h : w.WellFormed) (hroot : w.root.kind = .workflow)
    {loop : Block} {name : String} {slot feeding : Slot} {source : SlotId}
    (hslot : loop.slot? name = some slot) (hsource : w.partner? slot.id = some source)
    (hfeeding : w.slot? source = some feeding) (hext : feeding.external = true) (time : TimeExpr) :
    feeding.identifier ∈ (w.readNamed loop name time).members := by
  obtain ⟨owned, howned, rfl⟩ := Option.map_eq_some_iff.mp hfeeding
  obtain ⟨howner, hin, rfl⟩ := h.ownedSlot?_eq_some.mp howned
  rw [readNamed, hslot]
  show _ ∈ (w.readSlot slot.id time).members
  rw [readSlot, hsource]
  show _ ∈ (w.provideSlot owned.slot.id time).members
  rw [h.provideSlot_border hroot (mem_slots.mpr ⟨owned.owner, howner, hin⟩) hext]
  exact List.mem_singleton_self _

/-- Some line of a time loop reads what one of its times is taken from. -/
theorem exists_line_reading (options : ProgramOptions) {loop : Block} {name : String}
    {models : List Block} {time : TimeExpr}
    (hname : name ∈ [BlockKind.startTimeSlot, BlockKind.targetTimeSlot, BlockKind.maxStepSlot])
    {slot : Slot} {source : SlotId} (hslot : loop.slot? name = some slot)
    (hsource : w.partner? slot.id = some source) {member : String}
    (hmember : member ∈ (w.readNamed loop name time).members) :
    ∃ line ∈ (w.loopCode options loop time (w.stepSources loop models time) .nil).toList,
      member ∈ line.membersRead := by
  rw [toList_loopCode_nil]
  simp only [List.mem_cons, List.not_mem_nil, or_false] at hname
  rcases hname with rfl | rfl | rfl
  · exact ⟨.setStart loop.identifier _, by simp, hmember⟩
  · exact ⟨.setTarget loop.identifier _, by simp, hmember⟩
  · refine ⟨.setLength loop.identifier (w.stepSources loop models time), by simp, ?_⟩
    have hlinked : w.isNamedLinked loop BlockKind.maxStepSlot = true := by
      rw [isNamedLinked, hslot]
      exact (isLinked_of_partner? hsource).1
    refine List.mem_flatMap.mpr ⟨.value (w.readNamed loop BlockKind.maxStepSlot time), ?_, hmember⟩
    rw [stepSources, if_pos hlinked]
    exact List.mem_append_left _ (List.mem_singleton_self _)

/-- The code of the blocks stands in the method that executes the workflow. -/
theorem mem_solveMethod (form : ProgramForm) {blocks : Code} {line : Line}
    (h : line ∈ blocks.toList) : line ∈ (solveMethod form blocks).toList := by
  cases form with
  | component =>
    rw [solveMethod, Code.toList_block, Code.orPass]
    split
    · exact List.mem_cons_of_mem _ h
    · rw [Forest.toList_append]
      exact List.mem_cons_of_mem _ (List.mem_append_left _ h)
  | execution =>
    rw [solveMethod, Code.toList_block, Forest.toList_append]
    exact List.mem_cons_of_mem _ (List.mem_append_left _ h)

/-- A block goes by another name than a slot, where names are told apart. -/
theorem identifier_ne_of_block (hnames : w.codeNames.Nodup)
    (hblocks : ∀ block ∈ w.blocks, block.codeName.isSome = true) {slot : Slot} (hs : slot ∈ w.slots)
    (hsome : slot.codeName.isSome = true) {block : Block} (hb : block ∈ w.blocks) :
    block.identifier ≠ slot.identifier := by
  obtain ⟨name, hname⟩ := Option.isSome_iff_exists.mp hsome
  obtain ⟨own, hown⟩ := Option.isSome_iff_exists.mp (hblocks block hb)
  rw [codeNames, List.nodup_append] at hnames
  obtain ⟨-, -, hapart⟩ := hnames
  rw [Block.identifier, hown, Slot.identifier, hname]
  exact hapart own (List.mem_filterMap.mpr ⟨block, hb, hown⟩) name
    (List.mem_filterMap.mpr ⟨slot, hs, hname⟩)

/-- The first method assigns the member for a slot only if the slot is an input of the workflow, and
gives it no value, where names are told apart. -/
theorem input_of_assigned (hnames : w.codeNames.Nodup)
    (hblocks : ∀ block ∈ w.blocks, block.codeName.isSome = true) {slot : Slot} (hs : slot ∈ w.slots)
    (hsome : slot.codeName.isSome = true) {value : MemberValue}
    (h : Line.assign slot.identifier value ∈ w.openingLines options form ∨
      ∃ block ∈ w.blocks, Line.assign slot.identifier value ∈ w.setUpLines options block) :
    slot ∈ w.inputSlots ∧ value = .none := by
  obtain ⟨name, hname⟩ := Option.isSome_iff_exists.mp hsome
  rcases h with hline | ⟨block, hb, hline⟩
  · have hopens := opens_of_mem hline
    rw [Slot.identifier, hname] at hopens
    cases hopens with
    | @input other _ hinput hown =>
      rw [codeNames, List.nodup_append] at hnames
      have hsame := eq_of_nodup_filterMap hnames.2.1 (mem_inputSlots.mp hinput).1 hs hown hname
      exact ⟨hsame ▸ hinput, rfl⟩
  · rcases mem_setUpLines hline with heq | ⟨text, heq⟩ | ⟨value', -, heq⟩
    · cases heq
    · cases heq
    · exact absurd (Line.assign.inj heq).1.symm (identifier_ne_of_block hnames hblocks hs hsome hb)

/-- A program that assigns every member that it reads takes no time from an output of the
workflow. -/
theorem loopsFedInside_of_readsDefined (h : w.WellFormed) (hs : w.Shaped)
    (hnames : w.codeNames.Nodup) (hblocks : ∀ block ∈ w.blocks, block.codeName.isSome = true)
    (hslots : ∀ slot ∈ w.slots, slot.external = true → slot.codeName.isSome = true)
    {program init : Code} (hprogram : w.programCode options form = .ok program)
    (hinit : init.toList =
      w.openingLines options form ++ w.tree.toList.flatMap (w.setUpLines options))
    (hreads : ReadsDefined program init) : w.LoopsFedInside := by
  intro loop hloop hkind name hname slot hslot source hsource feeding hfeeding hext
  by_contra hno
  have hdir : feeding.direction = .input := by
    cases hd : feeding.direction with
    | input => rfl
    | output => exact absurd hd hno
  have hfeed : feeding ∈ w.slots := by
    obtain ⟨owned, howned, rfl⟩ := Option.map_eq_some_iff.mp hfeeding
    obtain ⟨howner, hin, -⟩ := h.ownedSlot?_eq_some.mp howned
    exact mem_slots.mpr ⟨owned.owner, howner, hin⟩
  obtain ⟨below, hsub⟩ : ∃ below, (loop, below) ∈ w.tree.subtrees := by
    rw [blocks, ← Forest.map_fst_subtrees, List.mem_map] at hloop
    obtain ⟨⟨block, below⟩, htree, rfl⟩ := hloop
    exact ⟨below, htree⟩
  obtain ⟨setUp, execution, -, hexecution, rfl⟩ := programCode_eq_ok hprogram
  obtain ⟨time, htime⟩ := loopCode_subset_executionCode hexecution hs.nested hsub
    (BlockKind.isTimeLoop_iff.mp hkind)
  obtain ⟨line, hline, hmember⟩ := exists_line_reading options hname hslot hsource
    (h.members_readNamed hs.root hslot hsource hfeeding hext time)
  have hin := mem_solveMethod form (htime hline)
  obtain ⟨assignment, hassignment, hassigns⟩ := hreads line (by
    simp only [Code.toList_concat, List.flatMap_cons, List.flatMap_nil, List.append_nil,
      Code.toList_block, Forest.toList_append, List.mem_append, List.mem_cons, spaced,
      List.map_append, List.flatMap_append, List.map_cons, List.map_nil]
    simp [hin]) feeding.identifier hmember
  obtain ⟨value, rfl⟩ := hassigns
  rw [hinit, List.mem_append, List.mem_flatMap] at hassignment
  obtain ⟨hinput, -⟩ :=
    input_of_assigned hnames hblocks hfeed (hslots feeding hfeed hext) hassignment
  rw [(mem_inputSlots.mp hinput).2.2.1] at hdir
  cases hdir

-- ---------------------------------------------------------------------------
-- Generated programs
-- ---------------------------------------------------------------------------

namespace KindsKept

/-- A generated program that assigns every member that it reads takes no time from an output of the
workflow. -/
theorem loopsFedInside (h : w.KindsKept) {program init : Code}
    (hprogram : w.assignNames.programCode options form = .ok program)
    (hinit : program.methodBody? .init = some init) (hreads : ReadsDefined program init) :
    w.LoopsFedInside := by
  obtain ⟨hblocks, hslots⟩ := w.named_assignNames
  obtain ⟨init', hinit', hlines, -⟩ := methodBody?_init hprogram h.named.shaped
  rw [hinit] at hinit'
  cases hinit'
  exact (loopsFedInside_of_readsDefined h.named.reachable.wellFormed h.named.shaped
    h.named.reachable.namedApart.nodup hblocks hslots hprogram hlines hreads).of_unnamed
      w.unnamed_assignNames.symm

/-- **When the members of a program are set up.** Take a workflow in which no block's kind has been
edited and every value has exactly the slot that it is made with. If there is a program for it, and the
program is a class or no slot on the border is linked, then the first method of the program reads no
member, and it assigns every member that a line of the program reads or calls exactly if no time loop
takes an output of the workflow for one of its times. -/
theorem readsDefined_iff (h : w.KindsKept) (hvalues : w.ValuesKept)
    (hborder : form = .execution → w.BorderFree) {lines : List String}
    (hg : (w.generate options form).1 = .ok lines) :
    ∃ program init, w.assignNames.programCode options form = .ok program ∧ lines = program.lines ∧
      program.methodBody? .init = some init ∧ (∀ line ∈ init.toList, line.membersRead = []) ∧
      (ReadsDefined program init ↔ w.LoopsFedInside) := by
  obtain ⟨program, hprogram, rfl⟩ := generate_eq_ok hg
  obtain ⟨init, hinit, hlines, hreads⟩ := methodBody?_init hprogram h.named.shaped
  refine ⟨program, init, hprogram, rfl, hinit, hreads, ?_, fun hloops => ?_⟩
  · exact h.loopsFedInside hprogram hinit
  · have hsame := w.unnamed_assignNames
    have hcontained : w.assignNames.SelfContained form :=
      { wellFormed := h.named.reachable.wellFormed
        shaped := h.named.shaped
        values := hvalues.of_unnamed hsame
        loops := hloops.of_unnamed hsame
        border := fun hform => (hborder hform).of_unnamed hsame }
    intro line hline member hmember
    exact assigned_of_supplied hlines w.named_assignNames.2
      (hcontained.supplied_of_programCode hprogram line hline member hmember)

end KindsKept

/-- A time loop whose steps are limited by a constant. -/
theorem readsDefined_of_constant :
    ∃ (w : Workflow Unit) (program init : Code),
      w.assignNames.programCode {} .component = .ok program ∧
      program.methodBody? .init = some init ∧ ReadsDefined program init := by
  have hconstant := @KindsKept.edited Unit _ _ (.addBlock rootId (.constant (.quantity 1 "s")) none) _
    (.new "uid-" "Plan" .empty) rfl nofun
  have hloop := @KindsKept.edited Unit _ _ (.addBlock rootId .timeLoop none) _ hconstant rfl nofun
  have hlinked := @KindsKept.edited Unit _ _ (.connect ⟨2⟩ ⟨6⟩ none) _ hloop rfl nofun
  obtain ⟨program, init, hprogram, -, hinit, -, hdefined⟩ :=
    @hlinked.readsDefined_iff Unit _ {} .component (by decide +kernel) nofun _ rfl
  exact ⟨_, program, init, hprogram, hinit, hdefined.mpr (by decide +kernel)⟩

/-- A program that reads a member that it does not set up. The slot for the start of a time loop has
been removed, and in its place there is an output of that name, which is linked to an output of the
workflow. -/
theorem not_readsDefined_of_turned_slot :
    ∃ (w : Workflow Unit) (program init : Code), w.KindsKept ∧ w.ValuesKept ∧
      w.assignNames.programCode {} .component = .ok program ∧
      "\t\ttimeloop_1_time = self.external_output_1" ∈ program.lines ∧
      program.methodBody? .init = some init ∧ ¬ReadsDefined program init := by
  have hloop := @KindsKept.edited Unit _ _ (.addBlock rootId .timeLoop none) _
    (.new "uid-" "Plan" .empty) rfl nofun
  have hgone := @KindsKept.edited Unit _ _ (.removeSlot ⟨2⟩) _ hloop rfl nofun
  have hturned := @KindsKept.edited Unit _ _ (.addSlot ⟨1⟩ ⟨"start_time", .physicalQuantity,
    ⟨.output, false⟩, false, none, .default, none⟩) _ hgone rfl nofun
  have hinput := @KindsKept.edited Unit _ _ (.addSlot rootId ⟨"step", .physicalQuantity,
    ⟨.output, true⟩, false, none, .default, none⟩) _ hturned rfl nofun
  have houtput := @KindsKept.edited Unit _ _ (.addSlot rootId ⟨"began", .physicalQuantity,
    ⟨.input, true⟩, false, none, .default, none⟩) _ hinput rfl nofun
  have hstep := @KindsKept.edited Unit _ _ (.connect ⟨4⟩ ⟨6⟩ none) _ houtput rfl nofun
  have hstart := @KindsKept.edited Unit _ _ (.connect ⟨5⟩ ⟨7⟩ none) _ hstep rfl nofun
  refine ⟨_, _, _, hstart, by decide +kernel, rfl, by decide +kernel, rfl, fun hreads => ?_⟩
  exact absurd (hstart.loopsFedInside rfl rfl hreads) (by decide +kernel)

end SlotFlow.Workflow
