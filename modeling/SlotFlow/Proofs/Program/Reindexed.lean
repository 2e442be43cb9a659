import SlotFlow.Proofs.Naming.Reindexed
import SlotFlow.Proofs.Program.Defined
import SlotFlow.Proofs.Program.Texts
/-!
# Programs do not show the numbers of elements

The program of a workflow names blocks and slots by their identifiers and finds its way by links. If
the elements are numbered anew and keep their identifiers, each part of the program reads as before:
the expressions, the code of a block, the methods, and the program as a whole.

## Results

* `Workflow.Reindexes.texts_executionCode`, `Workflow.Reindexes.texts_setUpCode` — the code of the
  blocks reads as before;
* `Workflow.Reindexes.generate_eq` — the program is the same, and so is the reason if there is none.
-/

namespace SlotFlow

namespace Workflow

variable {μ : Type} {ρ : Renumbering} {w w' : Workflow μ} {options : ProgramOptions}
  {form : ProgramForm}

theorem identifier_reindex (ρ : Renumbering) (block : Block) :
    (block.reindex ρ).identifier = block.identifier := rfl

/-- What a slot is linked to is a slot. -/
theorem WellFormed.exists_slot_of_mem_partners (h : w.WellFormed) {id other : SlotId}
    (ho : other ∈ w.partners id) : ∃ slot ∈ w.slots, slot.id = other := by
  obtain ⟨link, hl, hother⟩ := List.mem_filterMap.mp ho
  obtain ⟨source, hsource, hsid, -⟩ := h.links.source link hl
  obtain ⟨target, htarget, htid, -⟩ := h.links.target link hl
  unfold Link.otherEnd? at hother
  split at hother
  · exact ⟨target, htarget, htid.trans (Option.some.inj hother)⟩
  · split at hother
    · exact ⟨source, hsource, hsid.trans (Option.some.inj hother)⟩
    · cases hother

theorem WellFormed.exists_slot_of_partner? (h : w.WellFormed) {id other : SlotId}
    (ho : w.partner? id = some other) : ∃ slot ∈ w.slots, slot.id = other := by
  rw [partner?, ← List.head?_filterMap] at ho
  exact h.exists_slot_of_mem_partners (List.mem_of_mem_head? ho)

namespace Reindexes

variable (h : Reindexes ρ w w')

include h

-- ---------------------------------------------------------------------------
-- Expressions
-- ---------------------------------------------------------------------------

theorem text_provideSlot {slot : Slot} (hs : slot ∈ w.slots) (time : TimeExpr) :
    (w'.provideSlot (ρ.slot slot.id) time).text = (w.provideSlot slot.id time).text := by
  rw [provideSlot, h.ownedSlot?_eq hs, provideSlot]
  cases w.ownedSlot? slot.id with
  | none => rfl
  | some owned =>
    simp only [Option.map_some, OwnedSlot.reindex, Block.reindex]
    cases owned.owner.kind with
    | workflow =>
      show Expr.text (if owned.slot.external then _ else _) =
        Expr.text (if owned.slot.external then _ else _)
      split <;> rfl
    | _ => rfl

theorem text_readSlot {slot : Slot} (hs : slot ∈ w.slots) (time : TimeExpr) :
    (w'.readSlot (ρ.slot slot.id) time).text = (w.readSlot slot.id time).text := by
  rw [readSlot, h.partner?_eq hs, readSlot]
  cases hp : w.partner? slot.id with
  | none => rfl
  | some source =>
    obtain ⟨feeding, hf, rfl⟩ := h.wellFormed.exists_slot_of_partner? hp
    exact h.text_provideSlot hf time

section OneBlock

variable {block : Block} (hb : block ∈ w.blocks)

include hb

omit h in
theorem mem_slots_of_slot? {name : String} {slot : Slot} (hs : block.slot? name = some slot) :
    slot ∈ w.slots :=
  mem_slots.mpr ⟨block, hb, List.mem_of_find?_eq_some hs⟩

theorem text_readNamed (name : String) (time : TimeExpr) :
    (w'.readNamed (block.reindex ρ) name time).text = (w.readNamed block name time).text := by
  rw [readNamed, Block.slot?_reindex, readNamed]
  cases hslot : block.slot? name with
  | none => rfl
  | some slot => exact h.text_readSlot (mem_slots_of_slot? hb hslot) time

theorem isNamedLinked_eq (name : String) :
    w'.isNamedLinked (block.reindex ρ) name = w.isNamedLinked block name := by
  rw [isNamedLinked, Block.slot?_reindex, isNamedLinked]
  cases hslot : block.slot? name with
  | none => rfl
  | some slot => exact h.isLinked_eq (mem_slots_of_slot? hb hslot)

-- ---------------------------------------------------------------------------
-- Blocks
-- ---------------------------------------------------------------------------

theorem map_text_setUpLines :
    (w'.setUpLines options (block.reindex ρ)).map Line.text =
      (w.setUpLines options block).map Line.text := by
  rw [setUpLines, setUpLines, h.isNamedLinked_eq hb]
  simp only [Block.reindex]
  cases block.kind with
  | constant | named => cases w.isNamedLinked block BlockKind.valueSlot <;> rfl
  | _ => rfl

theorem text_inputLine? {slot : Slot} (hs : slot ∈ block.slots) (scope : CodeScope) :
    (w'.inputLine? (block.reindex ρ) scope (slot.reindex ρ)).map Line.text =
      (w.inputLine? block scope slot).map Line.text := by
  have hin : slot ∈ w.slots := mem_slots.mpr ⟨block, hb, hs⟩
  have hdirection : (slot.reindex ρ).direction = slot.direction := rfl
  have hpartner : w'.partner? (slot.reindex ρ).id = (w.partner? slot.id).map ρ.slot :=
    h.partner?_eq hin
  rw [inputLine?, hdirection, hpartner, inputLine?]
  split
  · cases hp : w.partner? slot.id with
    | none => rfl
    | some source =>
      obtain ⟨feeding, hf, rfl⟩ := h.wellFormed.exists_slot_of_partner? hp
      exact congrArg some (Line.text_setInput_congr (h.text_provideSlot hf scope.time))
  · rfl

theorem map_text_executionLines (scope : CodeScope) :
    (w'.executionLines (block.reindex ρ) scope).map Line.text =
      (w.executionLines block scope).map Line.text := by
  have hinputs : ((block.reindex ρ).slots.filterMap (w'.inputLine? (block.reindex ρ) scope)).map
        Line.text =
      (block.slots.filterMap (w.inputLine? block scope)).map Line.text := by
    rw [show (block.reindex ρ).slots = block.slots.map (Slot.reindex ρ) from rfl,
      List.filterMap_map, List.map_filterMap, List.map_filterMap]
    exact List.filterMap_congr fun slot hs => h.text_inputLine? hb hs scope
  have hkind : (block.reindex ρ).kind = block.kind := rfl
  rw [executionLines, executionLines, h.isNamedLinked_eq hb, hkind]
  cases block.kind with
  | model =>
    simp only [modelLines, List.map_append, hinputs]
    rfl
  | named =>
    dsimp only
    split
    · have hassign := Line.text_assign_congr block.identifier
        (h.text_readNamed hb BlockKind.valueSlot scope.time)
      rw [List.map_append, List.map_append, List.map_singleton, List.map_singleton,
        identifier_reindex, hassign]
      rfl
    · rfl
  | _ => rfl

/-- The limits of the steps of a time loop read as before. -/
theorem map_text_stepSources (models : List Block) (time : TimeExpr) :
    (w'.stepSources (block.reindex ρ) (models.map (Block.reindex ρ)) time).map StepSource.text =
      (w.stepSources block models time).map StepSource.text := by
  rw [stepSources, stepSources, h.isNamedLinked_eq hb, List.map_append, List.map_append,
    List.map_map, List.map_map, List.map_map]
  refine congrArg₂ _ ?_ rfl
  split
  · simp only [List.map_cons, List.map_nil, StepSource.text, h.text_readNamed hb]
  · rfl

theorem texts_loopCode {sources sources' : List StepSource} {children children' : Code}
    (time : TimeExpr) (hsources : sources'.map StepSource.text = sources.map StepSource.text)
    (hchildren : children'.texts = children.texts) :
    (w'.loopCode options (block.reindex ρ) time sources' children').texts =
      (w.loopCode options block time sources children).texts := by
  have hstart := Line.text_setStart_congr block.identifier
    (h.text_readNamed hb BlockKind.startTimeSlot time)
  have htarget := Line.text_setTarget_congr block.identifier
    (h.text_readNamed hb BlockKind.targetTimeSlot time)
  have hlength := Line.text_setLength_congr block.identifier hsources
  refine Code.texts_append_congr (Code.texts_ofLines_congr ?_) (Code.texts_block_congr rfl ?_)
  · simp only [List.map_append, List.map_cons, identifier_reindex, hstart, htarget]
    rfl
  · have hbegin : [Line.countStep block.identifier, .blank, .setLength block.identifier sources',
          .advanceTime block.identifier, .blank].map Line.text =
        [Line.countStep block.identifier, .blank, .setLength block.identifier sources,
          .advanceTime block.identifier, .blank].map Line.text := by
      simp only [List.map_cons, hlength]
    refine Code.texts_concat_congr ?_
    simp only [List.map_cons, List.map_nil, identifier_reindex, hchildren,
      Code.texts_ofLines_congr hbegin]

end OneBlock

/-- The code that sets blocks up reads as before. -/
theorem texts_setUpCode (options : ProgramOptions) {forest : Forest Block}
    (hin : ∀ block ∈ forest.toList, block ∈ w.blocks) :
    (w'.setUpCode options (forest.map (Block.reindex ρ))).map Code.texts =
      (w.setUpCode options forest).map Code.texts := by
  induction forest with
  | nil => rfl
  | node block below after ihBelow ihAfter =>
    have hbelow := ihBelow fun b hb =>
      hin b (List.mem_cons_of_mem _ (List.mem_append_left _ hb))
    have hafter := ihAfter fun b hb =>
      hin b (List.mem_cons_of_mem _ (List.mem_append_right _ hb))
    have hkind : (block.reindex ρ).kind = block.kind := rfl
    have hown : (Code.ofLines (w'.setUpLines options (block.reindex ρ))).texts =
        (Code.ofLines (w.setUpLines options block)).texts :=
      Code.texts_ofLines_congr (h.map_text_setUpLines (hin block List.mem_cons_self))
    rw [Forest.map, setUpCode, setUpCode, hkind]
    cases block.kind with
    | ifElse => rfl
    | workflow | sequential | timeLoop => exact Code.map_texts_append_congr hbelow hafter
    | _ => exact Code.map_texts_append_congr (Code.map_texts_ok hown) hafter

/-- The code that executes blocks reads as before. -/
theorem texts_executionCode (options : ProgramOptions) {forest : Forest Block}
    (hin : ∀ block ∈ forest.toList, block ∈ w.blocks) (scope : CodeScope) :
    (w'.executionCode options (forest.map (Block.reindex ρ)) scope).map Code.texts =
      (w.executionCode options forest scope).map Code.texts := by
  induction forest generalizing scope with
  | nil => rfl
  | node block below after ihBelow ihAfter =>
    have hbelow := ihBelow fun b hb =>
      hin b (List.mem_cons_of_mem _ (List.mem_append_left _ hb))
    have hafter := ihAfter (fun b hb =>
      hin b (List.mem_cons_of_mem _ (List.mem_append_right _ hb))) scope
    have hb := hin block List.mem_cons_self
    have hkind : (block.reindex ρ).kind = block.kind := rfl
    have hown := Code.texts_ofLines_congr (h.map_text_executionLines hb scope)
    rw [Forest.map, executionCode, executionCode, hkind]
    cases block.kind with
    | ifElse => rfl
    | workflow | sequential => exact Code.map_texts_append_congr (hbelow scope) hafter
    | timeLoop =>
      have hmodels : ((below.map (Block.reindex ρ)).toList.filter Block.isModel) =
          (below.toList.filter Block.isModel).map (Block.reindex ρ) := by
        rw [Forest.toList_map, List.filter_map]
        rfl
      have hsources := h.map_text_stepSources hb (below.toList.filter Block.isModel) scope.time
      rw [← hmodels] at hsources
      have hempty := congrArg List.isEmpty hsources
      rw [List.isEmpty_map, List.isEmpty_map] at hempty
      dsimp only
      rw [hempty]
      split
      · rfl
      · obtain ⟨error, hfails, hfailed⟩ | ⟨children', children, hchildren', hchildren, hsame⟩ :=
          Code.cases_of_map_texts (hbelow (loopScope block.identifier))
        · rw [identifier_reindex, hfails, hfailed]
          rfl
        · rw [identifier_reindex, hchildren', hchildren]
          exact Code.map_texts_append_congr
            (Code.map_texts_ok (h.texts_loopCode hb scope.time hsources hsame)) hafter
    | _ => exact Code.map_texts_append_congr (Code.map_texts_ok hown) hafter

-- ---------------------------------------------------------------------------
-- Inputs and outputs
-- ---------------------------------------------------------------------------

theorem inputSlots_eq : w'.inputSlots = w.inputSlots.map (Slot.reindex ρ) := by
  rw [inputSlots, borderSlots, h.slots_eq, inputSlots, borderSlots, List.filter_map, List.filter_map]
  refine congrArg _ (List.filter_congr fun slot hs => ?_)
  exact h.isLinked_eq (List.mem_of_mem_filter hs)

theorem outputSlots_eq : w'.outputSlots = w.outputSlots.map (Slot.reindex ρ) := by
  rw [outputSlots, borderSlots, h.slots_eq, outputSlots, borderSlots, List.filter_map,
    List.filter_map]
  refine congrArg _ (List.filter_congr fun slot hs => ?_)
  exact h.isLinked_eq (List.mem_of_mem_filter hs)

omit h in
theorem mem_slots_of_border {direction : Direction} {p : Slot → Bool} {slot : Slot}
    (hs : slot ∈ (w.borderSlots direction).filter p) : slot ∈ w.slots :=
  List.mem_of_mem_filter (List.mem_of_mem_filter hs)

theorem text_describe {slot : Slot} (hs : slot ∈ w.slots) :
    (w'.describe (slot.reindex ρ)).text = (w.describe slot).text := by
  have hlinked : (w'.partners (ρ.slot slot.id)).filterMap w'.slot? =
      ((w.partners slot.id).filterMap w.slot?).map (Slot.reindex ρ) := by
    rw [h.partners_eq hs, List.filterMap_map, List.map_filterMap]
    refine List.filterMap_congr fun id hid => ?_
    obtain ⟨other, ho, rfl⟩ := h.wellFormed.exists_slot_of_mem_partners hid
    exact h.slot?_eq ho
  have hdescribe : w'.describe (slot.reindex ρ) =
      { w.describe slot with slot := ρ.slot slot.id } := by
    rw [describe, describe, show (slot.reindex ρ).id = ρ.slot slot.id from rfl, hlinked]
    simp only [List.all_map, List.findSome?_map]
    rfl
  rw [hdescribe]
  rfl

/-- The lines at the start of the first method read as before. -/
theorem map_text_openingLines :
    (w'.openingLines options form).map Line.text = (w.openingLines options form).map Line.text := by
  have hsetUp : w'.inputSetUpLines = w.inputSetUpLines := by
    rw [inputSetUpLines, h.inputSlots_eq, List.flatMap_map]
    rfl
  have hinputs : (w'.inputSlots.map w'.describe).map SlotDescription.text =
      (w.inputSlots.map w.describe).map SlotDescription.text := by
    rw [h.inputSlots_eq, List.map_map, List.map_map, List.map_map]
    exact List.map_congr_left fun slot hs => h.text_describe (mem_slots_of_border hs)
  have houtputs : (w'.outputSlots.map w'.describe).map SlotDescription.text =
      (w.outputSlots.map w.describe).map SlotDescription.text := by
    rw [h.outputSlots_eq, List.map_map, List.map_map, List.map_map]
    exact List.map_congr_left fun slot hs => h.text_describe (mem_slots_of_border hs)
  cases form with
  | execution => rfl
  | component =>
    simp only [openingLines, metadataLines, hsetUp, List.map_cons, List.map_append,
      Line.text_declareInputs_congr hinputs, Line.text_declareOutputs_congr houtputs]

omit h in
/-- Questions for slots read as before if the answers do. -/
theorem texts_choices {slots : List Slot} {answer answer' : Slot → Line}
    (hanswer : ∀ slot ∈ slots, (answer' (slot.reindex ρ)).text = (answer slot).text) :
    (choices (slots.map (Slot.reindex ρ)) answer').texts = (choices slots answer).texts := by
  have hgroups : groupByType (slots.map (Slot.reindex ρ)) =
      (groupByType slots).map fun group => (group.1, group.2.map (Slot.reindex ρ)) := by
    rw [groupByType, groupByType, List.filter_map, List.filter_map, List.map_map]
    simp only [List.filter_map, Function.comp_def, List.isEmpty_map]
    rfl
  rw [choices, choices, hgroups, List.map_map]
  refine Code.texts_concat_congr ?_
  rw [List.map_map, List.map_map]
  refine List.map_congr_left fun group hgroup => ?_
  have hin : ∀ slot ∈ group.2, slot ∈ slots := by
    obtain ⟨type, -, rfl⟩ := List.mem_map.mp (List.mem_of_mem_filter hgroup)
    exact fun slot hs => List.mem_of_mem_filter hs
  rw [Function.comp_apply, Function.comp_apply, Function.comp_apply, Code.texts_append,
    Code.texts_append]
  refine congrArg _ (Code.texts_concat_congr ?_)
  rw [List.map_map, List.map_map, List.map_map]
  refine List.map_congr_left fun slot hs => ?_
  refine Code.texts_block_congr rfl (Code.texts_ofLines_congr ?_)
  rw [List.map_cons, List.map_cons, hanswer slot (hin slot hs)]

-- ---------------------------------------------------------------------------
-- Methods
-- ---------------------------------------------------------------------------

theorem models_eq : w'.models = w.models.map (Block.reindex ρ) := by
  rw [models, h.body, Forest.toList_map, List.filter_map]
  rfl

theorem texts_criticalMethod : w'.criticalMethod.texts = w.criticalMethod.texts := by
  have hmodels : w'.body.roots.filter Block.isModel =
      (w.body.roots.filter Block.isModel).map (Block.reindex ρ) := by
    rw [h.body, Forest.roots_map, List.filter_map]
    rfl
  rw [criticalMethod, criticalMethod, hmodels, List.isEmpty_map, List.map_map]
  refine Code.texts_block_congr rfl (Code.texts_ofLines_congr ?_)
  split
  · rfl
  · exact congrArg ([·]) (Line.text_returnCritical_congr (by rw [List.map_map, List.map_map]; rfl))

theorem texts_terminateMethod : w'.terminateMethod.texts = w.terminateMethod.texts := by
  rw [terminateMethod, terminateMethod, h.models_eq, List.isEmpty_map, List.map_map]
  refine Code.texts_block_congr rfl (Code.texts_ofLines_congr ?_)
  split
  · rfl
  · rw [List.map_map, List.map_map]
    rfl

theorem texts_setMethod : w'.setMethod.texts = w.setMethod.texts := by
  rw [setMethod, setMethod, h.inputSlots_eq, List.isEmpty_map]
  refine Code.texts_append_congr rfl (Code.texts_block_congr rfl ?_)
  split
  · rfl
  · exact texts_choices fun slot _ => rfl

theorem texts_getMethod : w'.getMethod.texts = w.getMethod.texts := by
  have hbody : (choices w'.outputSlots fun slot =>
        .returnValue slot.id (w'.readSlot slot.id (.named "time"))).texts =
      (choices w.outputSlots fun slot =>
        .returnValue slot.id (w.readSlot slot.id (.named "time"))).texts := by
    rw [h.outputSlots_eq]
    exact texts_choices fun slot hs =>
      Line.text_returnValue_congr (h.text_readSlot (mem_slots_of_border hs) (.named "time"))
  exact Code.texts_append_congr rfl
    (Code.texts_block_congr rfl (Code.texts_append_congr hbody rfl))

-- ---------------------------------------------------------------------------
-- Programs
-- ---------------------------------------------------------------------------

theorem importLines_eq : w'.importLines options = w.importLines options := by
  have hclasses : w'.usedClasses = w.usedClasses := by
    rw [usedClasses, usedClasses, h.models_eq, List.filterMap_map]
    rfl
  rw [importLines, importLines, hclasses, h.registry]

omit h in
theorem texts_spaced_congr {parts parts' : List Code}
    (hparts : parts'.map Code.texts = parts.map Code.texts) :
    (spaced parts').texts = (spaced parts).texts := by
  refine Code.texts_concat_congr ?_
  rw [List.map_map, List.map_map]
  refine map_eq_of_map_eq hparts fun part _ part' _ hpart => ?_
  exact Code.texts_append_congr rfl hpart

omit h in
theorem texts_solveMethod_congr {blocks blocks' : Code} (hblocks : blocks'.texts = blocks.texts) :
    (solveMethod form blocks').texts = (solveMethod form blocks).texts := by
  cases form with
  | component => exact Code.texts_block_congr rfl (Code.texts_orPass_congr hblocks)
  | execution => exact Code.texts_block_congr rfl (Code.texts_append_congr hblocks rfl)

theorem texts_setUpMethod (options : ProgramOptions) (form : ProgramForm) {blocks blocks' : Code}
    (hblocks : blocks'.texts = blocks.texts) :
    (w'.setUpMethod options form blocks').texts = (w.setUpMethod options form blocks).texts := by
  have hopening : (Code.ofLines (w'.openingLines options form)).texts =
      (Code.ofLines (w.openingLines options form)).texts :=
    Code.texts_ofLines_congr h.map_text_openingLines
  refine Code.texts_block_congr rfl (Code.texts_append_congr ?_ hblocks)
  cases form <;> exact hopening

theorem map_texts_accessMethods :
    (w'.accessMethods form).map Code.texts = (w.accessMethods form).map Code.texts := by
  cases form with
  | component =>
    simp only [accessMethods, List.map_cons, h.texts_criticalMethod, h.texts_setMethod,
      h.texts_getMethod]
  | execution => rfl

/-- The whole program reads as before. -/
theorem texts_programCode (options : ProgramOptions) (form : ProgramForm) :
    (w'.programCode options form).map Code.texts = (w.programCode options form).map Code.texts := by
  have hall : ∀ block ∈ w.tree.toList, block ∈ w.blocks := fun _ hb => hb
  unfold programCode
  rw [h.tree_eq]
  obtain ⟨error, hfails, hfailed⟩ | ⟨setUp', setUp, hsetUp', hsetUp, hopened⟩ :=
    Code.cases_of_map_texts (h.texts_setUpCode options hall)
  · rw [hfails, hfailed]
    rfl
  obtain ⟨error, hfails, hfailed⟩ | ⟨execution', execution, hexecution', hexecution, hexecuted⟩ :=
    Code.cases_of_map_texts (h.texts_executionCode options hall (formScope form))
  · rw [hsetUp', hsetUp, hfails, hfailed]
    rfl
  rw [hsetUp', hsetUp, hexecution', hexecution]
  have hmethods : (spaced (w'.accessMethods form ++
        [w'.terminateMethod, solveMethod form execution'])).texts =
      (spaced (w.accessMethods form ++ [w.terminateMethod, solveMethod form execution])).texts := by
    refine texts_spaced_congr ?_
    simp only [List.map_append, List.map_cons, h.map_texts_accessMethods, h.texts_terminateMethod,
      texts_solveMethod_congr hexecuted]
  have hclass := Code.texts_append_congr (h.texts_setUpMethod options form hopened) hmethods
  refine Code.map_texts_ok (Code.texts_concat_congr ?_)
  rw [h.importLines_eq]
  refine congrArg (List.cons _) (congrArg (List.cons · _) ?_)
  cases form <;> exact Code.texts_block_congr rfl hclass

/-- **The program is the same**, and so is the reason if there is none. -/
theorem generate_eq (options : ProgramOptions) (form : ProgramForm) :
    (w'.generate options form).1 = (w.generate options form).1 := by
  rw [generate, generate]
  split
  · dsimp only
    obtain ⟨error, hfails, hfailed⟩ | ⟨program', program, hprogram', hprogram, hsame⟩ :=
      Code.cases_of_map_texts (h.assignNames.texts_programCode options form)
    · rw [hfails, hfailed]
    · rw [hprogram', hprogram]
      exact congrArg Except.ok (Code.lines_congr hsame)
  · rfl

end Reindexes

end Workflow

end SlotFlow
