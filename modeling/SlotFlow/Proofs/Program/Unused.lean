import SlotFlow.Program.Generate
import SlotFlow.Proofs.Editing.Unused
/-!
# Unused variables leave no trace in programs

A program finds its way through a workflow by links. No link leads to an unused variable, so that each part
of the program is the same with and without it: the expressions, the code of the blocks, the methods, and
the program as a whole. The variables that are added and removed take part in every naming pass, but they
get none of the names that the program shows.

## Results

* `Block.Unused.setUpCode_node`, `Block.Unused.executionCode_node` — an unused variable has no code;
* `Workflow.Pads.setUpCode_eq`, `Workflow.Pads.executionCode_eq` — the code of the blocks is the same;
* `Workflow.Pads.programCode_eq` — so is the program as a whole;
* `Workflow.Reachable.generate_beside` — what comes and goes unused does not change what is generated.
-/

namespace SlotFlow

/-- The end that a link leads to is one that it touches. -/
theorem Link.touches_of_otherEnd? {link : Link} {slot other : SlotId}
    (h : link.otherEnd? slot = some other) : link.touches other = true := by
  unfold otherEnd? at h
  unfold touches
  split at h
  · simp [Option.some.inj h]
  · split at h
    · simp [Option.some.inj h]
    · cases h

-- ---------------------------------------------------------------------------
-- Unused variables by themselves
-- ---------------------------------------------------------------------------

namespace Block.Unused

variable {μ : Type} {w : Workflow μ} {block : Block} (h : block.Unused w.links)

include h

/-- None of the slots of an unused variable is linked. -/
theorem isNamedLinked_eq_false (name : String) : w.isNamedLinked block name = false := by
  unfold Workflow.isNamedLinked
  split
  · rename_i slot hslot
    rw [Workflow.isLinked, List.any_eq_false]
    intro link hl
    rw [h.unlinked slot (List.mem_of_find?_eq_some hslot) link hl]
    exact Bool.false_ne_true
  · rfl

/-- An unused variable is not set up: the code is that of the blocks after it. -/
theorem setUpCode_node (options : ProgramOptions) (after : Forest Block) :
    w.setUpCode options (.node block .nil after) = w.setUpCode options after := by
  have hlinked := h.isNamedLinked_eq_false BlockKind.valueSlot
  refine Eq.trans ?_ (bind_pure (w.setUpCode options after))
  obtain ⟨value, hkind⟩ | ⟨name, type, hkind⟩ := BlockKind.constant_or_named_of_isVariable h.kind <;>
    rw [Workflow.setUpCode, Workflow.setUpLines, hkind] <;>
    simp only [hlinked, Bool.false_eq_true, if_false] <;> rfl

/-- An unused variable is not executed either. -/
theorem executionCode_node (options : ProgramOptions) (after : Forest Block) (scope : CodeScope) :
    w.executionCode options (.node block .nil after) scope = w.executionCode options after scope := by
  have hlinked := h.isNamedLinked_eq_false BlockKind.valueSlot
  refine Eq.trans ?_ (bind_pure (w.executionCode options after scope))
  obtain ⟨value, hkind⟩ | ⟨name, type, hkind⟩ := BlockKind.constant_or_named_of_isVariable h.kind <;>
    rw [Workflow.executionCode, Workflow.executionLines, hkind] <;>
    simp only [hlinked, Bool.false_eq_true, if_false] <;> rfl

end Block.Unused

namespace Workflow

variable {μ : Type} {w w' : Workflow μ} {options : ProgramOptions} {form : ProgramForm}

namespace Pads

variable (h : w.Pads w')

include h

-- ---------------------------------------------------------------------------
-- Expressions
-- ---------------------------------------------------------------------------

theorem partner?_eq (id : SlotId) : w'.partner? id = w.partner? id := by
  rw [partner?, h.links, partner?]

theorem partners_eq (id : SlotId) : w'.partners id = w.partners id := by
  rw [partners, h.links, partners]

theorem isLinked_eq (id : SlotId) : w'.isLinked id = w.isLinked id := by
  rw [isLinked, h.links, isLinked]

theorem provideSlot_eq {id : SlotId} (hid : ∃ link ∈ w.links, link.touches id = true)
    (time : TimeExpr) : w'.provideSlot id time = w.provideSlot id time := by
  rw [provideSlot, h.ownedSlot?_eq hid, provideSlot]

omit h in
theorem exists_touches_of_partner? {id source : SlotId} (hs : w.partner? id = some source) :
    ∃ link ∈ w.links, link.touches source = true := by
  obtain ⟨link, hl, hother⟩ := List.exists_of_findSome?_eq_some hs
  exact ⟨link, hl, Link.touches_of_otherEnd? hother⟩

theorem readSlot_eq (id : SlotId) (time : TimeExpr) : w'.readSlot id time = w.readSlot id time := by
  rw [readSlot, h.partner?_eq, readSlot]
  cases hp : w.partner? id with
  | none => rfl
  | some source => exact h.provideSlot_eq (exists_touches_of_partner? hp) time

theorem readNamed_eq (block : Block) (name : String) (time : TimeExpr) :
    w'.readNamed block name time = w.readNamed block name time := by
  simp only [readNamed, h.readSlot_eq]

theorem isNamedLinked_eq (block : Block) (name : String) :
    w'.isNamedLinked block name = w.isNamedLinked block name := by
  simp only [isNamedLinked, h.isLinked_eq]

-- ---------------------------------------------------------------------------
-- Blocks
-- ---------------------------------------------------------------------------

theorem setUpLines_eq (block : Block) : w'.setUpLines options block = w.setUpLines options block := by
  simp only [setUpLines, h.isNamedLinked_eq]

theorem inputLine?_eq (block : Block) (scope : CodeScope) (slot : Slot) :
    w'.inputLine? block scope slot = w.inputLine? block scope slot := by
  rw [inputLine?, h.partner?_eq, inputLine?]
  split
  · cases hp : w.partner? slot.id with
    | none => rfl
    | some source =>
      rw [Option.map_some, Option.map_some,
        h.provideSlot_eq (exists_touches_of_partner? hp) scope.time]
  · rfl

theorem executionLines_eq (block : Block) (scope : CodeScope) :
    w'.executionLines block scope = w.executionLines block scope := by
  have hinputs : w'.inputLine? block scope = w.inputLine? block scope :=
    funext fun slot => h.inputLine?_eq block scope slot
  simp only [executionLines, modelLines, hinputs, h.isNamedLinked_eq, h.readNamed_eq]

theorem stepSources_eq (block : Block) (models : List Block) (time : TimeExpr) :
    w'.stepSources block models time = w.stepSources block models time := by
  simp only [stepSources, h.isNamedLinked_eq, h.readNamed_eq]

theorem loopCode_eq (block : Block) (time : TimeExpr) (sources : List StepSource) (children : Code) :
    w'.loopCode options block time sources children =
      w.loopCode options block time sources children := by
  simp only [loopCode, h.readNamed_eq]

/-- The code that sets blocks up is the same with further variables among them. -/
theorem setUpCode_eq (options : ProgramOptions) {forest padded : Forest Block}
    (hpadded : forest.Padded (Block.Unused w.links) padded) :
    w'.setUpCode options padded = w.setUpCode options forest := by
  induction hpadded with
  | nil => rfl
  | node _ _ ihBelow ihAfter => simp only [setUpCode, ihBelow, ihAfter, h.setUpLines_eq]
  | @leaf block _ _ hunused _ ihAfter =>
    have hstill : block.Unused w'.links := h.links ▸ hunused
    rw [hstill.setUpCode_node, ihAfter]

/-- The code that executes blocks is the same with further variables among them. -/
theorem executionCode_eq (options : ProgramOptions) {forest padded : Forest Block}
    (hpadded : forest.Padded (Block.Unused w.links) padded) (scope : CodeScope) :
    w'.executionCode options padded scope = w.executionCode options forest scope := by
  induction hpadded generalizing scope with
  | nil => rfl
  | node hbelow _ ihBelow ihAfter =>
    -- The models in a loop limit its steps, and a variable is none.
    have hmodels := hbelow.filter_toList fun block hunused => hunused.isModel_eq_false
    simp only [executionCode, ihBelow, ihAfter, hmodels, h.stepSources_eq, h.loopCode_eq,
      h.executionLines_eq]
  | @leaf block _ _ hunused _ ihAfter =>
    have hstill : block.Unused w'.links := h.links ▸ hunused
    rw [hstill.executionCode_node, ihAfter]

-- ---------------------------------------------------------------------------
-- Inputs and outputs
-- ---------------------------------------------------------------------------

theorem borderSlots_eq (direction : Direction) : w'.borderSlots direction = w.borderSlots direction := by
  refine h.filter_slots fun block hunused slot hs => ?_
  rw [hunused.inside slot hs, Bool.false_and]

theorem inputSlots_eq : w'.inputSlots = w.inputSlots := by
  simp only [inputSlots, h.borderSlots_eq, h.isLinked_eq]

theorem outputSlots_eq : w'.outputSlots = w.outputSlots := by
  simp only [outputSlots, h.borderSlots_eq, h.isLinked_eq]

theorem describe_eq (slot : Slot) : w'.describe slot = w.describe slot := by
  have hlinked : (w.partners slot.id).filterMap w'.slot? = (w.partners slot.id).filterMap w.slot? := by
    refine List.filterMap_congr fun id hid => ?_
    obtain ⟨link, hl, hother⟩ := List.mem_filterMap.mp hid
    rw [slot?, h.ownedSlot?_eq ⟨link, hl, Link.touches_of_otherEnd? hother⟩, slot?]
  simp only [describe, h.partners_eq, hlinked]

-- ---------------------------------------------------------------------------
-- Programs
-- ---------------------------------------------------------------------------

theorem models_eq : w'.models = w.models :=
  h.body.filter_toList fun _ hunused => hunused.isModel_eq_false

theorem importLines_eq : w'.importLines options = w.importLines options := by
  simp only [importLines, usedClasses, h.models_eq, h.registry]

theorem criticalMethod_eq : w'.criticalMethod = w.criticalMethod := by
  have hmodels : w'.body.roots.filter Block.isModel = w.body.roots.filter Block.isModel :=
    h.body.filter_roots fun _ hunused => hunused.isModel_eq_false
  simp only [criticalMethod, hmodels]

theorem setMethod_eq : w'.setMethod = w.setMethod := by
  simp only [setMethod, h.inputSlots_eq]

theorem getMethod_eq : w'.getMethod = w.getMethod := by
  simp only [getMethod, h.outputSlots_eq, h.readSlot_eq]

theorem terminateMethod_eq : w'.terminateMethod = w.terminateMethod := by
  simp only [terminateMethod, h.models_eq]

theorem setUpMethod_eq (blocks : Code) :
    w'.setUpMethod options form blocks = w.setUpMethod options form blocks := by
  have hdescribe : w'.describe = w.describe := funext h.describe_eq
  simp only [setUpMethod, metadataLines, inputSetUpLines, h.inputSlots_eq, h.outputSlots_eq, hdescribe]

/-- **Unused variables leave no trace in the program**, and none in the reason if there is none. -/
theorem programCode_eq (options : ProgramOptions) (form : ProgramForm) :
    w'.programCode options form = w.programCode options form := by
  simp only [programCode, h.setUpCode_eq options h.tree, h.executionCode_eq options h.tree,
    h.criticalMethod_eq, h.setMethod_eq, h.getMethod_eq, h.terminateMethod_eq, h.setUpMethod_eq,
    h.importLines_eq]

end Pads

/-- **What comes and goes unused does not change what is generated.** Take any workflow whose user has
chosen no names. After its program has been generated, let variables of any kinds be added to any
containers, again and again, and let blocks be removed that the workflow did not have before; between
these, identifiers may be given and programs be generated. Then the same settings give the same lines as
before; where there is no program, the reason is the same. -/
theorem Reachable.generate_beside (h : w.Reachable)
    (hplain : ∀ block ∈ w.blocks, ∀ name type, block.kind ≠ .named name type)
    (options : ProgramOptions) (form : ProgramForm) {events : List (Happening μ)}
    (hevents : ∀ event ∈ events, event.Beside (w.blocks.map Block.id)) :
    (((w.generate options form).2.after events).generate options form).1 =
      (w.generate options form).1 := by
  by_cases hname : Identifier.ofName? options.className = some options.className
  · have hgenerate : ∀ v : Workflow μ, v.generate options form =
        ((v.assignNames.programCode options form).map Code.lines, v.assignNames) := by
      intro v
      rw [generate, if_pos hname]
    have hids : w.assignNames.blocks.map Block.id = w.blocks.map Block.id := by
      have hsame := congrArg (List.map Block.id) (map_unnamed_of_unnamed w.unnamed_assignNames)
      rwa [List.map_map, List.map_map] at hsame
    have hfixed := namesFixed_assignNames hplain
    have hpads := (Pads.refl w.assignNames).after h.named hfixed (hids ▸ hevents)
    rw [hgenerate, hgenerate w]
    exact congrArg (Except.map Code.lines) ((hpads.assignNames hfixed).programCode_eq options form)
  · have hgenerate : ∀ v : Workflow μ, (v.generate options form).1 =
        .error (.invalidClassName options.className) := by
      intro v
      rw [generate, if_neg hname]
    rw [hgenerate, hgenerate]

/-- A time loop whose longest step is a constant. A named value and a constant come into the loop, the
constant goes again, and a value comes to the root; the names that these get are not in the program. -/
theorem generate_beside_of_loop :
    ∃ (w : Workflow Unit) (events : List (Happening Unit)) (lines : List String), w.Reachable ∧
      (w.generate {} .component).1 = .ok lines ∧ lines ≠ [] ∧
      (((w.generate {} .component).2.after events).generate {} .component).1 = .ok lines ∧
      ((w.generate {} .component).2.after events).codeNames =
        ["workflow_1", "timeloop_1", "heat_flux", "constant_physical_quantity_1", "float_variable_1"] := by
  have hloop := @Reachable.edited Unit _ _ (.addBlock rootId .timeLoop none) _
    (.new "uid-" "Plan" .empty) rfl
  have hstep := @Reachable.edited Unit _ _ (.addBlock rootId (.constant (.quantity 1 "s")) none) _
    hloop rfl
  have hlinked := @Reachable.edited Unit _ _ (.connect ⟨6⟩ ⟨4⟩ none) _ hstep rfl
  refine ⟨_, [.edit (.addBlock ⟨1⟩ (.named "heat flux" .field) none),
    .edit (.addBlock ⟨1⟩ (.constant (.number 2)) none), .generation {} .execution,
    .edit (.removeBlock ⟨10⟩), .edit (.addBlock rootId (.constant (.number 3)) none), .pass],
    _, hlinked, rfl, ?_, ?_, ?_⟩
  · decide +kernel
  · refine (Reachable.generate_beside hlinked ?_ {} .component ?_).trans rfl
    · intro block hb name type hkind
      rcases List.mem_cons.mp hb with rfl | hb
      · cases hkind
      rcases List.mem_cons.mp hb with rfl | hb
      · cases hkind
      rw [List.mem_singleton.mp hb] at hkind
      cases hkind
    · simp only [List.forall_mem_cons]
      exact ⟨.added _ rfl _, .added _ rfl _, .generated .., .removed (by decide), .added _ rfl _,
        .named, List.forall_mem_nil _⟩
  · decide +kernel

end Workflow

end SlotFlow
