import SlotFlow.Proofs.Graph.Border
import SlotFlow.Proofs.Graph.Kinds
import SlotFlow.Proofs.Naming.Settled
import SlotFlow.Proofs.Program.Sections
/-!
# Members are set up before they are read

A generated class sets members up in its first method and reads them in the others. The two parts of
a program are made by different walks over the tree, and the set-up leaves out what seems not to be
read: a constant or an input of the workflow has a member only if it is linked.

* `Workflow.ValuesKept` — constants and named values have the one slot that they are made with;
* `Workflow.LoopsFedInside` — no time loop takes an output of the workflow for a time;
* `Workflow.Supplied` — the members that are set up.

## Results

* `Workflow.SelfContained.supplied_of_programCode` — a program reads only members that are supplied;
* `Workflow.methodBody?_init` — the first method is its opening lines and what its blocks set up;
* `Workflow.assigned_of_supplied` — it assigns the members that are supplied.
-/

namespace SlotFlow

/-- Whether a block has no children and no code but a value: a constant or a named value. -/
def BlockKind.isValue : BlockKind → Bool
  | constant _ | named .. => true
  | _ => false

/-- Whether blocks of a kind are time loops. -/
def BlockKind.isTimeLoop : BlockKind → Bool
  | timeLoop => true
  | _ => false

theorem BlockKind.isTimeLoop_iff {kind : BlockKind} : kind.isTimeLoop = true ↔ kind = .timeLoop := by
  cases kind <;> simp [isTimeLoop]

/-- Whether a line opens a method. -/
def Line.defines (method : Method) : Line → Bool
  | .methodDef other => other = method
  | _ => false

/-- The body of a method of a program. -/
def Code.methodBody? (program : Code) (method : Method) : Option Code :=
  (program.find? (·.defines method)).map Prod.snd

namespace Workflow

variable {μ : Type} {w : Workflow μ} {options : ProgramOptions} {form : ProgramForm}

-- ---------------------------------------------------------------------------
-- Conditions
-- ---------------------------------------------------------------------------

/-- Every constant and every named value has exactly the slots that such a block is made with. -/
def ValuesKept (w : Workflow μ) : Prop :=
  ∀ block ∈ w.blocks, block.kind.isValue = true →
    block.slots.map (fun slot => (slot.name, slot.kind)) =
      block.kind.defaultSlots.map fun request => (request.name, request.kind)

/-- What feeds the times of a time loop from the border of the workflow is an input of the workflow,
not one of its outputs. An output can be linked only if the slot of the time loop has been replaced by
one of the other direction. -/
def LoopsFedInside (w : Workflow μ) : Prop :=
  ∀ loop ∈ w.blocks, loop.kind.isTimeLoop = true →
    ∀ name ∈ [BlockKind.startTimeSlot, BlockKind.targetTimeSlot, BlockKind.maxStepSlot],
      ∀ slot ∈ loop.slot? name, ∀ source ∈ w.partner? slot.id, ∀ feeding ∈ w.slot? source,
        feeding.external = true → feeding.direction = .output

/-- No slot on the border is linked. -/
def BorderFree (w : Workflow μ) : Prop :=
  ∀ slot ∈ w.slots, slot.external = true → w.isLinked slot.id = false

instance (w : Workflow μ) : Decidable w.ValuesKept :=
  inferInstanceAs (Decidable (∀ block ∈ w.blocks, block.kind.isValue = true →
    block.slots.map (fun slot => (slot.name, slot.kind)) =
      block.kind.defaultSlots.map fun request => (request.name, request.kind)))

instance (w : Workflow μ) : Decidable w.LoopsFedInside :=
  inferInstanceAs (Decidable (∀ loop ∈ w.blocks, loop.kind.isTimeLoop = true →
    ∀ name ∈ [BlockKind.startTimeSlot, BlockKind.targetTimeSlot, BlockKind.maxStepSlot],
      ∀ slot ∈ loop.slot? name, ∀ source ∈ w.partner? slot.id, ∀ feeding ∈ w.slot? source,
        feeding.external = true → feeding.direction = .output))

/-- What makes sure that a program reads only members that it sets up. -/
structure SelfContained (w : Workflow μ) (form : ProgramForm) : Prop where
  wellFormed : w.WellFormed
  shaped : w.Shaped
  values : w.ValuesKept
  loops : w.LoopsFedInside
  border : form = .execution → w.BorderFree

/-- The members that a program sets up: those of models, of constants that are linked, and of inputs
of the workflow that are linked. -/
inductive Supplied (w : Workflow μ) (form : ProgramForm) : String → Prop where
  | model {block : Block} (hb : block ∈ w.body.toList) (hmodel : block.isModel = true) :
      Supplied w form block.identifier
  | constant {block : Block} {literal : Constant} (hb : block ∈ w.body.toList)
      (hkind : block.kind = .constant literal)
      (hlinked : w.isNamedLinked block BlockKind.valueSlot = true) :
      Supplied w form block.identifier
  | input {slot : Slot} (hs : slot ∈ w.inputSlots) (hform : form = .component) :
      Supplied w form slot.identifier

-- ---------------------------------------------------------------------------
-- Blocks and links
-- ---------------------------------------------------------------------------

theorem Shaped.mem_body (h : w.Shaped) {block : Block} (hb : block ∈ w.blocks)
    (hkind : block.kind ≠ .workflow) : block ∈ w.body.toList := by
  rw [blocks_eq, List.mem_cons] at hb
  rcases hb with rfl | hb
  · exact absurd h.root hkind
  · exact hb

/-- A subtree and what is below it belong to the workflow. -/
theorem mem_of_mem_subtrees {block : Block} {below : Forest Block}
    (h : (block, below) ∈ w.tree.subtrees) :
    block ∈ w.blocks ∧ ∀ b ∈ below.toList, b ∈ w.body.toList := by
  rcases List.mem_cons.mp h with heq | h
  · cases heq
    exact ⟨w.root_mem_blocks, fun _ hb => hb⟩
  · rw [Forest.subtrees, List.append_nil] at h
    have hsub := (Forest.toList_sublist_of_mem_subtrees h).subset
    exact ⟨mem_blocks_of_mem_body (hsub List.mem_cons_self),
      fun b hb => hsub (List.mem_cons_of_mem _ hb)⟩

/-- What a slot is linked to is at the other end of a link. -/
theorem exists_link_of_partner? {id source : SlotId} (h : w.partner? id = some source) :
    ∃ link ∈ w.links, link.source = id ∧ link.target = source ∨
      link.target = id ∧ link.source = source := by
  obtain ⟨link, hl, hother⟩ := List.exists_of_findSome?_eq_some h
  refine ⟨link, hl, ?_⟩
  unfold Link.otherEnd? at hother
  split at hother
  · rename_i hsource
    exact .inl ⟨hsource, Option.some.inj hother⟩
  · split at hother
    · rename_i htarget
      exact .inr ⟨htarget, Option.some.inj hother⟩
    · cases hother

/-- A slot that is linked is linked to something. -/
theorem exists_partner?_of_isLinked {id : SlotId} (h : w.isLinked id = true) :
    ∃ source, w.partner? id = some source := by
  obtain ⟨link, hl, htouches⟩ := List.any_eq_true.mp h
  have hother : (link.otherEnd? id).isSome = true := by
    unfold Link.otherEnd?
    split
    · rfl
    · rename_i hsource
      have htarget : link.target = id := by simpa [Link.touches, hsource] using htouches
      rw [if_pos htarget]
      rfl
  have hsome : (w.partner? id).isSome = true := List.findSome?_isSome_iff.mpr ⟨link, hl, hother⟩
  exact Option.isSome_iff_exists.mp hsome

/-- Both ends of a link are linked. -/
theorem isLinked_of_partner? {id source : SlotId} (h : w.partner? id = some source) :
    w.isLinked id = true ∧ w.isLinked source = true := by
  obtain ⟨link, hl, ⟨rfl, rfl⟩ | ⟨rfl, rfl⟩⟩ := exists_link_of_partner? h
  · exact ⟨List.any_eq_true.mpr ⟨link, hl, by simp [Link.touches]⟩,
      List.any_eq_true.mpr ⟨link, hl, by simp [Link.touches]⟩⟩
  · exact ⟨List.any_eq_true.mpr ⟨link, hl, by simp [Link.touches]⟩,
      List.any_eq_true.mpr ⟨link, hl, by simp [Link.touches]⟩⟩

/-- An input is fed by an output. -/
theorem WellFormed.direction_of_partner? (h : w.WellFormed) {slot feeding : Slot}
    (hs : slot ∈ w.slots) (hdir : slot.direction = .input)
    (hp : w.partner? slot.id = some feeding.id) (hf : feeding ∈ w.slots) :
    feeding.direction = .output := by
  have hslot : ∀ {s t : Slot}, s ∈ w.slots → t ∈ w.slots → s.id = t.id → s = t :=
    fun hs ht hid => List.inj_on_of_nodup_map h.slotIds hs ht hid
  obtain ⟨link, hl, hends⟩ := exists_link_of_partner? hp
  obtain ⟨source, hsource, hsid, hsdir⟩ := h.links.source link hl
  rcases hends with ⟨heq, -⟩ | ⟨-, heq⟩
  · -- an input is the source of no link
    rw [hslot hsource hs (hsid.trans heq), hdir] at hsdir
    cases hsdir
  · rw [← hslot hsource hf (hsid.trans heq)]
    exact hsdir

/-- The target of a link is fed by its source. -/
theorem WellFormed.partner?_target (h : w.WellFormed) {link : Link} (hl : link ∈ w.links) :
    w.partner? link.target = some link.source := by
  have hsome : (w.partner? link.target).isSome = true := by
    rw [partner?, List.findSome?_isSome_iff]
    refine ⟨link, hl, ?_⟩
    unfold Link.otherEnd?
    split
    · rfl
    · rw [if_pos rfl]
      rfl
  obtain ⟨feeding, hfeeding⟩ := Option.isSome_iff_exists.mp hsome
  obtain ⟨other, ho, ⟨hsource, -⟩ | ⟨htarget, hother⟩⟩ := exists_link_of_partner? hfeeding
  · -- an input is the source of no link
    obtain ⟨s, hs, hsid, hsdir⟩ := h.links.source other ho
    obtain ⟨t, ht, htid, htdir⟩ := h.links.target link hl
    have hsame : s = t :=
      List.inj_on_of_nodup_map h.slotIds hs ht (hsid.trans (hsource.trans htid.symm))
    rw [hsame, htdir] at hsdir
    cases hsdir
  · have hsame : other = link := List.inj_on_of_nodup_map h.links.targets ho hl htarget
    rw [hfeeding, ← hother, hsame]

theorem mem_inputSlots {slot : Slot} : slot ∈ w.inputSlots ↔
    slot ∈ w.slots ∧ slot.external = true ∧ slot.direction = .output ∧
      w.isLinked slot.id = true := by
  rw [inputSlots, List.mem_filter, mem_borderSlots, and_assoc, and_assoc]

theorem mem_outputSlots {slot : Slot} : slot ∈ w.outputSlots ↔
    slot ∈ w.slots ∧ slot.external = true ∧ slot.direction = .input ∧
      w.isLinked slot.id = true := by
  rw [outputSlots, List.mem_filter, mem_borderSlots, and_assoc, and_assoc]

-- ---------------------------------------------------------------------------
-- What expressions read
-- ---------------------------------------------------------------------------

namespace SelfContained

/-- The expression for a linked slot reads a member that is supplied, unless the slot is an output of
the workflow. -/
theorem supplied_of_provideSlot (h : w.SelfContained form) {id : SlotId} {time : TimeExpr}
    (hlinked : w.isLinked id = true)
    (hborder : ∀ slot ∈ w.slots, slot.id = id → slot.external = true → slot.direction = .output) :
    ∀ member ∈ (w.provideSlot id time).members, w.Supplied form member := by
  intro member hmember
  unfold provideSlot at hmember
  split at hmember
  · cases hmember
  · rename_i owned howned
    obtain ⟨howner, hslot, hid⟩ := h.wellFormed.ownedSlot?_eq_some.mp howned
    split at hmember
    · -- a model
      rename_i hkind
      rw [List.mem_singleton.mp hmember]
      refine .model (h.shaped.mem_body howner (by rw [hkind]; nofun)) ?_
      rw [Block.isModel, hkind]
      rfl
    · -- a constant, whose only slot is the one that is linked
      rename_i literal hkind
      rw [List.mem_singleton.mp hmember]
      refine .constant (h.shaped.mem_body howner (by rw [hkind]; nofun)) hkind ?_
      have hkept := h.values owned.owner howner (by rw [hkind]; rfl)
      have hdefault : ∃ request : SlotRequest,
          owned.owner.kind.defaultSlots = [request] ∧ request.name = BlockKind.valueSlot := by
        rw [hkind]
        cases literal <;> exact ⟨_, rfl, rfl⟩
      obtain ⟨request, hrequest, hname⟩ := hdefault
      rw [hrequest, List.map_singleton] at hkept
      obtain ⟨only, honly, hvalue⟩ := List.map_eq_singleton_iff.mp hkept
      rw [honly, List.mem_singleton] at hslot
      have hfind : owned.owner.slot? BlockKind.valueSlot = some only := by
        have hnamed : only.name = BlockKind.valueSlot := (congrArg Prod.fst hvalue).trans hname
        rw [Block.slot?, honly, List.find?_cons_of_pos (by rw [hnamed]; rfl)]
      rw [isNamedLinked, hfind, ← hslot]
      show w.isLinked owned.slot.id = true
      rw [hid]
      exact hlinked
    · -- a slot on the border
      split at hmember
      · rename_i hext
        rw [List.mem_singleton.mp hmember]
        have hs : owned.slot ∈ w.slots := mem_slots.mpr ⟨owned.owner, howner, hslot⟩
        cases form with
        | component =>
          refine .input (mem_inputSlots.mpr ⟨hs, hext, hborder _ hs hid hext, ?_⟩) rfl
          rw [hid]
          exact hlinked
        | execution =>
          have hfree := h.border rfl owned.slot hs hext
          rw [hid, hlinked] at hfree
          cases hfree
      · cases hmember
    · cases hmember

/-- What an input takes in is supplied. -/
theorem supplied_of_readSlot (h : w.SelfContained form) {slot : Slot} {time : TimeExpr}
    (hs : slot ∈ w.slots) (hdir : slot.direction = .input) :
    ∀ member ∈ (w.readSlot slot.id time).members, w.Supplied form member := by
  intro member hmember
  unfold readSlot at hmember
  split at hmember
  · rename_i source hsource
    refine h.supplied_of_provideSlot (isLinked_of_partner? hsource).2 (fun feeding hf hid _ => ?_)
      member hmember
    exact h.wellFormed.direction_of_partner? hs hdir (hid ▸ hsource) hf
  · cases hmember

/-- What a named value takes in is supplied. -/
theorem supplied_of_named (h : w.SelfContained form) {block : Block} (hb : block ∈ w.blocks)
    {name : String} {type : SlotType} (hkind : block.kind = .named name type) {time : TimeExpr} :
    ∀ member ∈ (w.readNamed block BlockKind.valueSlot time).members, w.Supplied form member := by
  intro member hmember
  unfold readNamed at hmember
  split at hmember
  · rename_i slot hslot
    have hin : slot ∈ block.slots := List.mem_of_find?_eq_some hslot
    refine h.supplied_of_readSlot (mem_slots.mpr ⟨block, hb, hin⟩) ?_ member hmember
    have hkept := h.values block hb (by rw [hkind]; rfl)
    rw [hkind] at hkept
    have hmem := List.mem_map_of_mem (f := fun slot : Slot => (slot.name, slot.kind)) hin
    rw [hkept] at hmem
    have hvalue := List.mem_singleton.mp hmem
    exact congrArg SlotKind.direction (congrArg Prod.snd hvalue)
  · cases hmember

/-- What a time loop takes a time from is supplied. -/
theorem supplied_of_loop (h : w.SelfContained form) {block : Block} (hb : block ∈ w.blocks)
    (hkind : block.kind = .timeLoop) {name : String}
    (hname : name ∈ [BlockKind.startTimeSlot, BlockKind.targetTimeSlot, BlockKind.maxStepSlot])
    {time : TimeExpr} :
    ∀ member ∈ (w.readNamed block name time).members, w.Supplied form member := by
  intro member hmember
  unfold readNamed at hmember
  split at hmember
  · rename_i slot hslot
    unfold readSlot at hmember
    split at hmember
    · rename_i source hsource
      refine h.supplied_of_provideSlot (isLinked_of_partner? hsource).2 (fun feeding hf hid hext => ?_)
        member hmember
      have hfound : w.slot? source = some feeding := by
        obtain ⟨owner, ho, hin⟩ := mem_slots.mp hf
        have howned : w.ownedSlot? source = some ⟨owner, feeding⟩ :=
          h.wellFormed.ownedSlot?_eq_some.mpr ⟨ho, hin, hid⟩
        rw [slot?, howned]
        rfl
      exact h.loops block hb (BlockKind.isTimeLoop_iff.mpr hkind) name hname slot hslot source hsource
        feeding hfound hext
    · cases hmember
  · cases hmember

-- ---------------------------------------------------------------------------
-- What blocks read
-- ---------------------------------------------------------------------------

theorem supplied_of_isModel (h : w.SelfContained form) {block : Block} (hb : block ∈ w.blocks)
    (hmodel : block.isModel = true) : w.Supplied form block.identifier := by
  refine .model (h.shaped.mem_body hb fun hkind => ?_) hmodel
  rw [Block.isModel, hkind] at hmodel
  cases hmodel

/-- The lines that execute a block read members that are supplied. -/
theorem supplied_of_executionLines (h : w.SelfContained form) {block : Block} (hb : block ∈ w.blocks)
    {scope : CodeScope} {line : Line} (hline : line ∈ w.executionLines block scope) :
    ∀ member ∈ line.membersRead, w.Supplied form member := by
  have hmodel : ∀ {setup : ModelSetup}, block.kind = .model setup →
      w.Supplied form block.identifier :=
    fun hkind => h.supplied_of_isModel hb (by rw [Block.isModel, hkind]; rfl)
  intro member hmember
  cases executesBlock_of_mem hline with
  | blank | comment | verbatim => cases hmember
  | @input _ slot _ hkind hslot hdir hsource =>
    rcases List.mem_cons.mp hmember with rfl | hmember
    · exact hmodel hkind
    · have hread : member ∈ (w.readSlot slot.id scope.time).members := by
        rw [readSlot, hsource]
        exact hmember
      exact h.supplied_of_readSlot (mem_slots.mpr ⟨block, hb, hslot⟩) hdir member hread
  | solve hkind =>
    rw [List.mem_singleton.mp hmember]
    exact hmodel hkind
  | named hkind => exact h.supplied_of_named hb hkind member hmember

/-- The lines that run a time loop read members that are supplied. -/
theorem supplied_of_loopCode (h : w.SelfContained form) {block : Block} {below : Forest Block}
    (hsub : (block, below) ∈ w.tree.subtrees) (hkind : block.kind = .timeLoop) {time : TimeExpr}
    {line : Line} (hline : line ∈ (w.loopCode options block time
      (w.stepSources block (below.toList.filter Block.isModel) time) .nil).toList) :
    ∀ member ∈ line.membersRead, w.Supplied form member := by
  obtain ⟨hb, hbelow⟩ := mem_of_mem_subtrees hsub
  intro member hmember
  have hstart : member ∈ (w.readNamed block BlockKind.startTimeSlot time).members →
      w.Supplied form member := h.supplied_of_loop hb hkind (by decide) member
  have htarget : member ∈ (w.readNamed block BlockKind.targetTimeSlot time).members →
      w.Supplied form member := h.supplied_of_loop hb hkind (by decide) member
  have hlength : member ∈ (w.stepSources block (below.toList.filter Block.isModel) time).flatMap
      StepSource.members → w.Supplied form member := by
    intro hin
    obtain ⟨source, hsource, hin⟩ := List.mem_flatMap.mp hin
    rw [stepSources, List.mem_append] at hsource
    rcases hsource with hsource | hsource
    · split at hsource
      · rw [List.mem_singleton.mp hsource] at hin
        exact h.supplied_of_loop hb hkind (by decide) member hin
      · cases hsource
    · obtain ⟨model, hmodel, rfl⟩ := List.mem_map.mp hsource
      rw [List.mem_filter] at hmodel
      rw [List.mem_singleton.mp hin]
      exact .model (hbelow model hmodel.1) hmodel.2
  cases executesLoop_of_mem hline with
  | start => exact hstart hmember
  | target => exact htarget hmember
  | length => exact hlength hmember
  | _ => cases hmember

/-- The execution reads members that are supplied. -/
theorem supplied_of_executionCode (h : w.SelfContained form) {scope : CodeScope} {code : Code}
    (hcode : w.executionCode options w.tree scope = .ok code) :
    ∀ line ∈ code.toList, ∀ member ∈ line.membersRead, w.Supplied form member := by
  intro line hline
  cases stemsFrom_of_executionCode hcode line hline with
  | block hb hline => exact h.supplied_of_executionLines (mem_of_mem_subtrees hb).1 hline
  | loop hb hkind hline => exact h.supplied_of_loopCode hb hkind hline

-- ---------------------------------------------------------------------------
-- What methods read
-- ---------------------------------------------------------------------------

theorem supplied_of_accessMethods (h : w.SelfContained form) {part : Code}
    (hpart : part ∈ w.accessMethods form ++ [w.terminateMethod]) :
    ∀ line ∈ part.toList, ∀ member ∈ line.membersRead, w.Supplied form member := by
  intro line hline member hmember
  have hmodel : ∀ model ∈ w.models, w.Supplied form model.identifier := by
    intro model hm
    rw [models, List.mem_filter] at hm
    exact .model hm.1 hm.2
  cases accesses_of_mem hpart hline with
  | critical hmodels =>
    rw [Line.membersRead, List.map_map] at hmember
    obtain ⟨model, hm, rfl⟩ := List.mem_map.mp hmember
    exact hmodel model (hmodels model hm)
  | answer _ hs =>
    obtain ⟨hin, -, hdir, -⟩ := mem_outputSlots.mp hs
    exact h.supplied_of_readSlot hin hdir member hmember
  | terminate hm =>
    rw [List.mem_singleton.mp hmember]
    exact hmodel _ hm
  | _ => cases hmember

theorem supplied_of_solveMethod (h : w.SelfContained form) {execution : Code}
    (hcode : w.executionCode options w.tree (formScope form) = .ok execution) :
    ∀ line ∈ (solveMethod form execution).toList, ∀ member ∈ line.membersRead,
      w.Supplied form member := by
  intro line hline member hmember
  have hexecution := h.supplied_of_executionCode hcode line
  cases form with
  | component =>
    rw [solveMethod, Code.toList_block, List.mem_cons, Code.orPass] at hline
    rcases hline with rfl | hline
    · cases hmember
    · split at hline
      · exact hexecution hline member hmember
      · rw [Forest.toList_append, Code.toList_ofLines, List.mem_append, List.mem_singleton] at hline
        rcases hline with hline | rfl
        · exact hexecution hline member hmember
        · cases hmember
  | execution =>
    rw [solveMethod, Code.toList_block, List.mem_cons, Forest.toList_append, Code.toList_ofLines,
      List.mem_append] at hline
    rcases hline with rfl | hline | hline
    · cases hmember
    · exact hexecution hline member hmember
    · simp only [List.mem_cons, List.not_mem_nil, or_false] at hline
      rcases hline with rfl | rfl | rfl <;> cases hmember

end SelfContained

-- ---------------------------------------------------------------------------
-- Programs
-- ---------------------------------------------------------------------------

theorem mem_spaced {parts : List Code} {line : Line} (h : line ∈ (spaced parts).toList) :
    line = .blank ∨ ∃ part ∈ parts, line ∈ part.toList := by
  rw [spaced, Code.toList_concat, List.mem_flatMap] at h
  obtain ⟨spacedPart, hpart, h⟩ := h
  obtain ⟨part, hin, rfl⟩ := List.mem_map.mp hpart
  rw [Forest.toList_append, Code.toList_ofLines, List.mem_append, List.mem_singleton] at h
  exact h.imp_right fun h => ⟨part, hin, h⟩

/-- What is generated is the program of the workflow with its names. -/
theorem generate_eq_ok {lines : List String} (h : (w.generate options form).1 = .ok lines) :
    ∃ program, w.assignNames.programCode options form = .ok program ∧ lines = program.lines := by
  unfold generate at h
  split at h
  · obtain ⟨program, hprogram, rfl⟩ := map_eq_ok.mp h
    exact ⟨program, hprogram, rfl⟩
  · cases h

/-- The parts of a program. -/
theorem programCode_eq_ok {program : Code} (h : w.programCode options form = .ok program) :
    ∃ setUp execution, w.setUpCode options w.tree = .ok setUp ∧
      w.executionCode options w.tree (formScope form) = .ok execution ∧
      program = Code.concat
        [Code.ofLines (w.importLines options ++ [.blank, .blank]),
         Code.block (.classDef options.className options.runtimeModule)
          ((Code.block (.methodDef .init)
            ((Code.ofLines (w.openingLines options form)).append setUp)).append
            (spaced (w.accessMethods form ++ [w.terminateMethod, solveMethod form execution]))),
         mainPart options form] := by
  obtain ⟨setUp, hsetUp, h⟩ := bind_eq_ok.mp h
  obtain ⟨execution, hexecution, h⟩ := bind_eq_ok.mp h
  refine ⟨setUp, execution, hsetUp, hexecution, ?_⟩
  cases form <;> exact pure_eq_ok.mp h

theorem membersRead_importLines {line : Line}
    (h : line ∈ w.importLines options ++ [.blank, .blank]) :
    line.membersRead = [] ∧ ∀ method, line.defines method = false := by
  cases precedes_of_mem h <;> exact ⟨rfl, fun _ => rfl⟩

theorem membersRead_openingLines {line : Line} (h : line ∈ w.openingLines options form) :
    line.membersRead = [] := by
  cases opens_of_mem h <;> rfl

theorem membersRead_mainPart {line : Line} (h : line ∈ (mainPart options form).toList) :
    line.membersRead = [] := by
  cases concludes_of_mem h <;> rfl

/-- The first method of a program consists of its opening lines and the set-up of the blocks. -/
theorem methodBody?_init_eq {program : Code} (h : w.programCode options form = .ok program) :
    ∃ setUp, w.setUpCode options w.tree = .ok setUp ∧
      program.methodBody? .init =
        some ((Code.ofLines (w.openingLines options form)).append setUp) := by
  obtain ⟨setUp, execution, hsetUp, -, rfl⟩ := programCode_eq_ok h
  have himports : (Code.ofLines (w.importLines options ++ [.blank, .blank])).subtrees.find?
      (fun tree => tree.1.defines .init) = none := by
    rw [List.find?_eq_none]
    rintro ⟨line, below⟩ htree
    have hin := (Forest.toList_sublist_of_mem_subtrees htree).subset List.mem_cons_self
    rw [Code.toList_ofLines] at hin
    rw [(membersRead_importLines hin).2]
    nofun
  refine ⟨setUp, hsetUp, ?_⟩
  rw [Code.methodBody?, Forest.find?, Code.subtrees_concat, List.flatMap_cons, List.find?_append,
    himports]
  rfl

/-- The first method of a program sets up what its blocks need, and reads no member. -/
theorem methodBody?_init {program : Code} (h : w.programCode options form = .ok program)
    (hs : w.Shaped) : ∃ init, program.methodBody? .init = some init ∧
      init.toList = w.openingLines options form ++ w.tree.toList.flatMap (w.setUpLines options) ∧
      ∀ line ∈ init.toList, line.membersRead = [] := by
  obtain ⟨setUp, hsetUp, hinit⟩ := methodBody?_init_eq h
  have hlines : ((Code.ofLines (w.openingLines options form)).append setUp).toList =
      w.openingLines options form ++ w.tree.toList.flatMap (w.setUpLines options) := by
    rw [Forest.toList_append, Code.toList_ofLines, toList_setUpCode hsetUp hs.nested]
  refine ⟨_, hinit, hlines, fun line hline => ?_⟩
  rw [hlines, List.mem_append, List.mem_flatMap] at hline
  rcases hline with hline | ⟨block, -, hline⟩
  · exact membersRead_openingLines hline
  · exact membersRead_setUpLines hline

/-- **A program reads only members that are supplied.** -/
theorem SelfContained.supplied_of_programCode (h : w.SelfContained form) {program : Code}
    (hprogram : w.programCode options form = .ok program) :
    ∀ line ∈ program.toList, ∀ member ∈ line.membersRead, w.Supplied form member := by
  obtain ⟨setUp, execution, hsetUp, hexecution, rfl⟩ := programCode_eq_ok hprogram
  intro line hline member hmember
  have hnothing : line.membersRead = [] → w.Supplied form member := by
    intro hnone
    rw [hnone] at hmember
    cases hmember
  have hmethods : ∀ part ∈ w.accessMethods form ++ [w.terminateMethod, solveMethod form execution],
      line ∈ part.toList → w.Supplied form member := by
    intro part hpart hin
    rw [← List.singleton_append, ← List.append_assoc, List.mem_append, List.mem_singleton] at hpart
    rcases hpart with hpart | rfl
    · exact h.supplied_of_accessMethods hpart line hin member hmember
    · exact h.supplied_of_solveMethod hexecution line hin member hmember
  simp only [Code.toList_concat, List.flatMap_cons, List.flatMap_nil, List.append_nil,
    Code.toList_ofLines, Code.toList_block, Forest.toList_append, List.mem_append, List.mem_cons,
    toList_setUpCode hsetUp h.shaped.nested, List.mem_flatMap] at hline
  rcases hline with himport | (rfl | (rfl | hopening | ⟨block, -, hblock⟩) | hpart) | hmain
  · exact hnothing (membersRead_importLines (List.mem_append.mpr (by simpa using himport))).1
  · exact hnothing rfl
  · exact hnothing rfl
  · exact hnothing (membersRead_openingLines hopening)
  · exact hnothing (membersRead_setUpLines hblock)
  · rcases mem_spaced hpart with rfl | ⟨part, hpart, hin⟩
    · exact hnothing rfl
    · exact hmethods part hpart hin
  · exact hnothing (membersRead_mainPart hmain)

-- ---------------------------------------------------------------------------
-- Set-up
-- ---------------------------------------------------------------------------

/-- What is supplied is assigned in the first method, if every slot on the border has its name. -/
theorem assigned_of_supplied {init : Code}
    (hinit : init.toList =
      w.openingLines options form ++ w.tree.toList.flatMap (w.setUpLines options))
    (hnamed : ∀ slot ∈ w.slots, slot.external = true → slot.codeName.isSome = true)
    {member : String} (h : w.Supplied form member) : ∃ line ∈ init.toList, line.Assigns member := by
  have hblock : ∀ block ∈ w.body.toList, ∀ value,
      Line.assign block.identifier value ∈ w.setUpLines options block →
      ∃ line ∈ init.toList, line.Assigns block.identifier := by
    intro block hb value hline
    refine ⟨_, ?_, value, rfl⟩
    rw [hinit]
    exact List.mem_append_right _
      (List.mem_flatMap.mpr ⟨block, mem_blocks_of_mem_body hb, hline⟩)
  cases h with
  | @model block hb hmodel =>
    obtain ⟨setup, hsetup⟩ := Option.isSome_iff_exists.mp hmodel
    refine hblock block hb (.newModel setup) ?_
    rw [setUpLines, BlockKind.model?_eq_some.mp hsetup]
    simp
  | @constant block literal hb hkind hlinked =>
    refine hblock block hb (.constant options.runtimeModule literal) ?_
    rw [setUpLines, hkind, hlinked]
    simp
  | @input slot hs hform =>
    obtain ⟨hin, hext, -⟩ := mem_inputSlots.mp hs
    obtain ⟨name, hname⟩ := Option.isSome_iff_exists.mp (hnamed slot hin hext)
    refine ⟨.assign slot.identifier .none, ?_, .none, rfl⟩
    rw [hinit]
    refine List.mem_append_left _ (List.mem_cons_of_mem _ ?_)
    subst hform
    refine List.mem_append_right _ (List.mem_flatMap.mpr ⟨slot, hs, ?_⟩)
    rw [Slot.identifier, hname]
    simp

end Workflow

end SlotFlow
