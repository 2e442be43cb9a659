import SlotFlow.Proofs.Graph.History
import SlotFlow.Proofs.Graph.Padded
import SlotFlow.Proofs.Naming.Settled
import SlotFlow.Proofs.Naming.Unnamed
/-!
# Unused variables

Constants and named values may be put into a workflow and be left without links. They stand between the
other blocks, take numbers, and take part in naming passes, but nothing else in the workflow changes: it
stays the same workflow with further leaves.

* `BlockKind.isVariable`, `Block.Unused` — the variables that no link touches;
* `Happening.Beside` — events that add variables, remove other blocks than some given ones, or give names;
* `Workflow.Pads` — a workflow is another one with unused variables;
* `Workflow.NamesFixed` — a workflow in which a naming pass changes nothing.

## Results

* `Workflow.Pads.addBlock`, `Workflow.Pads.removeBlock`, `Workflow.Pads.assignNames` — the steps;
* `Workflow.Pads.after` — any number of such events;
* `Workflow.Pads.ownedSlot?_eq`, `Workflow.Pads.filter_slots` — what is looked up stays what it is.
-/

namespace SlotFlow

/-- Whether blocks of a kind give out a value or give a name to one. -/
def BlockKind.isVariable : BlockKind → Bool
  | constant _ | named .. => true
  | _ => false

theorem BlockKind.constant_or_named_of_isVariable {kind : BlockKind} (h : kind.isVariable = true) :
    (∃ value, kind = .constant value) ∨ ∃ name type, kind = .named name type := by
  cases kind with
  | constant value => exact .inl ⟨value, rfl⟩
  | named name type => exact .inr ⟨name, type, rfl⟩
  | _ => cases h

/-- A variable has no place on the border, and is made with slots inside. -/
theorem BlockKind.inside_of_isVariable {kind : BlockKind} (h : kind.isVariable = true) :
    ∀ request ∈ kind.defaultSlots, request.kind.external = false := by
  obtain ⟨value, rfl⟩ | ⟨name, type, rfl⟩ := constant_or_named_of_isVariable h
  · cases value <;> simp [defaultSlots]
  · simp [defaultSlots]

theorem BlockKind.isContainer_of_isVariable {kind : BlockKind} (h : kind.isVariable = true) :
    kind.isContainer = false := by
  obtain ⟨value, rfl⟩ | ⟨name, type, rfl⟩ := constant_or_named_of_isVariable h <;> rfl

/-- A variable without slots on the border, of whose slots none has a link. -/
structure Block.Unused (links : List Link) (block : Block) : Prop where
  kind : block.kind.isVariable = true
  inside : ∀ slot ∈ block.slots, slot.external = false
  unlinked : ∀ slot ∈ block.slots, ∀ link ∈ links, link.touches slot.id = false

/-- What may happen while the blocks that are held are left alone: a variable comes to some container, a
block goes that is not among them, the elements get their names, or a program is made. -/
inductive Happening.Beside {μ : Type} (held : List BlockId) : Happening μ → Prop where
  | added (parent : BlockId) {kind : BlockKind} (hkind : kind.isVariable = true)
      (uid : Option String) : Beside held (.edit (.addBlock parent kind uid))
  | removed {id : BlockId} (hid : id ∉ held) : Beside held (.edit (.removeBlock id))
  | named : Beside held .pass
  | generated (options : ProgramOptions) (form : ProgramForm) :
      Beside held (.generation options form)

namespace Block.Unused

variable {links : List Link} {block : Block}

theorem isModel_eq_false (h : block.Unused links) : block.isModel = false := by
  obtain ⟨value, hkind⟩ | ⟨name, type, hkind⟩ := BlockKind.constant_or_named_of_isVariable h.kind <;>
    rw [isModel, hkind] <;> rfl

/-- The identifiers of an unused variable do not matter. -/
theorem of_unnamed (h : block.Unused links) {other : Block} (hsame : other.unnamed = block.unnamed) :
    other.Unused links := by
  have hslots : other.slots.map Slot.unnamed = block.slots.map Slot.unnamed :=
    congrArg Block.slots hsame
  have hold : ∀ slot ∈ other.slots, ∃ old ∈ block.slots, old.unnamed = slot.unnamed := by
    intro slot hs
    exact List.mem_map.mp (hslots ▸ List.mem_map_of_mem hs)
  refine ⟨Block.kind_of_unnamed hsame ▸ h.kind, fun slot hs => ?_, fun slot hs link hl => ?_⟩ <;>
    obtain ⟨old, ho, hos⟩ := hold slot hs
  · rw [Slot.external, ← Slot.kind_of_unnamed hos]
    exact h.inside old ho
  · rw [← Slot.id_of_unnamed hos]
    exact h.unlinked old ho link hl

/-- A slot of an unused variable is not one that a link touches. -/
theorem id_ne (h : block.Unused links) {id : SlotId} (hid : ∃ link ∈ links, link.touches id = true)
    {slot : Slot} (hs : slot ∈ block.slots) : slot.id ≠ id := by
  rintro rfl
  obtain ⟨link, hl, htouches⟩ := hid
  rw [h.unlinked slot hs link hl] at htouches
  cases htouches

end Block.Unused

namespace Workflow

variable {μ : Type} {w w' : Workflow μ}

/-- All elements have their identifiers, and no block wishes for another one. -/
structure NamesFixed (w : Workflow μ) : Prop where
  blocks : ∀ block ∈ w.blocks, block.codeName.isSome = true
  slots : ∀ slot ∈ w.slots, slot.external = true → slot.codeName.isSome = true
  wishes : ∀ block ∈ w.blocks, block.preferredName? = none

/-- The second workflow has the root and the links of the first one, and has unused variables among its
blocks. -/
structure Pads (w w' : Workflow μ) : Prop where
  root : w'.root = w.root
  body : w.body.Padded (Block.Unused w.links) w'.body
  links : w'.links = w.links
  registry : w'.registry = w.registry

theorem Pads.refl (w : Workflow μ) : w.Pads w :=
  ⟨rfl, .refl w.body, rfl, rfl⟩

-- ---------------------------------------------------------------------------
-- Names
-- ---------------------------------------------------------------------------

/-- Where nobody has chosen a name, all names are fixed after a naming pass. -/
theorem namesFixed_assignNames (h : ∀ block ∈ w.blocks, ∀ name type, block.kind ≠ .named name type) :
    w.assignNames.NamesFixed := by
  refine ⟨w.named_assignNames.1, w.named_assignNames.2, fun block hb => ?_⟩
  obtain ⟨old, ho, hsame⟩ := exists_block_of_unnamed w.unnamed_assignNames hb
  unfold Block.preferredName?
  split
  · rename_i name type hkind
    exact absurd ((Block.kind_of_unnamed hsame).trans hkind) (h old ho name type)
  · rfl

namespace NamesFixed

variable (h : w.NamesFixed) {block : Block} (hb : block ∈ w.blocks) (taken : List String)

include h hb

/-- Neither part of a naming pass changes the block. -/
theorem assignName_eq : (block.assignName taken).1 = block := by
  obtain ⟨name, hname⟩ := Option.isSome_iff_exists.mp (h.blocks block hb)
  have hself := Block.assignName_eq_self taken hname fun wanted hwish => by
    rw [h.wishes block hb] at hwish
    cases hwish
  rw [hself]

theorem assignSlotNames_eq : (block.assignSlotNames taken).1 = block := by
  have hself : Slot.assignNames taken block.slots = (block.slots, taken) :=
    Slot.assignNames_eq_self fun slot hs => h.slots slot (mem_slots.mpr ⟨block, hb, hs⟩)
  rw [Block.assignSlotNames, hself]

end NamesFixed

namespace Pads

variable (h : w.Pads w')

include h

theorem tree : w.tree.Padded (Block.Unused w.links) w'.tree := by
  rw [Workflow.tree, Workflow.tree, h.root]
  exact .node h.body .nil

-- ---------------------------------------------------------------------------
-- Steps
-- ---------------------------------------------------------------------------

/-- A walk over the blocks that changes none of the old ones, and changes nothing but names. -/
theorem mapBlocksState {f : List String → Block → Block × List String} (taken : List String)
    (hf : ∀ taken, ∀ block ∈ w.blocks, (f taken block).1 = block)
    (hnames : ∀ taken block, (f taken block).1.unnamed = block.unnamed) :
    w.Pads (w'.mapBlocksState f taken).1 where
  root := by
    rw [Workflow.mapBlocksState, h.root]
    exact hf taken w.root w.root_mem_blocks
  body := h.body.mapState _ (fun taken block hb => hf taken block (mem_blocks_of_mem_body hb))
    fun taken block hb => hb.of_unnamed (hnames taken block)
  links := h.links
  registry := h.registry

/-- **A naming pass** names the unused variables only, whatever names are taken. -/
theorem assignNames (hfixed : w.NamesFixed) : w.Pads w'.assignNames := by
  have hblocks := h.mapBlocksState (f := Block.assignName) (w'.codeNames ++ Identifier.reservedMembers)
    (fun taken block hb => hfixed.assignName_eq hb taken) fun _ _ => rfl
  exact hblocks.mapBlocksState _ (fun taken block hb => hfixed.assignSlotNames_eq hb taken)
    Block.unnamed_assignSlotNames

/-- The block that an edit adds is unused if it is a variable: its numbers are new. -/
theorem unused_newBlock (hw : w'.WellFormed) {kind : BlockKind} (hkind : kind.isVariable = true)
    (name : String) (uid : Option String) :
    (w'.newBlock kind name kind.defaultSlots uid).Unused w.links where
  kind := hkind
  inside slot hs := by
    obtain ⟨request, hr, id, uid, rfl⟩ := exists_request_of_mem_makeSlots hs
    exact BlockKind.inside_of_isVariable hkind request hr
  unlinked slot hs link hl := by
    rw [← h.links] at hl
    obtain ⟨source, hsource, hsid, -⟩ := hw.links.source link hl
    obtain ⟨target, htarget, htid, -⟩ := hw.links.target link hl
    have hslot := (isNewSlot_of_mem_makeSlots (Nat.le_succ w'.nextId) hs).id
    have hslt := hw.slot_lt hsource
    have htlt := hw.slot_lt htarget
    rw [hsid] at hslt
    rw [htid] at htlt
    simp only [Link.touches, Bool.or_eq_false_iff, decide_eq_false_iff_not]
    constructor
    · intro hsame
      rw [hsame] at hslt
      omega
    · intro hsame
      rw [hsame] at htlt
      omega

/-- **A new variable** is one more leaf, below a block that is none. -/
theorem addBlock (hw : w'.WellFormed) {parent : BlockId} {kind : BlockKind}
    (hkind : kind.isVariable = true) {uid : Option String} {added : BlockId × Workflow μ}
    (ha : w'.addBlock parent kind uid = .ok added) : w.Pads added.2 := by
  obtain ⟨⟨container, hget⟩, rfl⟩ := addBlock_eq_ok.mp ha
  obtain ⟨hfound, hcontainer⟩ := getContainer_eq_ok.mp hget
  obtain ⟨hc, rfl⟩ := hw.block?_eq_some.mp hfound
  have hnew := h.unused_newBlock hw hkind kind.recordName uid
  -- A variable has no children, so the container is no leaf.
  have hparent : ∀ block ∈ w'.body.toList, block.Unused w.links →
      decide (block.id = container.id) = false := by
    intro block hb hunused
    rw [decide_eq_false_iff_not]
    intro hid
    obtain rfl := hw.block_ext (mem_blocks_of_mem_body hb) hc hid
    rw [BlockKind.isContainer_of_isVariable hunused.kind] at hcontainer
    cases hcontainer
  have hbody : w.body.Padded (Block.Unused w.links)
      (w'.modifyBelow container.id fun children => children.append
        (.tree (w'.newBlock kind kind.recordName kind.defaultSlots uid) .nil)).body := by
    unfold modifyBelow
    split
    · exact h.body.append_leaf hnew
    · exact h.body.mapBelow hparent fun hpadded => hpadded.append_leaf hnew
  exact ⟨(root_modifyBelow ..).trans h.root, hbody, (links_modifyBelow ..).trans h.links,
    (registry_modifyBelow ..).trans h.registry⟩

/-- **A block that goes** takes nothing else with it, if it is none of the old ones. -/
theorem removeBlock {id : BlockId} (hid : id ∉ w.blocks.map Block.id) {shrunk : Workflow μ}
    (hs : w'.removeBlock id = .ok shrunk) : w.Pads shrunk := by
  obtain ⟨-, block, below, hfind, rfl⟩ := removeBlock_eq_ok.mp hs
  have hold : ∀ block ∈ w.blocks, block.id ≠ id :=
    fun block hb hsame => hid (hsame ▸ List.mem_map_of_mem hb)
  have hgone : block.Unused w.links ∧ below = .nil := by
    have hblock : block.id = id := by simpa using List.find?_some hfind
    rcases h.tree.mem_subtrees (mem_subtrees_of_subtree? hfind) with hb | hleaf
    · exact absurd hblock (hold block hb)
    · exact hleaf
  obtain ⟨hunused, rfl⟩ := hgone
  have hlinks : ∀ link ∈ w.links, ∀ slot, link.touches slot = true →
      (slotsWithin block .nil).contains slot = false := by
    intro link hl slot htouches
    rw [List.contains_eq_mem, decide_eq_false_iff_not]
    intro hm
    simp only [slotsWithin, Forest.toList_tree, Forest.toList_nil, List.flatMap_cons, List.flatMap_nil,
      List.append_nil, List.mem_map] at hm
    obtain ⟨own, ho, rfl⟩ := hm
    exact hunused.id_ne ⟨link, hl, htouches⟩ ho rfl
  refine ⟨h.root, h.body.prune fun b hb => ?_, ?_, h.registry⟩
  · rw [decide_eq_false_iff_not]
    exact hold b (mem_blocks_of_mem_body hb)
  · show w'.links.filter _ = w.links
    rw [h.links, List.filter_eq_self]
    intro link hl
    have hsource := hlinks link hl link.source (by simp [Link.touches])
    have htarget := hlinks link hl link.target (by simp [Link.touches])
    simp only [hsource, htarget, Bool.not_false, Bool.and_self]

/-- An event beside the old blocks leaves the workflow what it is, with other unused variables. -/
theorem happen (hw : w'.WellFormed) (hfixed : w.NamesFixed) {event : Happening μ}
    (he : event.Beside (w.blocks.map Block.id)) : w.Pads (w'.happen event) := by
  rcases w'.happen_cases event with ⟨edit, answer, rfl, hdone⟩ | ⟨-, hpass⟩ | hsame
  · cases he with
    | added parent hkind uid =>
      obtain ⟨added, ha, hadded⟩ := map_eq_ok.mp hdone
      have hpads := h.addBlock hw hkind ha
      rwa [(Prod.mk.inj hadded).2] at hpads
    | removed hid =>
      obtain ⟨shrunk, hs, hshrunk⟩ := map_eq_ok.mp hdone
      have hpads := h.removeBlock hid hs
      rwa [(Prod.mk.inj hshrunk).2] at hpads
  · rw [hpass]
    exact h.assignNames hfixed
  · rw [hsame]
    exact h

/-- Any number of events beside the old blocks leave the workflow what it is. -/
theorem after (hw : w'.Reachable) (hfixed : w.NamesFixed) {events : List (Happening μ)}
    (he : ∀ event ∈ events, event.Beside (w.blocks.map Block.id)) : w.Pads (w'.after events) := by
  induction events using List.reverseRecOn with
  | nil => exact h
  | append_singleton events event ih =>
    rw [after_concat]
    have hpads := ih fun other ho => he other (List.mem_append_left _ ho)
    exact hpads.happen (hw.after events).wellFormed hfixed
      (he event (List.mem_append_right _ (List.mem_singleton_self event)))

-- ---------------------------------------------------------------------------
-- Look-ups
-- ---------------------------------------------------------------------------

/-- The slots with a property that no slot of an unused variable has. -/
theorem filter_ownedSlots {p : OwnedSlot → Bool}
    (hp : ∀ block : Block, block.Unused w.links → ∀ slot ∈ block.slots, p ⟨block, slot⟩ = false) :
    w'.ownedSlots.filter p = w.ownedSlots.filter p := by
  rw [ownedSlots, ownedSlots, List.filter_flatMap, List.filter_flatMap]
  refine h.tree.flatMap_toList fun block hunused => ?_
  rw [List.filter_map, List.map_eq_nil_iff, List.filter_eq_nil_iff]
  intro slot hs
  rw [Function.comp_apply, hp block hunused slot hs]
  exact Bool.false_ne_true

theorem filter_slots {p : Slot → Bool}
    (hp : ∀ block : Block, block.Unused w.links → ∀ slot ∈ block.slots, p slot = false) :
    w'.slots.filter p = w.slots.filter p := by
  rw [slots, slots, List.filter_map, List.filter_map]
  exact congrArg _ (h.filter_ownedSlots hp)

/-- **A slot with a link is found where it was.** -/
theorem ownedSlot?_eq {id : SlotId} (hid : ∃ link ∈ w.links, link.touches id = true) :
    w'.ownedSlot? id = w.ownedSlot? id := by
  have hslots := h.filter_ownedSlots (p := (·.slot.id = id)) fun block hunused slot hs =>
    decide_eq_false (hunused.id_ne hid hs)
  rw [ownedSlot?, ownedSlot?, ← List.head?_filter, ← List.head?_filter, hslots]

end Pads

end Workflow

end SlotFlow
