import SlotFlow.Proofs.Arena.Fresh
import SlotFlow.Proofs.Arena.Lineage
import SlotFlow.Proofs.Graph.Kinds
/-!
# Saved documents are closed

The records of a workflow refer to each other only: a block to the uid of its parent, a slot to that of its
block, a link to those of its ends. On tables each of these is a look-up by number that may fail. It never
does, so no record is left out and none is given an empty reference.

* `ClosedRecords` — records that refer to records of the right sort, and blocks to earlier ones;
* `Arena.Describes` — the record of a row, where all look-ups succeed;
* `Arena.listing?` — the numbers of all rows in the order in which they are recorded;
* `Workflow.SavesClosed` — what the records of a workflow are.

## Results

* `Workflow.WellFormed.closedRecords` — the records of a workflow refer to each other;
* `Workflow.WellFormed.describes_records` — there is one record for each row;
* `Workflow.KindsKept.savesClosed` — all of this where no kind is edited.
-/

namespace SlotFlow

variable {μ : Type}

-- ---------------------------------------------------------------------------
-- Records
-- ---------------------------------------------------------------------------

/-- Records of blocks, slots and links that refer to each other. -/
structure ClosedRecords (blocks : List (BlockData × BlockKind)) (slots : List (SlotData × SlotKind))
    (links : List LinkData) : Prop where
  /-- The first block is a workflow without a parent. -/
  root : ∃ data rest, blocks = (data, .workflow) :: rest ∧ data.parent = none
  /-- Any other block names one before it as its parent. -/
  parents : ∀ before entry after, blocks = before ++ entry :: after → before ≠ [] →
    ∃ above ∈ before, entry.1.parent = some above.1.uid
  /-- A slot names one of the blocks as its owner. -/
  owners : ∀ entry ∈ slots, ∃ owner ∈ blocks, entry.1.owner = some owner.1.uid
  /-- A link leads from one of the outputs … -/
  sources : ∀ link ∈ links, ∃ entry ∈ slots, entry.2.direction = .output ∧ link.source = entry.1.uid
  /-- … to one of the inputs. -/
  targets : ∀ link ∈ links, ∃ entry ∈ slots, entry.2.direction = .input ∧ link.target = entry.1.uid

namespace Arena

/-- A record says what the row of a number says. Each number in the row leads to a row, and the record has
the uid that stands there. -/
def Describes (a : Arena μ) : Handle → Record → Prop
  | .block id, .block data kind => ∃ row, a.blocks id = some row ∧
      data.uid = row.uid ∧ data.name = some row.name ∧ kind = row.kind ∧
      match row.parent with
      | none => data.parent = none
      | some parent => ∃ above, a.blocks parent = some above ∧ data.parent = some above.uid
  | .slot id, .slot data kind => ∃ row owner, a.slots id = some row ∧
      a.blocks row.owner = some owner ∧ kind = row.slot.kind ∧
      data = row.slot.data (some owner.uid)
  | .link id, .link data => ∃ link source target, a.links id = some link ∧
      a.slots link.source = some source ∧ a.slots link.target = some target ∧
      source.slot.direction = .output ∧ target.slot.direction = .input ∧
      data = ⟨link.uid, source.slot.uid, target.slot.uid⟩
  | _, _ => False

/-- The numbers of the rows in the order in which they are recorded: blocks in tree order, their slots, and
links. -/
def listing? (a : Arena μ) (links : List LinkId) : Option (List Handle) :=
  a.treeOrder?.map fun blocks =>
    blocks.map .block ++ (blocks.flatMap a.slotsOf).map .slot ++ links.map .link

end Arena

namespace Workflow

variable {w : Workflow μ} {block : Block}

-- ---------------------------------------------------------------------------
-- References
-- ---------------------------------------------------------------------------

/-- What is recorded of a block. -/
def blockData (w : Workflow μ) (block : Block) : BlockData :=
  ⟨block.uid, (w.parent? block.id).map Block.uid, some block.name⟩

/-- What is recorded of a slot, with its kind. -/
def slotEntry (owned : OwnedSlot) : SlotData × SlotKind :=
  (owned.slot.data (some owned.owner.uid), owned.slot.kind)

/-- The records of a workflow are given by what is recorded of each element. -/
theorem records_eq (w : Workflow μ) :
    w.records =
      (w.blocks.map fun block => (w.blockData block, block.kind)).map (fun e => .block e.1 e.2) ++
      (w.ownedSlots.map slotEntry).map (fun e => .slot e.1 e.2) ++
      (w.links.map w.linkData).map .link := by
  rw [List.map_map, List.map_map, List.map_map]
  rfl

namespace WellFormed

/-- Nothing stands before the root. -/
theorem parent?_root (h : w.WellFormed) : w.parent? w.root.id = none := by
  have hblocks : w.blocks = [] ++ w.root :: w.body.toList := w.blocks_eq
  cases hp : w.parent? w.root.id with
  | none => rfl
  | some container => exact absurd (h.parent?_mem_before hblocks hp) List.not_mem_nil

/-- The ends of a link are found, and have their directions. -/
theorem exists_ends (h : w.WellFormed) {link : Link} (hl : link ∈ w.links) :
    ∃ source ∈ w.ownedSlots, ∃ target ∈ w.ownedSlots,
      w.ownedSlot? link.source = some source ∧ w.ownedSlot? link.target = some target ∧
      source.slot.direction = .output ∧ target.slot.direction = .input ∧
      w.linkData link = ⟨link.uid, source.slot.uid, target.slot.uid⟩ := by
  obtain ⟨source, hsource, target, htarget, hsid, htid, hout, hin⟩ := h.exists_ownedSlots_of_link hl
  have hfound : ∀ {owned : OwnedSlot}, owned ∈ w.ownedSlots → w.ownedSlot? owned.slot.id = some owned :=
    find?_key_of_mem h.ownedSlotIds
  refine ⟨source, hsource, target, htarget, hsid ▸ hfound hsource, htid ▸ hfound htarget, hout, hin, ?_⟩
  exact h.linkData_eq (List.mem_map_of_mem hsource) (List.mem_map_of_mem htarget) hsid htid

/-- The records of a workflow refer to each other. -/
theorem closedRecords (h : w.WellFormed) (hroot : w.root.kind = .workflow) :
    ClosedRecords (w.blocks.map fun block => (w.blockData block, block.kind))
      (w.ownedSlots.map slotEntry) (w.links.map w.linkData) where
  root := by
    rw [blocks_eq, List.map_cons, hroot]
    exact ⟨_, _, rfl, congrArg (Option.map Block.uid) h.parent?_root⟩
  parents before entry after hsplit hbefore := by
    obtain ⟨first, second, hblocks, rfl, hrest⟩ := List.map_eq_append_iff.mp hsplit
    obtain ⟨block, rest, rfl, rfl, -⟩ := List.map_eq_cons_iff.mp hrest
    have hbody : block ∈ w.body.toList := by
      rw [blocks_eq] at hblocks
      cases first with
      | nil => exact absurd rfl hbefore
      | cons b bs =>
        rw [(List.cons.inj hblocks).2]
        exact List.mem_append_right _ List.mem_cons_self
    obtain ⟨container, -, hparent, -⟩ := h.exists_parent? hbody
    exact ⟨_, List.mem_map_of_mem (h.parent?_mem_before hblocks hparent),
      congrArg (Option.map Block.uid) hparent⟩
  owners entry he := by
    obtain ⟨owned, ho, rfl⟩ := List.mem_map.mp he
    exact ⟨_, List.mem_map_of_mem (mem_ownedSlots.mp ho).1, rfl⟩
  sources data hd := by
    obtain ⟨link, hl, rfl⟩ := List.mem_map.mp hd
    obtain ⟨source, hsource, _, -, -, -, hout, -, hdata⟩ := h.exists_ends hl
    exact ⟨_, List.mem_map_of_mem hsource, hout, congrArg LinkData.source hdata⟩
  targets data hd := by
    obtain ⟨link, hl, rfl⟩ := List.mem_map.mp hd
    obtain ⟨_, -, target, htarget, -, -, -, hin, hdata⟩ := h.exists_ends hl
    exact ⟨_, List.mem_map_of_mem htarget, hin, congrArg LinkData.target hdata⟩

-- ---------------------------------------------------------------------------
-- Rows
-- ---------------------------------------------------------------------------

/-- The numbers of the elements in the order in which they are recorded. -/
theorem listing?_arena (h : w.WellFormed) :
    w.arena.listing? (w.links.map Link.id) =
      some (w.blocks.map (.block ·.id) ++ w.ownedSlots.map (.slot ·.slot.id) ++
        w.links.map (.link ·.id)) := by
  have hslots : (w.blocks.map Block.id).flatMap w.arena.slotsOf = w.ownedSlots.map (·.slot.id) := by
    rw [List.flatMap_map, ownedSlots, List.map_flatMap]
    refine List.flatMap_congr fun block hb => ?_
    rw [h.slotsOf_arena hb, List.map_map]
    rfl
  rw [Arena.listing?, h.treeOrder?_arena, Option.map_some, hslots, List.map_map, List.map_map,
    List.map_map]
  rfl

theorem nodup_listing (h : w.WellFormed) :
    (w.blocks.map (.block ·.id) ++ w.ownedSlots.map (.slot ·.slot.id) ++
      w.links.map (.link ·.id) : List Handle).Nodup := by
  have hblocks : (w.blocks.map (Handle.block ·.id)).Nodup := by
    have hids := h.blocks.ids.map (f := Handle.block) fun _ _ => Handle.block.inj
    rwa [List.map_map] at hids
  have hslots : (w.ownedSlots.map (Handle.slot ·.slot.id)).Nodup := by
    have hids := h.ownedSlotIds.map (f := Handle.slot) fun _ _ => Handle.slot.inj
    rwa [List.map_map] at hids
  have hlinks : (w.links.map (Handle.link ·.id)).Nodup := by
    have hids := h.linkIds.map (f := Handle.link) fun _ _ => Handle.link.inj
    rwa [List.map_map] at hids
  simp only [List.nodup_append, hblocks, hslots, hlinks, List.mem_append, List.mem_map, true_and]
  constructor
  · rintro _ ⟨_, -, rfl⟩ _ ⟨_, -, rfl⟩ ⟨⟩
  · rintro _ (⟨_, -, rfl⟩ | ⟨_, -, rfl⟩) _ ⟨_, -, rfl⟩ ⟨⟩

theorem mem_listing_iff (h : w.WellFormed) (handle : Handle) :
    handle ∈ w.blocks.map (.block ·.id) ++ w.ownedSlots.map (.slot ·.slot.id) ++
      w.links.map (.link ·.id) ↔ w.arena.Resolves handle := by
  rw [h.resolves_arena]
  cases handle <;> simp [Contains, slots]

/-- The row of a block is recorded with the uid of the parent that it names, … -/
theorem describes_block (h : w.WellFormed) (hb : block ∈ w.blocks) :
    w.arena.Describes (.block block.id) (w.recordOfBlock block) := by
  have hrow : w.arena.blocks block.id = some _ :=
    congrArg (Option.map _) (h.block?_eq_some.mpr ⟨hb, rfl⟩)
  refine ⟨_, hrow, rfl, rfl, rfl, ?_⟩
  show match (w.parent? block.id).map Block.id with
    | none => (w.parent? block.id).map Block.uid = none
    | some parent => ∃ above, w.arena.blocks parent = some above ∧
      (w.parent? block.id).map Block.uid = some above.uid
  cases hp : w.parent? block.id with
  | none => rfl
  | some container =>
    have habove : w.arena.blocks container.id = some _ :=
      congrArg (Option.map _) (h.block?_eq_some.mpr ⟨mem_blocks_of_parent? hp, rfl⟩)
    exact ⟨_, habove, rfl⟩

/-- … that of a slot with the uid of its owner … -/
theorem describes_slot (h : w.WellFormed) {owned : OwnedSlot} (ho : owned ∈ w.ownedSlots) :
    w.arena.Describes (.slot owned.slot.id) (recordOfSlot owned) := by
  obtain ⟨howner, hslot⟩ := mem_ownedSlots.mp ho
  have hrow := slots_arena_of_ownedSlot? (h.ownedSlot?_eq_some.mpr ⟨howner, hslot, rfl⟩)
  have hblock : w.arena.blocks owned.owner.id = some _ :=
    congrArg (Option.map _) (h.block?_eq_some.mpr ⟨howner, rfl⟩)
  exact ⟨_, _, hrow, hblock, rfl, rfl⟩

/-- … and that of a link with those of its ends. -/
theorem describes_link (h : w.WellFormed) {link : Link} (hl : link ∈ w.links) :
    w.arena.Describes (.link link.id) (w.recordOfLink link) := by
  obtain ⟨source, -, target, -, hsource, htarget, hout, hin, hdata⟩ := h.exists_ends hl
  exact ⟨link, _, _, h.links_arena_eq_some.mpr ⟨hl, rfl⟩, slots_arena_of_ownedSlot? hsource,
    slots_arena_of_ownedSlot? htarget, hout, hin, hdata⟩

/-- There is one record for each row. -/
theorem describes_records (h : w.WellFormed) :
    List.Forall₂ w.arena.Describes
      (w.blocks.map (.block ·.id) ++ w.ownedSlots.map (.slot ·.slot.id) ++ w.links.map (.link ·.id))
      w.records := by
  refine List.rel_append (List.rel_append ?_ ?_) ?_ <;>
    rw [List.forall₂_map_left_iff, List.forall₂_map_right_iff, List.forall₂_same]
  · exact fun block => h.describes_block
  · exact fun owned => h.describes_slot
  · exact fun link => h.describes_link

end WellFormed

-- ---------------------------------------------------------------------------
-- Main result
-- ---------------------------------------------------------------------------

/-- What the records of a workflow are. -/
structure SavesClosed (w : Workflow μ) : Prop where
  /-- First blocks, then slots, then links are recorded, and they refer to each other. -/
  closed : ∃ blocks slots links,
    w.records = blocks.map (fun e => .block e.1 e.2) ++ slots.map (fun e => .slot e.1 e.2) ++
      links.map .link ∧
    ClosedRecords blocks slots links
  /-- There is one record for each row of the tables, and each number in a row leads to a row. -/
  once : ∃ handles, w.arena.listing? (w.links.map Link.id) = some handles ∧ handles.Nodup ∧
    (∀ handle, handle ∈ handles ↔ w.arena.Resolves handle) ∧
    List.Forall₂ w.arena.Describes handles w.records

/-- **Saved documents are closed.** Where no kind is edited, the records of a workflow refer to each other,
and there is exactly one for each element. -/
theorem KindsKept.savesClosed (h : w.KindsKept) : w.SavesClosed where
  closed := ⟨_, _, _, w.records_eq, h.reachable.wellFormed.closedRecords h.shaped.root⟩
  once := ⟨_, h.reachable.wellFormed.listing?_arena, h.reachable.wellFormed.nodup_listing,
    h.reachable.wellFormed.mem_listing_iff, h.reachable.wellFormed.describes_records⟩

/-- A time loop with a constant in it that is linked to the loop. The constant names the loop as its parent,
and the link leads from the constant to the loop. -/
theorem savesClosed_of_loop :
    ∃ w : Workflow Unit, w.KindsKept ∧ w.SavesClosed ∧
      recordedBlocks w.records =
        [(⟨"uid-1", some "uid-0", some "TimeLoopBlock"⟩, .timeLoop),
          (⟨"uid-5", some "uid-1", some "ConstantPhysicalQuantityBlock"⟩,
            .constant (.quantity 1 "s"))] ∧
      recordedLinks w.records = [⟨"uid-7", "uid-6", "uid-2"⟩] := by
  have hloop := @KindsKept.edited Unit _ _ (.addBlock rootId .timeLoop none) _
    (.new "uid-" "Plan" .empty) rfl nofun
  have hconstant := @KindsKept.edited Unit _ _ (.addBlock ⟨1⟩ (.constant (.quantity 1 "s")) none) _ hloop
    rfl nofun
  have hlinked := @KindsKept.edited Unit _ _ (.connect ⟨2⟩ ⟨6⟩ none) _ hconstant rfl nofun
  exact ⟨_, hlinked, hlinked.savesClosed, rfl, rfl⟩

end Workflow

end SlotFlow
