import SlotFlow.Proofs.Naming.Pass
/-!
# Workflows that differ in identifiers only

A workflow before and after a naming pass is the same but for its identifiers. What is looked up in
the one corresponds to what is looked up in the other.

## Results

* `Workflow.exists_block_of_unnamed`, `Workflow.exists_slot_of_unnamed` — corresponding elements;
* `Workflow.exists_ownedSlot_of_unnamed` — corresponding answers to a look-up.
-/

namespace SlotFlow

/-- A slot and its block without their identifiers. -/
def OwnedSlot.unnamed (owned : OwnedSlot) : OwnedSlot :=
  ⟨owned.owner.unnamed, owned.slot.unnamed⟩

theorem Slot.id_of_unnamed {s t : Slot} (h : s.unnamed = t.unnamed) : s.id = t.id :=
  show s.unnamed.id = t.unnamed.id from congrArg Slot.id h

theorem Slot.kind_of_unnamed {s t : Slot} (h : s.unnamed = t.unnamed) : s.kind = t.kind :=
  show s.unnamed.kind = t.unnamed.kind from congrArg Slot.kind h

theorem Slot.optional_of_unnamed {s t : Slot} (h : s.unnamed = t.unnamed) :
    s.optional = t.optional :=
  show s.unnamed.optional = t.unnamed.optional from congrArg Slot.optional h

theorem Block.id_of_unnamed {b c : Block} (h : b.unnamed = c.unnamed) : b.id = c.id :=
  show b.unnamed.id = c.unnamed.id from congrArg Block.id h

theorem Block.kind_of_unnamed {b c : Block} (h : b.unnamed = c.unnamed) : b.kind = c.kind :=
  show b.unnamed.kind = c.unnamed.kind from congrArg Block.kind h

/-- The slots of a block that are found by name correspond. -/
theorem Block.exists_slot_of_unnamed {b c : Block} (h : c.unnamed = b.unnamed) {name : String}
    {slot : Slot} (hslot : c.slot? name = some slot) :
    ∃ other, b.slot? name = some other ∧ other.unnamed = slot.unnamed := by
  have hslots : c.slots.map Slot.unnamed = b.slots.map Slot.unnamed := congrArg Block.slots h
  have hfind := congrArg (List.find? fun slot : Slot => slot.name = name) hslots
  rw [List.find?_map, List.find?_map] at hfind
  have hfound : (c.slot? name).map Slot.unnamed = (b.slot? name).map Slot.unnamed := hfind
  rw [hslot] at hfound
  exact Option.map_eq_some_iff.mp hfound.symm

namespace Workflow

variable {μ : Type} {v w : Workflow μ}

theorem links_of_unnamed (h : v.unnamed = w.unnamed) : v.links = w.links :=
  show v.unnamed.links = w.unnamed.links from congrArg links h

theorem nextId_of_unnamed (h : v.unnamed = w.unnamed) : v.nextId = w.nextId :=
  show v.unnamed.nextId = w.unnamed.nextId from congrArg nextId h

/-- The blocks of the two correspond. -/
theorem exists_block_of_unnamed (h : v.unnamed = w.unnamed) {block : Block}
    (hb : block ∈ v.blocks) : ∃ other ∈ w.blocks, other.unnamed = block.unnamed := by
  have hmem := List.mem_map_of_mem (f := Block.unnamed) hb
  rw [map_unnamed_of_unnamed h] at hmem
  exact List.mem_map.mp hmem

/-- The slots of the two are the same but for their identifiers. -/
theorem map_unnamed_slots_of_unnamed (h : v.unnamed = w.unnamed) :
    v.slots.map Slot.unnamed = w.slots.map Slot.unnamed := by
  have hslots : ∀ w : Workflow μ,
      w.slots.map Slot.unnamed = (w.blocks.map Block.unnamed).flatMap Block.slots := by
    intro w
    rw [slots_eq, List.map_flatMap, List.flatMap_map]
    rfl
  rw [hslots, hslots, map_unnamed_of_unnamed h]

/-- The slots of the two correspond. -/
theorem exists_slot_of_unnamed (h : v.unnamed = w.unnamed) {slot : Slot} (hs : slot ∈ v.slots) :
    ∃ other ∈ w.slots, other.unnamed = slot.unnamed := by
  have hmem := List.mem_map_of_mem (f := Slot.unnamed) hs
  rw [map_unnamed_slots_of_unnamed h] at hmem
  exact List.mem_map.mp hmem

/-- The slots on the border of the two are the same but for their identifiers. -/
theorem map_unnamed_borderSlots_of_unnamed (h : v.unnamed = w.unnamed) (direction : Direction) :
    (v.borderSlots direction).map Slot.unnamed = (w.borderSlots direction).map Slot.unnamed := by
  have hborder : ∀ w : Workflow μ, (w.borderSlots direction).map Slot.unnamed =
      (w.slots.map Slot.unnamed).filter
        fun slot => slot.external && slot.direction = direction := by
    intro w
    rw [borderSlots, List.filter_map]
    rfl
  rw [hborder, hborder, map_unnamed_slots_of_unnamed h]

theorem ownedSlot?_unnamed (w : Workflow μ) (id : SlotId) :
    w.unnamed.ownedSlot? id = (w.ownedSlot? id).map OwnedSlot.unnamed := by
  have hslots : w.unnamed.ownedSlots = w.ownedSlots.map OwnedSlot.unnamed := by
    rw [ownedSlots, unnamed, blocks_mapBlocks, List.flatMap_map, ownedSlots, List.map_flatMap]
    refine List.flatMap_congr fun block _ => ?_
    simp only [Block.unnamed, List.map_map]
    rfl
  rw [ownedSlot?, hslots, List.find?_map]
  rfl

/-- What is found in the one corresponds to what is found in the other. -/
theorem exists_ownedSlot_of_unnamed (h : v.unnamed = w.unnamed) {id : SlotId} {owned : OwnedSlot}
    (ho : v.ownedSlot? id = some owned) :
    ∃ other, w.ownedSlot? id = some other ∧ other.unnamed = owned.unnamed := by
  have hfound := ownedSlot?_unnamed v id
  rw [h, ownedSlot?_unnamed, ho] at hfound
  exact Option.map_eq_some_iff.mp hfound

end Workflow

end SlotFlow
