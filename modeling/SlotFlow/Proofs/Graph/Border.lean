import SlotFlow.Proofs.Graph.WellFormed
/-!
# The border of a workflow

The slots on the border belong to the root, so that they are named apart, and each of them is known by
its name.

## Results

* `Workflow.WellFormed.mem_root_of_external` — slots on the border belong to the root;
* `Workflow.WellFormed.nodup_border_objectIds` — they are told apart by what they are known by;
* `Workflow.WellFormed.find?_borderSlots` — each of them is found by its name.
-/

namespace SlotFlow.Workflow

variable {μ : Type} {w : Workflow μ} {direction : Direction} {slot : Slot}

theorem mem_borderSlots : slot ∈ w.borderSlots direction ↔
    slot ∈ w.slots ∧ slot.external = true ∧ slot.direction = direction := by
  rw [borderSlots, List.mem_filter, Bool.and_eq_true, decide_eq_true_eq]

namespace WellFormed

/-- A slot on the border belongs to the root. -/
theorem owner_eq_root (h : w.WellFormed) {owner : Block} (howner : owner ∈ w.blocks)
    (hs : slot ∈ owner.slots) (hext : slot.external = true) : owner = w.root :=
  h.block_ext howner w.root_mem_blocks (h.blocks.border owner howner slot hs hext)

theorem mem_root_of_external (h : w.WellFormed) (hs : slot ∈ w.slots)
    (hext : slot.external = true) : slot ∈ w.root.slots := by
  obtain ⟨owner, howner, hin⟩ := mem_slots.mp hs
  rw [← h.owner_eq_root howner hin hext]
  exact hin

/-- The slots on the border stand among those of the root, in the same order. -/
theorem borderSlots_sublist (h : w.WellFormed) (direction : Direction) :
    (w.borderSlots direction).Sublist w.root.slots := by
  have hids := h.blocks.ids
  rw [blocks_eq, List.map_cons, List.nodup_cons] at hids
  have hbelow : (w.body.toList.flatMap Block.slots).filter
      (fun slot => slot.external && slot.direction = direction) = [] := by
    rw [List.filter_eq_nil_iff]
    intro slot hs hborder
    obtain ⟨owner, howner, hin⟩ := List.mem_flatMap.mp hs
    rw [Bool.and_eq_true] at hborder
    have hroot := h.owner_eq_root (mem_blocks_of_mem_body howner) hin hborder.1
    exact hids.1 (hroot ▸ List.mem_map_of_mem howner)
  rw [borderSlots, slots_eq, blocks_eq, List.flatMap_cons, List.filter_append, hbelow,
    List.append_nil]
  exact List.filter_sublist

/-- A slot on the border is known by its name. -/
theorem objectId_of_border (h : w.WellFormed) (hs : slot ∈ w.borderSlots direction) :
    slot.objectId = .name slot.name := by
  obtain ⟨hin, hext, -⟩ := mem_borderSlots.mp hs
  obtain ⟨owner, howner, hin⟩ := mem_slots.mp hin
  exact (h.blocks.slotSound owner howner slot hin).objectId hext

/-- No two slots on the border have the same name. -/
theorem nodup_border_names (h : w.WellFormed) (direction : Direction) :
    ((w.borderSlots direction).map Slot.name).Nodup :=
  (h.blocks.slotNames w.root w.root_mem_blocks).sublist ((h.borderSlots_sublist direction).map _)

/-- What slots on the border are known by tells them apart. -/
theorem nodup_border_objectIds (h : w.WellFormed) (direction : Direction) :
    ((w.borderSlots direction).map Slot.objectId).Nodup := by
  have hnamed : (w.borderSlots direction).map Slot.objectId =
      ((w.borderSlots direction).map Slot.name).map ObjectId.name := by
    rw [List.map_map]
    exact List.map_congr_left fun slot hs => h.objectId_of_border hs
  rw [hnamed]
  exact (h.nodup_border_names direction).map fun _ _ => ObjectId.name.inj

/-- A slot on the border is found by its name. -/
theorem find?_borderSlots (h : w.WellFormed) (hs : slot ∈ w.borderSlots direction) :
    (w.borderSlots direction).find? (·.objectId = .name slot.name) = some slot := by
  rw [← h.objectId_of_border hs]
  exact find?_key_of_mem (h.nodup_border_objectIds direction) hs

end WellFormed

end SlotFlow.Workflow
