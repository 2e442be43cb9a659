import Mathlib.Data.List.Find
import SlotFlow.Proofs.Document.Isomorphic
import SlotFlow.Proofs.Naming.Unnamed
/-!
# New numbers for elements that keep their identifiers

A workflow can have its elements numbered anew while they keep the identifiers they go by. What is
looked up in it by the new numbers is what was found by the old ones, and a naming pass gives the
same identifiers before and after.

* `Slot.reindex`, `Block.reindex` — an element under its new number;
* `Workflow.Reindexes` — a workflow is another one under new numbers.

## Results

* `Workflow.Reindexes.ownedSlot?_eq`, `Workflow.Reindexes.partners_eq` — look-ups correspond;
* `Workflow.Reindexes.assignNames` — naming passes on both sides keep them corresponding.
-/

namespace SlotFlow

variable (ρ : Renumbering)

/-- A slot under its new number. -/
def Slot.reindex (slot : Slot) : Slot :=
  { slot with id := ρ.slot slot.id }

/-- A block under its new number, with its slots under theirs. -/
def Block.reindex (block : Block) : Block :=
  { block with id := ρ.block block.id, slots := block.slots.map (Slot.reindex ρ) }

/-- A slot and its block under their new numbers. -/
def OwnedSlot.reindex (owned : OwnedSlot) : OwnedSlot :=
  ⟨owned.owner.reindex ρ, owned.slot.reindex ρ⟩

theorem Block.slot?_reindex (block : Block) (name : String) :
    (block.reindex ρ).slot? name = (block.slot? name).map (Slot.reindex ρ) := by
  rw [slot?, reindex, List.find?_map]
  rfl

-- ---------------------------------------------------------------------------
-- Naming passes
-- ---------------------------------------------------------------------------

/-- A walk does to changed labels what it does to the others, if each of its steps does. -/
theorem Forest.mapState_map {α β σ : Type} {f : σ → α → α × σ} {f' : σ → β → β × σ} {g : α → β}
    (h : ∀ s a, f' s (g a) = (g (f s a).1, (f s a).2)) (s : σ) (forest : Forest α) :
    (forest.map g).mapState f' s = ((forest.mapState f s).1.map g, (forest.mapState f s).2) := by
  induction forest generalizing s with
  | nil => rfl
  | node a below after ihBelow ihAfter => simp only [map, mapState, h, ihBelow, ihAfter]

theorem Slot.assignName_reindex (taken : List String) (slot : Slot) :
    (slot.reindex ρ).assignName taken =
      ((slot.assignName taken).1.reindex ρ, (slot.assignName taken).2) := by
  rw [assignName, assignName]
  have hstem : (slot.reindex ρ).codeStem? = slot.codeStem? := rfl
  have hname : (slot.reindex ρ).codeName = slot.codeName := rfl
  rw [hstem, hname]
  cases slot.codeName <;> cases slot.codeStem? <;> rfl

theorem Slot.assignNames_reindex (taken : List String) (slots : List Slot) :
    assignNames taken (slots.map (reindex ρ)) =
      ((assignNames taken slots).1.map (reindex ρ), (assignNames taken slots).2) := by
  induction slots generalizing taken with
  | nil => rfl
  | cons slot slots ih => simp only [List.map_cons, assignNames, assignName_reindex, ih]

theorem Block.assignName_reindex (taken : List String) (block : Block) :
    (block.reindex ρ).assignName taken =
      ((block.assignName taken).1.reindex ρ, (block.assignName taken).2) := rfl

theorem Block.assignSlotNames_reindex (taken : List String) (block : Block) :
    (block.reindex ρ).assignSlotNames taken =
      ((block.assignSlotNames taken).1.reindex ρ, (block.assignSlotNames taken).2) := by
  rw [assignSlotNames, show (block.reindex ρ).slots = block.slots.map (Slot.reindex ρ) from rfl,
    Slot.assignNames_reindex]
  rfl

namespace Workflow

variable {μ : Type} {ρ} {w w' : Workflow μ}

/-- A workflow is another one under new numbers, which are different for different slots. -/
structure Reindexes (ρ : Renumbering) (w w' : Workflow μ) : Prop where
  wellFormed : w.WellFormed
  apart : ∀ s ∈ w.slots, ∀ t ∈ w.slots, ρ.slot s.id = ρ.slot t.id → s.id = t.id
  root : w'.root = w.root.reindex ρ
  body : w'.body = w.body.map (Block.reindex ρ)
  links : w'.links = w.links.map (Link.renumber ρ)
  registry : w'.registry = w.registry

theorem mapBlocksState_reindex {σ : Type} {f : σ → Block → Block × σ}
    (hf : ∀ s block, f s (block.reindex ρ) = ((f s block).1.reindex ρ, (f s block).2))
    (hroot : w'.root = w.root.reindex ρ) (hbody : w'.body = w.body.map (Block.reindex ρ)) (s : σ) :
    (w'.mapBlocksState f s).1.root = (w.mapBlocksState f s).1.root.reindex ρ ∧
      (w'.mapBlocksState f s).1.body = (w.mapBlocksState f s).1.body.map (Block.reindex ρ) ∧
      (w'.mapBlocksState f s).2 = (w.mapBlocksState f s).2 := by
  simp only [mapBlocksState, hroot, hbody, hf, Forest.mapState_map hf, and_self]

namespace Reindexes

variable (h : Reindexes ρ w w')

include h

theorem tree_eq : w'.tree = w.tree.map (Block.reindex ρ) := by
  rw [tree, tree, h.root, h.body]
  rfl

theorem blocks_eq : w'.blocks = w.blocks.map (Block.reindex ρ) := by
  rw [blocks, h.tree_eq, Forest.toList_map]
  rfl

theorem ownedSlots_eq : w'.ownedSlots = w.ownedSlots.map (OwnedSlot.reindex ρ) := by
  rw [ownedSlots, h.blocks_eq, List.flatMap_map, ownedSlots, List.map_flatMap]
  refine List.flatMap_congr fun block _ => ?_
  simp only [Block.reindex, List.map_map]
  rfl

theorem slots_eq : w'.slots = w.slots.map (Slot.reindex ρ) := by
  rw [slots, h.ownedSlots_eq, slots, List.map_map, List.map_map]
  rfl

theorem codeNames_eq : w'.codeNames = w.codeNames := by
  rw [codeNames, h.blocks_eq, h.slots_eq, List.filterMap_map, List.filterMap_map]
  rfl

/-- **A naming pass gives the same identifiers**, whatever the numbers are. -/
theorem assignNames : Reindexes ρ w.assignNames w'.assignNames := by
  have htaken : w'.codeNames ++ Identifier.reservedMembers =
      w.codeNames ++ Identifier.reservedMembers := by rw [h.codeNames_eq]
  obtain ⟨hroot, hbody, hstate⟩ := mapBlocksState_reindex (Block.assignName_reindex ρ) h.root h.body
    (w.codeNames ++ Identifier.reservedMembers)
  obtain ⟨hroot, hbody, -⟩ := mapBlocksState_reindex (Block.assignSlotNames_reindex ρ) hroot hbody
    (w.mapBlocksState Block.assignName (w.codeNames ++ Identifier.reservedMembers)).2
  refine ⟨h.wellFormed.assignNames, fun s hs t ht hst => ?_, ?_, ?_, h.links, h.registry⟩
  · obtain ⟨s', hs', hsame⟩ := exists_slot_of_unnamed w.unnamed_assignNames hs
    obtain ⟨t', ht', htame⟩ := exists_slot_of_unnamed w.unnamed_assignNames ht
    rw [← Slot.id_of_unnamed hsame, ← Slot.id_of_unnamed htame] at hst ⊢
    exact h.apart s' hs' t' ht' hst
  · rw [Workflow.assignNames, htaken]
    rw [hstate]
    exact hroot
  · rw [Workflow.assignNames, htaken]
    rw [hstate]
    exact hbody

-- ---------------------------------------------------------------------------
-- Look-ups
-- ---------------------------------------------------------------------------

variable {slot : Slot} (hs : slot ∈ w.slots)

include hs

/-- A slot is found by its new number where it was found before. -/
theorem ownedSlot?_eq :
    w'.ownedSlot? (ρ.slot slot.id) = (w.ownedSlot? slot.id).map (OwnedSlot.reindex ρ) := by
  rw [ownedSlot?, h.ownedSlots_eq, List.find?_map, ownedSlot?]
  refine congrArg _ (List.find?_congr fun owned ho => ?_)
  have hslot : owned.slot ∈ w.slots := List.mem_map_of_mem ho
  exact decide_eq_decide.mpr ⟨h.apart _ hslot _ hs, congrArg ρ.slot⟩

theorem slot?_eq : w'.slot? (ρ.slot slot.id) = (w.slot? slot.id).map (Slot.reindex ρ) := by
  rw [slot?, h.ownedSlot?_eq hs, slot?, Option.map_map, Option.map_map]
  rfl

/-- The ends of a link are told apart by their new numbers. -/
theorem end_eq_iff {link : Link} (hl : link ∈ w.links) :
    (ρ.slot link.source = ρ.slot slot.id ↔ link.source = slot.id) ∧
      (ρ.slot link.target = ρ.slot slot.id ↔ link.target = slot.id) := by
  obtain ⟨source, hsource, hsid, -⟩ := h.wellFormed.links.source link hl
  obtain ⟨target, htarget, htid, -⟩ := h.wellFormed.links.target link hl
  rw [← hsid, ← htid]
  exact ⟨⟨h.apart _ hsource _ hs, congrArg ρ.slot⟩, ⟨h.apart _ htarget _ hs, congrArg ρ.slot⟩⟩

theorem partners_eq : w'.partners (ρ.slot slot.id) = (w.partners slot.id).map ρ.slot := by
  rw [partners, h.links, List.filterMap_map, partners, List.map_filterMap]
  refine List.filterMap_congr fun link hl => ?_
  obtain ⟨hsource, htarget⟩ := h.end_eq_iff hs hl
  simp only [Function.comp_apply, Link.otherEnd?, Link.renumber, hsource, htarget]
  split
  · rfl
  · split <;> rfl

theorem partner?_eq : w'.partner? (ρ.slot slot.id) = (w.partner? slot.id).map ρ.slot := by
  have hpartners := congrArg List.head? (h.partners_eq hs)
  rwa [partners, partners, List.head?_map, List.head?_filterMap, List.head?_filterMap] at hpartners

theorem isLinked_eq : w'.isLinked (ρ.slot slot.id) = w.isLinked slot.id := by
  rw [isLinked, h.links, List.any_map, isLinked, Bool.eq_iff_iff, List.any_eq_true, List.any_eq_true]
  refine exists_congr fun link => and_congr_right fun hl => ?_
  obtain ⟨hsource, htarget⟩ := h.end_eq_iff hs hl
  simp only [Function.comp_apply, Link.touches, Link.renumber, hsource, htarget]

end Reindexes

end Workflow

end SlotFlow
