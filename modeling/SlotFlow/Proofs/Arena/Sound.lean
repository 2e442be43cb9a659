import Mathlib.Data.List.Perm.Subperm
import SlotFlow.Proofs.Arena.Rows
/-!
# Sound arenas

The rows of an arena may contradict each other. They do not if the references between parents and
children, between owners and slots and between links and their ends go both ways, each once, and if
the walk down the children has an end.

## Results

* `Arena.Sound` — the rows fit together;
* `Workflow.WellFormed.descendants?_arena` — the walk down the children of a block has an end, and finds
  the blocks below it in tree order;
* `Workflow.WellFormed.sound_arena` — the tables of a well-formed workflow are sound.
-/

namespace SlotFlow

variable {μ : Type}

/-- The rows of an arena fit together. -/
structure Arena.Sound (a : Arena μ) : Prop where
  /-- The root is there, and it is the only block without a parent. -/
  root : ∀ id, (∃ row, a.blocks id = some row ∧ row.parent = none) ↔ id = a.root
  /-- The parent of a block lists it once. -/
  parent : ∀ id row above, a.blocks id = some row → row.parent = some above →
    ∃ aboveRow, a.blocks above = some aboveRow ∧ aboveRow.children.count id = 1
  /-- No other block lists it. -/
  child : ∀ id row below, a.blocks id = some row → below ∈ row.children →
    ∃ belowRow, a.blocks below = some belowRow ∧ belowRow.parent = some id
  /-- The walk in tree order comes by every block once. -/
  treeOrder : ∃ order, a.treeOrder? = some order ∧ order.Nodup ∧
    ∀ id, id ∈ order ↔ (a.blocks id).isSome = true
  /-- The owner of a slot lists it once. -/
  owner : ∀ id row, a.slots id = some row →
    ∃ ownerRow, a.blocks row.owner = some ownerRow ∧ ownerRow.slots.count id = 1
  /-- No other block lists it. -/
  owned : ∀ id row slot, a.blocks id = some row → slot ∈ row.slots →
    ∃ slotRow, a.slots slot = some slotRow ∧ slotRow.owner = id
  /-- Slots are named apart in their blocks. -/
  slotNames : ∀ s t first second, a.slots s = some first → a.slots t = some second →
    first.owner = second.owner → first.slot.name = second.slot.name → s = t
  /-- A slot on the border belongs to the root and is known by its name. -/
  border : ∀ id row, a.slots id = some row → row.slot.external = true →
    row.owner = a.root ∧ row.slot.objectId = .name row.slot.name
  /-- Only a plain input may be required. -/
  optional : ∀ id row, a.slots id = some row →
    row.slot.external = true ∨ row.slot.direction = .output → row.slot.optional = true
  /-- A link leads from an output to an input. The two list it once, and they agree in type. -/
  ends : ∀ id link, a.links id = some link →
    ∃ source target, a.slots link.source = some source ∧ a.slots link.target = some target ∧
      source.slot.direction = .output ∧ target.slot.direction = .input ∧
      source.links.count id = 1 ∧ target.links.count id = 1 ∧ source.slot.Agree target.slot
  /-- No other slot lists it. -/
  listed : ∀ id row link, a.slots id = some row → link ∈ row.links →
    ∃ linkRow, a.links link = some linkRow ∧ linkRow.touches id = true
  /-- An input has at most one link. -/
  single : ∀ id row, a.slots id = some row → row.slot.direction = .input → row.links.length ≤ 1
  /-- Two slots are joined by one link at most. -/
  pair : ∀ first second link other, a.links first = some link → a.links second = some other →
    link.joins other.source other.target = true → first = second
  /-- All numbers have been handed out. -/
  bound : ∀ number, a.nextId ≤ number →
    a.blocks ⟨number⟩ = none ∧ a.slots ⟨number⟩ = none ∧ a.links ⟨number⟩ = none

-- ---------------------------------------------------------------------------
-- Walks
-- ---------------------------------------------------------------------------

/-- Trees below a tree are trees of the whole forest. -/
theorem Forest.subtrees_subset {α : Type} {forest below : Forest α} {a : α}
    (h : (a, below) ∈ forest.subtrees) : below.subtrees ⊆ forest.subtrees := by
  induction forest with
  | nil => simp [subtrees] at h
  | node b under after ihUnder ihAfter =>
    simp only [subtrees, List.mem_cons, List.mem_append, Prod.mk.injEq] at h
    intro tree ht
    rw [subtrees, List.mem_cons, List.mem_append]
    rcases h with ⟨rfl, rfl⟩ | h | h
    · exact .inr (.inl ht)
    · exact .inr (.inl (ihUnder h ht))
    · exact .inr (.inr (ihAfter h ht))

/-- Where the table of blocks lists the children that a forest has, the walk follows the forest. It
goes no deeper than there are blocks in the forest. -/
theorem Arena.mapM_descendantsWithin {a : Arena μ} (forest : Forest Block) {depth : Nat}
    (hdepth : forest.ids.length ≤ depth)
    (h : ∀ tree ∈ forest.subtrees, a.children tree.1.id = tree.2.roots.map Block.id) :
    ∃ lists, ((forest.roots.map Block.id).mapM fun child => do
        return child :: (← a.descendantsWithin depth child)) = some lists ∧
      lists.flatten = forest.ids := by
  induction forest generalizing depth with
  | nil => exact ⟨[], rfl, rfl⟩
  | node b below after ihBelow ihAfter =>
    simp only [Forest.subtrees, List.mem_cons, List.mem_append, forall_eq_or_imp] at h
    rw [Forest.ids_node, List.length_cons, List.length_append] at hdepth
    obtain ⟨rest, rfl⟩ : ∃ rest, depth = rest + 1 := ⟨depth - 1, by omega⟩
    have hbelowDepth : below.ids.length ≤ rest := by omega
    have hafterDepth : after.ids.length ≤ rest + 1 := by omega
    obtain ⟨first, hfirst, hbelow⟩ := ihBelow hbelowDepth fun tree ht => h.2 tree (.inl ht)
    obtain ⟨others, hothers, hafter⟩ := ihAfter hafterDepth fun tree ht => h.2 tree (.inr ht)
    have hwalk : a.descendantsWithin (rest + 1) b.id = some below.ids := by
      rw [Arena.descendantsWithin, h.1, hfirst, ← hbelow]
      rfl
    refine ⟨(b.id :: below.ids) :: others, ?_, ?_⟩
    · rw [Forest.roots_node, List.map_cons, List.mapM_cons, hwalk, hothers]
      rfl
    · rw [List.flatten_cons, hafter, Forest.ids_node, List.cons_append]

namespace Workflow.WellFormed

variable {w : Workflow μ}

-- ---------------------------------------------------------------------------
-- Rows
-- ---------------------------------------------------------------------------

theorem blocks_arena_eq_some (h : w.WellFormed) {id : BlockId} {row : BlockRow} :
    w.arena.blocks id = some row ↔ ∃ p ∈ w.placed, p.id = id ∧ p.row = row := by
  rw [h.blocks_arena, Option.map_eq_some_iff]
  simp only [tableOf, find?_key_eq_some h.placedIds, and_assoc]

theorem slots_arena_eq_some (h : w.WellFormed) {id : SlotId} {row : SlotRow} :
    w.arena.slots id = some row ↔ row ∈ w.slotRows ∧ row.id = id := by
  rw [slots_arena, tableOf, find?_key_eq_some h.slotRowIds]

theorem links_arena_eq_some (h : w.WellFormed) {id : LinkId} {link : Link} :
    w.arena.links id = some link ↔ link ∈ w.links ∧ link.id = id := by
  rw [links_arena, tableOf, find?_key_eq_some h.linkIds]

theorem children_arena (h : w.WellFormed) {tree : Block × Forest Block}
    (ht : tree ∈ w.tree.subtrees) : w.arena.children tree.1.id = tree.2.roots.map Block.id := by
  have hmem := List.mem_map_of_mem (f := fun tree : Block × Forest Block =>
    (tree.1, tree.2.roots.map Block.id)) ht
  rw [← Forest.map_placed_eq_map_subtrees none, List.mem_map] at hmem
  obtain ⟨p, hp, heq⟩ := hmem
  simp only [Prod.mk.injEq] at heq
  have hrow := h.blocks_arena_eq_some.mpr ⟨p, hp, rfl, rfl⟩
  rw [Arena.children, ← heq.1, ← heq.2, show p.block.id = p.id from rfl, hrow]
  rfl

/-- There are no more blocks than numbers. -/
theorem length_blocks_le (h : w.WellFormed) : w.blocks.length ≤ w.nextId := by
  have hnodup : (w.blocks.map (·.id.val)).Nodup := by
    rw [List.nodup_map_iff_inj_on (.of_map _ h.blocks.ids)]
    intro b hb c hc hval
    exact h.block_ext hb hc (congrArg BlockId.mk hval)
  have hsub : w.blocks.map (·.id.val) ⊆ List.range w.nextId := by
    intro number hn
    obtain ⟨b, hb, rfl⟩ := List.mem_map.mp hn
    exact List.mem_range.mpr (h.blocks.idBound b hb)
  have hlength := (hnodup.subperm hsub).length_le
  rwa [List.length_map, List.length_range] at hlength

/-- The walk down the children of a block finds the blocks below it in tree order. -/
theorem descendants?_arena (h : w.WellFormed) {id : BlockId} {block : Block} {below : Forest Block}
    (hfind : w.subtree? id = some (block, below)) : w.arena.descendants? id = some below.ids := by
  have hmem := mem_subtrees_of_subtree? hfind
  have hlength : (block :: below.toList).length ≤ w.blocks.length :=
    (Forest.toList_sublist_of_mem_subtrees hmem).length_le
  have hbound := h.length_blocks_le
  rw [List.length_cons] at hlength
  obtain ⟨depth, hdepth⟩ : ∃ depth, w.nextId = depth + 1 := ⟨w.nextId - 1, by omega⟩
  have hbelow : below.ids.length ≤ depth := by
    rw [Forest.ids, List.length_map]
    omega
  obtain ⟨lists, hlists, hflat⟩ := @Arena.mapM_descendantsWithin _ w.arena below depth hbelow
    fun tree ht => h.children_arena (Forest.subtrees_subset hmem ht)
  obtain ⟨-, rfl⟩ := mem_of_subtree? hfind
  rw [Arena.descendants?, show w.arena.nextId = depth + 1 from hdepth, Arena.descendantsWithin,
    h.children_arena hmem, hlists, ← hflat]
  rfl

theorem treeOrder?_arena (h : w.WellFormed) :
    w.arena.treeOrder? = some (w.blocks.map Block.id) := by
  have hroot : w.subtree? w.root.id = some (w.root, w.body) := by
    simp [subtree?, tree, Forest.tree, Forest.find?_node]
  have hblocks : w.blocks.map Block.id = w.root.id :: w.body.ids := by
    simp [Workflow.blocks, tree, Forest.ids]
  rw [Arena.treeOrder?, show w.arena.root = w.root.id from rfl, h.descendants?_arena hroot, hblocks]
  rfl

-- ---------------------------------------------------------------------------
-- Soundness
-- ---------------------------------------------------------------------------

theorem count_linksAt (h : w.WellFormed) {link : Link} (hl : link ∈ w.links) {id : SlotId}
    (ht : link.touches id = true) : ((w.linksAt id).map Link.id).count link.id = 1 := by
  refine List.count_eq_one_of_mem ?_ (List.mem_map_of_mem (List.mem_filter.mpr ⟨hl, ht⟩))
  exact h.linkIds.sublist (List.filter_sublist.map _)

/-- An input has at most one link, since links lead to different inputs. -/
theorem length_linksAt_le (h : w.WellFormed) {slot : Slot} (hs : slot ∈ w.slots)
    (hin : slot.direction = .input) : ((w.linksAt slot.id).map Link.id).length ≤ 1 := by
  have htarget : ∀ link ∈ w.linksAt slot.id, link.target = slot.id := by
    intro link hl
    obtain ⟨hmem, htouch⟩ := List.mem_filter.mp hl
    simp only [Link.touches, Bool.or_eq_true, decide_eq_true_eq] at htouch
    rcases htouch with hsource | htarget
    · -- the source of a link is an output
      obtain ⟨source, hm, hid, hout⟩ := h.links.source link hmem
      rw [List.inj_on_of_nodup_map h.slotIds hm hs (hid.trans hsource), hin] at hout
      cases hout
    · exact htarget
  have hnodup : ((w.linksAt slot.id).map Link.target).Nodup :=
    h.links.targets.sublist (List.filter_sublist.map _)
  rw [List.map_congr_left htarget, List.map_const', List.nodup_replicate] at hnodup
  rwa [List.length_map]

theorem exists_slots_arena (h : w.WellFormed) {slot : Slot} (hs : slot ∈ w.slots) :
    ∃ owner, w.arena.slots slot.id = some ⟨slot, owner, (w.linksAt slot.id).map Link.id⟩ := by
  obtain ⟨block, hb, hslot⟩ := mem_slots.mp hs
  have hmem := mem_slotRows.mpr ⟨block, hb, slot, hslot, rfl⟩
  exact ⟨block.id, h.slots_arena_eq_some.mpr ⟨hmem, rfl⟩⟩

/-- A row of the table of slots is that of a slot of a block. -/
theorem exists_slot_of_arena (h : w.WellFormed) {id : SlotId} {row : SlotRow}
    (hs : w.arena.slots id = some row) : ∃ block ∈ w.blocks, ∃ slot ∈ block.slots,
      slot.id = id ∧ row = ⟨slot, block.id, (w.linksAt slot.id).map Link.id⟩ := by
  obtain ⟨hmem, rfl⟩ := h.slots_arena_eq_some.mp hs
  obtain ⟨block, hb, slot, hslot, rfl⟩ := mem_slotRows.mp hmem
  exact ⟨block, hb, slot, hslot, rfl, rfl⟩

theorem root_arena (h : w.WellFormed) (id : BlockId) :
    (∃ row, w.arena.blocks id = some row ∧ row.parent = none) ↔ id = w.root.id := by
  constructor
  · rintro ⟨row, hb, hparent⟩
    obtain ⟨p, hp, rfl, rfl⟩ := h.blocks_arena_eq_some.mp hb
    rcases Forest.mem_parent_of_mem_placed hp with ⟨-, hroot⟩ | ⟨q, -, hq, -⟩
    · simpa [tree, Placed.id] using hroot
    · rw [show p.parent = none from hparent] at hq
      cases hq
  · rintro rfl
    have hmem : ⟨w.root, none, w.body.roots.map Block.id⟩ ∈ w.placed := List.mem_cons_self
    exact ⟨_, h.blocks_arena_eq_some.mpr ⟨_, hmem, rfl, rfl⟩, rfl⟩

theorem parent_arena (h : w.WellFormed) {id above : BlockId} {row : BlockRow}
    (hb : w.arena.blocks id = some row) (hparent : row.parent = some above) :
    ∃ aboveRow, w.arena.blocks above = some aboveRow ∧ aboveRow.children.count id = 1 := by
  obtain ⟨p, hp, rfl, rfl⟩ := h.blocks_arena_eq_some.mp hb
  rcases Forest.mem_parent_of_mem_placed hp with ⟨hnone, -⟩ | ⟨q, hq, hqid, hc⟩
  · rw [show p.parent = some above from hparent] at hnone
    cases hnone
  · rw [show p.parent = some above from hparent, Option.some.injEq] at hqid
    subst hqid
    refine ⟨_, h.blocks_arena_eq_some.mpr ⟨q, hq, rfl, rfl⟩, List.count_eq_one_of_mem ?_ hc⟩
    exact h.blocks.ids.sublist (Forest.children_sublist_of_mem_placed hq)

/-- Two links that join the same slots lead into the same input. -/
theorem pair_links (h : w.WellFormed) {link other : Link} (hlink : link ∈ w.links)
    (hother : other ∈ w.links) (hj : link.joins other.source other.target = true) :
    link = other := by
  simp only [Link.joins, Bool.or_eq_true, Bool.and_eq_true, decide_eq_true_eq] at hj
  rcases hj with ⟨-, htarget⟩ | ⟨hcross, -⟩
  · exact List.inj_on_of_nodup_map h.links.targets hlink hother htarget
  · -- an output is no input
    obtain ⟨source, hs, hsid, hout⟩ := h.links.source link hlink
    obtain ⟨target, ht, htid, hin⟩ := h.links.target other hother
    have hsame := hsid.trans (hcross.trans htid.symm)
    rw [List.inj_on_of_nodup_map h.slotIds hs ht hsame, hin] at hout
    cases hout

/-- A number that is still to be handed out has no row. -/
theorem bound_arena (h : w.WellFormed) {number : Nat} (hle : w.nextId ≤ number) :
    w.arena.blocks ⟨number⟩ = none ∧ w.arena.slots ⟨number⟩ = none ∧
      w.arena.links ⟨number⟩ = none := by
  refine ⟨?_, ?_, ?_⟩ <;> rw [Option.eq_none_iff_forall_ne_some] <;> intro row hrow
  · obtain ⟨p, hp, hid, -⟩ := h.blocks_arena_eq_some.mp hrow
    have hlt := h.blocks.idBound _ (mem_blocks_iff_placed.mpr ⟨p, hp, rfl⟩)
    have hnumber : p.block.id.val = number := congrArg BlockId.val hid
    omega
  · obtain ⟨block, hb, slot, hslot, hid, -⟩ := h.exists_slot_of_arena hrow
    have hlt := h.blocks.slotBound block hb slot hslot
    have hnumber : slot.id.val = number := congrArg SlotId.val hid
    omega
  · obtain ⟨hmem, hid⟩ := h.links_arena_eq_some.mp hrow
    have hlt := h.links.idBound row hmem
    have hnumber : row.id.val = number := congrArg LinkId.val hid
    omega

/-- The tables of a well-formed workflow are sound. -/
theorem sound_arena (h : w.WellFormed) : w.arena.Sound where
  root := h.root_arena
  parent id row above := h.parent_arena
  child := by
    intro id row below hb hc
    obtain ⟨q, hq, rfl, rfl⟩ := h.blocks_arena_eq_some.mp hb
    obtain ⟨p, hp, rfl, hparent⟩ := Forest.mem_placed_of_mem_children hq hc
    exact ⟨_, h.blocks_arena_eq_some.mpr ⟨p, hp, rfl, rfl⟩, hparent⟩
  treeOrder := by
    refine ⟨_, h.treeOrder?_arena, h.blocks.ids, fun id => ?_⟩
    rw [← map_id_placed, Option.isSome_iff_exists, List.mem_map]
    simp only [h.blocks_arena_eq_some]
    constructor
    · rintro ⟨p, hp, hid⟩
      exact ⟨_, p, hp, hid, rfl⟩
    · rintro ⟨_, p, hp, hid, -⟩
      exact ⟨p, hp, hid⟩
  owner := by
    intro id row hs
    obtain ⟨block, hb, slot, hslot, rfl, rfl⟩ := h.exists_slot_of_arena hs
    obtain ⟨p, hp, rfl⟩ := mem_blocks_iff_placed.mp hb
    refine ⟨_, h.blocks_arena_eq_some.mpr ⟨p, hp, rfl, rfl⟩, ?_⟩
    exact List.count_eq_one_of_mem (h.blocks.slotIds_of_mem hb) (List.mem_map_of_mem hslot)
  owned := by
    intro id row slotId hb hs
    obtain ⟨p, hp, rfl, rfl⟩ := h.blocks_arena_eq_some.mp hb
    obtain ⟨slot, hslot, rfl⟩ := List.mem_map.mp hs
    have hblock : p.block ∈ w.blocks := mem_blocks_iff_placed.mpr ⟨p, hp, rfl⟩
    have hmem := mem_slotRows.mpr ⟨p.block, hblock, slot, hslot, rfl⟩
    exact ⟨_, h.slots_arena_eq_some.mpr ⟨hmem, rfl⟩, rfl⟩
  slotNames := by
    intro s t first second hs ht howner hname
    obtain ⟨b, hb, slot, hslot, rfl, rfl⟩ := h.exists_slot_of_arena hs
    obtain ⟨c, hc, other, hother, rfl, rfl⟩ := h.exists_slot_of_arena ht
    obtain rfl := h.block_ext hb hc howner
    rw [List.inj_on_of_nodup_map (h.blocks.slotNames _ hb) hslot hother hname]
  border := by
    intro id row hs hext
    obtain ⟨block, hb, slot, hslot, rfl, rfl⟩ := h.exists_slot_of_arena hs
    have hsound := h.blocks.slotSound block hb slot hslot
    exact ⟨h.blocks.border block hb slot hslot hext, hsound.objectId hext⟩
  optional := by
    intro id row hs hkind
    obtain ⟨block, hb, slot, hslot, rfl, rfl⟩ := h.exists_slot_of_arena hs
    exact (h.blocks.slotSound block hb slot hslot).optional hkind
  ends := by
    intro id link hl
    obtain ⟨hmem, rfl⟩ := h.links_arena_eq_some.mp hl
    obtain ⟨source, hsource, hsid, hout⟩ := h.links.source link hmem
    obtain ⟨target, htarget, htid, hin⟩ := h.links.target link hmem
    have hagree := h.types link hmem source hsource target htarget hsid htid
    obtain ⟨sourceOwner, hsrow⟩ := h.exists_slots_arena hsource
    obtain ⟨targetOwner, htrow⟩ := h.exists_slots_arena htarget
    rw [hsid] at hsrow
    rw [htid] at htrow
    refine ⟨_, _, hsrow, htrow, hout, hin, ?_, ?_, hagree⟩
    · exact h.count_linksAt hmem (by simp [Link.touches])
    · exact h.count_linksAt hmem (by simp [Link.touches])
  listed := by
    intro id row linkId hs hl
    obtain ⟨block, hb, slot, hslot, rfl, rfl⟩ := h.exists_slot_of_arena hs
    obtain ⟨link, hlink, rfl⟩ := List.mem_map.mp hl
    obtain ⟨hlink, htouch⟩ := List.mem_filter.mp hlink
    exact ⟨link, h.links_arena_eq_some.mpr ⟨hlink, rfl⟩, htouch⟩
  single := by
    intro id row hs hin
    obtain ⟨block, hb, slot, hslot, rfl, rfl⟩ := h.exists_slot_of_arena hs
    exact h.length_linksAt_le (mem_slots.mpr ⟨block, hb, hslot⟩) hin
  pair := by
    intro first second link other hl ho hj
    obtain ⟨hlink, rfl⟩ := h.links_arena_eq_some.mp hl
    obtain ⟨hother, rfl⟩ := h.links_arena_eq_some.mp ho
    rw [h.pair_links hlink hother hj]
  bound number := h.bound_arena

end Workflow.WellFormed

end SlotFlow
