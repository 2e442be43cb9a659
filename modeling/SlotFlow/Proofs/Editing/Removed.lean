import SlotFlow.Proofs.Arena.Lockstep
import SlotFlow.Proofs.Graph.History
/-!
# What a removed block takes with it

A block that is removed takes with it the blocks below it, their slots, and the links that have an end on
one of these. Everything else stays what and where it was: no list changes its order, and the tables only
lose the rows of what has gone and the mentions of it.

* `Workflow.subtreeIds` — the numbers of a block and of those below it;
* `Arena.without` — tables without some blocks;
* `Workflow.RemovesSubtree` — a workflow before and after a subtree is removed.

## Results

* `Workflow.WellFormed.subtrees_removeBlock` — the trees that are left;
* `Workflow.WellFormed.arena_without` — the tables that are left;
* `Workflow.Reachable.removesSubtree` — all of this for reachable workflows.
-/

namespace SlotFlow

variable {μ : Type}

-- ---------------------------------------------------------------------------
-- Tables
-- ---------------------------------------------------------------------------

namespace Arena

variable (gone : List BlockId) (a : Arena μ)

/-- Whether a slot belongs to a block that stays. -/
def keepsSlot (id : SlotId) : Bool :=
  (a.slots id).all (·.owner ∉ gone)

/-- Whether both ends of a link belong to blocks that stay. -/
def keepsLink (link : Link) : Bool :=
  a.keepsSlot gone link.source && a.keepsSlot gone link.target

/-- Tables without the rows of some blocks, of their slots and of the links of these, and without any
mention of them. -/
def without : Arena μ :=
  { a with
    blocks := fun id => if id ∈ gone then none else (a.blocks id).map fun row =>
      { row with
        children := row.children.filter (· ∉ gone)
        slots := row.slots.filter (a.keepsSlot gone) }
    slots := fun id => ((a.slots id).filter (·.owner ∉ gone)).map fun row =>
      { row with links := row.links.filter fun link => (a.links link).all (a.keepsLink gone) }
    links := fun id => (a.links id).filter (a.keepsLink gone) }

end Arena

-- ---------------------------------------------------------------------------
-- Trees
-- ---------------------------------------------------------------------------

namespace Workflow

variable {w w' : Workflow μ} {id : BlockId} {block : Block} {below : Forest Block}

/-- The numbers of a block and of those below it. -/
def subtreeIds (w : Workflow μ) (id : BlockId) : List BlockId :=
  id :: (w.descendants id).map Block.id

theorem descendants_eq (hfind : w.subtree? id = some (block, below)) :
    w.descendants id = below.toList := by
  rw [descendants, Workflow.below, hfind]
  rfl

theorem subtreeIds_eq (hfind : w.subtree? id = some (block, below)) :
    w.subtreeIds id = (Forest.tree block below).toList.map Block.id := by
  rw [subtreeIds, descendants_eq hfind, Forest.toList_tree, List.map_cons, (mem_of_subtree? hfind).2]

theorem id_mem_subtreeIds (w : Workflow μ) (id : BlockId) : id ∈ w.subtreeIds id :=
  List.mem_cons_self

namespace WellFormed

/-- The trees that are left are the old ones without those that are cut out. -/
theorem subtrees_prune (h : w.WellFormed) (hfind : w.subtree? id = some (block, below)) :
    (w.tree.prune (·.id = id)).subtrees =
      (w.tree.subtrees.filter (·.1.id ∉ w.subtreeIds id)).map fun tree =>
        (tree.1, tree.2.prune (·.id = id)) := by
  obtain ⟨before, after, hall, hleft⟩ := Forest.exists_subtrees_prune h.blocks.ids hfind
  have hnodup := h.blocks.ids
  rw [← ids_tree, ← Forest.map_id_subtrees, hall] at hnodup
  rw [hleft, hall, subtreeIds_eq hfind, ← Forest.ids, ← Forest.map_id_subtrees, filter_of_nodup hnodup]

/-- The trees at the blocks that go are part of the one that goes. -/
theorem mem_subtrees_of_mem_subtreeIds (h : w.WellFormed)
    (hfind : w.subtree? id = some (block, below)) {tree : Block × Forest Block}
    (ht : tree ∈ w.tree.subtrees) (hgone : tree.1.id ∈ w.subtreeIds id) :
    tree ∈ (Forest.tree block below).subtrees := by
  rw [subtreeIds_eq hfind, ← Forest.ids, ← Forest.map_id_subtrees] at hgone
  obtain ⟨other, ho, hid⟩ := List.mem_map.mp hgone
  have hmem := mem_subtrees_of_subtree? hfind
  have hother : other ∈ w.tree.subtrees := by
    simp only [Forest.tree, Forest.subtrees, List.append_nil, List.mem_cons] at ho
    rcases ho with rfl | ho
    · exact hmem
    · exact Forest.subtrees_subset hmem ho
  have hids := h.blocks.ids
  rw [← ids_tree, ← Forest.map_id_subtrees] at hids
  obtain rfl := List.inj_on_of_nodup_map hids hother ht hid
  exact ho

/-- The children of a block that goes go as well. -/
theorem mem_subtreeIds_of_mem_roots (h : w.WellFormed)
    (hfind : w.subtree? id = some (block, below)) {tree : Block × Forest Block}
    (ht : tree ∈ w.tree.subtrees) (hgone : tree.1.id ∈ w.subtreeIds id) {b : Block}
    (hb : b ∈ tree.2.roots) : b.id ∈ w.subtreeIds id := by
  have hpart := h.mem_subtrees_of_mem_subtreeIds hfind ht hgone
  rw [subtreeIds_eq hfind]
  refine List.mem_map_of_mem ((Forest.toList_sublist_of_mem_subtrees hpart).subset ?_)
  exact List.mem_cons_of_mem _ ((Forest.roots_sublist _).subset hb)

-- ---------------------------------------------------------------------------
-- Blocks
-- ---------------------------------------------------------------------------

theorem tree_removeBlock (hw : w.removeBlock id = .ok w') : w'.tree = w.tree.prune (·.id = id) := by
  obtain ⟨hroot, _, _, -, rfl⟩ := removeBlock_eq_ok.mp hw
  exact tree_prune hroot

theorem subtrees_removeBlock (h : w.WellFormed) (hw : w.removeBlock id = .ok w') :
    w'.tree.subtrees =
      (w.tree.subtrees.filter (·.1.id ∉ w.subtreeIds id)).map fun tree =>
        (tree.1, tree.2.prune (·.id = id)) := by
  obtain ⟨-, block, below, hfind, -⟩ := removeBlock_eq_ok.mp hw
  rw [tree_removeBlock hw, h.subtrees_prune hfind]

theorem blocks_removeBlock (h : w.WellFormed) (hw : w.removeBlock id = .ok w') :
    w'.blocks = w.blocks.filter (·.id ∉ w.subtreeIds id) := by
  rw [Workflow.blocks, ← Forest.map_fst_subtrees, h.subtrees_removeBlock hw, List.map_map,
    Workflow.blocks, ← Forest.map_fst_subtrees, List.filter_map]
  rfl

theorem ownedSlots_removeBlock (h : w.WellFormed) (hw : w.removeBlock id = .ok w') :
    w'.ownedSlots = w.ownedSlots.filter (·.owner.id ∉ w.subtreeIds id) := by
  rw [ownedSlots, h.blocks_removeBlock hw, flatMap_filter, ownedSlots, List.filter_flatMap]
  refine List.flatMap_congr fun block _ => ?_
  rw [List.filter_map]
  by_cases hgone : block.id ∈ w.subtreeIds id <;> simp [Function.comp_def, hgone]

/-- A block that stays has below it what it had, less what has gone. -/
theorem subtree?_removeBlock (h : w.WellFormed) (hw : w.removeBlock id = .ok w') {other : BlockId}
    (hstays : other ∉ w.subtreeIds id) :
    w'.subtree? other = (w.subtree? other).map fun tree => (tree.1, tree.2.prune (·.id = id)) := by
  rw [subtree?, Forest.find?, h.subtrees_removeBlock hw, List.find?_map, List.find?_filter, subtree?,
    Forest.find?]
  refine congrArg (Option.map _) (List.find?_congr fun tree _ => ?_)
  by_cases hid : tree.1.id = other
  · simp [hid, hstays]
  · simp [hid]

theorem parent?_removeBlock (h : w.WellFormed) (hw : w.removeBlock id = .ok w') {other : BlockId}
    (hstays : other ∉ w.subtreeIds id) : w'.parent? other = w.parent? other := by
  obtain ⟨-, block, below, hfind, -⟩ := removeBlock_eq_ok.mp hw
  have hne : other ≠ id := fun heq => hstays (heq ▸ w.id_mem_subtreeIds id)
  have hroots : ∀ forest : Forest Block,
      (forest.prune (·.id = id)).roots.any (·.id = other) = forest.roots.any (·.id = other) := by
    intro forest
    rw [Forest.roots_prune, List.any_filter]
    refine List.any_congr rfl fun b => ?_
    by_cases hid : b.id = other
    · simp [hid, hne]
    · simp [hid]
  rw [parent?, h.subtrees_removeBlock hw, List.find?_map, List.find?_filter, Option.map_map, parent?]
  refine congrArg (Option.map _) (List.find?_congr fun tree ht => ?_)
  simp only [Function.comp_apply, hroots]
  -- a block that goes is the parent of none that stays
  cases hany : tree.2.roots.any (·.id = other) with
  | false => simp
  | true =>
    obtain ⟨b, hb, hid⟩ := List.any_eq_true.mp hany
    have hkept : tree.1.id ∉ w.subtreeIds id := fun hgone =>
      hstays (of_decide_eq_true hid ▸ h.mem_subtreeIds_of_mem_roots hfind ht hgone hb)
    simp [hkept]

theorem children_removeBlock (h : w.WellFormed) (hw : w.removeBlock id = .ok w') {other : BlockId}
    (hstays : other ∉ w.subtreeIds id) :
    w'.children other = (w.children other).filter (·.id ∉ w.subtreeIds id) := by
  have hchildren : w'.children other = (w.children other).filter fun b => !decide (b.id = id) := by
    rw [Workflow.children, Workflow.children, below, below, h.subtree?_removeBlock hw hstays]
    cases w.subtree? other with
    | none => rfl
    | some tree => exact Forest.roots_prune ..
  -- what is left has not gone
  have hleft : ∀ b ∈ w'.children other, b.id ∉ w.subtreeIds id := by
    intro b hb
    have hblock := w'.children_subset_blocks other hb
    rw [h.blocks_removeBlock hw] at hblock
    exact of_decide_eq_true (List.mem_filter.mp hblock).2
  rw [hchildren] at hleft ⊢
  refine List.filter_congr fun b hb => ?_
  by_cases hid : b.id = id
  · simp [hid, w.id_mem_subtreeIds id]
  · have hkept := hleft b (List.mem_filter.mpr ⟨hb, by simpa using hid⟩)
    simp [hid, hkept]

-- ---------------------------------------------------------------------------
-- Slots and links
-- ---------------------------------------------------------------------------

theorem keepsSlot_arena (h : w.WellFormed) (gone : List BlockId) {owned : OwnedSlot}
    (ho : owned ∈ w.ownedSlots) :
    w.arena.keepsSlot gone owned.slot.id = decide (owned.owner.id ∉ gone) := by
  obtain ⟨howner, hslot⟩ := mem_ownedSlots.mp ho
  have hrow := slots_arena_of_ownedSlot? (h.ownedSlot?_eq_some.mpr ⟨howner, hslot, rfl⟩)
  rw [Arena.keepsSlot, hrow]
  rfl

/-- The slots that are removed are those of the blocks that are. -/
theorem contains_slotsWithin (h : w.WellFormed) (hfind : w.subtree? id = some (block, below))
    {owned : OwnedSlot} (ho : owned ∈ w.ownedSlots) :
    (slotsWithin block below).contains owned.slot.id = !w.arena.keepsSlot (w.subtreeIds id)
      owned.slot.id := by
  obtain ⟨howner, hslot⟩ := mem_ownedSlots.mp ho
  obtain ⟨-, hsub⟩ := h.flatMap_slotsOf_arena hfind
  rw [h.keepsSlot_arena _ ho, subtreeIds_eq hfind, Bool.eq_iff_iff, List.contains_iff_mem, slotsWithin]
  simp only [decide_not, Bool.not_not, decide_eq_true_eq, List.mem_flatMap, List.mem_map]
  constructor
  · rintro ⟨b, hb, slot, hs, hid⟩
    exact ⟨b, hb, congrArg Block.id (h.slot_ext (hsub hb) howner hs hslot hid).1⟩
  · rintro ⟨b, hb, hid⟩
    exact ⟨b, hb, owned.slot, h.block_ext (hsub hb) howner hid ▸ hslot, rfl⟩

theorem links_removeBlock (h : w.WellFormed) (hw : w.removeBlock id = .ok w') :
    w'.links = w.links.filter (w.arena.keepsLink (w.subtreeIds id)) := by
  obtain ⟨-, block, below, hfind, rfl⟩ := removeBlock_eq_ok.mp hw
  refine List.filter_congr fun link hl => ?_
  obtain ⟨source, hsource, target, htarget, hsid, htid, -⟩ := h.exists_ownedSlots_of_link hl
  dsimp only
  rw [← hsid, ← htid, h.contains_slotsWithin hfind hsource, h.contains_slotsWithin hfind htarget,
    Bool.not_not, Bool.not_not, Arena.keepsLink, hsid, htid]

/-- An end of a link is left if its block is. -/
theorem mem_slots_removeBlock (h : w.WellFormed) (hw : w.removeBlock id = .ok w') {owned : OwnedSlot}
    (ho : owned ∈ w.ownedSlots) :
    owned.slot.id ∈ w'.slots.map Slot.id ↔
      w.arena.keepsSlot (w.subtreeIds id) owned.slot.id = true := by
  rw [h.keepsSlot_arena _ ho, slots, h.ownedSlots_removeBlock hw, List.map_map, List.mem_map]
  constructor
  · rintro ⟨other, hother, hid⟩
    obtain ⟨hmem, hstays⟩ := List.mem_filter.mp hother
    obtain rfl := List.inj_on_of_nodup_map h.ownedSlotIds hmem ho hid
    exact hstays
  · exact fun hstays => ⟨owned, List.mem_filter.mpr ⟨ho, hstays⟩, rfl⟩

/-- The links that are left are those with both ends left. -/
theorem keepsLink_iff (h : w.WellFormed) (hw : w.removeBlock id = .ok w') {link : Link}
    (hl : link ∈ w.links) :
    w.arena.keepsLink (w.subtreeIds id) link = true ↔
      link.source ∈ w'.slots.map Slot.id ∧ link.target ∈ w'.slots.map Slot.id := by
  obtain ⟨source, hsource, target, htarget, hsid, htid, -⟩ := h.exists_ownedSlots_of_link hl
  rw [← hsid, ← htid, h.mem_slots_removeBlock hw hsource, h.mem_slots_removeBlock hw htarget,
    Arena.keepsLink, Bool.and_eq_true, hsid, htid]

theorem linksAt_removeBlock (h : w.WellFormed) (hw : w.removeBlock id = .ok w') (slot : SlotId) :
    w'.linksAt slot = (w.linksAt slot).filter (w.arena.keepsLink (w.subtreeIds id)) := by
  rw [linksAt, h.links_removeBlock hw, List.filter_comm, linksAt]

-- ---------------------------------------------------------------------------
-- The tables that are left
-- ---------------------------------------------------------------------------

theorem block?_removeBlock (h : w.WellFormed) (hw : w.removeBlock id = .ok w') (other : BlockId) :
    w'.block? other = if other ∈ w.subtreeIds id then none else w.block? other := by
  split
  · rename_i hgone
    rw [block?, Option.map_eq_none_iff]
    refine Forest.find?_eq_none_iff.mpr ?_
    rw [ids_tree, h.blocks_removeBlock hw]
    intro hmem
    obtain ⟨b, hb, rfl⟩ := List.mem_map.mp hmem
    exact of_decide_eq_true (List.mem_filter.mp hb).2 hgone
  · rename_i hstays
    rw [block?, h.subtree?_removeBlock hw hstays, Option.map_map, block?]
    rfl

theorem ownedSlot?_removeBlock (h : w.WellFormed) (hw : w.removeBlock id = .ok w') (slot : SlotId) :
    w'.ownedSlot? slot = (w.ownedSlot? slot).filter (·.owner.id ∉ w.subtreeIds id) := by
  refine Option.ext fun owned => ?_
  rw [(h.removeBlock hw).ownedSlot?_eq_some, Option.filter_eq_some_iff, h.ownedSlot?_eq_some,
    h.blocks_removeBlock hw, List.mem_filter]
  tauto

theorem link?_removeBlock (h : w.WellFormed) (hw : w.removeBlock id = .ok w') (link : LinkId) :
    w'.link? link = (w.link? link).filter (w.arena.keepsLink (w.subtreeIds id)) := by
  refine Option.ext fun found => ?_
  rw [Option.filter_eq_some_iff, link?, link?, find?_key_eq_some (h.removeBlock hw).linkIds,
    find?_key_eq_some h.linkIds, h.links_removeBlock hw, List.mem_filter]
  tauto

/-- A block that stays keeps its slots. -/
theorem filter_keepsSlot (h : w.WellFormed) (gone : List BlockId) (hb : block ∈ w.blocks)
    (hstays : block.id ∉ gone) :
    (block.slots.map Slot.id).filter (w.arena.keepsSlot gone) = block.slots.map Slot.id := by
  rw [List.filter_eq_self]
  intro slotId hs
  obtain ⟨slot, hslot, rfl⟩ := List.mem_map.mp hs
  have howned : (⟨block, slot⟩ : OwnedSlot) ∈ w.ownedSlots := mem_ownedSlots.mpr ⟨hb, hslot⟩
  exact (h.keepsSlot_arena gone howned).trans (decide_eq_true hstays)

/-- The lists of links lose the numbers of those that have gone. -/
theorem map_id_linksAt_removeBlock (h : w.WellFormed) (hw : w.removeBlock id = .ok w')
    (slot : SlotId) :
    (w'.linksAt slot).map Link.id = ((w.linksAt slot).map Link.id).filter fun link =>
      (w.arena.links link).all (w.arena.keepsLink (w.subtreeIds id)) := by
  rw [h.linksAt_removeBlock hw, List.filter_map]
  refine congrArg (List.map Link.id) (List.filter_congr fun link hl => ?_)
  rw [Function.comp_apply, h.links_arena_eq_some.mpr ⟨List.mem_of_mem_filter hl, rfl⟩, Option.all_some]

/-- The tables that are left are the old ones without the rows of what has gone, and without a mention of
it. -/
theorem arena_without (h : w.WellFormed) (hw : w.removeBlock id = .ok w') :
    w'.arena = w.arena.without (w.subtreeIds id) := by
  have hrest : w' = { w with body := w'.body, links := w'.links } := by
    obtain ⟨-, _, _, -, rfl⟩ := removeBlock_eq_ok.mp hw
    rfl
  refine Arena.ext ?_ ?_ (funext fun other => ?_) (funext fun slot => ?_)
    (funext fun link => h.link?_removeBlock hw link) ?_ ?_ ?_
  · rw [hrest]
    rfl
  · rw [hrest]
    rfl
  · show (w'.block? other).map _ = if other ∈ w.subtreeIds id then none else _
    rw [h.block?_removeBlock hw]
    split
    · rfl
    · rename_i hstays
      cases hb : w.block? other with
      | none =>
        rw [blocks_arena_eq_none hb]
        rfl
      | some block =>
        obtain ⟨hmem, rfl⟩ := h.block?_eq_some.mp hb
        have hchildren : (w'.children block.id).map Block.id =
            ((w.children block.id).map Block.id).filter (· ∉ w.subtreeIds id) := by
          rw [h.children_removeBlock hw hstays, List.filter_map]
          rfl
        have hslots := h.filter_keepsSlot _ hmem hstays
        have hrow : w.arena.blocks block.id = some _ := congrArg (Option.map _) hb
        rw [hrow, Option.map_some, Option.map_some, Option.some.injEq, BlockRow.mk.injEq]
        exact ⟨rfl, rfl, rfl, rfl, congrArg _ (h.parent?_removeBlock hw hstays), hchildren, hslots.symm⟩
  · show (w'.ownedSlot? slot).map _ = ((w.arena.slots slot).filter _).map _
    rw [h.ownedSlot?_removeBlock hw, h.map_id_linksAt_removeBlock hw]
    cases ho : w.ownedSlot? slot with
    | none =>
      rw [slots_arena_eq_none ho]
      rfl
    | some owned =>
      rw [slots_arena_of_ownedSlot? ho]
      simp only [Option.filter]
      split <;> rfl
  all_goals
    rw [hrest]
    rfl

end WellFormed

-- ---------------------------------------------------------------------------
-- Main result
-- ---------------------------------------------------------------------------

/-- A workflow before and after a block is removed. -/
structure RemovesSubtree (w : Workflow μ) (id : BlockId) (w' : Workflow μ) : Prop where
  /-- The block goes with those below it, and the others stay as they are, in their order. -/
  blocks : w'.blocks = w.blocks.filter (·.id ∉ w.subtreeIds id)
  /-- The slots of those that stay are left as they are, in their order. -/
  ownedSlots : w'.ownedSlots = w.ownedSlots.filter (·.owner.id ∉ w.subtreeIds id)
  /-- The links of which both ends are left are left as they are, in their order. -/
  links : w'.links = w.links.filter fun link =>
    link.source ∈ w'.slots.map Slot.id ∧ link.target ∈ w'.slots.map Slot.id
  /-- No block moves, … -/
  parent? : ∀ block ∈ w'.blocks, w'.parent? block.id = w.parent? block.id
  /-- … lists of children only lose the removed block, … -/
  children : ∀ block ∈ w'.blocks,
    w'.children block.id = (w.children block.id).filter (·.id ∉ w.subtreeIds id)
  /-- … and lists of links only lose those that have gone. -/
  linksAt : ∀ slot, w'.linksAt slot = (w.linksAt slot).filter (· ∈ w'.links)
  /-- There is nothing else that changes. -/
  rest : w' = { w with body := w'.body, links := w'.links }
  /-- The walk down the tables finds the blocks that go … -/
  descendants : w.arena.descendants? id = some ((w.descendants id).map Block.id)
  /-- … and those that are left, in their order. -/
  treeOrder : w'.arena.treeOrder? =
    (w.arena.treeOrder?).map (·.filter (· ∉ w.subtreeIds id))
  /-- The tables lose the rows of what has gone and the mentions of it, and so they do when the program on
  the tables takes one slot and one link away after the other. -/
  tables : w'.arena = w.arena.without (w.subtreeIds id) ∧
    (Arena.removeBlock id).run w.arena = some (.ok (), w.arena.without (w.subtreeIds id))

theorem WellFormed.removesSubtree_of_removeBlock (h : w.WellFormed) (hw : w.removeBlock id = .ok w') :
    w.RemovesSubtree id w' where
  blocks := h.blocks_removeBlock hw
  ownedSlots := h.ownedSlots_removeBlock hw
  links := by
    rw [h.links_removeBlock hw]
    refine List.filter_congr fun link hl => ?_
    rw [Bool.eq_iff_iff, h.keepsLink_iff hw hl, decide_eq_true_iff]
  parent? block hb := by
    rw [h.blocks_removeBlock hw] at hb
    exact h.parent?_removeBlock hw (of_decide_eq_true (List.mem_filter.mp hb).2)
  children block hb := by
    rw [h.blocks_removeBlock hw] at hb
    exact h.children_removeBlock hw (of_decide_eq_true (List.mem_filter.mp hb).2)
  linksAt slot := by
    rw [h.linksAt_removeBlock hw, h.links_removeBlock hw]
    refine List.filter_congr fun link hl => ?_
    rw [Bool.eq_iff_iff, decide_eq_true_iff, List.mem_filter, and_iff_right (List.mem_of_mem_filter hl)]
  rest := by
    obtain ⟨-, _, _, -, rfl⟩ := removeBlock_eq_ok.mp hw
    rfl
  descendants := by
    obtain ⟨-, block, below, hfind, -⟩ := removeBlock_eq_ok.mp hw
    rw [h.descendants?_arena hfind, descendants_eq hfind, Forest.ids]
  treeOrder := by
    rw [(h.removeBlock hw).treeOrder?_arena, h.treeOrder?_arena, h.blocks_removeBlock hw,
      Option.map_some, List.filter_map]
    rfl
  tables := by
    refine ⟨h.arena_without hw, ?_⟩
    rw [h.run_removeBlock, hw, ← h.arena_without hw]
    rfl

/-- There is no other reason to refuse a removal. -/
theorem exists_removeBlock (hid : id ∈ w.blocks.map Block.id) (hroot : id ≠ w.root.id) :
    ∃ w', w.removeBlock id = .ok w' := by
  cases hfind : w.subtree? id with
  | none => exact absurd hid (Forest.find?_eq_none_iff.mp hfind)
  | some tree => exact ⟨_, removeBlock_eq_ok.mpr ⟨hroot, tree.1, tree.2, hfind, rfl⟩⟩

/-- **What a removed block takes with it.** A block of a reachable workflow that is not the root can be
removed. It takes with it exactly the blocks below it, the slots of all these and the links of these slots,
and nothing else changes or changes place. -/
theorem Reachable.removesSubtree (h : w.Reachable) (hid : id ∈ w.blocks.map Block.id)
    (hroot : id ≠ w.root.id) : ∃ w', w.removeBlock id = .ok w' ∧ w.RemovesSubtree id w' := by
  obtain ⟨w', hw⟩ := exists_removeBlock hid hroot
  exact ⟨w', hw, h.wellFormed.removesSubtree_of_removeBlock hw⟩

/-- Two loops, and a constant that is linked to both. The first loop has a constant of its own. -/
def twoLoops : Workflow Unit :=
  (new "uid-" "Plan" .empty).after
    [.edit (.addBlock rootId .timeLoop none),
      .edit (.addBlock ⟨1⟩ (.constant (.quantity 1 "s")) none),
      .edit (.addBlock rootId (.constant (.quantity 2 "s")) none),
      .edit (.connect ⟨2⟩ ⟨6⟩ none),
      .edit (.connect ⟨3⟩ ⟨8⟩ none),
      .edit (.addBlock rootId .timeLoop none),
      .edit (.connect ⟨8⟩ ⟨13⟩ none)]

/-- The first loop goes with its constant. Of the links, one is inside, one crosses the border, and one is
left. -/
theorem removesSubtree_of_twoLoops :
    (⟨1⟩ : BlockId) ∈ twoLoops.blocks.map Block.id ∧ ⟨1⟩ ≠ twoLoops.root.id ∧
      ∃ w', twoLoops.removeBlock ⟨1⟩ = .ok w' ∧ twoLoops.RemovesSubtree ⟨1⟩ w' ∧
        w'.blocks.map Block.id = [⟨0⟩, ⟨7⟩, ⟨11⟩] ∧ w'.links.map Link.id = [⟨15⟩] := by
  have hid : (⟨1⟩ : BlockId) ∈ twoLoops.blocks.map Block.id := by decide
  have hroot : (⟨1⟩ : BlockId) ≠ twoLoops.root.id := by decide
  obtain ⟨w', hw, hremoves⟩ := Reachable.removesSubtree (.after (.new ..) _) hid hroot
  cases hw
  exact ⟨hid, hroot, _, rfl, hremoves, rfl, rfl⟩

end Workflow

end SlotFlow
