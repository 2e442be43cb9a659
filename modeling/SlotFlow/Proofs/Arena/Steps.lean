import SlotFlow.Proofs.Arena.Sound
/-!
# Changes of rows and changes of workflows

For each change that an edit makes to a workflow: the changes of rows that it amounts to. A change
of blocks' and slots' own data is one of single rows; a change of shape or of links touches the rows
on both sides of each reference.

## Results

* `Workflow.arena_appendSlot`, `Workflow.arena_attachRow` — new rows;
* `Workflow.arena_modifyBlock`, `Workflow.arena_modifySlot` — changes of single rows;
* `Workflow.arena_filterLink`, `Workflow.arena_appendLink` — links;
* `Workflow.arena_prune`, `Workflow.arena_move` — changes of shape.
-/

namespace SlotFlow

variable {μ : Type}

-- ---------------------------------------------------------------------------
-- Tables
-- ---------------------------------------------------------------------------

namespace Arena

variable {κ ρ σ : Type} [DecidableEq κ]

theorem update_of_ne {key other : κ} (h : other ≠ key) (table : κ → Option ρ) (row : Option ρ) :
    update table key row other = table other :=
  if_neg h

/-- Changes at different places go in either order. -/
theorem update_comm {key other : κ} (h : key ≠ other) (table : κ → Option ρ)
    (row otherRow : Option ρ) :
    update (update table key row) other otherRow = update (update table other otherRow) key row := by
  funext k
  unfold update
  by_cases hk : k = key
  · rw [if_pos hk, if_pos hk, if_neg (hk ▸ h)]
  · rw [if_neg hk, if_neg hk]

/-- A change of one row, seen from every place. -/
theorem update_map_apply (f : ρ → ρ) (table : κ → Option ρ) (key other : κ) :
    update table key ((table key).map f) other =
      (table other).map fun row => if other = key then f row else row := by
  unfold update
  split
  · rename_i h
    rw [h]
  · rw [Option.map_id']

theorem blocks_modifyBlock (a : Arena μ) (id other : BlockId) (f : BlockRow → BlockRow) :
    (a.modifyBlock id f).blocks other =
      (a.blocks other).map fun row => if other = id then f row else row :=
  update_map_apply ..

theorem slots_modifySlot (a : Arena μ) (id other : SlotId) (f : SlotRow → SlotRow) :
    (a.modifySlot id f).slots other =
      (a.slots other).map fun row => if other = id then f row else row :=
  update_map_apply ..

/-- Only the table of blocks changes where a block is taken off a list. -/
theorem dropChild_eq (a : Arena μ) (parent : Option BlockId) (id : BlockId) :
    a.dropChild parent id = { a with blocks := (a.dropChild parent id).blocks } := by
  cases parent <;> rfl

theorem blocks_dropChild_eraseBlocks (a : Arena μ) (parent : Option BlockId) (id : BlockId)
    (ids : List BlockId) (other : BlockId) :
    ((a.eraseBlocks ids).dropChild parent id).blocks other =
      if other ∈ ids then none else (a.dropChild parent id).blocks other := by
  cases parent with
  | none => rfl
  | some parent =>
    rw [dropChild, dropChild, blocks_modifyBlock, blocks_modifyBlock, eraseBlocks]
    by_cases hm : other ∈ ids <;> simp [hm]

/-- What is read off each row changes with the row. -/
theorem map_update (f : ρ → σ) (table : κ → Option ρ) (key : κ) (row : Option ρ) :
    (fun other => (update table key row other).map f) =
      update (fun other => (table other).map f) key (row.map f) := by
  funext other
  unfold update
  split <;> rfl

end Arena

namespace Workflow

variable {w w' : Workflow μ}

-- ---------------------------------------------------------------------------
-- Changes of single rows
-- ---------------------------------------------------------------------------

theorem placed_mapBlocks {f : Block → Block} (hf : ∀ block, (f block).id = block.id) :
    (w.mapBlocks f).placed = w.placed.map fun p => { p with block := f p.block } := by
  have htree : (w.mapBlocks f).tree = w.tree.map f := by
    simp [tree, mapBlocks, Forest.tree, Forest.map]
  rw [placed, htree, Forest.placed_map hf]
  rfl

/-- A change of blocks that leaves their numbers and those of their slots alone. -/
theorem WellFormed.blocks_arena_modifyBlock (h : w.WellFormed) (h' : w'.WellFormed) {id : BlockId}
    {f : Block → Block} {g : BlockRow → BlockRow}
    (hplaced : w'.placed = w.placed.map fun p =>
      if p.id = id then { p with block := f p.block } else p)
    (hf : ∀ block, (f block).id = block.id)
    (hg : ∀ p : Placed, Placed.row { p with block := f p.block } = g p.row) :
    w'.arena.blocks = Arena.update w.arena.blocks id ((w.arena.blocks id).map g) := by
  rw [h'.blocks_arena, h.blocks_arena, hplaced,
    tableOf_modify Placed.id (f := fun p => { p with block := f p.block })
      (fun p => hf p.block) id, Arena.map_update]
  simp only [Option.map_map, Function.comp_def, hg]

/-- A change of blocks that does not show in their rows. -/
theorem WellFormed.blocks_arena_of_same_rows (h : w.WellFormed) (h' : w'.WellFormed)
    {f : Placed → Placed} (hplaced : w'.placed = w.placed.map f) (hid : ∀ p, (f p).id = p.id)
    (hrow : ∀ p, (f p).row = p.row) : w'.arena.blocks = w.arena.blocks := by
  rw [h'.blocks_arena, h.blocks_arena, hplaced]
  funext other
  rw [tableOf_map Placed.id hid, Option.map_map]
  simp only [Function.comp_def, hrow]

/-- The rows of the slots of blocks. -/
def slotRowsOf (links : List Link) (blocks : List Block) : List SlotRow :=
  blocks.flatMap fun block => block.slots.map fun slot =>
    { slot := slot, owner := block.id, links := (links.filter (·.touches slot.id)).map Link.id }

theorem slotRows_eq (w : Workflow μ) : w.slotRows = slotRowsOf w.links w.blocks := by
  simp [slotRows, slotRowsOf, ownedSlots, linksAt, List.map_flatMap, Function.comp_def]

theorem slotRowsOf_map {f : Block → Block} (hid : ∀ block, (f block).id = block.id)
    (hslots : ∀ block, (f block).slots = block.slots) (links : List Link) (blocks : List Block) :
    slotRowsOf links (blocks.map f) = slotRowsOf links blocks := by
  simp [slotRowsOf, List.flatMap_map, hid, hslots]

theorem slotRowsOf_map_slots {f : Slot → Slot} (hid : ∀ slot, (f slot).id = slot.id)
    (links : List Link) (blocks : List Block) :
    slotRowsOf links (blocks.map fun block => { block with slots := block.slots.map f }) =
      (slotRowsOf links blocks).map fun row => { row with slot := f row.slot } := by
  simp [slotRowsOf, List.flatMap_map, List.map_flatMap, hid, Function.comp_def]

/-- A change of one block's own data. -/
theorem WellFormed.arena_modifyBlock (h : w.WellFormed) (id : BlockId) {f : Block → Block}
    {g : BlockRow → BlockRow} (hid : ∀ block, (f block).id = block.id)
    (hslots : ∀ block, (f block).slots = block.slots)
    (hg : ∀ p : Placed, Placed.row { p with block := f p.block } = g p.row) :
    (w.modifyBlock id f).arena = w.arena.modifyBlock id g := by
  let change := fun block : Block => if block.id = id then f block else block
  have hchange : ∀ block, (change block).id = block.id ∧ (change block).slots = block.slots := by
    intro block
    dsimp only [change]
    split
    · exact ⟨hid block, hslots block⟩
    · exact ⟨rfl, rfl⟩
  refine Arena.ext rfl (hchange w.root).1 ?_ ?_ rfl rfl rfl rfl
  · refine h.blocks_arena_modifyBlock (h.modifyBlock id hid hslots) ?_ hid hg
    rw [Workflow.modifyBlock, placed_mapBlocks fun block => (hchange block).1]
    refine List.map_congr_left fun p _ => ?_
    show Placed.mk (if p.id = id then f p.block else p.block) p.parent p.children = _
    split <;> rfl
  · show (w.modifyBlock id f).arena.slots = w.arena.slots
    rw [slots_arena, slots_arena, slotRows_eq, slotRows_eq, Workflow.modifyBlock,
      blocks_mapBlocks, links_mapBlocks,
      slotRowsOf_map (fun block => (hchange block).1) fun block => (hchange block).2]

/-- A change of one slot's own data. -/
theorem WellFormed.arena_modifySlot (h : w.WellFormed) (id : SlotId) {f : Slot → Slot}
    (hid : ∀ slot, (f slot).id = slot.id) (h' : (w.modifySlot id f).WellFormed) :
    (w.modifySlot id f).arena =
      w.arena.modifySlot id fun row => { row with slot := f row.slot } := by
  let change := fun slot : Slot => if slot.id = id then f slot else slot
  have hchange : ∀ slot, (change slot).id = slot.id := by
    intro slot
    dsimp only [change]
    split
    · exact hid slot
    · rfl
  refine Arena.ext rfl rfl ?_ ?_ rfl rfl rfl rfl
  · show (w.modifySlot id f).arena.blocks = w.arena.blocks
    refine h.blocks_arena_of_same_rows h' (placed_mapBlocks fun _ => rfl) (fun _ => rfl) fun p => ?_
    have hids : (p.block.slots.map change).map Slot.id = p.block.slots.map Slot.id := by
      rw [List.map_map]
      exact List.map_congr_left fun slot _ => hchange slot
    exact congrArg (fun ids => { p.row with slots := ids }) hids
  · show (w.modifySlot id f).arena.slots = _
    have hblocks : (w.modifySlot id f).blocks =
        w.blocks.map fun block => { block with slots := block.slots.map change } :=
      blocks_mapBlocks ..
    have hlinks : (w.modifySlot id f).links = w.links := rfl
    have hrow : ∀ row : SlotRow, SlotRow.mk (change row.slot) row.owner row.links =
        if row.id = id then { row with slot := f row.slot } else row := by
      intro row
      show SlotRow.mk (if row.id = id then f row.slot else row.slot) _ _ = _
      split <;> rfl
    rw [slots_arena, slotRows_eq, hblocks, hlinks, slotRowsOf_map_slots hchange, ← slotRows_eq]
    simp only [hrow]
    rw [tableOf_modify SlotRow.id (f := fun row => { row with slot := f row.slot })
      (fun row => hid row.slot) id, ← slots_arena]
    rfl

-- ---------------------------------------------------------------------------
-- New rows
-- ---------------------------------------------------------------------------

/-- A number that has not been handed out is at no end of a link. -/
theorem WellFormed.linksAt_fresh (h : w.WellFormed) : w.linksAt ⟨w.nextId⟩ = [] := by
  rw [linksAt, List.filter_eq_nil_iff]
  intro link hl htouch
  have hbound : ∀ slot ∈ w.slots, slot.id.val < w.nextId := by
    intro slot hs
    obtain ⟨block, hb, hslot⟩ := mem_slots.mp hs
    exact h.blocks.slotBound block hb slot hslot
  obtain ⟨source, hsource, hsid, -⟩ := h.links.source link hl
  obtain ⟨target, htarget, htid, -⟩ := h.links.target link hl
  simp only [Link.touches, ← hsid, ← htid, Bool.or_eq_true, decide_eq_true_eq] at htouch
  rcases htouch with heq | heq
  · have hlt := hbound source hsource
    rw [heq] at hlt
    exact Nat.lt_irrefl _ hlt
  · have hlt := hbound target htarget
    rw [heq] at hlt
    exact Nat.lt_irrefl _ hlt

/-- A new slot has a row, and its owner lists it. -/
theorem WellFormed.arena_appendSlot (h : w.WellFormed) {owner : BlockId} {request : SlotRequest}
    (howner : owner ∈ w.blocks.map Block.id) (h' : (w.appendSlot owner request).WellFormed) :
    (w.appendSlot owner request).arena =
      ({ w.arena with nextId := w.nextId + 1 }.putSlot ⟨w.nextId⟩
        { slot := Slot.ofRequest ⟨w.nextId⟩ (freshUid w.uidStem w.nextId) request
          owner := owner
          links := [] }).modifyBlock owner
        fun row : BlockRow => { row with slots := row.slots ++ [(⟨w.nextId⟩ : SlotId)] } := by
  obtain ⟨block, hb, rfl⟩ := List.mem_map.mp howner
  let slot := Slot.ofRequest ⟨w.nextId⟩ (freshUid w.uidStem w.nextId) request
  let change := fun b : Block => if b.id = block.id then { b with slots := b.slots ++ [slot] } else b
  have hchange : ∀ b, (change b).id = b.id := by
    intro b
    dsimp only [change]
    split <;> rfl
  refine Arena.ext rfl (hchange w.root) ?_ ?_ rfl rfl rfl rfl
  · refine h.blocks_arena_modifyBlock h' (f := fun b => { b with slots := b.slots ++ [slot] }) ?_
      (fun _ => rfl) fun p => ?_
    · refine (placed_mapBlocks (f := change) hchange).trans (List.map_congr_left fun p _ => ?_)
      show Placed.mk (if p.id = block.id then _ else p.block) p.parent p.children = _
      split <;> rfl
    · simp [Placed.row, slot, Slot.ofRequest]
  · have hfresh : (w.links.filter (·.touches slot.id)).map Link.id = [] := by
      rw [show w.links.filter (·.touches slot.id) = [] from h.linksAt_fresh]
      rfl
    have hperm : (slotRowsOf w.links (w.blocks.map change)).Perm
        (slotRowsOf w.links w.blocks ++ [⟨slot, block.id, []⟩]) := by
      rw [slotRowsOf, List.flatMap_map]
      refine perm_flatMap_of_mem h.blocks.ids hb (fun b hne => ?_) ?_
      · rw [show change b = b from if_neg hne]
      · rw [show change block = { block with slots := block.slots ++ [slot] } from if_pos rfl,
          List.map_append, List.map_singleton, hfresh]
    have hblocks : (w.appendSlot block.id request).blocks = w.blocks.map change :=
      blocks_appendSlot ..
    have hrows : (w.appendSlot block.id request).slotRows =
        slotRowsOf w.links (w.blocks.map change) := by
      rw [slotRows_eq, hblocks]
      rfl
    have hkeys := h'.slotRowIds
    rw [hrows] at hkeys
    have hnew := (hperm.map SlotRow.id).nodup_iff.mp hkeys
    rw [List.map_append, List.nodup_append] at hnew
    show (w.appendSlot block.id request).arena.slots = Arena.update w.arena.slots _ _
    rw [slots_arena, slots_arena, hrows, slotRows_eq, tableOf_perm hperm hkeys]
    exact tableOf_append_one fun hm => hnew.2.2 _ hm _ List.mem_cons_self rfl

/-- Blocks that come have no effect on the table of slots if they have none. -/
theorem WellFormed.slots_arena_of_perm (h' : w'.WellFormed) (hlinks : w'.links = w.links)
    {added : List Block} (hperm : w'.blocks.Perm (w.blocks ++ added))
    (hadded : ∀ block ∈ added, block.slots = []) : w'.arena.slots = w.arena.slots := by
  have hnone : slotRowsOf w.links added = [] :=
    List.flatMap_eq_nil_iff.mpr fun block hb => by rw [hadded block hb, List.map_nil]
  have hrows : w'.slotRows.Perm w.slotRows := by
    rw [slotRows_eq, slotRows_eq, hlinks]
    refine (hperm.flatMap_right _).trans ?_
    rw [List.flatMap_append]
    exact .of_eq ((congrArg _ hnone).trans (List.append_nil _))
  rw [slots_arena, slots_arena, tableOf_perm hrows h'.slotRowIds]

/-- A new block without slots has a row, and its parent lists it. -/
theorem WellFormed.arena_attachRow (h : w.WellFormed) {parent : BlockId}
    (hparent : parent ∈ w.blocks.map Block.id) (kind : BlockKind) (name : String)
    (uid : Option String) (h' : (w.attachBlock parent kind name [] uid).2.WellFormed) :
    (w.attachBlock parent kind name [] uid).2.arena =
      ({ w.arena with nextId := w.nextId + 1 }.putBlock ⟨w.nextId⟩
        { uid := uid.getD (freshUid w.uidStem w.nextId)
          name := name
          kind := kind
          codeName := none
          parent := some parent
          children := []
          slots := [] }).modifyBlock parent
        fun row : BlockRow => { row with children := row.children ++ [(⟨w.nextId⟩ : BlockId)] } := by
  let block := w.newBlock kind name [] uid
  have hperm : (w.attachBlock parent kind name [] uid).2.placed.Perm
      (w.placed.map (Placed.mapChildren parent (· ++ [⟨w.nextId⟩])) ++
        [⟨block, some parent, []⟩]) := by
    have htree : (w.attachBlock parent kind name [] uid).2.tree =
        (w.modifyBelow parent fun children => children.append (.tree block .nil)).tree := rfl
    rw [placed, htree, tree_modifyBelow h.blocks.ids]
    refine Forest.perm_placed_mapBelow h.blocks.ids hparent (fun below => ?_) (fun below => ?_) none
    · rw [Forest.roots_append, Forest.roots_tree, List.map_append]
      rfl
    · rw [Forest.placed_append]
      exact .refl _
  have hids := h'.placedIds
  have hnew := (hperm.map Placed.id).nodup_iff.mp hids
  rw [List.map_append, List.nodup_append] at hnew
  have hmodify := @tableOf_modify _ _ _ w.placed Placed.id
    (fun p => { p with children := p.children ++ [⟨w.nextId⟩] }) (fun _ => rfl) parent
  have hne : parent ≠ ⟨w.nextId⟩ := fun heq => h.fresh_not_mem_ids (heq ▸ hparent)
  refine Arena.ext (name_modifyBelow ..) ?_ ?_ ?_ ?_ rfl (registry_modifyBelow ..)
    (uidStem_modifyBelow ..)
  · exact congrArg Block.id (root_modifyBelow ..)
  · show (w.attachBlock parent kind name [] uid).2.arena.blocks =
      Arena.update (Arena.update w.arena.blocks _ _) _ _
    rw [h'.blocks_arena, tableOf_perm hperm hids,
      tableOf_append_one fun hm => hnew.2.2 _ hm _ List.mem_cons_self rfl]
    unfold Placed.mapChildren Placed.mapAt
    rw [hmodify, Arena.map_update, Arena.map_update, ← h.blocks_arena]
    refine (Arena.update_comm hne ..).trans ?_
    show _ = Arena.update _ parent ((Arena.update w.arena.blocks ⟨w.nextId⟩ _ parent).map _)
    rw [Arena.update_of_ne hne, h.blocks_arena, Option.map_map, Option.map_map]
    rfl
  · exact h'.slots_arena_of_perm (links_modifyBelow ..)
      (perm_blocks_attachBlock h.blocks.ids hparent ..) fun b hb => by
        rw [List.mem_singleton.mp hb]
        rfl
  · show (w.attachBlock parent kind name [] uid).2.arena.links = w.arena.links
    rw [links_arena, links_arena]
    exact congrArg _ (links_modifyBelow ..)

-- ---------------------------------------------------------------------------
-- Links
-- ---------------------------------------------------------------------------

/-- Other links show in the rows of slots and nowhere else. -/
theorem slots_arena_of_links (w : Workflow μ) (links : List Link) (id : SlotId) :
    { w with links := links }.arena.slots id = (w.arena.slots id).map fun row =>
      { row with links := (links.filter (·.touches id)).map Link.id } := by
  show (w.ownedSlot? id).map _ = ((w.ownedSlot? id).map _).map _
  rw [Option.map_map]
  rfl

theorem links_of_slots_arena {id : SlotId} {row : SlotRow} (hs : w.arena.slots id = some row) :
    row.links = (w.links.filter (·.touches id)).map Link.id := by
  obtain ⟨owned, -, rfl⟩ := Option.map_eq_some_iff.mp hs
  rfl

/-- A link that goes is taken off the lists of its ends. -/
theorem WellFormed.arena_filterLink (h : w.WellFormed) {link : Link} (hl : link ∈ w.links) :
    { w with links := w.links.filter (·.id ≠ link.id) }.arena =
      (((w.arena.eraseLink link.id).modifySlot link.source
        fun row => { row with links := row.links.filter (· ≠ link.id) }).modifySlot link.target
        fun row => { row with links := row.links.filter (· ≠ link.id) }) := by
  refine Arena.ext rfl rfl rfl ?_ ?_ rfl rfl rfl
  · funext id
    rw [slots_arena_of_links]
    rw [Arena.slots_modifySlot, Arena.slots_modifySlot, Option.map_map]
    show _ = (w.arena.slots id).map _
    have hkeep : ∀ row, w.arena.slots id = some row →
        ((w.links.filter (·.id ≠ link.id)).filter (·.touches id)).map Link.id =
          row.links.filter (· ≠ link.id) := by
      intro row hrow
      rw [links_of_slots_arena hrow, List.filter_map, List.filter_comm]
      rfl
    -- a slot that the link does not touch does not list it
    have hother : ∀ row, w.arena.slots id = some row → id ≠ link.source → id ≠ link.target →
        row.links.filter (· ≠ link.id) = row.links := by
      intro row hrow hsource htarget
      rw [List.filter_eq_self, links_of_slots_arena hrow]
      intro other ho
      obtain ⟨l, hl', rfl⟩ := List.mem_map.mp ho
      obtain ⟨hmem, htouch⟩ := List.mem_filter.mp hl'
      simp only [decide_eq_true_eq]
      intro hid
      rw [List.inj_on_of_nodup_map h.linkIds hmem hl hid] at htouch
      simp only [Link.touches, Bool.or_eq_true, decide_eq_true_eq] at htouch
      rcases htouch with heq | heq
      · exact hsource heq.symm
      · exact htarget heq.symm
    refine Option.map_congr fun row hrow => ?_
    simp only [Function.comp_apply]
    rw [hkeep row hrow]
    by_cases hsource : id = link.source <;> by_cases htarget : id = link.target
    · rw [if_pos hsource, if_pos htarget, List.filter_filter]
      simp only [Bool.and_self]
    · rw [if_pos hsource, if_neg htarget]
    · rw [if_neg hsource, if_pos htarget]
    · rw [if_neg hsource, if_neg htarget, hother row hrow hsource htarget]
  · funext id
    show { w with links := w.links.filter (·.id ≠ link.id) }.arena.links id =
      Arena.update w.arena.links link.id none id
    rw [links_arena, tableOf_filter Link.id (· ≠ link.id), links_arena]
    unfold Arena.update
    by_cases hid : id = link.id <;> simp [hid]

/-- A new link is put on the lists of its ends. -/
theorem arena_appendLink {link : Link} (hid : ∀ other ∈ w.links, other.id ≠ link.id)
    (hends : link.source ≠ link.target) (number : Nat) :
    { w with links := w.links ++ [link], nextId := number }.arena =
      ((({ w.arena with nextId := number }.putLink link.id link).modifySlot link.source
        fun row => { row with links := row.links ++ [link.id] }).modifySlot link.target
        fun row => { row with links := row.links ++ [link.id] }) := by
  refine Arena.ext rfl rfl rfl ?_ ?_ rfl rfl rfl
  · funext id
    show { w with links := w.links ++ [link] }.arena.slots id = _
    rw [slots_arena_of_links]
    rw [Arena.slots_modifySlot, Arena.slots_modifySlot, Option.map_map]
    show _ = (w.arena.slots id).map _
    refine Option.map_congr fun row hrow => ?_
    simp only [Function.comp_apply]
    rw [List.filter_append, List.map_append, ← links_of_slots_arena hrow]
    by_cases hsource : id = link.source <;> by_cases htarget : id = link.target
    · exact absurd (hsource.symm.trans htarget) hends
    · rw [if_pos hsource, if_neg htarget]
      simp [Link.touches, hsource]
    · rw [if_neg hsource, if_pos htarget]
      simp [Link.touches, htarget]
    · rw [if_neg hsource, if_neg htarget]
      simp [Link.touches, Ne.symm hsource, Ne.symm htarget]
  · show tableOf Link.id (w.links ++ [link]) = Arena.update w.arena.links link.id (some link)
    refine tableOf_append_one fun hm => ?_
    obtain ⟨other, ho, heq⟩ := List.mem_map.mp hm
    exact hid other ho heq

-- ---------------------------------------------------------------------------
-- Rows that go
-- ---------------------------------------------------------------------------

/-- A slot without links goes from the table, and from the list of its owner. -/
theorem WellFormed.arena_dropSlot (h : w.WellFormed) {owner : Block} {slot : Slot}
    (howner : owner ∈ w.blocks) (hslot : slot ∈ owner.slots)
    (h' : (w.mapBlocks fun block =>
      { block with slots := block.slots.filter (·.id ≠ slot.id) }).WellFormed) :
    (w.mapBlocks fun block => { block with slots := block.slots.filter (·.id ≠ slot.id) }).arena =
      (w.arena.eraseSlot slot.id).modifyBlock owner.id
        fun row => { row with slots := row.slots.filter (· ≠ slot.id) } := by
  have hplaced := placed_mapBlocks (w := w)
    (f := fun block => { block with slots := block.slots.filter (·.id ≠ slot.id) }) fun _ => rfl
  refine Arena.ext rfl rfl ?_ ?_ rfl rfl rfl rfl
  · funext id
    rw [h'.blocks_arena, hplaced]
    dsimp only
    rw [tableOf_map Placed.id (f := fun p => { p with block :=
      { p.block with slots := p.block.slots.filter (·.id ≠ slot.id) } }) fun _ => rfl,
      Arena.blocks_modifyBlock]
    show _ = (w.arena.blocks id).map _
    rw [h.blocks_arena, Option.map_map, Option.map_map]
    refine Option.map_congr fun p hp => ?_
    obtain ⟨hmem, rfl⟩ := (find?_key_eq_some h.placedIds).mp hp
    have hids : (p.block.slots.filter (·.id ≠ slot.id)).map Slot.id =
        (p.block.slots.map Slot.id).filter (· ≠ slot.id) := by
      rw [List.filter_map]
      rfl
    have hrow : Placed.row { p with block :=
        { p.block with slots := p.block.slots.filter (·.id ≠ slot.id) } } =
        { p.row with slots := p.row.slots.filter (· ≠ slot.id) } :=
      congrArg (fun ids => { p.row with slots := ids }) hids
    simp only [Function.comp_apply]
    rw [hrow]
    by_cases hid : p.id = owner.id
    · rw [if_pos hid]
    · -- another block does not list the slot
      have hkeep : p.row.slots.filter (· ≠ slot.id) = p.row.slots := by
        rw [List.filter_eq_self]
        intro other ho
        obtain ⟨s, hs, rfl⟩ := List.mem_map.mp ho
        simp only [decide_eq_true_eq]
        intro hsid
        have hb : p.block ∈ w.blocks := mem_blocks_iff_placed.mpr ⟨p, hmem, rfl⟩
        exact hid (congrArg Block.id (h.slot_ext hb howner hs hslot hsid).1)
      rw [if_neg hid, hkeep]
  · have hrows : slotRowsOf w.links (w.blocks.map fun block =>
        { block with slots := block.slots.filter (·.id ≠ slot.id) }) =
        (slotRowsOf w.links w.blocks).filter fun row => row.id ≠ slot.id := by
      simp only [slotRowsOf, List.flatMap_map, List.filter_flatMap, List.filter_map]
      rfl
    rw [slots_arena, slotRows_eq, blocks_mapBlocks, links_mapBlocks, hrows, ← slotRows_eq,
      tableOf_filter SlotRow.id (· ≠ slot.id), ← slots_arena]
    funext id
    show _ = Arena.update w.arena.slots slot.id none id
    unfold Arena.update
    by_cases hid : id = slot.id <;> simp [hid]

-- ---------------------------------------------------------------------------
-- Changes of shape
-- ---------------------------------------------------------------------------

/-- Only the parent lists a block, so it goes from all lists when it goes from that one. -/
theorem WellFormed.blocks_arena_dropChild (h : w.WellFormed) {p : Placed} (hp : p ∈ w.placed) :
    (fun id => (tableOf Placed.id (w.placed.map (Placed.dropChild p.id)) id).map Placed.row) =
      (w.arena.dropChild p.parent p.id).blocks := by
  funext id
  rw [tableOf_map Placed.id (Placed.id_dropChild p.id), Option.map_map]
  have hside : (w.arena.dropChild p.parent p.id).blocks id = (w.arena.blocks id).map fun row =>
      if p.parent = some id then { row with children := row.children.filter (· ≠ p.id) }
      else row := by
    cases hparent : p.parent with
    | none => simp [Arena.dropChild]
    | some parent =>
      refine (Arena.blocks_modifyBlock ..).trans (Option.map_congr fun row _ => ?_)
      simp only [Option.some.injEq, eq_comm]
  rw [hside, h.blocks_arena, Option.map_map]
  refine Option.map_congr fun q hq => ?_
  obtain ⟨hmem, rfl⟩ := (find?_key_eq_some h.placedIds).mp hq
  simp only [Function.comp_apply]
  by_cases hparent : p.parent = some q.id
  · rw [if_pos hparent]
    rfl
  · rw [if_neg hparent, Placed.dropChild_of_not_mem fun hc =>
      hparent (h.parent_of_mem_children hp hmem hc)]

/-- A subtree without slots goes from the table, and from the list of its parent. -/
theorem WellFormed.arena_prune (h : w.WellFormed) {id : BlockId} {block : Block}
    {below : Forest Block} (hroot : id ≠ w.root.id) (hfind : w.subtree? id = some (block, below))
    {row : BlockRow} (hrow : w.arena.blocks id = some row)
    (hslots : ∀ b ∈ (Forest.tree block below).toList, b.slots = [])
    (h' : { w with body := w.body.prune (·.id = id) }.WellFormed) :
    { w with body := w.body.prune (·.id = id) }.arena =
      (w.arena.eraseBlocks (id :: below.ids)).dropChild row.parent id := by
  obtain ⟨p, hp, rfl, rfl⟩ := h.blocks_arena_eq_some.mp hrow
  obtain ⟨-, hid⟩ := mem_of_subtree? hfind
  obtain ⟨above, hperm⟩ := Forest.perm_placed_prune h.blocks.ids hfind none
  rw [← tree_prune hroot] at hperm
  change (w.placed.map (Placed.dropChild p.id)).Perm
    ({ w with body := w.body.prune (·.id = p.id) }.placed ++ _) at hperm
  rw [Arena.dropChild_eq]
  refine Arena.ext rfl rfl ?_ ?_ rfl rfl rfl rfl
  · have hkeys : ((w.placed.map (Placed.dropChild p.id)).map Placed.id).Nodup := by
      rw [List.map_map]
      exact h.placedIds
    have hgone : (⟨block, above, below.roots.map Block.id⟩ :: below.placed (some block.id)).map
        Placed.id = p.id :: below.ids := by
      rw [List.map_cons, Forest.map_id_placed, ← hid]
      rfl
    have hsplit := (hperm.map Placed.id).nodup_iff.mp hkeys
    rw [List.map_append, hgone, List.nodup_append] at hsplit
    funext k
    rw [h'.blocks_arena]
    show _ = ((w.arena.eraseBlocks (p.id :: below.ids)).dropChild p.parent p.id).blocks k
    rw [Arena.blocks_dropChild_eraseBlocks, ← h.blocks_arena_dropChild hp, tableOf_perm hperm hkeys]
    dsimp only
    rw [tableOf_append]
    split
    · rename_i hk
      have hnone : tableOf Placed.id { w with body := w.body.prune (·.id = p.id) }.placed k = none :=
        find?_key_eq_none.mpr fun hm => hsplit.2.2 _ hm _ hk rfl
      rw [hnone]
      rfl
    · rename_i hk
      have hnone : tableOf Placed.id (⟨block, above, below.roots.map Block.id⟩ ::
          below.placed (some block.id)) k = none := by
        refine find?_key_eq_none.mpr fun hm => hk ?_
        rwa [hgone] at hm
      rw [hnone, Option.or_none]
  · exact (h.slots_arena_of_perm (w := { w with body := w.body.prune (·.id = p.id) }) rfl
      (perm_blocks_prune h.blocks.ids hroot hfind) hslots).symm

/-- The places after a move, up to order: the old parent no longer lists the block, the new one
does, and the block names it. -/
theorem WellFormed.perm_placed_move (h : w.WellFormed) {id parent : BlockId}
    {block container : Block} {below : Forest Block} (hroot : id ≠ w.root.id)
    (hfind : w.subtree? id = some (block, below)) (hc : w.getContainer parent = .ok container)
    (hout : parent ∉ (Forest.tree block below).ids) (index : Nat) :
    ({ w with body := w.body.prune (·.id = id) }.modifyBelow parent
      (Forest.insertAt block below index)).placed.Perm
      (((w.placed.map (Placed.dropChild id)).map (Placed.mapChildren parent fun children =>
        children.insertIdx (min index children.length) id)).map
        (Placed.setParent id (some parent))) := by
  obtain ⟨-, rfl⟩ := mem_of_subtree? hfind
  let insert := fun cs : List BlockId => cs.insertIdx (min index cs.length) block.id
  let cut := { w with body := w.body.prune (·.id = block.id) }
  -- the places before and after are those of the rest and those of the subtree
  obtain ⟨above, hbefore⟩ := Forest.perm_placed_prune h.blocks.ids hfind none
  rw [← tree_prune hroot] at hbefore
  change (w.placed.map (Placed.dropChild block.id)).Perm
    (cut.placed ++ ⟨block, above, below.roots.map Block.id⟩ :: below.placed (some block.id)) at hbefore
  have hafter : (cut.modifyBelow parent (Forest.insertAt block below index)).placed.Perm
      (cut.placed.map (Placed.mapChildren parent insert) ++
        ⟨block, some parent, below.roots.map Block.id⟩ :: below.placed (some block.id)) := by
    have hsplit := perm_blocks_prune h.blocks.ids hroot hfind
    rw [placed, tree_modifyBelow (h.blocks.perm hsplit.symm).left_of_append.ids]
    refine Forest.perm_placed_mapBelow (h.blocks.perm hsplit.symm).left_of_append.ids
      (h.mem_ids_prune_of_getContainer hroot hfind hc hout) (fun children => ?_)
      (fun children => ?_) none
    · exact Forest.map_id_roots_insertAt ..
    · exact Forest.perm_placed_insertAt ..
  have hkeys : ((w.placed.map (Placed.dropChild block.id)).map Placed.id).Nodup := by
    rw [List.map_map]
    exact h.placedIds
  have hdis := (hbefore.map Placed.id).nodup_iff.mp hkeys
  rw [List.map_append, List.map_cons, Forest.map_id_placed, List.nodup_append,
    List.nodup_cons] at hdis
  obtain ⟨-, ⟨hbelow, -⟩, hdis⟩ := hdis
  -- the list of the new parent changes outside the subtree, the parent of its top within
  refine hafter.trans (.trans ?_ ((hbefore.map _).map _).symm)
  have hchildren : (⟨block, above, below.roots.map Block.id⟩ :: below.placed (some block.id)).map
      (Placed.mapChildren parent insert) =
      ⟨block, above, below.roots.map Block.id⟩ :: below.placed (some block.id) := by
    refine Placed.map_mapAt_of_not_mem ?_ _
    rw [List.map_cons, Forest.map_id_placed]
    simpa [Forest.ids, Placed.id] using hout
  have hstay : (cut.placed.map (Placed.mapChildren parent insert)).map
      (Placed.setParent block.id (some parent)) =
      cut.placed.map (Placed.mapChildren parent insert) := by
    refine Placed.map_mapAt_of_not_mem ?_ _
    simp only [List.map_map, Function.comp_def, Placed.id_mapChildren]
    exact fun hm => hdis _ hm _ List.mem_cons_self rfl
  have htop : (⟨block, above, below.roots.map Block.id⟩ :: below.placed (some block.id)).map
      (Placed.setParent block.id (some parent)) =
      ⟨block, some parent, below.roots.map Block.id⟩ :: below.placed (some block.id) := by
    have hnot : block.id ∉ (below.placed (some block.id)).map Placed.id := by
      rwa [Forest.map_id_placed]
    rw [List.map_cons, Placed.setParent, Placed.map_mapAt_of_not_mem hnot,
      Placed.mapAt_self (show Placed.id ⟨block, _, _⟩ = block.id from rfl)]
  rw [List.map_append, List.map_append, hchildren, hstay, htop]

/-- A block that moves goes from the list of its old parent to that of the new one. -/
theorem WellFormed.arena_move (h : w.WellFormed) {id parent : BlockId} {index : Nat}
    (hw : w.moveBlock id parent index = .ok w') {row : BlockRow}
    (hrow : w.arena.blocks id = some row) :
    w'.arena = (((w.arena.dropChild row.parent id).modifyBlock parent fun row =>
        { row with children := row.children.insertIdx (min index row.children.length) id }).modifyBlock
        id fun row => { row with parent := some parent }) := by
  have h' := h.moveBlock hw
  have hblocks := h.perm_blocks_moveBlock hw
  obtain ⟨p, hp, rfl, rfl⟩ := h.blocks_arena_eq_some.mp hrow
  obtain ⟨hroot, block, below, hfind, ⟨container, hc⟩, hacyclic, rfl⟩ := moveBlock_eq_ok.mp hw
  let insert := fun cs : List BlockId => cs.insertIdx (min index cs.length) p.id
  rw [Arena.dropChild_eq]
  refine Arena.ext (name_modifyBelow ..) (congrArg Block.id (root_modifyBelow ..)) ?_ ?_ ?_
    (nextId_modifyBelow ..) (registry_modifyBelow ..) (uidStem_modifyBelow ..)
  · rw [h'.blocks_arena,
      tableOf_perm (h.perm_placed_move hroot hfind hc hacyclic index) h'.placedIds]
    funext k
    refine .trans ?_ (Arena.blocks_modifyBlock ..).symm
    refine .trans ?_ (congrArg _ (Arena.blocks_modifyBlock ..).symm)
    dsimp only
    rw [tableOf_map Placed.id (Placed.id_setParent p.id (some parent)),
      tableOf_map Placed.id (Placed.id_mapChildren parent insert),
      show p.row.parent = p.parent from rfl, ← h.blocks_arena_dropChild hp]
    dsimp only
    cases hq : tableOf Placed.id (w.placed.map (Placed.dropChild p.id)) k with
    | none => rfl
    | some q =>
      have hqid : q.id = k := by simpa using List.find?_some hq
      rw [Option.map_some, Option.map_some, Option.map_some, Placed.row_setParent,
        Placed.row_mapChildren, Placed.id_mapChildren, hqid]
      rfl
  · rw [← List.append_nil w.blocks] at hblocks
    exact h'.slots_arena_of_perm (links_modifyBelow ..) hblocks (by simp)
  · exact congrArg (tableOf Link.id) (links_modifyBelow ..)

end Workflow

end SlotFlow
