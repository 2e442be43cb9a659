import SlotFlow.Proofs.Arena.Basic
/-!
# The rows of a workflow's tables

A table is a list of entries under distinct keys, read by key. Changes of such a list correspond to
changes of single rows, so two tables are compared through the lists that they come from. For the
table of blocks that is the list of all blocks with their places in the tree, which every change of
shape changes in few spots.

## Results

* `tableOf_perm`, `tableOf_append_one`, `tableOf_modify`, `tableOf_filter` — lists against tables;
* `Forest.mem_parent_of_mem_placed`, `Forest.mem_placed_of_mem_children` — a parent lists its
  children, and nobody else does;
* `Forest.perm_placed_mapBelow`, `Forest.perm_placed_prune` — the places after a change of shape;
* `Workflow.WellFormed.blocks_arena`, `Workflow.slots_arena`, `Workflow.links_arena` — the tables of a
  workflow as lists.
-/

namespace SlotFlow

-- ---------------------------------------------------------------------------
-- Tables of keyed lists
-- ---------------------------------------------------------------------------

section Tables

variable {α κ : Type} [DecidableEq κ] {key : α → κ} {xs ys : List α}

/-- The table of a list of entries under their keys. -/
def tableOf (key : α → κ) (xs : List α) : κ → Option α :=
  fun k => xs.find? (key · = k)

/-- A table does not show in which order its entries came. -/
theorem tableOf_perm (h : xs.Perm ys) (hkeys : (xs.map key).Nodup) :
    tableOf key xs = tableOf key ys :=
  funext fun k => find?_key_perm h hkeys k

theorem tableOf_append (k : κ) :
    tableOf key (xs ++ ys) k = (tableOf key xs k).or (tableOf key ys k) :=
  List.find?_append

/-- An entry under a new key. -/
theorem tableOf_append_one {x : α} (hx : key x ∉ xs.map key) :
    tableOf key (xs ++ [x]) = Arena.update (tableOf key xs) (key x) (some x) := by
  funext k
  unfold tableOf Arena.update
  rw [List.find?_append]
  split
  · rename_i hk
    rw [hk, find?_key_eq_none.mpr hx]
    simp
  · rename_i hk
    simp [Ne.symm hk]

/-- A change of the entry under one key. -/
theorem tableOf_modify (key : α → κ) {f : α → α} (hf : ∀ x, key (f x) = key x) (k : κ) :
    tableOf key (xs.map fun x => if key x = k then f x else x) =
      Arena.update (tableOf key xs) k ((tableOf key xs k).map f) := by
  have hkey : ∀ x, key (if key x = k then f x else x) = key x := by
    intro x
    split
    · exact hf x
    · rfl
  funext other
  simp only [tableOf, Arena.update, List.find?_map, Function.comp_def, hkey]
  split
  · rename_i hother
    rw [hother]
    cases hx : xs.find? (fun x => decide (key x = k)) with
    | none => rfl
    | some x =>
      have hk : key x = k := by simpa using List.find?_some hx
      rw [Option.map_some, Option.map_some, if_pos hk]
  · rename_i hother
    cases hx : xs.find? (fun x => decide (key x = other)) with
    | none => rfl
    | some x =>
      have hk : key x = other := by simpa using List.find?_some hx
      rw [Option.map_some, if_neg (hk ▸ hother)]

/-- Entries that go are those under certain keys. -/
theorem tableOf_filter (key : α → κ) (p : κ → Bool) :
    tableOf key (xs.filter fun x => p (key x)) = fun k => if p k then tableOf key xs k else none := by
  funext k
  unfold tableOf
  rw [List.find?_filter]
  split
  · rename_i hp
    congr 1
    funext x
    by_cases hk : key x = k
    · simp [hk, hp]
    · simp [hk]
  · rename_i hp
    rw [List.find?_eq_none]
    intro x _ hx
    simp only [decide_eq_true_eq] at hx
    rw [hx.2] at hx
    exact hp hx.1

/-- A change of each entry shows in each row. -/
theorem tableOf_map (key : α → κ) {f : α → α} (hf : ∀ x, key (f x) = key x) (k : κ) :
    tableOf key (xs.map f) k = (tableOf key xs k).map f := by
  simp only [tableOf, List.find?_map, Function.comp_def, hf]

end Tables

-- ---------------------------------------------------------------------------
-- Blocks and their places
-- ---------------------------------------------------------------------------

/-- A block with its place in the tree. -/
structure Placed where
  block : Block
  parent : Option BlockId
  children : List BlockId

namespace Placed

/-- The number of the block. -/
def id (placed : Placed) : BlockId :=
  placed.block.id

/-- What the table of blocks says of a block. -/
def row (placed : Placed) : BlockRow where
  uid := placed.block.uid
  name := placed.block.name
  kind := placed.block.kind
  codeName := placed.block.codeName
  parent := placed.parent
  children := placed.children
  slots := placed.block.slots.map Slot.id

/-- The place of a block after another one has gone. -/
def dropChild (id : BlockId) (placed : Placed) : Placed :=
  { placed with children := placed.children.filter (· ≠ id) }

/-- A change of the place of one block. -/
def mapAt (id : BlockId) (f : Placed → Placed) (placed : Placed) : Placed :=
  if placed.id = id then f placed else placed

/-- A change of what one block lists as its children. -/
def mapChildren (id : BlockId) (g : List BlockId → List BlockId) : Placed → Placed :=
  mapAt id fun placed => { placed with children := g placed.children }

/-- A change of what one block names as its parent. -/
def setParent (id : BlockId) (parent : Option BlockId) : Placed → Placed :=
  mapAt id fun placed => { placed with parent := parent }

@[simp] theorem id_dropChild (id : BlockId) (placed : Placed) : (placed.dropChild id).id = placed.id :=
  rfl

theorem dropChild_of_not_mem {id : BlockId} {placed : Placed} (h : id ∉ placed.children) :
    placed.dropChild id = placed := by
  have hfilter : placed.children.filter (· ≠ id) = placed.children := by
    rw [List.filter_eq_self]
    intro child hc
    simp only [decide_eq_true_eq]
    rintro rfl
    exact h hc
  rw [dropChild, hfilter]

theorem mapAt_self {id : BlockId} {placed : Placed} (h : placed.id = id) (f : Placed → Placed) :
    placed.mapAt id f = f placed :=
  if_pos h

@[simp] theorem id_mapChildren (id : BlockId) (g : List BlockId → List BlockId) (placed : Placed) :
    (placed.mapChildren id g).id = placed.id := by
  unfold mapChildren mapAt
  split <;> rfl

@[simp] theorem id_setParent (id : BlockId) (parent : Option BlockId) (placed : Placed) :
    (placed.setParent id parent).id = placed.id := by
  unfold setParent mapAt
  split <;> rfl

theorem row_mapChildren (id : BlockId) (g : List BlockId → List BlockId) (placed : Placed) :
    (placed.mapChildren id g).row =
      if placed.id = id then { placed.row with children := g placed.row.children }
      else placed.row := by
  unfold mapChildren mapAt
  split <;> rfl

theorem row_setParent (id : BlockId) (parent : Option BlockId) (placed : Placed) :
    (placed.setParent id parent).row =
      if placed.id = id then { placed.row with parent := parent } else placed.row := by
  unfold setParent mapAt
  split <;> rfl

theorem map_mapAt_of_not_mem {id : BlockId} {places : List Placed} (h : id ∉ places.map Placed.id)
    (f : Placed → Placed) : places.map (mapAt id f) = places := by
  rw [List.map_congr_left (g := fun p => p), List.map_id']
  intro p hp
  refine if_neg fun hid => h ?_
  rw [← hid]
  exact List.mem_map_of_mem hp

end Placed

namespace Forest

/-- The blocks in tree order with their places, where the trees stand below a parent. -/
def placed (parent : Option BlockId) : Forest Block → List Placed
  | nil => []
  | node b below after =>
    ⟨b, parent, below.roots.map Block.id⟩ :: (below.placed (some b.id) ++ after.placed parent)

variable {parent : Option BlockId} {forest : Forest Block}

@[simp] theorem map_block_placed (parent : Option BlockId) (forest : Forest Block) :
    (forest.placed parent).map Placed.block = forest.toList := by
  induction forest generalizing parent with
  | nil => rfl
  | node b below after ihBelow ihAfter => simp [placed, ihBelow, ihAfter]

@[simp] theorem map_id_placed (parent : Option BlockId) (forest : Forest Block) :
    (forest.placed parent).map Placed.id = forest.ids := by
  rw [ids, ← map_block_placed parent, List.map_map]
  rfl

theorem map_placed_eq_map_subtrees (parent : Option BlockId) (forest : Forest Block) :
    (forest.placed parent).map (fun p => (p.block, p.children)) =
      forest.subtrees.map fun tree => (tree.1, tree.2.roots.map Block.id) := by
  induction forest generalizing parent with
  | nil => rfl
  | node b below after ihBelow ihAfter => simp [placed, subtrees, ihBelow, ihAfter]

theorem placed_append (parent : Option BlockId) (forest other : Forest Block) :
    (forest.append other).placed parent = forest.placed parent ++ other.placed parent := by
  induction forest with
  | nil => rfl
  | node b below after _ ihAfter => simp [append, placed, ihAfter]

/-- A tree that is put between others takes its place among the children. -/
theorem map_id_roots_insertAt (b : Block) (below : Forest Block) (index : Nat)
    (forest : Forest Block) :
    (insertAt b below index forest).roots.map Block.id =
      (forest.roots.map Block.id).insertIdx
        (min index (forest.roots.map Block.id).length) b.id := by
  induction forest generalizing index with
  | nil => simp [insertAt]
  | node c under after _ ihAfter =>
    cases index with
    | zero => simp [insertAt]
    | succ index => simp [insertAt, ihAfter, Nat.succ_min_succ]

theorem perm_placed_insertAt (parent : Option BlockId) (b : Block) (below : Forest Block)
    (index : Nat) (forest : Forest Block) :
    ((insertAt b below index forest).placed parent).Perm
      (forest.placed parent ++
        ⟨b, parent, below.roots.map Block.id⟩ :: below.placed (some b.id)) := by
  induction forest generalizing index with
  | nil => simp [insertAt, placed, tree]
  | node c under after _ ihAfter =>
    cases index with
    | zero =>
      refine (@List.perm_append_comm _ (_ :: below.placed (some b.id)) _).trans ?_
      exact .refl _
    | succ index =>
      rw [insertAt, placed, placed, List.cons_append, List.append_assoc]
      exact .cons _ ((ihAfter index).append_left _)

/-- A change of blocks' own data leaves them in their places. -/
theorem placed_map {f : Block → Block} (hf : ∀ block, (f block).id = block.id)
    (parent : Option BlockId) (forest : Forest Block) :
    (forest.map f).placed parent =
      (forest.placed parent).map fun p => { p with block := f p.block } := by
  induction forest generalizing parent with
  | nil => rfl
  | node b below after ihBelow ihAfter =>
    simp [map, placed, hf, ihBelow, ihAfter, Function.comp_def]

theorem roots_ids_subset {id : BlockId} (h : id ∈ forest.roots.map Block.id) : id ∈ forest.ids :=
  (forest.roots_sublist.map _).subset h

/-- The children of a block are among the numbers there are, in the same order. -/
theorem children_sublist_of_mem_placed {p : Placed} (h : p ∈ forest.placed parent) :
    p.children.Sublist forest.ids := by
  induction forest generalizing parent with
  | nil => simp [placed] at h
  | node b below after ihBelow ihAfter =>
    rw [placed, List.mem_cons, List.mem_append] at h
    rw [ids_node]
    rcases h with rfl | h | h
    · exact .cons _ ((below.roots_sublist.map _).trans (List.sublist_append_left ..))
    · exact .cons _ ((ihBelow h).trans (List.sublist_append_left ..))
    · exact .cons _ ((ihAfter h).trans (List.sublist_append_right ..))

/-- A block stands at the top, or its parent lists it. -/
theorem mem_parent_of_mem_placed {p : Placed} (h : p ∈ forest.placed parent) :
    p.parent = parent ∧ p.id ∈ forest.roots.map Block.id ∨
      ∃ q ∈ forest.placed parent, p.parent = some q.id ∧ p.id ∈ q.children := by
  induction forest generalizing parent with
  | nil => simp [placed] at h
  | node b below after ihBelow ihAfter =>
    rw [placed, List.mem_cons, List.mem_append] at h
    rw [placed, roots_node, List.map_cons]
    rcases h with rfl | h | h
    · exact .inl ⟨rfl, List.mem_cons_self⟩
    · right
      rcases ihBelow h with ⟨hp, hroot⟩ | ⟨q, hq, hp⟩
      · exact ⟨_, List.mem_cons_self, hp, hroot⟩
      · exact ⟨q, List.mem_cons_of_mem _ (List.mem_append_left _ hq), hp⟩
    · rcases ihAfter h with ⟨hp, hroot⟩ | ⟨q, hq, hp⟩
      · exact .inl ⟨hp, List.mem_cons_of_mem _ hroot⟩
      · exact .inr ⟨q, List.mem_cons_of_mem _ (List.mem_append_right _ hq), hp⟩

/-- The trees themselves stand in their places, below the parent. -/
theorem exists_placed_of_mem_roots {id : BlockId} (parent : Option BlockId)
    (h : id ∈ forest.roots.map Block.id) :
    ∃ p ∈ forest.placed parent, p.id = id ∧ p.parent = parent := by
  induction forest with
  | nil => simp at h
  | node b below after _ ihAfter =>
    rw [roots_node, List.map_cons, List.mem_cons] at h
    rw [placed]
    rcases h with rfl | h
    · exact ⟨_, List.mem_cons_self, rfl, rfl⟩
    · obtain ⟨p, hp, hid⟩ := ihAfter h
      exact ⟨p, List.mem_cons_of_mem _ (List.mem_append_right _ hp), hid⟩

/-- Whoever is listed as a child names the block that lists it as the parent. -/
theorem mem_placed_of_mem_children {q : Placed} {id : BlockId} (hq : q ∈ forest.placed parent)
    (h : id ∈ q.children) : ∃ p ∈ forest.placed parent, p.id = id ∧ p.parent = some q.id := by
  induction forest generalizing parent with
  | nil => simp [placed] at hq
  | node b below after ihBelow ihAfter =>
    rw [placed, List.mem_cons, List.mem_append] at hq
    rw [placed]
    rcases hq with rfl | hq | hq
    · obtain ⟨p, hp, hid⟩ := exists_placed_of_mem_roots (some b.id) h
      exact ⟨p, List.mem_cons_of_mem _ (List.mem_append_left _ hp), hid⟩
    · obtain ⟨p, hp, hid⟩ := ihBelow hq
      exact ⟨p, List.mem_cons_of_mem _ (List.mem_append_left _ hp), hid⟩
    · obtain ⟨p, hp, hid⟩ := ihAfter hq
      exact ⟨p, List.mem_cons_of_mem _ (List.mem_append_right _ hp), hid⟩

theorem map_mapChildren_of_not_mem {id : BlockId} (h : id ∉ forest.ids)
    (g : List BlockId → List BlockId) (parent : Option BlockId) :
    (forest.placed parent).map (Placed.mapChildren id g) = forest.placed parent :=
  Placed.map_mapAt_of_not_mem (by rwa [map_id_placed]) _

theorem map_dropChild_of_not_mem {id : BlockId} (h : id ∉ forest.ids) (parent : Option BlockId) :
    (forest.placed parent).map (Placed.dropChild id) = forest.placed parent := by
  rw [List.map_congr_left (g := fun p => p), List.map_id']
  intro p hp
  exact Placed.dropChild_of_not_mem fun hc => h ((children_sublist_of_mem_placed hp).subset hc)

/-- Where a change adds trees below one block, their blocks come to the list, and the block lists
other children. -/
theorem perm_placed_mapBelow {id : BlockId} {f : Forest Block → Forest Block}
    {g : List BlockId → List BlockId} {added : List Placed} (hids : forest.ids.Nodup)
    (hmem : id ∈ forest.ids)
    (hroots : ∀ below, (f below).roots.map Block.id = g (below.roots.map Block.id))
    (hadded : ∀ below, ((f below).placed (some id)).Perm (below.placed (some id) ++ added))
    (parent : Option BlockId) :
    ((forest.mapBelow (·.id = id) f).placed parent).Perm
      ((forest.placed parent).map (Placed.mapChildren id g) ++ added) := by
  induction forest generalizing parent with
  | nil => simp at hmem
  | node b below after ihBelow ihAfter =>
    rw [ids_node, List.nodup_cons, List.nodup_append] at hids
    obtain ⟨hb, hBelow, hAfter, hdis⟩ := hids
    rw [ids_node, List.mem_cons, List.mem_append] at hmem
    by_cases hid : b.id = id
    · -- the block itself lists other children, and its number occurs nowhere else
      subst hid
      have hBelowNot : b.id ∉ below.ids := fun hm => hb (List.mem_append_left _ hm)
      have hAfterNot : b.id ∉ after.ids := fun hm => hb (List.mem_append_right _ hm)
      simp only [mapBelow, mapBelow_of_not_mem hBelowNot, mapBelow_of_not_mem hAfterNot,
        decide_true, if_true, placed, List.map_cons, List.map_append,
        map_mapChildren_of_not_mem hBelowNot, map_mapChildren_of_not_mem hAfterNot,
        List.cons_append, hroots]
      have hhead : Placed.mapChildren b.id g ⟨b, parent, below.roots.map Block.id⟩ =
          ⟨b, parent, g (below.roots.map Block.id)⟩ := if_pos rfl
      rw [hhead]
      exact .cons _ (((hadded below).append_right _).trans (perm_append_right_comm ..))
    · have hhead : Placed.mapChildren id g ⟨b, parent, below.roots.map Block.id⟩ =
          ⟨b, parent, below.roots.map Block.id⟩ := if_neg hid
      simp only [mapBelow, hid, decide_false, Bool.false_eq_true, if_false, placed, List.map_cons,
        List.map_append, roots_mapBelow, hhead, List.cons_append]
      refine .cons _ ?_
      rcases hmem with rfl | hm | hm
      · exact absurd rfl hid
      · have hAfterNot : id ∉ after.ids := fun h => hdis id hm id h rfl
        rw [mapBelow_of_not_mem hAfterNot, map_mapChildren_of_not_mem hAfterNot]
        exact ((ihBelow hBelow hm _).append_right _).trans (perm_append_right_comm ..)
      · have hBelowNot : id ∉ below.ids := fun h => hdis id h id hm rfl
        rw [mapBelow_of_not_mem hBelowNot, map_mapChildren_of_not_mem hBelowNot, List.append_assoc]
        exact (ihAfter hAfter hm _).append_left _

/-- Where a subtree is cut out, its blocks go from the list, and nobody lists its top as a child. -/
theorem perm_placed_prune {id : BlockId} {block : Block} {below : Forest Block}
    (hids : forest.ids.Nodup) (h : forest.find? (·.id = id) = some (block, below))
    (parent : Option BlockId) :
    ∃ above, ((forest.placed parent).map (Placed.dropChild id)).Perm
      ((forest.prune (·.id = id)).placed parent ++
        ⟨block, above, below.roots.map Block.id⟩ :: below.placed (some block.id)) := by
  induction forest generalizing parent with
  | nil => simp [find?, subtrees] at h
  | node b under after ihUnder ihAfter =>
    rw [ids_node, List.nodup_cons, List.nodup_append] at hids
    obtain ⟨hb, hUnder, hAfter, hdis⟩ := hids
    rw [find?_node] at h
    by_cases hid : b.id = id
    · subst hid
      simp only [decide_true, if_true, Option.some.injEq, Prod.mk.injEq] at h
      obtain ⟨rfl, rfl⟩ := h
      have hUnderNot : b.id ∉ under.ids := fun hm => hb (List.mem_append_left _ hm)
      have hAfterNot : b.id ∉ after.ids := fun hm => hb (List.mem_append_right _ hm)
      have hhead : (Placed.mk b parent (under.roots.map Block.id)).dropChild b.id =
          ⟨b, parent, under.roots.map Block.id⟩ :=
        Placed.dropChild_of_not_mem fun hc => hUnderNot (roots_ids_subset hc)
      refine ⟨parent, ?_⟩
      simp only [prune, decide_true, if_true, prune_of_not_mem hAfterNot, placed, List.map_cons,
        List.map_append, map_dropChild_of_not_mem hUnderNot, map_dropChild_of_not_mem hAfterNot,
        hhead]
      exact (@List.perm_append_comm _ (_ :: under.placed (some b.id)) _).trans (by simp)
    · simp only [hid, decide_false, Bool.false_eq_true, if_false] at h
      simp only [prune, hid, decide_false, Bool.false_eq_true, if_false, placed, List.map_cons,
        List.map_append, List.cons_append]
      have hhead : (Placed.mk b parent (under.roots.map Block.id)).dropChild id =
          ⟨b, parent, (under.prune (·.id = id)).roots.map Block.id⟩ := by
        simp [Placed.dropChild, List.filter_map, Function.comp_def]
      rw [hhead]
      cases hu : under.find? (·.id = id) with
      | some found =>
        rw [hu, Option.some_or, Option.some.injEq] at h
        subst h
        have hAfterNot : id ∉ after.ids := fun hm => hdis id (mem_ids_of_find? hu) id hm rfl
        obtain ⟨above, hp⟩ := ihUnder hUnder hu (some b.id)
        refine ⟨above, .cons _ ?_⟩
        rw [prune_of_not_mem hAfterNot, map_dropChild_of_not_mem hAfterNot]
        refine (hp.append_right _).trans ?_
        rw [List.append_assoc, List.append_assoc]
        exact List.perm_append_comm.append_left _
      | none =>
        rw [hu, Option.none_or] at h
        have hUnderNot : id ∉ under.ids := find?_eq_none_iff.mp hu
        obtain ⟨above, hp⟩ := ihAfter hAfter h parent
        refine ⟨above, .cons _ ?_⟩
        rw [prune_of_not_mem hUnderNot, map_dropChild_of_not_mem hUnderNot, List.append_assoc]
        exact hp.append_left _

end Forest

-- ---------------------------------------------------------------------------
-- The tables of a workflow
-- ---------------------------------------------------------------------------

/-- The number of the slot of a row. -/
def SlotRow.id (row : SlotRow) : SlotId :=
  row.slot.id

namespace Workflow

variable {μ : Type} {w : Workflow μ}

/-- All blocks in tree order with their places. -/
def placed (w : Workflow μ) : List Placed :=
  w.tree.placed none

/-- The rows of all slots in tree order. -/
def slotRows (w : Workflow μ) : List SlotRow :=
  w.ownedSlots.map fun owned =>
    { slot := owned.slot, owner := owned.owner.id, links := (w.linksAt owned.slot.id).map Link.id }

theorem map_id_placed (w : Workflow μ) : w.placed.map Placed.id = w.blocks.map Block.id :=
  Forest.map_id_placed ..

theorem mem_blocks_iff_placed {block : Block} :
    block ∈ w.blocks ↔ ∃ p ∈ w.placed, p.block = block := by
  rw [blocks, ← Forest.map_block_placed none, List.mem_map]
  rfl

theorem mem_slotRows {row : SlotRow} :
    row ∈ w.slotRows ↔ ∃ block ∈ w.blocks, ∃ slot ∈ block.slots,
      row = ⟨slot, block.id, (w.linksAt slot.id).map Link.id⟩ := by
  rw [slotRows, List.mem_map]
  constructor
  · rintro ⟨owned, ho, rfl⟩
    obtain ⟨hb, hs⟩ := mem_ownedSlots.mp ho
    exact ⟨owned.owner, hb, owned.slot, hs, rfl⟩
  · rintro ⟨block, hb, slot, hs, rfl⟩
    exact ⟨⟨block, slot⟩, mem_ownedSlots.mpr ⟨hb, hs⟩, rfl⟩

theorem map_id_slotRows (w : Workflow μ) : w.slotRows.map SlotRow.id = w.slots.map Slot.id := by
  simp [slotRows, slots, Function.comp_def, SlotRow.id]

/-- A block is found with the numbers of its children. -/
theorem map_tableOf_placed (w : Workflow μ) (id : BlockId) :
    (tableOf Placed.id w.placed id).map (fun p => (p.block, p.children)) =
      (w.subtree? id).map fun tree => (tree.1, tree.2.roots.map Block.id) := by
  have hlists := congrArg (List.find? fun place : Block × List BlockId => place.1.id = id)
    (Forest.map_placed_eq_map_subtrees none w.tree)
  rwa [List.find?_map, List.find?_map] at hlists

theorem slots_arena (w : Workflow μ) : w.arena.slots = tableOf SlotRow.id w.slotRows := by
  funext id
  show (w.ownedSlot? id).map _ = _
  rw [tableOf, slotRows, List.find?_map]
  have hfind : w.ownedSlots.find? ((fun row => decide (row.id = id)) ∘ fun owned : OwnedSlot =>
      SlotRow.mk owned.slot owned.owner.id ((w.linksAt owned.slot.id).map Link.id)) =
      w.ownedSlot? id := rfl
  rw [hfind]
  cases hs : w.ownedSlot? id with
  | none => rfl
  | some owned =>
    obtain ⟨-, -, rfl⟩ := mem_of_ownedSlot? hs
    rfl

theorem links_arena (w : Workflow μ) : w.arena.links = tableOf Link.id w.links := rfl

namespace WellFormed

theorem placedIds (h : w.WellFormed) : (w.placed.map Placed.id).Nodup := by
  rw [map_id_placed]
  exact h.blocks.ids

theorem slotRowIds (h : w.WellFormed) : (w.slotRows.map SlotRow.id).Nodup := by
  rw [map_id_slotRows]
  exact h.slotIds

/-- Places are told apart by the numbers of their blocks. -/
theorem placed_ext (h : w.WellFormed) {p q : Placed} (hp : p ∈ w.placed) (hq : q ∈ w.placed)
    (hid : p.id = q.id) : p = q :=
  List.inj_on_of_nodup_map h.placedIds hp hq hid

/-- The parent of a block is the one that lists it. -/
theorem parent_of_mem_children (h : w.WellFormed) {p q : Placed} (hp : p ∈ w.placed)
    (hq : q ∈ w.placed) (hc : p.id ∈ q.children) : p.parent = some q.id := by
  obtain ⟨child, hchild, hid, hparent⟩ := Forest.mem_placed_of_mem_children hq hc
  rwa [h.placed_ext hp hchild hid.symm]

theorem map_id_parent? (h : w.WellFormed) {p : Placed} (hp : p ∈ w.placed) :
    (w.parent? p.id).map Block.id = p.parent := by
  have hlists := congrArg (List.find? fun place : Block × List BlockId => place.2.any (· = p.id))
    (Forest.map_placed_eq_map_subtrees none w.tree)
  rw [List.find?_map, List.find?_map] at hlists
  have hfind : w.parent? p.id =
      (w.placed.find? fun q => q.children.any (· = p.id)).map Placed.block := by
    have hfst := congrArg (Option.map Prod.fst) hlists
    simp only [Option.map_map, Function.comp_def, List.any_map] at hfst
    exact hfst.symm
  rw [hfind]
  cases hq : w.placed.find? fun q => q.children.any (· = p.id) with
  | some q =>
    have hc : p.id ∈ q.children := by simpa using List.find?_some hq
    rw [h.parent_of_mem_children hp (List.mem_of_find?_eq_some hq) hc]
    rfl
  | none =>
    rcases Forest.mem_parent_of_mem_placed hp with ⟨hparent, -⟩ | ⟨q, hmem, -, hc⟩
    · rw [hparent]
      rfl
    · exact absurd hc (by simpa using List.find?_eq_none.mp hq q hmem)

/-- The table of blocks is that of their places. -/
theorem blocks_arena (h : w.WellFormed) :
    w.arena.blocks = fun id => (tableOf Placed.id w.placed id).map Placed.row := by
  funext id
  have hsubtree := w.map_tableOf_placed id
  show (w.block? id).map _ = _
  unfold block? children below
  cases hp : tableOf Placed.id w.placed id with
  | none =>
    rw [hp] at hsubtree
    rw [Option.map_eq_none_iff.mp hsubtree.symm]
    rfl
  | some p =>
    rw [hp] at hsubtree
    obtain ⟨tree, ht, heq⟩ := Option.map_eq_some_iff.mp hsubtree.symm
    obtain ⟨hmem, rfl⟩ := (find?_key_eq_some h.placedIds).mp hp
    rw [ht]
    simp only [Prod.mk.injEq] at heq
    simp only [Option.map_some, Option.getD_some, heq, h.map_id_parent? hmem]
    rfl

end WellFormed

end Workflow

end SlotFlow
