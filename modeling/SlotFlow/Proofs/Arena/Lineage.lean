import SlotFlow.Proofs.Arena.Rows
/-!
# Parents and children

A block and its parent know each other: the parent of a block is the one that lists it, and stands before it
in tree order.

* `Workflow.WellFormed.subtree?_eq_some` — subtrees by the numbers of their blocks;
* `Workflow.WellFormed.eq_of_map_id_eq` — blocks by their numbers;
* `Workflow.WellFormed.exists_parent?` — a block that is not the root is listed by its parent;
* `Workflow.WellFormed.parent?_mem_before` — the parent stands before the block.
-/

namespace SlotFlow.Workflow

variable {μ : Type} {w : Workflow μ} {block container : Block} {id : BlockId}

theorem mem_blocks_of_mem_subtrees {tree : Block × Forest Block} (ht : tree ∈ w.tree.subtrees) :
    tree.1 ∈ w.blocks := by
  rw [blocks, ← Forest.map_fst_subtrees]
  exact List.mem_map_of_mem ht

theorem exists_subtree_of_parent? (hp : w.parent? id = some container) :
    ∃ under, (container, under) ∈ w.tree.subtrees ∧ id ∈ under.roots.map Block.id := by
  obtain ⟨⟨_, under⟩, ht, rfl⟩ := Option.map_eq_some_iff.mp hp
  have hany : under.roots.any (·.id = id) = true :=
    List.find?_some (p := fun tree : Block × Forest Block => tree.2.roots.any (·.id = id)) ht
  obtain ⟨child, hc, hid⟩ := List.any_eq_true.mp hany
  exact ⟨under, List.mem_of_find?_eq_some ht, List.mem_map.mpr ⟨child, hc, of_decide_eq_true hid⟩⟩

theorem mem_blocks_of_parent? (hp : w.parent? id = some container) : container ∈ w.blocks := by
  obtain ⟨below, ht, -⟩ := exists_subtree_of_parent? hp
  exact mem_blocks_of_mem_subtrees ht

/-- The children of a block are listed where it has its place. -/
theorem map_id_children (w : Workflow μ) (id : BlockId) :
    (w.children id).map Block.id =
      ((tableOf Placed.id w.placed id).map Placed.children).getD [] := by
  have hplaces := congrArg (Option.map Prod.snd) (w.map_tableOf_placed id)
  rw [Option.map_map, Option.map_map] at hplaces
  have hlists : (tableOf Placed.id w.placed id).map Placed.children =
      (w.subtree? id).map fun tree => tree.2.roots.map Block.id := hplaces
  rw [hlists, children, below]
  cases w.subtree? id <;> rfl

namespace WellFormed

theorem subtree?_eq_some (h : w.WellFormed) {tree : Block × Forest Block} :
    w.subtree? id = some tree ↔ tree ∈ w.tree.subtrees ∧ tree.1.id = id := by
  have hids : (w.tree.subtrees.map fun tree => tree.1.id).Nodup := by
    rw [Forest.map_id_subtrees, ids_tree]
    exact h.blocks.ids
  exact find?_key_eq_some hids

theorem subtree?_of_mem (h : w.WellFormed) (hb : block ∈ w.blocks) :
    w.subtree? block.id = some (block, w.below block.id) := by
  obtain ⟨⟨_, under⟩, hfind, rfl⟩ := Option.map_eq_some_iff.mp (h.block?_eq_some.mpr ⟨hb, rfl⟩)
  rw [Workflow.below, hfind]
  rfl

theorem ne_root_of_mem_body (h : w.WellFormed) (hb : block ∈ w.body.toList) :
    block.id ≠ w.root.id := by
  have hids := h.blocks.ids
  rw [blocks_eq, List.map_cons, List.nodup_cons] at hids
  exact fun heq => hids.1 (heq ▸ List.mem_map_of_mem hb)

/-- Blocks are given by their numbers. -/
theorem filterMap_block? (h : w.WellFormed) {blocks : List Block} (hsub : blocks ⊆ w.blocks) :
    (blocks.map Block.id).filterMap w.block? = blocks := by
  rw [List.filterMap_map]
  refine (List.filterMap_congr fun b hb => ?_).trans List.filterMap_some
  exact h.block?_eq_some.mpr ⟨hsub hb, rfl⟩

theorem eq_of_map_id_eq (h : w.WellFormed) {xs ys : List Block} (hxs : xs ⊆ w.blocks)
    (hys : ys ⊆ w.blocks) (hids : xs.map Block.id = ys.map Block.id) : xs = ys := by
  rw [← h.filterMap_block? hxs, hids, h.filterMap_block? hys]

theorem option_ext (h : w.WellFormed) {x y : Option Block} (hx : ∀ b, x = some b → b ∈ w.blocks)
    (hy : ∀ b, y = some b → b ∈ w.blocks) (hids : x.map Block.id = y.map Block.id) : x = y := by
  cases x <;> cases y
  · rfl
  · cases hids
  · cases hids
  · rw [h.block_ext (hx _ rfl) (hy _ rfl) (Option.some.inj hids)]

theorem map_id_parent?_of_mem (h : w.WellFormed) (hb : block ∈ w.blocks) :
    (w.parent? block.id).map Block.id = (tableOf Placed.id w.placed block.id).bind Placed.parent := by
  obtain ⟨p, hp, rfl⟩ := mem_blocks_iff_placed.mp hb
  have hrow : tableOf Placed.id w.placed p.block.id = some p := find?_key_of_mem h.placedIds hp
  rw [hrow]
  exact h.map_id_parent? hp

/-- Whoever is listed as a child has the block that lists it as the parent. -/
theorem map_id_parent?_of_mem_children (h : w.WellFormed) (hb : block ∈ w.children id) :
    (w.parent? block.id).map Block.id = some id := by
  have hchild := List.mem_map_of_mem (f := Block.id) hb
  rw [map_id_children] at hchild
  obtain ⟨p, hp, rfl⟩ := mem_blocks_iff_placed.mp (w.children_subset_blocks id hb)
  cases hq : tableOf Placed.id w.placed id with
  | none =>
    rw [hq] at hchild
    cases hchild
  | some q =>
    rw [hq] at hchild
    obtain ⟨hmem, rfl⟩ := (find?_key_eq_some h.placedIds).mp hq
    exact (h.map_id_parent? hp).trans (h.parent_of_mem_children hp hmem hchild)

/-- A block that is not the root is listed by its parent. -/
theorem exists_parent? (h : w.WellFormed) (hb : block ∈ w.body.toList) :
    ∃ container, ∃ place : Nat, w.parent? block.id = some container ∧
      (w.children container.id)[place]? = some block := by
  obtain ⟨p, hp, rfl⟩ := mem_blocks_iff_placed.mp (mem_blocks_of_mem_body hb)
  rcases Forest.mem_parent_of_mem_placed hp with ⟨-, hroot⟩ | ⟨q, hq, hparent, hchild⟩
  · exact absurd (by simpa [tree, Placed.id] using hroot) (h.ne_root_of_mem_body hb)
  · have hid := h.map_id_parent? hp
    rw [hparent] at hid
    obtain ⟨container, hcontainer, hqid⟩ := Option.map_eq_some_iff.mp hid
    have hlist : (w.children container.id).map Block.id = q.children := by
      rw [map_id_children, hqid, tableOf, find?_key_of_mem h.placedIds hq]
      rfl
    rw [← hlist] at hchild
    obtain ⟨child, hc, hcid⟩ := List.mem_map.mp hchild
    obtain rfl := h.block_ext (w.children_subset_blocks _ hc) (mem_blocks_of_mem_body hb) hcid
    obtain ⟨place, hplace⟩ := List.mem_iff_getElem?.mp hc
    exact ⟨container, place, hcontainer, hplace⟩

/-- In tree order the parent of a block stands before the block. -/
theorem parent?_mem_before (h : w.WellFormed) {before after : List Block}
    (hblocks : w.blocks = before ++ block :: after) (hp : w.parent? block.id = some container) :
    container ∈ before := by
  obtain ⟨under, ht, hroot⟩ := exists_subtree_of_parent? hp
  obtain ⟨child, hc, hid⟩ := List.mem_map.mp hroot
  have hsub := Forest.toList_sublist_of_mem_subtrees ht
  have hchild := (Forest.roots_sublist _).subset hc
  obtain rfl := h.block_ext (hsub.subset (List.mem_cons_of_mem _ hchild))
    (by rw [hblocks]; simp) hid
  -- the two stand in this order, and the block stands nowhere else
  have hpair : [container, child].Sublist (before ++ child :: after) := by
    rw [← hblocks]
    exact ((List.singleton_sublist.mpr hchild).cons_cons container).trans hsub
  have hnodup : (before ++ child :: after).Nodup := hblocks ▸ h.blocks.ids.of_map
  have hafter : child ∉ after := (List.nodup_cons.mp hnodup.of_append_right).1
  obtain ⟨first, second, hsplit, hfirst, hsecond⟩ := List.sublist_append_iff.mp hpair
  cases first with
  | nil =>
    rw [List.nil_append] at hsplit
    rw [← hsplit] at hsecond
    exact absurd (List.singleton_sublist.mp hsecond.tail) hafter
  | cons b rest =>
    rw [List.cons_append, List.cons.injEq] at hsplit
    exact hfirst.subset (hsplit.1 ▸ List.mem_cons_self)

end WellFormed

end SlotFlow.Workflow
