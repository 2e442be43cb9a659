import SlotFlow.Proofs.Arena.Lineage
import SlotFlow.Proofs.Editing.Removed
/-!
# What a move changes

A block that is moved takes what is below it along. It goes from the list of its old parent to that of the
new one, and nothing else changes: the subtree stands together in tree order before and after, and so does
the rest. A block is therefore put back by the move to where it was. The one target that a container cannot
be is one inside the subtree.

* `Workflow.cutOut` — a workflow without a block and those below it;
* `Workflow.MovesSubtree` — a workflow before and after a move;
* `Workflow.Movable` — the moves of a block, those that are refused and the way back.

## Results

* `Forest.insertAt_prune`, `Forest.mapBelow_insertAt_prune` — a tree that is put where it was cut out;
* `Workflow.WellFormed.children_moveBlock`, `Workflow.WellFormed.parent?_moveBlock` — who has which children;
* `Workflow.WellFormed.moveBlock_back` — the way back;
* `Workflow.Reachable.movable` — all of this for reachable workflows.
-/

namespace SlotFlow

-- ---------------------------------------------------------------------------
-- Trees put in and cut out
-- ---------------------------------------------------------------------------

namespace Forest

variable {α : Type}

theorem insertAt_zero (a : α) (below forest : Forest α) :
    insertAt a below 0 forest = node a below forest := by
  cases forest <;> rfl

/-- What is put in is cut out again. -/
theorem prune_insertAt {p : α → Bool} {a : α} (ha : p a = true) (below : Forest α) (index : Nat)
    (forest : Forest α) : (insertAt a below index forest).prune p = forest.prune p := by
  induction forest generalizing index with
  | nil => simp [insertAt, tree, prune, ha]
  | node b under after _ ihAfter =>
    cases index with
    | zero => rw [insertAt_zero, prune, if_pos ha]
    | succ index => rw [insertAt, prune, prune, ihAfter]

theorem mem_subtrees_insertAt (a : α) (below : Forest α) (index : Nat) (forest : Forest α) :
    (a, below) ∈ (insertAt a below index forest).subtrees := by
  induction forest generalizing index with
  | nil =>
    rw [insertAt]
    exact List.mem_cons_self
  | node b under after _ ihAfter =>
    cases index with
    | zero => exact List.mem_cons_self
    | succ index => exact List.mem_cons_of_mem _ (List.mem_append_right _ (ihAfter index))

/-- A tree that is put in stands together. -/
theorem exists_toList_insertAt (a : α) (below : Forest α) (index : Nat) (forest : Forest α) :
    ∃ before after, forest.toList = before ++ after ∧
      (insertAt a below index forest).toList = before ++ (a :: below.toList ++ after) := by
  induction forest generalizing index with
  | nil => exact ⟨[], [], rfl, by simp [insertAt]⟩
  | node b under rest _ ihRest =>
    cases index with
    | zero => exact ⟨[], _, rfl, by simp [insertAt_zero]⟩
    | succ index =>
      obtain ⟨before, after, hold, hnew⟩ := ihRest index
      exact ⟨b :: (under.toList ++ before), after, by simp [hold], by simp [insertAt, hnew]⟩

/-- A tree that is put below one label is there in the whole forest. -/
theorem mem_subtrees_mapBelow {p : α → Bool} {f : Forest α → Forest α} {t : α × Forest α}
    (hf : ∀ below, t ∈ (f below).subtrees) {forest : Forest α} (h : ∃ a ∈ forest.toList, p a = true) :
    t ∈ (forest.mapBelow p f).subtrees := by
  induction forest with
  | nil => simp at h
  | node b under after ihUnder ihAfter =>
    rw [mapBelow, subtrees, List.mem_cons, List.mem_append]
    obtain ⟨a, ha, hp⟩ := h
    by_cases hb : p b = true
    · rw [if_pos hb]
      exact .inr (.inl (hf _))
    · rw [if_neg hb]
      rw [toList_node, List.mem_cons, List.mem_append] at ha
      rcases ha with rfl | ha | ha
      · exact absurd hp hb
      · exact .inr (.inl (ihUnder ⟨a, ha, hp⟩))
      · exact .inr (.inr (ihAfter ⟨a, ha, hp⟩))

/-- What is put together below one block stands together in the whole forest. -/
theorem exists_toList_mapBelow {forest : Forest Block} {id : BlockId} {f : Forest Block → Forest Block}
    {added : List Block} (hids : forest.ids.Nodup) (hmem : id ∈ forest.ids)
    (hf : ∀ below, ∃ before after, below.toList = before ++ after ∧
      (f below).toList = before ++ (added ++ after)) :
    ∃ before after, forest.toList = before ++ after ∧
      (forest.mapBelow (·.id = id) f).toList = before ++ (added ++ after) := by
  induction forest with
  | nil => simp at hmem
  | node b under rest ihUnder ihRest =>
    rw [ids_node, List.nodup_cons, List.nodup_append] at hids
    obtain ⟨hb, hUnder, hRest, hdis⟩ := hids
    rw [ids_node, List.mem_cons, List.mem_append] at hmem
    by_cases hid : b.id = id
    · subst hid
      obtain ⟨before, after, hold, hnew⟩ := hf under
      have hUnderNot : b.id ∉ under.ids := fun hm => hb (List.mem_append_left _ hm)
      have hRestNot : b.id ∉ rest.ids := fun hm => hb (List.mem_append_right _ hm)
      refine ⟨b :: before, after ++ rest.toList, by simp [hold], ?_⟩
      simp [mapBelow, mapBelow_of_not_mem hUnderNot, mapBelow_of_not_mem hRestNot, hnew]
    · rw [mapBelow, if_neg (by simpa using hid)]
      rcases hmem with rfl | hm | hm
      · exact absurd rfl hid
      · obtain ⟨before, after, hold, hnew⟩ := ihUnder hUnder hm
        have hRestNot : id ∉ rest.ids := fun h => hdis id hm id h rfl
        refine ⟨b :: before, after ++ rest.toList, by simp [hold], ?_⟩
        simp [mapBelow_of_not_mem hRestNot, hnew]
      · obtain ⟨before, after, hold, hnew⟩ := ihRest hRest hm
        have hUnderNot : id ∉ under.ids := fun h => hdis id h id hm rfl
        refine ⟨b :: (under.toList ++ before), after, by simp [hold], ?_⟩
        simp [mapBelow_of_not_mem hUnderNot, hnew]

variable {forest below : Forest Block} {id : BlockId} {block : Block} {place : Nat}

/-- A tree that is put where it was cut out. -/
theorem insertAt_prune (hids : forest.ids.Nodup)
    (hfind : forest.find? (·.id = id) = some (block, below))
    (hplace : (forest.roots.map Block.id)[place]? = some id) :
    insertAt block below place (forest.prune (·.id = id)) = forest := by
  induction forest generalizing place with
  | nil => simp at hplace
  | node b under after _ ihAfter =>
    rw [ids_node, List.nodup_cons, List.nodup_append] at hids
    obtain ⟨hb, -, hAfter, hdis⟩ := hids
    rw [find?_node] at hfind
    cases place with
    | zero =>
      obtain rfl : b.id = id := by simpa using hplace
      simp only [decide_true, if_true, Option.some.injEq, Prod.mk.injEq] at hfind
      obtain ⟨rfl, rfl⟩ := hfind
      have hAfterNot : b.id ∉ after.ids := fun hm => hb (List.mem_append_right _ hm)
      rw [prune, if_pos (decide_eq_true rfl), prune_of_not_mem hAfterNot, insertAt_zero]
    | succ place =>
      have hroot : (after.roots.map Block.id)[place]? = some id := by simpa using hplace
      have hm : id ∈ after.ids := roots_ids_subset (List.mem_of_getElem? hroot)
      have hid : b.id ≠ id := fun heq => hb (List.mem_append_right _ (heq ▸ hm))
      have hUnderNot : id ∉ under.ids := fun h => hdis id h id hm rfl
      rw [if_neg (by simpa using hid), find?_eq_none_iff.mpr hUnderNot, Option.none_or] at hfind
      rw [prune, if_neg (by simpa using hid), prune_of_not_mem hUnderNot, insertAt,
        ihAfter hAfter hfind hroot]

/-- A tree that is put below the block it was cut out from. -/
theorem mapBelow_insertAt_prune {parent : Block} {children : Forest Block} (hids : forest.ids.Nodup)
    (hfind : forest.find? (·.id = id) = some (block, below))
    (hparent : (parent, children) ∈ forest.subtrees)
    (hplace : (children.roots.map Block.id)[place]? = some id) :
    (forest.prune (·.id = id)).mapBelow (·.id = parent.id) (insertAt block below place) = forest := by
  have hchild : id ∈ children.ids := roots_ids_subset (List.mem_of_getElem? hplace)
  induction forest with
  | nil => simp [subtrees] at hparent
  | node b under after ihUnder ihAfter =>
    rw [ids_node, List.nodup_cons, List.nodup_append] at hids
    obtain ⟨hb, hUnder, hAfter, hdis⟩ := hids
    have hne : ∀ {other}, other ∈ under.ids ++ after.ids → b.id ≠ other := fun hm heq => hb (heq ▸ hm)
    rw [find?_node] at hfind
    simp only [subtrees, List.mem_cons, List.mem_append, Prod.mk.injEq] at hparent
    -- where the parent is, there is the block, and not in the rest
    have hsub : ∀ {part : Forest Block}, (parent, children) ∈ part.subtrees →
        parent.id ∈ part.ids ∧ id ∈ part.ids := by
      intro part hpart
      have hlist := (toList_sublist_of_mem_subtrees hpart).map Block.id
      exact ⟨hlist.subset List.mem_cons_self, hlist.subset (List.mem_cons_of_mem _ hchild)⟩
    rcases hparent with ⟨rfl, rfl⟩ | hparent | hparent
    · have hid := hne (List.mem_append_left _ hchild)
      have hAfterNot : id ∉ after.ids := fun h => hdis id hchild id h rfl
      have hparentUnder : parent.id ∉ (children.prune (·.id = id)).ids := fun h =>
        hb (List.mem_append_left _ (((toList_prune_sublist _ _).map _).subset h))
      have hparentAfter : parent.id ∉ after.ids := fun h => hb (List.mem_append_right _ h)
      rw [if_neg (by simpa using hid), find?_eq_none_iff.mpr hAfterNot, Option.or_none] at hfind
      rw [prune, if_neg (by simpa using hid), prune_of_not_mem hAfterNot, mapBelow,
        mapBelow_of_not_mem hparentUnder, mapBelow_of_not_mem hparentAfter, if_pos (decide_eq_true rfl),
        insertAt_prune hUnder hfind hplace]
    · obtain ⟨hp, hm⟩ := hsub hparent
      have hid := hne (List.mem_append_left _ hm)
      have hpid := hne (List.mem_append_left _ hp)
      have hAfterNot : id ∉ after.ids := fun h => hdis id hm id h rfl
      have hparentAfter : parent.id ∉ after.ids := fun h => hdis _ hp _ h rfl
      rw [if_neg (by simpa using hid), find?_eq_none_iff.mpr hAfterNot, Option.or_none] at hfind
      rw [prune, if_neg (by simpa using hid), prune_of_not_mem hAfterNot, mapBelow,
        mapBelow_of_not_mem hparentAfter, if_neg (by simpa using hpid), ihUnder hUnder hfind hparent]
    · obtain ⟨hp, hm⟩ := hsub hparent
      have hid := hne (List.mem_append_right _ hm)
      have hpid := hne (List.mem_append_right _ hp)
      have hUnderNot : id ∉ under.ids := fun h => hdis id h id hm rfl
      have hparentUnder : parent.id ∉ under.ids := fun h => hdis _ h _ hp rfl
      rw [if_neg (by simpa using hid), find?_eq_none_iff.mpr hUnderNot, Option.none_or] at hfind
      rw [prune, if_neg (by simpa using hid), prune_of_not_mem hUnderNot, mapBelow,
        mapBelow_of_not_mem hparentUnder, if_neg (by simpa using hpid), ihAfter hAfter hfind hparent]

end Forest

-- ---------------------------------------------------------------------------
-- Places
-- ---------------------------------------------------------------------------

namespace Placed

theorem children_setParent (id : BlockId) (parent : Option BlockId) (placed : Placed) :
    (placed.setParent id parent).children = placed.children := by
  unfold setParent mapAt
  split <;> rfl

theorem children_mapChildren (id : BlockId) (g : List BlockId → List BlockId) (placed : Placed) :
    (placed.mapChildren id g).children =
      if placed.id = id then g placed.children else placed.children := by
  unfold mapChildren mapAt
  split <;> rfl

theorem parent_setParent (id : BlockId) (parent : Option BlockId) (placed : Placed) :
    (placed.setParent id parent).parent = if placed.id = id then parent else placed.parent := by
  unfold setParent mapAt
  split <;> rfl

theorem parent_mapChildren (id : BlockId) (g : List BlockId → List BlockId) (placed : Placed) :
    (placed.mapChildren id g).parent = placed.parent := by
  unfold mapChildren mapAt
  split <;> rfl

end Placed

namespace Workflow

variable {μ : Type} {w w' : Workflow μ} {block container : Block} {id parent : BlockId} {index : Nat}

namespace WellFormed

/-- The parent of a block is not in the subtree of the block. -/
theorem parent?_not_mem_subtreeIds (h : w.WellFormed) (hp : w.parent? id = some container) :
    container.id ∉ w.subtreeIds id := by
  intro hin
  obtain ⟨under, ht, hroot⟩ := exists_subtree_of_parent? hp
  obtain ⟨b, hb, rfl⟩ := List.mem_map.mp hroot
  have hblock : b ∈ w.blocks := (Forest.toList_sublist_of_mem_subtrees ht).subset
    (List.mem_cons_of_mem _ ((Forest.roots_sublist _).subset hb))
  have hfind := h.subtree?_of_mem hblock
  -- what is below the parent would be below the block, and the block with it
  have hpart := Forest.toList_sublist_of_mem_subtrees (h.mem_subtrees_of_mem_subtreeIds hfind ht hin)
  rw [Forest.toList_tree] at hpart
  have hself : b ∈ (w.below b.id).toList := hpart.tail.subset ((Forest.roots_sublist _).subset hb)
  have hwhole := Forest.toList_sublist_of_mem_subtrees (mem_subtrees_of_subtree? hfind)
  have hids := h.blocks.ids.sublist (hwhole.map Block.id)
  rw [List.map_cons, List.nodup_cons] at hids
  exact hids.1 (List.mem_map_of_mem hself)

end WellFormed

-- ---------------------------------------------------------------------------
-- Moves
-- ---------------------------------------------------------------------------

/-- A workflow without a block and those below it. -/
def cutOut (w : Workflow μ) (id : BlockId) : Workflow μ :=
  { w with body := w.body.prune (·.id = id) }

namespace WellFormed

theorem ids_cutOut (h : w.WellFormed) (id : BlockId) : ((w.cutOut id).blocks.map Block.id).Nodup := by
  have hsub : (w.cutOut id).blocks.Sublist w.blocks := by
    rw [blocks_eq, blocks_eq]
    exact (Forest.toList_prune_sublist ..).cons_cons _
  exact h.blocks.ids.sublist (hsub.map _)

/-- A block can be moved to any container outside its subtree, and to no other. -/
theorem moveBlock_eq (h : w.WellFormed) (hb : block ∈ w.body.toList) (parent : BlockId) (index : Nat) :
    w.moveBlock block.id parent index = (w.getContainer parent).bind fun _ =>
      if parent ∈ w.subtreeIds block.id then .error (.cyclicMove block.name)
      else .ok ((w.cutOut block.id).modifyBelow parent
        (Forest.insertAt block (w.below block.id) index)) := by
  have hfind := h.subtree?_of_mem (mem_blocks_of_mem_body hb)
  have hin : (Forest.tree block (w.below block.id)).toList.any (·.id = parent) = true ↔
      parent ∈ w.subtreeIds block.id := by
    rw [subtreeIds_eq hfind, List.any_eq_true, List.mem_map]
    simp only [decide_eq_true_eq]
  rw [Workflow.moveBlock, if_neg (h.ne_root_of_mem_body hb), getSubtree_eq_ok.mpr hfind]
  cases w.getContainer parent with
  | error => rfl
  | ok =>
    simp only [bind, Except.bind, hin, pure, Except.pure, throw, throwThe, MonadExceptOf.throw]
    split <;> rfl

theorem moveBlock_eq_ok_iff (h : w.WellFormed) (hb : block ∈ w.body.toList) :
    w.moveBlock block.id parent index = .ok w' ↔
      (∃ container, w.getContainer parent = .ok container) ∧ parent ∉ w.subtreeIds block.id ∧
        w' = (w.cutOut block.id).modifyBelow parent
          (Forest.insertAt block (w.below block.id) index) := by
  rw [h.moveBlock_eq hb]
  cases w.getContainer parent with
  | error => simp [Except.bind]
  | ok => by_cases hin : parent ∈ w.subtreeIds block.id <;> simp [Except.bind, hin, eq_comm]

end WellFormed

/-- A change below a block is one below the root. -/
theorem modifyBelow_eq (w : Workflow μ) (id : BlockId) (f : Forest Block → Forest Block) :
    w.modifyBelow id f = { w with body := (w.modifyBelow id f).body } := by
  unfold modifyBelow
  split <;> rfl

theorem getContainer_ne_cyclicMove (w : Workflow μ) (id : BlockId) (name : String) :
    w.getContainer id ≠ .error (.cyclicMove name) := by
  cases hb : w.block? id with
  | none =>
    rw [getContainer, getBlock_eq_error hb]
    intro heq
    cases heq
  | some block =>
    rw [getContainer, getBlock_eq_ok.mpr hb]
    cases hkind : block.kind.isContainer <;> simp [bind, Except.bind, hkind, pure, Except.pure, throw,
      throwThe, MonadExceptOf.throw]

namespace WellFormed

/-- The refusal means that there is such a container, inside the subtree. -/
theorem moveBlock_eq_cyclicMove (h : w.WellFormed) (hb : block ∈ w.body.toList) {name : String} :
    w.moveBlock block.id parent index = .error (.cyclicMove name) ↔
      (∃ container, w.getContainer parent = .ok container) ∧ parent ∈ w.subtreeIds block.id ∧
        name = block.name := by
  rw [h.moveBlock_eq hb]
  cases hc : w.getContainer parent with
  | error error =>
    have hne := w.getContainer_ne_cyclicMove parent name
    rw [hc] at hne
    simpa [Except.bind] using hne
  | ok => by_cases hin : parent ∈ w.subtreeIds block.id <;> simp [Except.bind, hin, eq_comm]

-- ---------------------------------------------------------------------------
-- Tree order
-- ---------------------------------------------------------------------------

/-- The subtree stands together before and after, and so does the rest. -/
theorem exists_blocks_moveBlock (h : w.WellFormed) (hb : block ∈ w.body.toList)
    (hw : w.moveBlock block.id parent index = .ok w') :
    ∃ before after before' after',
      w.blocks = before ++ ((block :: w.descendants block.id) ++ after) ∧
      w'.blocks = before' ++ ((block :: w.descendants block.id) ++ after') ∧
      before' ++ after' = before ++ after := by
  have hfind := h.subtree?_of_mem (mem_blocks_of_mem_body hb)
  obtain ⟨⟨container, hc⟩, hout, rfl⟩ := (h.moveBlock_eq_ok_iff hb).mp hw
  rw [subtreeIds_eq hfind] at hout
  obtain ⟨trees, later, hall, hleft⟩ := Forest.exists_subtrees_prune h.blocks.ids hfind
  have hparent := h.mem_ids_prune_of_getContainer (h.ne_root_of_mem_body hb) hfind hc hout
  obtain ⟨before', after', hcut, hnew⟩ := Forest.exists_toList_mapBelow (h.ids_cutOut block.id) hparent
    (Forest.exists_toList_insertAt block (w.below block.id) index)
  have hall' := congrArg (List.map Prod.fst) hall
  have hleft' := congrArg (List.map Prod.fst) hleft
  simp only [Forest.map_fst_subtrees, List.map_append, List.map_map, Function.comp_def,
    Forest.toList_tree] at hall' hleft'
  refine ⟨_, _, before', after', hall', ?_, ?_⟩
  · rw [Workflow.blocks, tree_modifyBelow (h.ids_cutOut block.id)]
    exact hnew
  · rw [← hleft', ← tree_prune (h.ne_root_of_mem_body hb)]
    exact hcut.symm

/-- The block is still below the root. -/
theorem mem_body_moveBlock (h : w.WellFormed) (hb : block ∈ w.body.toList)
    (hw : w.moveBlock id parent index = .ok w') : block ∈ w'.body.toList := by
  have hmem : block ∈ w'.blocks :=
    (h.perm_blocks_moveBlock hw).mem_iff.mpr (mem_blocks_of_mem_body hb)
  obtain ⟨-, b, under, -, -, -, rfl⟩ := moveBlock_eq_ok.mp hw
  rw [blocks_eq, root_modifyBelow, List.mem_cons] at hmem
  exact hmem.resolve_left fun heq => h.ne_root_of_mem_body hb (congrArg Block.id heq)

/-- The subtree is found as it was. -/
theorem subtree?_moveBlock (h : w.WellFormed) (hb : block ∈ w.body.toList)
    (hw : w.moveBlock block.id parent index = .ok w') :
    w'.subtree? block.id = w.subtree? block.id := by
  have hfind := h.subtree?_of_mem (mem_blocks_of_mem_body hb)
  have h' := h.moveBlock hw
  obtain ⟨⟨container, hc⟩, hout, rfl⟩ := (h.moveBlock_eq_ok_iff hb).mp hw
  rw [subtreeIds_eq hfind] at hout
  have hparent := h.mem_ids_prune_of_getContainer (h.ne_root_of_mem_body hb) hfind hc hout
  obtain ⟨found, hfound, hid⟩ := List.mem_map.mp hparent
  rw [hfind, h'.subtree?_eq_some, tree_modifyBelow (h.ids_cutOut block.id)]
  exact ⟨Forest.mem_subtrees_mapBelow (Forest.mem_subtrees_insertAt _ _ index)
    ⟨found, hfound, decide_eq_true hid⟩, rfl⟩

theorem descendants_moveBlock (h : w.WellFormed) (hb : block ∈ w.body.toList)
    (hw : w.moveBlock block.id parent index = .ok w') :
    w'.descendants block.id = w.descendants block.id := by
  rw [descendants, below, h.subtree?_moveBlock hb hw]
  rfl

theorem block?_moveBlock (h : w.WellFormed) (hw : w.moveBlock block.id parent index = .ok w')
    (other : BlockId) : w'.block? other = w.block? other := by
  refine Option.ext fun b => ?_
  rw [(h.moveBlock hw).block?_eq_some, h.block?_eq_some, (h.perm_blocks_moveBlock hw).mem_iff]

-- ---------------------------------------------------------------------------
-- Parents and children
-- ---------------------------------------------------------------------------

/-- The block goes from the list of its parent, comes to that of the container, and names the container. -/
theorem tableOf_placed_moveBlock (h : w.WellFormed) (hw : w.moveBlock id parent index = .ok w')
    (other : BlockId) :
    tableOf Placed.id w'.placed other = (tableOf Placed.id w.placed other).map fun p =>
      ((p.dropChild id).mapChildren parent fun children =>
        children.insertIdx (min index children.length) id).setParent id (some parent) := by
  have h' := h.moveBlock hw
  obtain ⟨hroot, block, below, hfind, ⟨container, hc⟩, hout, rfl⟩ := moveBlock_eq_ok.mp hw
  rw [tableOf_perm (h.perm_placed_move hroot hfind hc hout index) h'.placedIds,
    tableOf_map _ (Placed.id_setParent id (some parent)), tableOf_map _ (Placed.id_mapChildren parent _),
    tableOf_map _ (Placed.id_dropChild id), Option.map_map, Option.map_map]
  rfl

theorem map_id_children_moveBlock (h : w.WellFormed) (hw : w.moveBlock id parent index = .ok w')
    (other : BlockId) :
    (w'.children other).map Block.id =
      let rest := ((w.children other).map Block.id).filter (· ≠ id)
      if other = parent then rest.insertIdx (min index rest.length) id else rest := by
  rw [map_id_children, map_id_children, h.tableOf_placed_moveBlock hw]
  cases hp : tableOf Placed.id w.placed other with
  | none =>
    obtain ⟨-, -, -, -, ⟨_, hc⟩, -, -⟩ := moveBlock_eq_ok.mp hw
    have hne : other ≠ parent := by
      rintro rfl
      exact find?_key_eq_none.mp hp (w.map_id_placed ▸ h.mem_ids_of_getContainer hc)
    simp [hne]
  | some p =>
    obtain rfl : p.id = other := by simpa using List.find?_some hp
    simp only [Option.map_some, Option.getD_some, Placed.children_setParent, Placed.children_mapChildren,
      Placed.id_dropChild]
    rfl

theorem children_moveBlock (h : w.WellFormed) (hb : block ∈ w.body.toList)
    (hw : w.moveBlock block.id parent index = .ok w') (other : BlockId) :
    w'.children other =
      let rest := (w.children other).filter (·.id ≠ block.id)
      if other = parent then rest.insertIdx (min index rest.length) block else rest := by
  have hids := h.map_id_children_moveBlock hw other
  have hold : w'.children other ⊆ w.blocks := fun b hb =>
    (h.perm_blocks_moveBlock hw).subset (w'.children_subset_blocks other hb)
  have hrest : ((w.children other).map Block.id).filter (· ≠ block.id) =
      ((w.children other).filter (·.id ≠ block.id)).map Block.id := (List.filter_map ..)
  have hsub : (w.children other).filter (·.id ≠ block.id) ⊆ w.blocks := fun b hb =>
    w.children_subset_blocks other (List.mem_of_mem_filter hb)
  rw [hrest] at hids
  refine h.eq_of_map_id_eq hold ?_ ?_
  · dsimp only
    split
    · intro b hin
      rcases List.eq_or_mem_of_mem_insertIdx hin with rfl | hin
      · exact mem_blocks_of_mem_body hb
      · exact hsub hin
    · exact hsub
  · rw [hids]
    dsimp only
    split
    · rw [List.map_insertIdx, List.length_map]
    · rfl

theorem parent?_moveBlock (h : w.WellFormed) (hb : block ∈ w.blocks)
    (hw : w.moveBlock id parent index = .ok w') :
    w'.parent? block.id = if block.id = id then w.block? parent else w.parent? block.id := by
  have hperm := h.perm_blocks_moveBlock hw
  have hrow := h.tableOf_placed_moveBlock hw block.id
  have hplace := h.map_id_parent?_of_mem hb
  have hplace' := (h.moveBlock hw).map_id_parent?_of_mem (hperm.mem_iff.mpr hb)
  obtain ⟨-, -, -, -, ⟨container, hc⟩, -, -⟩ := moveBlock_eq_ok.mp hw
  obtain ⟨hcontainer, rfl⟩ := h.block?_eq_some.mp (getContainer_eq_ok.mp hc).1
  rw [(getContainer_eq_ok.mp hc).1]
  refine h.option_ext (fun b hm => ?_) (fun b hm => ?_) ?_
  · exact hperm.mem_iff.mp (mem_blocks_of_parent? hm)
  · split at hm
    · obtain rfl := Option.some.inj hm
      exact hcontainer
    · exact mem_blocks_of_parent? hm
  · obtain ⟨p, hp, rfl⟩ := mem_blocks_iff_placed.mp hb
    have hrowp : tableOf Placed.id w.placed p.block.id = some p := find?_key_of_mem h.placedIds hp
    rw [hrowp] at hplace hrow
    rw [hplace', hrow]
    simp only [Option.map_some, Option.bind_some, Placed.parent_setParent, Placed.parent_mapChildren,
      Placed.id_mapChildren, Placed.id_dropChild]
    show (if p.block.id = id then some container.id else p.parent) = _
    split
    · rfl
    · exact hplace.symm

-- ---------------------------------------------------------------------------
-- The way back
-- ---------------------------------------------------------------------------

/-- Without the subtree nothing tells where it was. -/
theorem cutOut_moveBlock (h : w.WellFormed) (hb : block ∈ w.body.toList)
    (hw : w.moveBlock block.id parent index = .ok w') : w'.cutOut block.id = w.cutOut block.id := by
  obtain ⟨-, -, rfl⟩ := (h.moveBlock_eq_ok_iff hb).mp hw
  have hleft : ∀ b ∈ (w.body.prune (·.id = block.id)).toList, decide (b.id = block.id) = false :=
    fun b hm => Forest.not_of_mem_prune (p := fun other : Block => decide (other.id = block.id)) hm
  have hput : ∀ under : Forest Block,
      (Forest.insertAt block (w.below block.id) index under).prune (·.id = block.id) =
        under.prune (·.id = block.id) :=
    Forest.prune_insertAt (p := fun other : Block => decide (other.id = block.id)) (decide_eq_true rfl) _
      index
  unfold modifyBelow
  split
  · show { w with body := Forest.prune _ (Forest.insertAt _ _ _ (w.body.prune _)) } = w.cutOut block.id
    rw [hput, Forest.prune_eq_self hleft]
    rfl
  · show { w with body := Forest.prune _ (Forest.mapBelow _ _ (w.body.prune _)) } = w.cutOut block.id
    rw [Forest.prune_mapBelow hleft hput]
    rfl

/-- A subtree that is put where it was. -/
theorem modifyBelow_cutOut (h : w.WellFormed) (hb : block ∈ w.body.toList)
    (hparent : w.parent? block.id = some container) {place : Nat}
    (hplace : (w.children container.id)[place]? = some block) :
    (w.cutOut block.id).modifyBelow container.id
      (Forest.insertAt block (w.below block.id) place) = w := by
  have hfind := h.subtree?_of_mem (mem_blocks_of_mem_body hb)
  obtain ⟨under, ht, -⟩ := exists_subtree_of_parent? hparent
  have hchildren : w.children container.id = under.roots := by
    rw [children, Workflow.below, h.subtree?_eq_some.mpr ⟨ht, rfl⟩]
    rfl
  have hroots : (under.roots.map Block.id)[place]? = some block.id := by
    rw [← hchildren, List.getElem?_map, hplace]
    rfl
  have htree : ((w.cutOut block.id).modifyBelow container.id
      (Forest.insertAt block (w.below block.id) place)).tree = w.tree := by
    rw [tree_modifyBelow (h.ids_cutOut block.id), cutOut, tree_prune (h.ne_root_of_mem_body hb)]
    exact Forest.mapBelow_insertAt_prune h.blocks.ids hfind ht hroots
  rw [modifyBelow_eq] at htree ⊢
  injection htree with _ hbody
  show { w with body := _ } = w
  rw [hbody]

/-- A block is put back by the move to where it was. -/
theorem moveBlock_back (h : w.WellFormed) (hb : block ∈ w.body.toList)
    (hw : w.moveBlock block.id parent index = .ok w') (hparent : w.parent? block.id = some container)
    {place : Nat} (hplace : (w.children container.id)[place]? = some block)
    (hkind : container.kind.isContainer = true) :
    w'.moveBlock block.id container.id place = .ok w := by
  have hcontainer : w.block? container.id = some container :=
    h.block?_eq_some.mpr ⟨mem_blocks_of_parent? hparent, rfl⟩
  have hbelow : w'.below block.id = w.below block.id := by
    rw [below, h.subtree?_moveBlock hb hw]
    rfl
  have hb' := h.mem_body_moveBlock hb hw
  rw [(h.moveBlock hw).moveBlock_eq_ok_iff hb', hbelow, h.cutOut_moveBlock hb hw,
    h.modifyBelow_cutOut hb hparent hplace]
  refine ⟨⟨container, getContainer_eq_ok.mpr ⟨?_, hkind⟩⟩, ?_, rfl⟩
  · rw [h.block?_moveBlock hw, hcontainer]
  · rw [subtreeIds, h.descendants_moveBlock hb hw]
    exact h.parent?_not_mem_subtreeIds hparent

end WellFormed

-- ---------------------------------------------------------------------------
-- Main result
-- ---------------------------------------------------------------------------

/-- A workflow before and after a block is moved into a container. -/
structure MovesSubtree (w : Workflow μ) (block : Block) (parent : BlockId) (index : Nat)
    (w' : Workflow μ) : Prop where
  /-- The container lists the block at the position that is asked for among its other children, or at the
  end if these are fewer. -/
  target : let rest := (w.children parent).filter (·.id ≠ block.id)
    w'.children parent = rest.insertIdx (min index rest.length) block
  /-- The old parent loses the block and keeps the other children in their order, … -/
  source : ∀ container, w.parent? block.id = some container → container.id ≠ parent →
    w'.children container.id = (w.children container.id).filter (·.id ≠ block.id)
  /-- … and nobody else has other children than before. -/
  others : ∀ other, other ≠ parent → (w.parent? block.id).map Block.id ≠ some other →
    w'.children other = w.children other
  /-- The block names the container as its parent, … -/
  parent? : w'.parent? block.id = w.block? parent
  /-- … and the other blocks name the ones they did. -/
  parents : ∀ other ∈ w.blocks, other ≠ block → w'.parent? other.id = w.parent? other.id
  /-- The subtree is what it was. -/
  subtree? : w'.subtree? block.id = w.subtree? block.id
  /-- The blocks come in another order, and each is what it was. -/
  perm : w'.blocks.Perm w.blocks
  /-- In tree order the subtree stands together before and after, and so does the rest. -/
  together : ∃ before after before' after',
    w.blocks = before ++ ((block :: w.descendants block.id) ++ after) ∧
    w'.blocks = before' ++ ((block :: w.descendants block.id) ++ after') ∧
    before' ++ after' = before ++ after
  /-- There is nothing else that changes, … -/
  rest : w' = { w with body := w'.body }
  /-- … and in the tables only rows of blocks do. -/
  tables : w'.arena = { w.arena with blocks := w'.arena.blocks }
  /-- The program on the tables changes one row after the other and ends with these tables. -/
  program : (Arena.moveBlock block.id parent index).run w.arena = some (.ok (), w'.arena)

/-- The moves of a block. -/
structure Movable (w : Workflow μ) (block : Block) : Prop where
  /-- The block is listed by its parent. -/
  placed : ∃ container, ∃ place : Nat, w.parent? block.id = some container ∧
    (w.children container.id)[place]? = some block
  /-- It can be moved into any container that is not inside its subtree, … -/
  granted : ∀ parent index, (∃ w', w.moveBlock block.id parent index = .ok w') ↔
    (∃ container, w.getContainer parent = .ok container) ∧ parent ∉ w.subtreeIds block.id
  /-- … and into one that is, it cannot. -/
  cyclic : ∀ parent index name, w.moveBlock block.id parent index = .error (.cyclicMove name) ↔
    (∃ container, w.getContainer parent = .ok container) ∧ parent ∈ w.subtreeIds block.id ∧
      name = block.name
  moves : ∀ parent index w', w.moveBlock block.id parent index = .ok w' →
    w.MovesSubtree block parent index w'
  /-- If the parent is a container, the move to where the block was ends with what there was. -/
  back : ∀ parent index w', w.moveBlock block.id parent index = .ok w' →
    ∀ container, ∀ place : Nat, w.parent? block.id = some container →
      (w.children container.id)[place]? = some block → container.kind.isContainer = true →
      w'.moveBlock block.id container.id place = .ok w ∧
        (Arena.moveBlock block.id container.id place).run w'.arena = some (.ok (), w.arena)

theorem WellFormed.run_moveBlock_of_ok (h : w.WellFormed) (hw : w.moveBlock id parent index = .ok w') :
    (Arena.moveBlock id parent index).run w.arena = some (.ok (), w'.arena) := by
  rw [h.run_moveBlock, hw]
  rfl

theorem WellFormed.movesSubtree_of_moveBlock (h : w.WellFormed) (hb : block ∈ w.body.toList)
    (hw : w.moveBlock block.id parent index = .ok w') : w.MovesSubtree block parent index w' where
  target := by
    rw [h.children_moveBlock hb hw]
    exact if_pos rfl
  source container hparent hne := by
    rw [h.children_moveBlock hb hw]
    exact if_neg hne
  others other hne hold := by
    rw [h.children_moveBlock hb hw]
    refine (if_neg hne).trans (List.filter_eq_self.mpr fun b hchild => decide_eq_true fun hid => hold ?_)
    rw [← hid]
    exact h.map_id_parent?_of_mem_children hchild
  parent? := by
    rw [h.parent?_moveBlock (mem_blocks_of_mem_body hb) hw, if_pos rfl]
  parents other ho hne := by
    rw [h.parent?_moveBlock ho hw]
    exact if_neg fun hid => hne (h.block_ext ho (mem_blocks_of_mem_body hb) hid)
  subtree? := h.subtree?_moveBlock hb hw
  perm := h.perm_blocks_moveBlock hw
  together := h.exists_blocks_moveBlock hb hw
  rest := by
    obtain ⟨-, -, rfl⟩ := (h.moveBlock_eq_ok_iff hb).mp hw
    exact modifyBelow_eq ..
  tables := by
    obtain ⟨row, hrow, -⟩ := blocks_arena_of_block? (h.block?_eq_some.mpr
      ⟨mem_blocks_of_mem_body hb, rfl⟩)
    rw [h.arena_move hw hrow, Arena.dropChild_eq]
    rfl
  program := h.run_moveBlock_of_ok hw

/-- **What a move changes.** A block of a reachable workflow that is not the root can be moved into any
container outside its subtree. Only its place changes, and the move to its old place undoes the first. -/
theorem Reachable.movable (h : w.Reachable) (hb : block ∈ w.body.toList) : w.Movable block where
  placed := h.wellFormed.exists_parent? hb
  granted parent index := by
    simp only [h.wellFormed.moveBlock_eq_ok_iff hb, ← and_assoc, exists_and_left, exists_eq, and_true]
  cyclic _ _ _ := h.wellFormed.moveBlock_eq_cyclicMove hb
  moves _ _ _ := h.wellFormed.movesSubtree_of_moveBlock hb
  back _ _ w' hw container place hparent hplace hkind := by
    have hback := h.wellFormed.moveBlock_back hb hw hparent hplace hkind
    exact ⟨hback, (h.wellFormed.moveBlock hw).run_moveBlock_of_ok hback⟩

/-- The first loop is moved into the second one with its constant, and back. -/
theorem movable_of_twoLoops :
    ∃ loop ∈ twoLoops.body.toList, loop.id = ⟨1⟩ ∧ twoLoops.Movable loop ∧
      ∃ w', twoLoops.moveBlock ⟨1⟩ ⟨11⟩ 5 = .ok w' ∧ twoLoops.MovesSubtree loop ⟨11⟩ 5 w' ∧
        w'.blocks.map Block.id = [⟨0⟩, ⟨7⟩, ⟨11⟩, ⟨1⟩, ⟨5⟩] ∧
        w'.moveBlock ⟨1⟩ rootId 0 = .ok twoLoops := by
  obtain ⟨loop, hplace⟩ : ∃ loop, (twoLoops.children rootId)[0]? = some loop := ⟨_, rfl⟩
  have hroots : twoLoops.children rootId = twoLoops.body.roots := rfl
  have hloop : loop ∈ twoLoops.body.toList :=
    (Forest.roots_sublist _).subset (hroots ▸ List.mem_of_getElem? hplace)
  have hid : loop.id = ⟨1⟩ := by
    cases hplace
    rfl
  have hmovable := Reachable.movable (.after (.new ..) _) hloop
  obtain ⟨w', hw, horder⟩ : ∃ w', twoLoops.moveBlock ⟨1⟩ ⟨11⟩ 5 = .ok w' ∧
      w'.blocks.map Block.id = [⟨0⟩, ⟨7⟩, ⟨11⟩, ⟨1⟩, ⟨5⟩] := ⟨_, rfl, rfl⟩
  refine ⟨loop, hloop, hid, hmovable, w', hw, ?_, horder, ?_⟩
  · rw [← hid] at hw
    exact hmovable.moves _ _ _ hw
  · have hparent : twoLoops.parent? ⟨1⟩ = some twoLoops.root := rfl
    rw [← hid] at hw hparent ⊢
    exact (hmovable.back _ _ _ hw _ _ hparent hplace rfl).1

end Workflow

end SlotFlow
