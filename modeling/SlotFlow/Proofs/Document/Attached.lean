import Mathlib.Order.Bounds.Basic
import SlotFlow.Proofs.Catalog.Registered
import SlotFlow.Proofs.Document.Inert
import SlotFlow.Proofs.Document.Kept
/-!
# Blocks in any order

A document may list a block before its parent, and it may name parents that are never there. The passes
over the recorded blocks do not depend on where a record stands. What they come to is a least fixed point:
no block is there without a place for it, and none is left out that has one.

Every block is put below one that is there already, so the blocks that are there can be listed in an order
in which each has its place among those before it. Such a list stays within every set that has all blocks
with a place in it. When the passes end, none of the blocks that are left has a place.

* `Document.Admits` — a recorded block has a place among some blocks;
* `Document.Consistent` — a set that has the recorded blocks with a place among its blocks, and no others;
* `Workflow.Passes` — the passes one after the other, without a limit on their number;
* `Document.Grows` — recorded blocks in an order in which each has its place among those before it;
* `Workflow.Progress` — how far the passes have come;
* `Workflow.RestoresBlocks` — what a document makes of its blocks.

## Results

* `Workflow.passes_iff` — the passes end, and in one way;
* `Workflow.Progress.addRecordedBlock`, `Workflow.Progress.addAttachable`, `Workflow.Progress.passes` —
  what a record, a pass and all of them do;
* `Workflow.Progress.isLeast` — what is there in the end is the least consistent set;
* `Workflow.exists_restoresBlocks` — all of this for whole documents, in any order.
-/

namespace SlotFlow

variable {μ : Type}

/-- There are blocks of a kind: if it is a model, its class is registered and names no slot twice. -/
def Registry.Offers (registry : Registry μ) (kind : BlockKind) : Prop :=
  ∀ setup, kind = .model setup → ∃ modelClass, registry.find? setup.className = some modelClass ∧
    modelClass.declaration.slotNames.Nodup

namespace Document

/-- The uids of the recorded blocks, those of roots among them. -/
def blockUids (records : List Record) : List String :=
  records.filterMap fun record => match record with
    | .block data _ => some data.uid
    | _ => none

/-- Among some blocks a recorded block has a place: at the root, if it names that or no parent, or below
the one that it names, if that is there and a container. -/
structure Admits (registry : Registry μ) (root : String) (entries : List (BlockData × BlockKind))
    (there : Set String) (entry : BlockData × BlockKind) : Prop where
  place : entry.1.parent = none ∨ entry.1.parent = some root ∨
    ∃ above ∈ entries, above.2.isContainer = true ∧ above.1.uid ∈ there ∧
      entry.1.parent = some above.1.uid
  offered : registry.Offers entry.2

/-- A set of uids has those of the recorded blocks that have a place among its blocks, and no others. -/
def Consistent (registry : Registry μ) (root : String) (entries : List (BlockData × BlockKind))
    (there : Set String) : Prop :=
  ∀ uid, uid ∈ there ↔
    ∃ entry ∈ entries, entry.1.uid = uid ∧ Admits registry root entries there entry

/-- Recorded blocks in an order in which each has its place among those before it. -/
inductive Grows (registry : Registry μ) (root : String) (entries : List (BlockData × BlockKind)) :
    List (BlockData × BlockKind) → Prop
  | nil : Grows registry root entries []
  | snoc {before : List (BlockData × BlockKind)} {entry : BlockData × BlockKind}
      (h : Grows registry root entries before) (hmem : entry ∈ entries)
      (hplace : Admits registry root entries {uid | uid ∈ before.map (·.1.uid)} entry) :
      Grows registry root entries (before ++ [entry])

/-- A recorded block with what it is given where its record is silent: the root as its parent, and the
name of its kind. -/
def filledIn (root : String) (entry : BlockData × BlockKind) : BlockData × BlockKind :=
  (⟨entry.1.uid, some (entry.1.parent.getD root), some (entry.1.name.getD entry.2.givenName)⟩, entry.2)

end Document

namespace Workflow

/-- The passes over recorded blocks, one after the other, until none are left or a pass hands on as many
as it was given. -/
inductive Passes : Workflow μ → List (BlockData × BlockKind) → Workflow μ → Prop
  | last {w grown : Workflow μ} {pending left : List (BlockData × BlockKind)}
      (hpass : w.addAttachable pending = (grown, left))
      (hlast : left = [] ∨ left.length = pending.length) : Passes w pending grown
  | next {w grown full : Workflow μ} {pending left : List (BlockData × BlockKind)}
      (hpass : w.addAttachable pending = (grown, left))
      (hmore : ¬(left = [] ∨ left.length = pending.length)) (hrest : Passes grown left full) :
      Passes w pending full

/-- What a document with the record of a root makes of its blocks. -/
structure RestoresBlocks (uidStem : String) (registry : Registry μ) (records : List Record)
    (root : BlockData) (w : Workflow μ) : Prop where
  /-- The passes end, and in one way. The workflow has the tree that they end in. -/
  ends : ∃ grown : Workflow μ, w.tree.map Block.label = grown.tree.map Block.label ∧
    ∀ other, Passes (new uidStem (root.name.getD defaultName) registry (some root.uid))
      (recordedBlocks records) other ↔ other = grown
  rootUid : w.root.uid = root.uid
  once : (w.blocks.map Block.uid).Nodup
  /-- The blocks below the root are the least consistent set. -/
  least : IsLeast {there | Document.Consistent registry root.uid (recordedBlocks records) there}
    {uid | uid ∈ w.body.toList.map Block.uid}
  /-- Each is what its record says, below the block that its record names or else the root. -/
  blocks : ∀ block ∈ w.body.toList, ∃ entry ∈ recordedBlocks records,
    block.uid = entry.1.uid ∧ block.kind = entry.2 ∧
      block.name = entry.1.name.getD entry.2.givenName ∧
      ∃ container, w.parent? block.id = some container ∧
        container.uid = entry.1.parent.getD root.uid
  /-- Records that are each other's parents, or their own, are left out. -/
  rings : ∀ ring ⊆ recordedBlocks records,
    (∀ entry ∈ ring, ∃ above ∈ ring, entry.1.parent = some above.1.uid) →
      ∀ entry ∈ ring, entry.1.uid ∉ w.blocks.map Block.uid
  /-- In another order the records give the same blocks below the same parents. -/
  reordered : ∀ (otherStem : String) (others : List Record), others.Perm records →
    recordedRoot? others = some root → ∃ w', ofRecords otherStem others registry = .ok w' ∧
      (w'.blocks.map w'.recordOfBlock).Perm (w.blocks.map w.recordOfBlock)

end Workflow

-- ---------------------------------------------------------------------------
-- Places
-- ---------------------------------------------------------------------------

section Places

variable {registry : Registry μ} {root : String} {entries others : List (BlockData × BlockKind)}
  {there more : Set String} {entry : BlockData × BlockKind}

theorem Registry.offers_iff {kind : BlockKind} :
    registry.Offers kind ↔ ∃ requests, registry.requests? kind = some requests := by
  cases hmodel : kind.model? with
  | none =>
    refine iff_of_true (fun setup hkind => ?_) ⟨_, registry.requests?_of_not_model hmodel⟩
    rw [hkind] at hmodel
    cases hmodel
  | some setup =>
    obtain rfl := BlockKind.model?_eq_some.mp hmodel
    simp only [Offers, BlockKind.model.injEq, forall_eq', requests?, Option.bind_eq_some_iff]
    constructor
    · rintro ⟨modelClass, hfind, hnodup⟩
      exact ⟨_, modelClass, hfind, by rw [ModelDeclaration.repeatedSlot?_eq_none.mpr hnodup]⟩
    · rintro ⟨requests, modelClass, hfind, hrequests⟩
      refine ⟨modelClass, hfind, ModelDeclaration.repeatedSlot?_eq_none.mp ?_⟩
      split at hrequests
      · assumption
      · cases hrequests

namespace Document

theorem Admits.mono (hsub : there ⊆ more) (h : Admits registry root entries there entry) :
    Admits registry root entries more entry where
  place := by
    refine h.place.imp_right (Or.imp_right ?_)
    rintro ⟨above, hmem, hcontainer, hthere, hparent⟩
    exact ⟨above, hmem, hcontainer, hsub hthere, hparent⟩
  offered := h.offered

theorem Admits.of_perm (hperm : entries.Perm others) (h : Admits registry root entries there entry) :
    Admits registry root others there entry where
  place := by
    refine h.place.imp_right (Or.imp_right ?_)
    rintro ⟨above, hmem, habove⟩
    exact ⟨above, hperm.subset hmem, habove⟩
  offered := h.offered

theorem Consistent.of_perm (hperm : entries.Perm others) (h : Consistent registry root entries there) :
    Consistent registry root others there := by
  intro uid
  rw [h uid]
  constructor
  · rintro ⟨entry, hmem, huid, hadmits⟩
    exact ⟨entry, hperm.subset hmem, huid, hadmits.of_perm hperm⟩
  · rintro ⟨entry, hmem, huid, hadmits⟩
    exact ⟨entry, hperm.symm.subset hmem, huid, hadmits.of_perm hperm.symm⟩

namespace Grows

variable {listed : List (BlockData × BlockKind)}

/-- What grows stays within every consistent set. -/
theorem subset (h : Grows registry root entries listed) (hthere : Consistent registry root entries there) :
    {uid | uid ∈ listed.map (·.1.uid)} ⊆ there := by
  induction h with
  | nil => exact fun uid hu => absurd hu List.not_mem_nil
  | @snoc before entry _ hmem hplace ih =>
    intro uid hu
    rw [Set.mem_ofPred_eq, List.map_append, List.mem_append] at hu
    rcases hu with hu | hu
    · exact ih hu
    · obtain rfl := List.mem_singleton.mp hu
      exact (hthere _).mpr ⟨entry, hmem, rfl, hplace.mono ih⟩

/-- All of it has a place in all of it. -/
theorem admits (h : Grows registry root entries listed) : ∀ entry ∈ listed,
    Admits registry root entries {uid | uid ∈ listed.map (·.1.uid)} entry := by
  induction h with
  | nil => exact fun _ he => absurd he List.not_mem_nil
  | @snoc before added _ _ hplace ih =>
    intro entry he
    have hsub : {uid | uid ∈ before.map (·.1.uid)} ⊆
        {uid | uid ∈ (before ++ [added]).map (·.1.uid)} := by
      intro uid hu
      rw [Set.mem_ofPred_eq, List.map_append]
      exact List.mem_append_left _ hu
    rcases List.mem_append.mp he with he | he
    · exact (ih entry he).mono hsub
    · rw [List.mem_singleton.mp he]
      exact hplace.mono hsub

/-- None of it is in a ring of records, each of which names another one as its parent. -/
theorem not_mem_ring (h : Grows registry root entries listed)
    (huids : (root :: entries.map (·.1.uid)).Nodup) {ring : List (BlockData × BlockKind)}
    (hring : ring ⊆ entries)
    (hclosed : ∀ entry ∈ ring, ∃ above ∈ ring, entry.1.parent = some above.1.uid) :
    ∀ entry ∈ ring, entry.1.uid ∉ listed.map (·.1.uid) := by
  rw [List.nodup_cons] at huids
  induction h with
  | nil => exact fun _ _ => List.not_mem_nil
  | @snoc before added _ hmem hplace ih =>
    intro entry he hlisted
    rw [List.map_append, List.mem_append] at hlisted
    refine hlisted.elim (ih entry he) fun hadded => ?_
    obtain rfl := List.inj_on_of_nodup_map huids.2 (hring he) hmem (List.mem_singleton.mp hadded)
    obtain ⟨above, ha, hparent⟩ := hclosed entry he
    rcases hplace.place with hnone | hroot | ⟨other, -, -, hthere, hother⟩
    · rw [hparent] at hnone
      cases hnone
    · rw [hparent, Option.some.injEq] at hroot
      exact huids.1 (hroot ▸ List.mem_map_of_mem (hring ha))
    · rw [hparent, Option.some.injEq] at hother
      exact ih above ha (hother ▸ hthere)

end Grows

end Document

end Places

-- ---------------------------------------------------------------------------
-- Passes
-- ---------------------------------------------------------------------------

namespace Workflow

section Loop

variable {w grown full : Workflow μ} {pending : List (BlockData × BlockKind)}

/-- The passes end, since one that is not the last hands on fewer blocks. -/
theorem exists_passes (w : Workflow μ) (pending : List (BlockData × BlockKind)) :
    ∃ full, Passes w pending full := by
  induction hlength : pending.length using Nat.strong_induction_on generalizing w pending with
  | _ length ih =>
    subst hlength
    cases hpass : w.addAttachable pending with
    | mk grown left =>
      by_cases hlast : left = [] ∨ left.length = pending.length
      · exact ⟨grown, .last hpass hlast⟩
      · have hlt : left.length < pending.length := by
          rcases addAttachable_shrinks pending w with hlt | hstuck
          · rwa [hpass] at hlt
          · rw [hpass, Prod.mk.injEq] at hstuck
            exact absurd (.inr (congrArg List.length hstuck.2)) hlast
        obtain ⟨full, hfull⟩ := ih left.length hlt grown left rfl
        exact ⟨full, .next hpass hlast hfull⟩

/-- They end in one way. As many passes as there are blocks are enough. -/
theorem Passes.eq (h : Passes w pending full) :
    full = addRecordedBlocks pending.length w pending := by
  induction h with
  | @last w grown pending left hpass hlast =>
    rcases addAttachable_shrinks pending w with hlt | hstuck
    · rw [hpass] at hlt
      obtain rfl := hlast.resolve_right (Nat.ne_of_lt hlt)
      rw [addRecordedBlocks_pass (Nat.le_refl _) (Nat.le_refl _), hpass, addRecordedBlocks_of_stuck rfl]
    · rw [addRecordedBlocks_of_stuck hstuck]
      exact congrArg Prod.fst (hpass.symm.trans hstuck)
  | @next w grown full pending left hpass _ _ ih =>
    rw [addRecordedBlocks_pass (Nat.le_refl _) (Nat.le_refl _), hpass]
    exact ih

/-- **The passes end**, and in one way. -/
theorem passes_iff : Passes w pending full ↔ full = addRecordedBlocks pending.length w pending := by
  refine ⟨Passes.eq, ?_⟩
  rintro rfl
  obtain ⟨full, h⟩ := exists_passes w pending
  exact h.eq ▸ h

/-- What a pass that does nothing hands on is waiting. -/
theorem recordedParent?_of_stuck (h : w.addAttachable pending = (w, pending)) :
    ∀ entry ∈ pending, w.recordedParent? entry.1 = none := by
  induction pending with
  | nil => exact fun _ he => absurd he List.not_mem_nil
  | cons entry rest ih =>
    obtain ⟨data, kind⟩ := entry
    rw [addAttachable] at h
    split at h
    · rename_i parent _
      -- a block whose turn comes is not handed on
      have hshrinks := addAttachable_shrinks rest (w.addRecordedBlock parent data kind)
      rw [h, Prod.mk.injEq] at hshrinks
      rcases hshrinks with hlt | ⟨-, heq⟩
      · exact absurd hlt (by simp)
      · exact absurd (congrArg List.length heq) (by simp)
    · rename_i hparent
      dsimp only at h
      rw [Prod.mk.injEq, List.cons.injEq] at h
      intro other ho
      rcases List.mem_cons.mp ho with rfl | ho
      · exact hparent
      · exact ih (Prod.ext h.1 h.2.2) other ho

end Loop

end Workflow

-- ---------------------------------------------------------------------------
-- The records of the blocks below the root
-- ---------------------------------------------------------------------------

namespace Forest

/-- A record of a forest is of one of its blocks. -/
theorem map_entries (forest : Forest Block) (parent : String) :
    (forest.entries parent).map (fun entry => (entry.1.uid, entry.2)) =
      forest.toList.map fun block => (block.uid, block.kind) := by
  induction forest generalizing parent with
  | nil => rfl
  | node b below after ihBelow ihAfter =>
    rw [entries, List.map_cons, List.map_append, ihBelow, ihAfter, toList_node, List.map_cons,
      List.map_append]

theorem entries_append (forest other : Forest Block) (parent : String) :
    (forest.append other).entries parent = forest.entries parent ++ other.entries parent := by
  induction forest with
  | nil => rfl
  | node b below after _ ihAfter =>
    rw [append, entries, ihAfter, entries, List.cons_append, List.append_assoc]

/-- What is put below a block is recorded with that block as its parent. -/
theorem perm_entries_mapBelow {forest : Forest Block} {p : Block} (hids : forest.ids.Nodup)
    (hp : p ∈ forest.toList) (added : Forest Block) (parent : String) :
    ((forest.mapBelow (·.id = p.id) (·.append added)).entries parent).Perm
      (forest.entries parent ++ added.entries p.uid) := by
  induction forest generalizing parent with
  | nil => simp at hp
  | node b below after ihBelow ihAfter =>
    rw [ids_node, List.nodup_cons, List.nodup_append] at hids
    obtain ⟨hb, hBelow, hAfter, hdis⟩ := hids
    rw [toList_node, List.mem_cons, List.mem_append] at hp
    rw [mapBelow, entries, entries, List.cons_append]
    rcases hp with rfl | hp | hp
    · have hBelowEq := mapBelow_of_not_mem (fun hm => hb (List.mem_append_left _ hm)) (·.append added)
      have hAfterEq := mapBelow_of_not_mem (fun hm => hb (List.mem_append_right _ hm)) (·.append added)
      rw [hBelowEq, hAfterEq, if_pos (decide_eq_true rfl), entries_append]
      exact .cons _ (perm_append_right_comm ..)
    · have hid : p.id ∈ below.ids := List.mem_map_of_mem hp
      have hne : b.id ≠ p.id := fun heq => hb (heq ▸ List.mem_append_left _ hid)
      have hAfterEq := mapBelow_of_not_mem (fun hm => hdis p.id hid p.id hm rfl) (·.append added)
      rw [hAfterEq, decide_eq_false hne, if_neg Bool.false_ne_true]
      exact .cons _ (((ihBelow hBelow hp _).append_right _).trans (perm_append_right_comm ..))
    · have hid : p.id ∈ after.ids := List.mem_map_of_mem hp
      have hne : b.id ≠ p.id := fun heq => hb (heq ▸ List.mem_append_right _ hid)
      have hBelowEq := mapBelow_of_not_mem (fun hm => hdis p.id hm p.id hid rfl) (·.append added)
      rw [hBelowEq, decide_eq_false hne, if_neg Bool.false_ne_true, List.append_assoc]
      exact .cons _ ((ihAfter hAfter hp _).append_left _)

end Forest

namespace Workflow

variable {v w w' grown : Workflow μ}

/-- What is recorded of the blocks below the root. -/
def bodyEntries (w : Workflow μ) : List (BlockData × BlockKind) :=
  w.body.entries w.root.uid

/-- The whole tree records the root, too. -/
theorem entries_tree (w : Workflow μ) (parent : String) : w.tree.entries parent =
    (⟨w.root.uid, some parent, some w.root.name⟩, w.root.kind) :: w.bodyEntries := by
  rw [tree, Forest.tree, Forest.entries, bodyEntries, Forest.entries, List.append_nil]

theorem map_bodyEntries (w : Workflow μ) : w.bodyEntries.map (fun entry => (entry.1.uid, entry.2)) =
    w.body.toList.map fun block => (block.uid, block.kind) :=
  Forest.map_entries ..

theorem map_uid_bodyEntries (w : Workflow μ) :
    w.bodyEntries.map (·.1.uid) = w.body.toList.map Block.uid := by
  have hpairs := congrArg (List.map Prod.fst) w.map_bodyEntries
  rwa [List.map_map, List.map_map] at hpairs

/-- What comes below a block is recorded with that block as its parent, and the root stays. -/
theorem Grafted.perm_bodyEntries {p : Block} {added : Forest Block} (h : Grafted v p.id added grown)
    (hv : v.WellFormed) (hp : p ∈ v.blocks) :
    grown.root = v.root ∧ grown.bodyEntries.Perm (v.bodyEntries ++ added.entries p.uid) := by
  have hroot : grown.root = v.root := by
    have htree := h.tree
    simp only [Workflow.tree, Forest.tree, Forest.mapBelow] at htree
    injection htree
  have hperm := Forest.perm_entries_mapBelow hv.blocks.ids hp added ""
  rw [← h.tree, entries_tree, entries_tree, hroot] at hperm
  exact ⟨hroot, hperm.cons_inv⟩

end Workflow

-- ---------------------------------------------------------------------------
-- Progress
-- ---------------------------------------------------------------------------

namespace Workflow

/-- How far the passes have come: the blocks that are there by now, in the order in which they came, those
that were refused, and those that are left. -/
structure Progress (registry : Registry μ) (root : Block)
    (entries attached refused left : List (BlockData × BlockKind)) (w : Workflow μ) : Prop where
  unlinked : w.Unlinked
  registry_eq : w.registry = registry
  root_eq : w.root = root
  rootKind : root.kind = .workflow
  perm : (attached ++ refused ++ left).Perm entries
  blocks : w.bodyEntries.Perm (attached.map (Document.filledIn root.uid))
  grows : Document.Grows registry root.uid entries attached
  /-- What is refused has no place, whatever else is there. -/
  barred : ∀ entry ∈ refused, ∀ there, ¬Document.Admits registry root.uid entries there entry

namespace Progress

variable {registry : Registry μ} {root p : Block} {w full : Workflow μ}
  {entries attached refused left pending rest : List (BlockData × BlockKind)}
  {entry : BlockData × BlockKind}

section Stage

variable (h : Progress registry root entries attached refused left w)

include h

theorem attached_subset : attached ⊆ entries := fun _ he =>
  h.perm.subset (List.mem_append_left _ (List.mem_append_left _ he))

theorem perm_uids : (w.blocks.map Block.uid).Perm (root.uid :: attached.map (·.1.uid)) := by
  rw [blocks_eq, List.map_cons, h.root_eq, ← map_uid_bodyEntries]
  refine .cons _ ((h.blocks.map _).trans (.of_eq ?_))
  rw [List.map_map]
  rfl

/-- A block below the root comes from a record. -/
theorem exists_entry (hp : p ∈ w.body.toList) :
    ∃ above ∈ attached, above.1.uid = p.uid ∧ above.2 = p.kind := by
  have hpair : (p.uid, p.kind) ∈ w.bodyEntries.map (fun entry => (entry.1.uid, entry.2)) := by
    rw [map_bodyEntries]
    exact List.mem_map_of_mem hp
  obtain ⟨recorded, hrecorded, heq⟩ := List.mem_map.mp hpair
  obtain ⟨above, ha, rfl⟩ := List.mem_map.mp (h.blocks.subset hrecorded)
  exact ⟨above, ha, congrArg Prod.fst heq, congrArg Prod.snd heq⟩

/-- The parent that is found for a record is the one that it names, or the root. -/
theorem exists_above {data : BlockData} {id : BlockId}
    (hparent : w.recordedParent? data = some id) :
    ∃ p ∈ w.blocks, p.id = id ∧ p.uid = data.parent.getD root.uid := by
  unfold recordedParent? at hparent
  cases hnamed : data.parent with
  | none =>
    rw [hnamed] at hparent
    exact ⟨w.root, w.root_mem_blocks, Option.some.inj hparent, congrArg Block.uid h.root_eq⟩
  | some uid =>
    rw [hnamed] at hparent
    obtain ⟨p, hfind, hid⟩ := Option.map_eq_some_iff.mp hparent
    have huid := List.find?_some (p := fun block : Block => block.uid = uid) hfind
    exact ⟨p, List.mem_of_find?_eq_some hfind, hid, of_decide_eq_true huid⟩

/-- Below a container there is a place. -/
theorem place_of_isContainer (hp : p ∈ w.blocks) (huid : p.uid = entry.1.parent.getD root.uid)
    (hcontainer : p.kind.isContainer = true) :
    entry.1.parent = none ∨ entry.1.parent = some root.uid ∨ ∃ above ∈ entries,
      above.2.isContainer = true ∧ above.1.uid ∈ {uid | uid ∈ attached.map (·.1.uid)} ∧
        entry.1.parent = some above.1.uid := by
  cases hparent : entry.1.parent with
  | none => exact .inl rfl
  | some uid =>
    obtain rfl : p.uid = uid := by rwa [hparent] at huid
    rw [blocks_eq, List.mem_cons] at hp
    rcases hp with rfl | hp
    · exact .inr (.inl (by rw [h.root_eq]))
    · obtain ⟨above, ha, habove, hkind⟩ := h.exists_entry hp
      have hthere : above.1.uid ∈ attached.map (·.1.uid) := List.mem_map_of_mem ha
      exact .inr (.inr ⟨above, h.attached_subset ha, hkind ▸ hcontainer, hthere,
        congrArg some habove.symm⟩)

/-- A record that is taken below the block it names has its place there. -/
theorem attach (hleft : left.Perm (entry :: rest)) (hp : p ∈ w.blocks)
    (huid : p.uid = entry.1.parent.getD root.uid) (hoffers : registry.Offers entry.2)
    (hcontainer : p.kind.isContainer = true) :
    Progress registry root entries (attached ++ [entry]) refused rest
      (w.addRecordedBlock p.id entry.1 entry.2) := by
  have hmem : entry ∈ entries :=
    h.perm.subset (List.mem_append_right _ (hleft.symm.subset List.mem_cons_self))
  obtain ⟨requests, hr⟩ := Registry.offers_iff.mp hoffers
  rw [← h.registry_eq] at hr
  have hgrafted := Grafted.of_addRecordedBlock h.unlinked hp hcontainer entry.1 hr
  obtain ⟨hroot, hblocks⟩ := hgrafted.perm_bodyEntries h.unlinked.wellFormed hp
  refine ⟨hgrafted.unlinked, hgrafted.registry.trans h.registry_eq, hroot.trans h.root_eq, h.rootKind,
    ?_, ?_, .snoc h.grows hmem ⟨h.place_of_isContainer hp huid hcontainer, hoffers⟩, h.barred⟩
  · refine .trans ?_ ((hleft.symm.append_left _).trans h.perm)
    simp only [List.append_assoc, List.singleton_append]
    exact (List.perm_middle.symm).append_left _
  · have hentry : (Forest.tree (w.newBlock entry.2 (entry.1.name.getD entry.2.givenName) requests
        (some entry.1.uid)) .nil).entries p.uid = [Document.filledIn root.uid entry] := by
      rw [huid]
      rfl
    rw [hentry] at hblocks
    rw [List.map_append]
    exact hblocks.trans (h.blocks.append_right _)

/-- A record with a place among the blocks that are there finds its parent. -/
theorem exists_recordedParent?
    (hadmits : Document.Admits registry root.uid entries {uid | uid ∈ attached.map (·.1.uid)} entry) :
    ∃ id, w.recordedParent? entry.1 = some id := by
  have hfound : ∀ uid ∈ root.uid :: attached.map (·.1.uid), ∃ p, w.blockWithUid? uid = some p := by
    intro uid hu
    rw [← Option.isSome_iff_exists, Option.isSome_iff_ne_none]
    exact fun hnone => find?_key_eq_none.mp hnone (h.perm_uids.symm.subset hu)
  unfold recordedParent?
  rcases hadmits.place with hnone | hroot | ⟨above, -, -, hthere, hparent⟩
  · rw [hnone]
    exact ⟨_, rfl⟩
  · obtain ⟨p, hp⟩ := hfound root.uid List.mem_cons_self
    rw [hroot]
    exact ⟨p.id, congrArg (Option.map Block.id) hp⟩
  · obtain ⟨p, hp⟩ := hfound above.1.uid (List.mem_cons_of_mem _ hthere)
    rw [hparent]
    exact ⟨p.id, congrArg (Option.map Block.id) hp⟩

/-- **What is there in the end** is the least consistent set. -/
theorem isLeast (hleft : ∀ entry ∈ left, w.recordedParent? entry.1 = none) :
    IsLeast {there | Document.Consistent registry root.uid entries there}
      {uid | uid ∈ attached.map (·.1.uid)} := by
  refine ⟨fun uid => ⟨fun hu => ?_, ?_⟩, fun there hthere => h.grows.subset hthere⟩
  · obtain ⟨entry, he, rfl⟩ := List.mem_map.mp hu
    exact ⟨entry, h.attached_subset he, rfl, h.grows.admits entry he⟩
  · rintro ⟨entry, hmem, rfl, hadmits⟩
    rcases List.mem_append.mp (h.perm.symm.subset hmem) with hmem | hmem
    · rcases List.mem_append.mp hmem with hmem | hmem
      · exact List.mem_map_of_mem (f := fun entry : BlockData × BlockKind => entry.1.uid) hmem
      · exact absurd hadmits (h.barred entry hmem _)
    · obtain ⟨id, hid⟩ := h.exists_recordedParent? hadmits
      rw [hleft entry hmem] at hid
      cases hid

variable (huids : (root.uid :: entries.map (·.1.uid)).Nodup)

include huids

theorem nodup_uids : (root.uid :: attached.map (·.1.uid)).Nodup := by
  have hall := ((h.perm.map (·.1.uid)).cons root.uid).nodup_iff.mpr huids
  rw [List.append_assoc, List.map_append, ← List.cons_append] at hall
  exact hall.of_append_left

/-- A record is attached if its uid is there. -/
theorem mem_attached :
    entry ∈ attached ↔ entry ∈ entries ∧ entry.1.uid ∈ attached.map (·.1.uid) := by
  refine ⟨fun he => ⟨h.attached_subset he, List.mem_map_of_mem he⟩, ?_⟩
  rintro ⟨hmem, hthere⟩
  obtain ⟨other, ho, huid⟩ := List.mem_map.mp hthere
  rwa [← List.inj_on_of_nodup_map (List.nodup_cons.mp huids).2 (h.attached_subset ho) hmem huid]

/-- Where a record has its place, now or later, there is a container. -/
theorem isContainer_of_admits (hp : p ∈ w.blocks)
    (huid : p.uid = entry.1.parent.getD root.uid) {there : Set String}
    (hadmits : Document.Admits registry root.uid entries there entry) :
    p.kind.isContainer = true := by
  rw [blocks_eq, List.mem_cons] at hp
  rcases hp with rfl | hp
  · rw [h.root_eq, h.rootKind]
    rfl
  · obtain ⟨above, ha, habove, hkind⟩ := h.exists_entry hp
    rw [List.nodup_cons] at huids
    have hne : p.uid ≠ root.uid := fun heq =>
      huids.1 (heq ▸ habove ▸ List.mem_map_of_mem (h.attached_subset ha))
    rcases hadmits.place with hnone | hroot | ⟨other, ho, hcontainer, -, hparent⟩
    · rw [hnone] at huid
      exact absurd huid hne
    · rw [hroot] at huid
      exact absurd huid hne
    · rw [hparent, ← habove] at huid
      obtain rfl := List.inj_on_of_nodup_map huids.2 (h.attached_subset ha) ho huid
      exact hkind ▸ hcontainer

/-- A record that is refused there never has a place. -/
theorem refuse (hleft : left.Perm (entry :: rest)) (hp : p ∈ w.blocks)
    (huid : p.uid = entry.1.parent.getD root.uid)
    (hrefused : ¬(registry.Offers entry.2 ∧ p.kind.isContainer = true)) :
    Progress registry root entries attached (refused ++ [entry]) rest
      (w.addRecordedBlock p.id entry.1 entry.2) := by
  have hsame : w.addRecordedBlock p.id entry.1 entry.2 = w := by
    rw [addRecordedBlock_eq h.unlinked.wellFormed]
    split
    · rename_i requests container hr hget
      rw [h.registry_eq] at hr
      exact absurd ⟨Registry.offers_iff.mpr ⟨requests, hr⟩,
        h.unlinked.wellFormed.isContainer_of_getContainer hget p hp rfl⟩ hrefused
    · rfl
  rw [hsame]
  refine ⟨h.unlinked, h.registry_eq, h.root_eq, h.rootKind, ?_, h.blocks, h.grows, ?_⟩
  · refine .trans (.of_eq ?_) ((hleft.symm.append_left _).trans h.perm)
    simp only [List.append_assoc, List.singleton_append]
  · intro other ho there hadmits
    rcases List.mem_append.mp ho with ho | ho
    · exact h.barred other ho there hadmits
    · rw [List.mem_singleton.mp ho] at hadmits
      exact hrefused ⟨hadmits.offered, h.isContainer_of_admits huids hp huid hadmits⟩

/-- **A record whose parent is there** is attached, or it never has a place. -/
theorem addRecordedBlock (hleft : left.Perm (entry :: rest)) {id : BlockId}
    (hparent : w.recordedParent? entry.1 = some id) :
    ∃ attached' refused', Progress registry root entries attached' refused' rest
      (w.addRecordedBlock id entry.1 entry.2) := by
  obtain ⟨p, hp, rfl, huid⟩ := h.exists_above hparent
  by_cases htaken : registry.Offers entry.2 ∧ p.kind.isContainer = true
  · exact ⟨_, _, h.attach hleft hp huid htaken.1 htaken.2⟩
  · exact ⟨_, _, h.refuse huids hleft hp huid htaken⟩

end Stage

/-- **A pass** over some of the blocks that are left. -/
theorem addAttachable (huids : (root.uid :: entries.map (·.1.uid)).Nodup)
    (kept : List (BlockData × BlockKind))
    (h : Progress registry root entries attached refused (kept ++ pending) w) :
    ∃ attached' refused', Progress registry root entries attached' refused'
      (kept ++ (w.addAttachable pending).2) (w.addAttachable pending).1 := by
  induction pending generalizing w kept attached refused with
  | nil => exact ⟨attached, refused, h⟩
  | cons entry rest ih =>
    obtain ⟨data, kind⟩ := entry
    rw [Workflow.addAttachable]
    split
    · rename_i hparent
      obtain ⟨attached, refused, hnext⟩ := h.addRecordedBlock huids List.perm_middle hparent
      exact ih kept hnext
    · rw [List.append_cons] at h ⊢
      exact ih (kept ++ [(data, kind)]) h

/-- **All passes.** What is left in the end still waits for its parent. -/
theorem passes (huids : (root.uid :: entries.map (·.1.uid)).Nodup) (hrun : Passes w pending full)
    (h : Progress registry root entries attached refused pending w) :
    ∃ attached' refused' left, Progress registry root entries attached' refused' left full ∧
      ∀ entry ∈ left, full.recordedParent? entry.1 = none := by
  induction hrun generalizing attached refused with
  | @last w grown pending left hpass hlast =>
    obtain ⟨attached, refused, hgrown⟩ := h.addAttachable huids []
    rw [List.nil_append, hpass] at hgrown
    refine ⟨attached, refused, left, hgrown, fun entry he => ?_⟩
    rcases addAttachable_shrinks pending w with hlt | hstuck
    · rw [hpass] at hlt
      rw [hlast.resolve_right (Nat.ne_of_lt hlt)] at he
      cases he
    · obtain ⟨rfl, rfl⟩ := Prod.mk.inj (hpass.symm.trans hstuck)
      exact recordedParent?_of_stuck hstuck entry he
  | @next w grown full pending left hpass _ _ ih =>
    obtain ⟨attached, refused, hgrown⟩ := h.addAttachable huids []
    rw [List.nil_append, hpass] at hgrown
    exact ih hgrown

/-- In another order of the records the passes come to the same blocks. -/
theorem perm_attached {others attached' refused' left' : List (BlockData × BlockKind)}
    (h : Progress registry root entries attached refused left w)
    (hleft : ∀ entry ∈ left, w.recordedParent? entry.1 = none)
    (h' : Progress registry root others attached' refused' left' full)
    (hleft' : ∀ entry ∈ left', full.recordedParent? entry.1 = none)
    (huids : (root.uid :: entries.map (·.1.uid)).Nodup) (hperm : others.Perm entries) :
    attached'.Perm attached := by
  have huids' : (root.uid :: others.map (·.1.uid)).Nodup :=
    ((hperm.map _).cons _).nodup_iff.mpr huids
  have hsets : {there | Document.Consistent registry root.uid others there} =
      {there | Document.Consistent registry root.uid entries there} :=
    Set.ext fun there => ⟨.of_perm hperm, .of_perm hperm.symm⟩
  have hsame := (hsets ▸ h'.isLeast hleft').unique (h.isLeast hleft)
  have hnodup : attached.Nodup := (List.nodup_cons.mp (h.nodup_uids huids)).2.of_map
  have hnodup' : attached'.Nodup := (List.nodup_cons.mp (h'.nodup_uids huids')).2.of_map
  refine (List.perm_ext_iff_of_nodup hnodup' hnodup).mpr fun entry => ?_
  rw [h'.mem_attached huids', h.mem_attached huids, hperm.mem_iff]
  exact and_congr_right fun _ => (Set.ext_iff.mp hsame _)

end Progress

-- ---------------------------------------------------------------------------
-- Documents
-- ---------------------------------------------------------------------------

section Documents

variable {registry : Registry μ} {records : List Record} {root : BlockData} {w w' : Workflow μ}

/-- The first root and the blocks below it are recorded under uids of their own. -/
theorem subperm_blockUids (hroot : recordedRoot? records = some root) :
    (root.uid :: (recordedBlocks records).map (·.1.uid)).Subperm (Document.blockUids records) := by
  have hblocks : ∀ records, ((recordedBlocks records).map (·.1.uid)).Sublist
      (Document.blockUids records) := by
    intro records
    induction records with
    | nil => exact .slnil
    | cons record rest ih =>
      cases record with
      | block data kind =>
        cases kind with
        | workflow => exact ih.cons _
        | _ => exact ih.cons_cons _
      | slot data kind => exact ih
      | link data => exact ih
  induction records with
  | nil => cases hroot
  | cons record rest ih =>
    cases record with
    | block data kind =>
      cases kind with
      | workflow =>
        obtain rfl := Option.some.inj hroot
        exact ((hblocks rest).cons_cons _).subperm
      | _ => exact (List.Perm.swap ..).subperm.trans ((List.subperm_cons data.uid).mpr (ih hroot))
    | slot data kind => exact ih hroot
    | link data => exact ih hroot

theorem nodup_uids (hroot : recordedRoot? records = some root)
    (huids : (Document.blockUids records).Nodup) :
    (root.uid :: (recordedBlocks records).map (·.1.uid)).Nodup := by
  obtain ⟨uids, hperm, hsub⟩ := subperm_blockUids hroot
  exact hperm.nodup_iff.mp (huids.sublist hsub)

theorem bodyEntries_of_labels (h : w'.tree.map Block.label = w.tree.map Block.label) :
    w'.root.label = w.root.label ∧ w'.bodyEntries = w.bodyEntries := by
  simp only [tree, Forest.tree, Forest.map] at h
  injection h with hroot hbody
  refine ⟨hroot, ?_⟩
  rw [bodyEntries, ← Forest.entries_map_label, hbody, Forest.entries_map_label,
    Block.uid_eq_of_label hroot, bodyEntries]

/-- The records of the blocks below the root. -/
theorem WellFormed.map_recordOfBlock_body (h : w.WellFormed) : w.body.toList.map w.recordOfBlock =
    w.bodyEntries.map fun entry => .block entry.1 entry.2 := by
  have hall := h.map_recordOfBlock
  rw [blocks_eq, List.map_cons, List.cons.injEq] at hall
  exact hall.2

section Loaded

variable {top : Block} {grown : Workflow μ} {entries attached refused left : List (BlockData × BlockKind)}

/-- A workflow with the tree that passes come to has a block for each record that they attach. -/
theorem Progress.map_recordOfBlock (h : Progress registry top entries attached refused left grown)
    (hw : w.WellFormed) (hlabels : w.tree.map Block.label = grown.tree.map Block.label) :
    (w.blocks.map w.recordOfBlock).Perm
      (.block ⟨top.uid, none, some top.name⟩ .workflow ::
        (attached.map (Document.filledIn top.uid)).map fun entry => .block entry.1 entry.2) := by
  have hrecords := map_recordOfBlock_of_labels hw hlabels
  rw [h.root_eq, h.rootKind] at hrecords
  rw [hrecords]
  have hblocks := h.blocks
  rw [bodyEntries, h.root_eq] at hblocks
  exact .cons _ (hblocks.map _)

/-- Each of its blocks is what a record says, and stands below the parent that it names. -/
theorem Progress.exists_record (h : Progress registry top entries attached refused left grown)
    (hw : w.WellFormed) (hlabels : w.tree.map Block.label = grown.tree.map Block.label) {block : Block}
    (hb : block ∈ w.body.toList) :
    ∃ entry ∈ attached, block.uid = entry.1.uid ∧ block.kind = entry.2 ∧
      block.name = entry.1.name.getD entry.2.givenName ∧
      ∃ container, w.parent? block.id = some container ∧
        container.uid = entry.1.parent.getD top.uid := by
  have hmem := List.mem_map_of_mem (f := w.recordOfBlock) hb
  rw [hw.map_recordOfBlock_body, (bodyEntries_of_labels hlabels).2] at hmem
  obtain ⟨recorded, hrecorded, heq⟩ := List.mem_map.mp hmem
  obtain ⟨entry, he, rfl⟩ := List.mem_map.mp (h.blocks.subset hrecorded)
  rw [recordOfBlock, Document.filledIn, Record.block.injEq, BlockData.mk.injEq] at heq
  obtain ⟨⟨huid, hparent, hname⟩, hkind⟩ := heq
  obtain ⟨container, hcontainer, habove⟩ := Option.map_eq_some_iff.mp hparent.symm
  exact ⟨entry, he, huid.symm, hkind.symm, (Option.some.inj hname).symm, container, hcontainer, habove⟩

theorem Progress.perm_uids_of_labels (h : Progress registry top entries attached refused left grown)
    (hlabels : w.tree.map Block.label = grown.tree.map Block.label) :
    w.root.uid = top.uid ∧ (w.body.toList.map Block.uid).Perm (attached.map (·.1.uid)) := by
  obtain ⟨hroot, hbody⟩ := bodyEntries_of_labels hlabels
  have hperm := h.perm_uids
  rw [blocks_eq, List.map_cons, h.root_eq, ← map_uid_bodyEntries, ← hbody, map_uid_bodyEntries] at hperm
  exact ⟨h.root_eq ▸ Block.uid_eq_of_label hroot, hperm.cons_inv⟩

end Loaded

/-- What the passes over the blocks of a document come to. -/
theorem exists_progress (hroot : recordedRoot? records = some root)
    (huids : (Document.blockUids records).Nodup) (uidStem : String) (registry : Registry μ) :
    let start := new uidStem (root.name.getD defaultName) registry (some root.uid)
    ∃ w grown attached refused left, ofRecords uidStem records registry = .ok w ∧
      w.tree.map Block.label = grown.tree.map Block.label ∧
      (∀ other, Passes start (recordedBlocks records) other ↔ other = grown) ∧
      Progress registry start.root (recordedBlocks records) attached refused left grown ∧
      ∀ entry ∈ left, grown.recordedParent? entry.1 = none := by
  intro start
  obtain ⟨w, hload, hlabels⟩ := @exists_ofRecords _ registry _ _ hroot uidStem
  have hstart : Progress registry start.root (recordedBlocks records) [] [] (recordedBlocks records)
      start :=
    ⟨⟨wellFormed_new .., rfl⟩, rfl, rfl, rfl, .refl _, .refl _, .nil,
      fun _ he => absurd he List.not_mem_nil⟩
  obtain ⟨attached, refused, left, hprogress, hleft⟩ :=
    hstart.passes (nodup_uids hroot huids) (passes_iff.mpr rfl)
  exact ⟨w, _, attached, refused, left, hload, hlabels, fun _ => passes_iff, hprogress, hleft⟩

/-- **Blocks are restored in any order.** Take any document with a root, whose blocks have uids of their
own, and any registry. The passes over its blocks end. The blocks that come below the root are the least
set that has a recorded block exactly if its parent is not named, or the root, or a container in the set,
and its class is registered with distinct slot names if it is a model. Each stands below the parent that its
record names. So the records may come in any order, as long as the same root comes first; and those that
are parents of each other are left out. -/
theorem exists_restoresBlocks (uidStem : String) (registry : Registry μ)
    (hroot : recordedRoot? records = some root) (huids : (Document.blockUids records).Nodup) :
    ∃ w, ofRecords uidStem records registry = .ok w ∧
      RestoresBlocks uidStem registry records root w := by
  have hentryUids := nodup_uids hroot huids
  obtain ⟨w, grown, attached, refused, left, hload, hlabels, hpasses, hprogress, hleft⟩ :=
    exists_progress hroot huids uidStem registry
  have hw := WellFormed.of_ofRecords hload
  obtain ⟨hrootUid, hbody⟩ := hprogress.perm_uids_of_labels hlabels
  have hblocks : (w.blocks.map Block.uid).Perm (root.uid :: attached.map (·.1.uid)) := by
    rw [blocks_eq, List.map_cons, hrootUid]
    exact hbody.cons _
  refine ⟨w, hload, ⟨grown, hlabels, hpasses⟩, hrootUid, ?_, ?_, ?_, ?_, ?_⟩
  · exact hblocks.nodup_iff.mpr (hprogress.nodup_uids hentryUids)
  · have hthere : {uid | uid ∈ w.body.toList.map Block.uid} = {uid | uid ∈ attached.map (·.1.uid)} :=
      Set.ext fun uid => hbody.mem_iff
    rw [hthere]
    exact hprogress.isLeast hleft
  · intro block hb
    obtain ⟨entry, he, hentry⟩ := hprogress.exists_record hw hlabels hb
    exact ⟨entry, hprogress.attached_subset he, hentry⟩
  · intro ring hring hclosed entry he hthere
    rcases List.mem_cons.mp (hblocks.subset hthere) with heq | hthere
    · exact (List.nodup_cons.mp hentryUids).1 (heq ▸ List.mem_map_of_mem (hring he))
    · exact hprogress.grows.not_mem_ring hentryUids hring hclosed entry he hthere
  · intro otherStem others hperm hroot'
    have huids' : (Document.blockUids others).Nodup := (hperm.filterMap _).nodup_iff.mpr huids
    obtain ⟨w', grown', attached', refused', left', hload', hlabels', -, hprogress', hleft'⟩ :=
      exists_progress hroot' huids' otherStem registry
    have hattached := hprogress.perm_attached hleft hprogress' hleft' hentryUids (hperm.filterMap _)
    refine ⟨w', hload', ?_⟩
    have hrecords' := hprogress'.map_recordOfBlock (.of_ofRecords hload') hlabels'
    exact hrecords'.trans (((hattached.map _).map _).cons _ |>.trans
      (hprogress.map_recordOfBlock hw hlabels).symm)

/-- Blocks before the ones they are below, a block below a variable, one of a class that is not there, one
below itself, and two that are below each other. -/
def outOfOrder : List Record :=
  [.block { uid := "self", parent := some "self" } .sequential,
   .block { uid := "number", parent := some "loop" } (.constant (.number 2)),
   .block { uid := "under", parent := some "number" } .sequential,
   .block { uid := "loop", parent := some "steps", name := some "Repeat" } .timeLoop,
   .block { uid := "one", parent := some "other" } .sequential,
   .block { uid := "steps" } .sequential,
   .block { uid := "other", parent := some "one" } .sequential,
   .block { uid := "root" } .workflow,
   .block { uid := "model", parent := some "root" } (.model ⟨"Missing", none, none⟩)]

/-- Three of them are restored. -/
theorem restoresBlocks_outOfOrder :
    recordedRoot? outOfOrder = some { uid := "root" } ∧ (Document.blockUids outOfOrder).Nodup ∧
      ∃ w : Workflow Unit, ofRecords "new-" outOfOrder ⟨[]⟩ = .ok w ∧
        w.blocks.map Block.uid = ["root", "steps", "loop", "number"] ∧
        RestoresBlocks "new-" ⟨[]⟩ outOfOrder { uid := "root" } w := by
  have huids : (Document.blockUids outOfOrder).Nodup := by decide +kernel
  obtain ⟨restored, hrestored, hblocks⟩ : ∃ w : Workflow Unit,
      ofRecords "new-" outOfOrder ⟨[]⟩ = .ok w ∧
        w.blocks.map Block.uid = ["root", "steps", "loop", "number"] :=
    ⟨_, rfl, by decide +kernel⟩
  obtain ⟨w, hload, hrestores⟩ := exists_restoresBlocks "new-" (⟨[]⟩ : Registry Unit)
    (show recordedRoot? outOfOrder = some { uid := "root" } from rfl) huids
  obtain rfl : w = restored := Except.ok.inj (hload.symm.trans hrestored)
  exact ⟨rfl, huids, w, hload, hblocks, hrestores⟩

end Documents

end Workflow

end SlotFlow
