import SlotFlow.Proofs.Arena.Rows
import SlotFlow.Proofs.Document.Restorable
/-!
# The records of blocks

The records of the blocks of a workflow stand in tree order, so when the turn of a block comes its
parent is there and it becomes the last child of it. One pass brings the whole tree back, with the
slots that the blocks are made with.

The induction is on the forest below a block, over every workflow that has a block to put it under:
the trees below a new block come before those after it.

* `Workflow.Grafted` — a workflow that has got a forest below one of its blocks.

## Results

* `Workflow.WellFormed.map_recordOfBlock` — the records of the blocks, by the shape of the tree;
* `Workflow.exists_grafted` — what the pass makes of them;
* `Workflow.drafted_of_entries` — what it makes of them in a new workflow.
-/

namespace SlotFlow

-- ---------------------------------------------------------------------------
-- The records of a tree
-- ---------------------------------------------------------------------------

/-- What comes of the tree by itself: a block without numbers and slots. -/
def Block.label (block : Block) : Block :=
  { block with id := ⟨0⟩, slots := [], codeName := none }

theorem Block.uid_eq_of_label {b c : Block} (h : c.label = b.label) : c.uid = b.uid := by
  show c.label.uid = b.label.uid
  rw [h]

theorem Block.kind_eq_of_label {b c : Block} (h : c.label = b.label) : c.kind = b.kind := by
  show c.label.kind = b.label.kind
  rw [h]

/-- There are blocks of a block's kind: if it is a model, its class is there and declares no slot
twice. -/
def Block.Known {μ : Type} (registry : Registry μ) (block : Block) : Prop :=
  ∃ requests, registry.requests? block.kind = some requests

theorem Block.Restorable.known {μ : Type} {registry : Registry μ} {block : Block}
    (h : block.Restorable registry) : block.Known registry :=
  h.imp fun _ hr => hr.1

/-- A block has the slots that its record calls for, and no others. -/
def Block.Fresh {μ : Type} (registry : Registry μ) (block : Block) : Prop :=
  ∃ requests, registry.requests? block.kind = some requests ∧
    List.Forall₂ (fun request slot => ∃ id uid, slot = Slot.ofRequest id uid request) requests
      block.slots

theorem Block.Fresh.restorable {μ : Type} {registry : Registry μ} {block : Block}
    (h : block.Fresh registry) : block.Restorable registry := by
  obtain ⟨requests, hr, hfresh⟩ := h
  refine ⟨requests, hr, block.slots, [], (List.append_nil _).symm, hfresh.imp ?_,
    fun _ hs => absurd hs List.not_mem_nil⟩
  rintro request _ ⟨id, uid, rfl⟩
  exact Slot.answers_ofRequest id uid request

namespace Forest

/-- The records of the blocks of a forest below a block with a uid. -/
def entries (parent : String) : Forest Block → List (BlockData × BlockKind)
  | nil => []
  | node b below after =>
    (⟨b.uid, some parent, some b.name⟩, b.kind) :: (below.entries b.uid ++ after.entries parent)

/-- What is put below a block may be put below it bit by bit. -/
theorem mapBelow_append (p : Block → Bool) (f : Forest Block → Forest Block)
    (forest other : Forest Block) :
    (forest.append other).mapBelow p f = (forest.mapBelow p f).append (other.mapBelow p f) := by
  induction forest with
  | nil => rfl
  | node b below after _ ihAfter => rw [append, mapBelow, mapBelow, append, ihAfter]

theorem mapBelow_append_nil (p : Block → Bool) (forest : Forest Block) :
    forest.mapBelow p (·.append nil) = forest := by
  induction forest with
  | nil => rfl
  | node b below after ihBelow ihAfter =>
    dsimp only [mapBelow]
    rw [ihBelow, ihAfter, append_nil, ite_self]

/-- First the one part of what is put below a block, then the other. -/
theorem mapBelow_append_append {id : BlockId} {first : Forest Block} (h : id ∉ first.ids)
    (second forest : Forest Block) :
    (forest.mapBelow (·.id = id) (·.append first)).mapBelow (·.id = id) (·.append second) =
      forest.mapBelow (·.id = id) (·.append (first.append second)) := by
  induction forest with
  | nil => rfl
  | node b below after ihBelow ihAfter =>
    simp only [mapBelow, ihAfter]
    congr 1
    split
    · rw [mapBelow_append, ihBelow, mapBelow_of_not_mem h, append_assoc]
    · exact ihBelow

/-- First a block, then what is below it. -/
theorem mapBelow_append_tree {id : BlockId} {b : Block} {forest : Forest Block}
    (h : b.id ∉ forest.ids) (below : Forest Block) :
    (forest.mapBelow (·.id = id) (·.append (tree b nil))).mapBelow (·.id = b.id)
        (·.append below) =
      forest.mapBelow (·.id = id) (·.append (tree b below)) := by
  induction forest with
  | nil => rfl
  | node c under after ihUnder ihAfter =>
    rw [ids_node, List.mem_cons, List.mem_append, not_or, not_or] at h
    have hne : ¬c.id = b.id := fun heq => h.1 heq.symm
    have hnew : (tree b nil).mapBelow (·.id = b.id) (·.append below) = tree b below := by
      simp [tree, mapBelow, append]
    simp only [mapBelow, ihAfter h.2.2, hne, decide_false, Bool.false_eq_true, if_false]
    congr 1
    split
    · rw [mapBelow_append, ihUnder h.2.1, hnew]
    · exact ihUnder h.2.1

end Forest

namespace Workflow

variable {μ : Type} {v w : Workflow μ}

/-- A question that is not about blocks finds no answer among their records. -/
theorem filterMap_blocks_eq_nil {α : Type} {f : Record → Option α}
    (h : ∀ data kind, f (.block data kind) = none) :
    (w.blocks.map w.recordOfBlock).filterMap f = [] := by
  rw [List.filterMap_map, List.filterMap_eq_nil_iff]
  intro block _
  exact h _ _

theorem filterMap_slots_eq_nil {α : Type} {f : Record → Option α}
    (h : ∀ data kind, f (.slot data kind) = none) :
    (w.ownedSlots.map recordOfSlot).filterMap f = [] := by
  rw [List.filterMap_map, List.filterMap_eq_nil_iff]
  intro owned _
  exact h _ _

theorem filterMap_links_eq_nil {α : Type} {f : Record → Option α}
    (h : ∀ data, f (.link data) = none) : (w.links.map w.recordOfLink).filterMap f = [] := by
  rw [List.filterMap_map, List.filterMap_eq_nil_iff]
  intro link _
  exact h _

theorem recordedBlocks_cons (data : BlockData) {kind : BlockKind} (h : kind ≠ .workflow)
    (rest : List Record) :
    recordedBlocks (.block data kind :: rest) = (data, kind) :: recordedBlocks rest := by
  cases kind with
  | workflow => exact absurd rfl h
  | _ => rfl

theorem recordedBlocks_append (first second : List Record) :
    recordedBlocks (first ++ second) = recordedBlocks first ++ recordedBlocks second :=
  List.filterMap_append

/-- The record of a block names the block it stands below. -/
theorem WellFormed.recordOfBlock_eq (h : w.WellFormed) {place : Placed} (hplace : place ∈ w.placed)
    {p : Block} (hp : p ∈ w.blocks) (hparent : place.parent = some p.id) :
    w.recordOfBlock place.block =
      .block ⟨place.block.uid, some p.uid, some place.block.name⟩ place.block.kind := by
  have hid := h.map_id_parent? hplace
  rw [hparent] at hid
  obtain ⟨q, hq, hqid⟩ := Option.map_eq_some_iff.mp hid
  have hqmem : q ∈ w.blocks := by
    obtain ⟨tree, htree, rfl⟩ := Option.map_eq_some_iff.mp hq
    rw [Workflow.blocks, ← Forest.map_fst_subtrees]
    exact List.mem_map_of_mem (List.mem_of_find?_eq_some htree)
  rw [h.block_ext hqmem hp hqid] at hq
  rw [recordOfBlock, show w.parent? place.block.id = some p from hq]
  rfl

/-- The records of the blocks below a block. -/
theorem WellFormed.map_recordOfBlock_forest (h : w.WellFormed) {p : Block} (hp : p ∈ w.blocks)
    (forest : Forest Block) (hplaced : forest.placed (some p.id) ⊆ w.placed) :
    forest.toList.map w.recordOfBlock =
      (forest.entries p.uid).map fun entry => .block entry.1 entry.2 := by
  induction forest generalizing p with
  | nil => rfl
  | node b below after ihBelow ihAfter =>
    rw [Forest.placed, List.cons_subset, List.append_subset] at hplaced
    obtain ⟨hhead, hbelow, hafter⟩ := hplaced
    have hb : b ∈ w.blocks := mem_blocks_iff_placed.mpr ⟨_, hhead, rfl⟩
    rw [Forest.toList_node, List.map_cons, List.map_append, h.recordOfBlock_eq hhead hp rfl,
      ihBelow hb hbelow, ihAfter hp hafter, Forest.entries, List.map_cons, List.map_append]

/-- The records of the blocks of a workflow depend on the shape of the tree and on what is recorded of
each block. -/
theorem WellFormed.map_recordOfBlock (h : w.WellFormed) :
    w.blocks.map w.recordOfBlock =
      .block ⟨w.root.uid, none, some w.root.name⟩ w.root.kind ::
        (w.body.entries w.root.uid).map fun entry => .block entry.1 entry.2 := by
  have hroot : (⟨w.root, none, w.body.roots.map Block.id⟩ : Placed) ∈ w.placed :=
    List.mem_cons_self
  have hparent : w.parent? w.root.id = none := Option.map_eq_none_iff.mp (h.map_id_parent? hroot)
  have hbody : w.body.placed (some w.root.id) ⊆ w.placed := by
    intro place hplace
    exact List.mem_cons_of_mem _ (List.mem_append_left _ hplace)
  rw [blocks_eq, List.map_cons, h.map_recordOfBlock_forest w.root_mem_blocks w.body hbody,
    recordOfBlock, hparent]
  rfl

/-- No record of a forest is passed over unless there is a workflow in it. -/
theorem recordedBlocks_entries {forest : Forest Block}
    (hinner : ∀ b ∈ forest.toList, b.kind ≠ .workflow) (parent : String) :
    recordedBlocks ((forest.entries parent).map fun entry => .block entry.1 entry.2) =
      forest.entries parent := by
  induction forest generalizing parent with
  | nil => rfl
  | node b below after ihBelow ihAfter =>
    rw [Forest.entries, List.map_cons, List.map_append,
      recordedBlocks_cons _ (hinner b List.mem_cons_self), recordedBlocks_append,
      ihBelow fun c hc => hinner c (List.mem_cons_of_mem _ (List.mem_append_left _ hc)),
      ihAfter fun c hc => hinner c (List.mem_cons_of_mem _ (List.mem_append_right _ hc))]

/-- The records of a workflow describe its blocks by the shape of the tree. -/
theorem WellFormed.recordedBlocks_records (h : w.WellFormed) (hroot : w.root.kind = .workflow)
    (hinner : ∀ b ∈ w.body.toList, b.kind ≠ .workflow) :
    recordedBlocks w.records = w.body.entries w.root.uid := by
  have hslots : recordedBlocks (w.ownedSlots.map recordOfSlot) = [] :=
    filterMap_slots_eq_nil fun _ _ => rfl
  have hlinks : recordedBlocks (w.links.map w.recordOfLink) = [] :=
    filterMap_links_eq_nil fun _ => rfl
  have hskip : ∀ data rest, recordedBlocks (.block data .workflow :: rest) = recordedBlocks rest :=
    fun _ _ => rfl
  rw [records, recordedBlocks_append, recordedBlocks_append, hslots, hlinks, List.append_nil,
    List.append_nil, h.map_recordOfBlock, hroot, hskip, recordedBlocks_entries hinner]

-- ---------------------------------------------------------------------------
-- Trees that come back
-- ---------------------------------------------------------------------------

/-- A workflow without links has got a forest after the children of one of its blocks. -/
structure Grafted (v : Workflow μ) (parent : BlockId) (forest : Forest Block)
    (grown : Workflow μ) : Prop where
  unlinked : grown.Unlinked
  tree : grown.tree = v.tree.mapBelow (·.id = parent) (·.append forest)
  name : grown.name = v.name
  registry : grown.registry = v.registry

namespace Grafted

variable {grown full : Workflow μ} {parent : BlockId} {first second : Forest Block}

theorem perm (h : Grafted v parent first grown) (hv : v.WellFormed)
    (hparent : parent ∈ v.blocks.map Block.id) :
    grown.blocks.Perm (v.blocks ++ first.toList) := by
  rw [blocks, h.tree]
  refine Forest.perm_mapBelow hv.blocks.ids hparent fun below => ?_
  rw [Forest.toList_append]

/-- Blocks that come with the labels of others come with their uids. -/
theorem perm_uids (h : Grafted v parent first grown) (hv : v.WellFormed)
    (hparent : parent ∈ v.blocks.map Block.id) {saved : Forest Block}
    (hlabel : first.map Block.label = saved.map Block.label) :
    (grown.blocks.map Block.uid).Perm
      (v.blocks.map Block.uid ++ saved.toList.map Block.uid) := by
  have huids : first.toList.map Block.uid = saved.toList.map Block.uid := by
    have hlist := congrArg Forest.toList hlabel
    rw [Forest.toList_map, Forest.toList_map] at hlist
    exact map_eq_of_map_eq hlist fun c _ d _ => Block.uid_eq_of_label
  have hperm := (h.perm hv hparent).map Block.uid
  rwa [List.map_append, huids] at hperm

theorem parent_not_mem (h : Grafted v parent first grown) (hv : v.WellFormed)
    (hparent : parent ∈ v.blocks.map Block.id) : parent ∉ first.ids := by
  have hids := h.unlinked.wellFormed.blocks.ids
  rw [((h.perm hv hparent).map Block.id).nodup_iff, List.map_append, List.nodup_append] at hids
  exact fun hm => hids.2.2 parent hparent parent hm rfl

theorem append (h : Grafted v parent first grown) (h' : Grafted grown parent second full)
    (hv : v.WellFormed) (hparent : parent ∈ v.blocks.map Block.id) :
    Grafted v parent (first.append second) full where
  unlinked := h'.unlinked
  tree := by
    rw [h'.tree, h.tree, Forest.mapBelow_append_append (h.parent_not_mem hv hparent)]
  name := h'.name.trans h.name
  registry := h'.registry.trans h.registry

theorem below {b : Block} (h : Grafted v parent (.tree b .nil) grown)
    (h' : Grafted grown b.id second full) (hb : b.id ∉ v.tree.ids) :
    Grafted v parent (.tree b second) full where
  unlinked := h'.unlinked
  tree := by rw [h'.tree, h.tree, Forest.mapBelow_append_tree hb]
  name := h'.name.trans h.name
  registry := h'.registry.trans h.registry

/-- A recorded block is a tree by itself. -/
theorem of_addRecordedBlock (h : v.Unlinked) {p : Block} (hp : p ∈ v.blocks)
    (hcontainer : p.kind.isContainer = true) (data : BlockData) {kind : BlockKind}
    {requests : List SlotRequest} (hr : v.registry.requests? kind = some requests) :
    Grafted v p.id
      (.tree (v.newBlock kind (data.name.getD kind.givenName) requests (some data.uid)) .nil)
      (v.addRecordedBlock p.id data kind) := by
  have hget : v.getContainer p.id = .ok p :=
    getContainer_eq_ok.mpr ⟨h.wellFormed.block?_eq_some.mpr ⟨hp, rfl⟩, hcontainer⟩
  have hadd := addRecordedBlock_eq h.wellFormed p.id data kind
  rw [hr, hget] at hadd
  refine ⟨h.addRecordedBlock .., ?_, ?_, ?_⟩ <;> rw [hadd]
  · exact tree_modifyBelow h.wellFormed.blocks.ids _
  · exact name_modifyBelow ..
  · exact registry_modifyBelow ..

end Grafted

theorem fresh_newBlock {registry : Registry μ} {kind : BlockKind} {requests : List SlotRequest}
    (hr : registry.requests? kind = some requests) (v : Workflow μ) (name : String)
    (uid : Option String) : (v.newBlock kind name requests uid).Fresh registry :=
  ⟨requests, hr, forall₂_makeSlots ..⟩

/-- A record whose parent is there is dealt with at once. -/
theorem addAttachable_cons (huids : (v.blocks.map Block.uid).Nodup) {p : Block}
    (hp : p ∈ v.blocks) {data : BlockData} (hparent : data.parent = some p.uid) (kind : BlockKind)
    (rest : List (BlockData × BlockKind)) :
    v.addAttachable ((data, kind) :: rest) =
      (v.addRecordedBlock p.id data kind).addAttachable rest := by
  have hfind : v.recordedParent? data = some p.id := by
    have huid : v.blockWithUid? p.uid = some p := (blockWithUid?_eq_some huids).mpr ⟨hp, rfl⟩
    rw [recordedParent?, hparent]
    exact congrArg (Option.map Block.id) huid
  rw [addAttachable, hfind]

/-- The pass over the records of a forest puts a forest of the same shape below the block that is
named as its parent. Its blocks have the slots they are made with. -/
theorem exists_grafted {registry : Registry μ} (forest : Forest Block) :
    ∀ {v : Workflow μ} {p : Block} (rest : List (BlockData × BlockKind)), v.Unlinked →
      v.registry = registry → p ∈ v.blocks →
      (v.blocks.map Block.uid ++ forest.toList.map Block.uid).Nodup →
      (forest = .nil ∨ p.kind.isContainer = true) → forest.Nested →
      (∀ b ∈ forest.toList, b.Known registry) →
      ∃ grown grafted, v.addAttachable (forest.entries p.uid ++ rest) = grown.addAttachable rest ∧
        Grafted v p.id grafted grown ∧ grafted.map Block.label = forest.map Block.label ∧
        ∀ c ∈ grafted.toList, c.Fresh registry := by
  induction forest with
  | nil =>
    intro v p rest hv _ _ _ _ _ _
    exact ⟨v, .nil, rfl, ⟨hv, (Forest.mapBelow_append_nil _ _).symm, rfl, rfl⟩, rfl, by simp⟩
  | node b below after ihBelow ihAfter =>
    intro v p rest hv hregistry hp huids hcontainer hnested hblocks
    have hcontainer : p.kind.isContainer = true := hcontainer.resolve_left (by simp)
    obtain ⟨hb, hnestedBelow, hnestedAfter⟩ := hnested
    obtain ⟨requests, hr⟩ := hblocks b List.mem_cons_self
    rw [Forest.toList_node, List.map_cons, List.map_append, ← List.singleton_append,
      ← List.append_assoc, ← List.append_assoc] at huids
    have hpids : p.id ∈ v.blocks.map Block.id := List.mem_map_of_mem hp
    -- the block itself
    let data : BlockData := ⟨b.uid, some p.uid, some b.name⟩
    let new := v.newBlock b.kind b.name requests (some b.uid)
    let one := v.addRecordedBlock p.id data b.kind
    have hstep := addAttachable_cons huids.of_append_left.of_append_left.of_append_left hp
      (show data.parent = some p.uid from rfl) b.kind
    have hone : Grafted v p.id (.tree new .nil) one :=
      .of_addRecordedBlock hv hp hcontainer data (hregistry ▸ hr)
    have huidsOne : (one.blocks.map Block.uid).Perm (v.blocks.map Block.uid ++ [b.uid]) :=
      hone.perm_uids hv.wellFormed hpids
        (show (Forest.tree new .nil).map Block.label = (Forest.tree b .nil).map Block.label from rfl)
    have hnewMem : new ∈ one.blocks :=
      (hone.perm hv.wellFormed hpids).mem_iff.mpr (List.mem_append_right _ List.mem_cons_self)
    -- the blocks below it
    obtain ⟨two, inner, hrunBelow, htwo, hlabelBelow, hfreshBelow⟩ := ihBelow
      (p := new) (after.entries p.uid ++ rest) hone.unlinked (hone.registry.trans hregistry) hnewMem
      ((huidsOne.append_right _).nodup_iff.mpr huids.of_append_left) hb hnestedBelow
      fun c hc => hblocks c (List.mem_cons_of_mem _ (List.mem_append_left _ hc))
    have hsubtree : Grafted v p.id (.tree new inner) two :=
      hone.below htwo hv.wellFormed.fresh_not_mem_ids
    have huidsTwo : (two.blocks.map Block.uid).Perm
        (v.blocks.map Block.uid ++ [b.uid] ++ below.toList.map Block.uid) := by
      have hlabel : (Forest.tree new inner).map Block.label =
          (Forest.tree b below).map Block.label := by
        rw [Forest.tree, Forest.tree, Forest.map, Forest.map, hlabelBelow]
        rfl
      have hperm := hsubtree.perm_uids hv.wellFormed hpids hlabel
      rwa [Forest.toList_tree, List.map_cons, ← List.singleton_append, ← List.append_assoc] at hperm
    -- the blocks after it
    obtain ⟨three, outer, hrunAfter, hthree, hlabelAfter, hfreshAfter⟩ := ihAfter
      (p := p) rest htwo.unlinked (hsubtree.registry.trans hregistry)
      ((hsubtree.perm hv.wellFormed hpids).mem_iff.mpr (List.mem_append_left _ hp))
      ((huidsTwo.append_right _).nodup_iff.mpr huids) (.inr hcontainer) hnestedAfter
      fun c hc => hblocks c (List.mem_cons_of_mem _ (List.mem_append_right _ hc))
    refine ⟨three, .node new inner outer, ?_, hsubtree.append hthree hv.wellFormed hpids, ?_, ?_⟩
    · rw [← hrunAfter, ← hrunBelow, ← List.append_assoc, ← hstep]
      rfl
    · rw [Forest.map, Forest.map, hlabelBelow, hlabelAfter]
      rfl
    · intro c hc
      rw [Forest.toList_node, List.mem_cons, List.mem_append] at hc
      rcases hc with rfl | hc | hc
      · exact fresh_newBlock hr ..
      · exact hfreshBelow c hc
      · exact hfreshAfter c hc

-- ---------------------------------------------------------------------------
-- Whole workflows
-- ---------------------------------------------------------------------------

/-- A workflow of the shape of a tree, with the slots that its blocks are made with. -/
structure Drafted (registry : Registry μ) (name : String) (tree : Forest Block)
    (draft : Workflow μ) : Prop where
  unlinked : draft.Unlinked
  name : draft.name = name
  tree : draft.tree.map Block.label = tree.map Block.label
  fresh : ∀ c ∈ draft.blocks, c.Fresh registry

/-- The records of a forest make it the forest below a new root. -/
theorem drafted_of_entries {registry : Registry μ} {root : Block} (hroot : root.kind = .workflow)
    {forest : Forest Block} (huids : (root.uid :: forest.toList.map Block.uid).Nodup)
    (hnested : forest.Nested) (hknown : ∀ b ∈ forest.toList, b.Known registry) (uidStem : String) :
    Drafted registry root.name (.tree root forest)
      (addRecordedBlocks (forest.entries root.uid).length
        (new uidStem root.name registry (some root.uid)) (forest.entries root.uid)) := by
  let start : Workflow μ := new uidStem root.name registry (some root.uid)
  have hstart : start.Unlinked := ⟨wellFormed_new .., rfl⟩
  have hlabelRoot : start.root.label = root.label := by
    show (⟨⟨0⟩, root.uid, root.name, .workflow, [], none⟩ : Block) = root.label
    rw [← hroot]
    rfl
  have hfresh : start.root.Fresh registry := ⟨[], rfl, .nil⟩
  obtain ⟨grown, grafted, hrun, hgrafted, hlabel, hfreshBelow⟩ :=
    exists_grafted forest (p := start.root) [] hstart rfl start.root_mem_blocks huids (.inr rfl)
      hnested hknown
  have htree : grown.tree = .tree start.root grafted := by
    rw [hgrafted.tree]
    rfl
  have hdrafted : Drafted registry root.name (.tree root forest) grown := by
    refine ⟨hgrafted.unlinked, hgrafted.name, ?_, ?_⟩
    · rw [htree, Forest.tree, Forest.map, hlabel, hlabelRoot]
      rfl
    · intro c hc
      rw [Workflow.blocks, htree, Forest.toList_tree, List.mem_cons] at hc
      rcases hc with rfl | hc
      · exact hfresh
      · exact hfreshBelow c hc
  rw [List.append_nil] at hrun
  cases hentries : forest.entries root.uid with
  | nil =>
    rw [show forest.entries start.root.uid = _ from hentries] at hrun
    have hsame : start = grown := congrArg Prod.fst hrun
    rw [← hsame] at hdrafted
    exact hdrafted
  | cons entry entries =>
    rw [show forest.entries start.root.uid = _ from hentries] at hrun
    rw [List.length_cons, addRecordedBlocks, hrun]
    exact hdrafted

/-- The records of the blocks of a workflow bring back its shape. -/
theorem Restorable.drafted {registry : Registry μ} (h : w.Restorable registry) (uidStem : String) :
    Drafted registry w.name w.tree (addRecordedBlocks (recordedBlocks w.records).length
      (new uidStem w.root.name registry (some w.root.uid)) (recordedBlocks w.records)) := by
  have huids : (w.root.uid :: w.body.toList.map Block.uid).Nodup := by
    have huids := h.uids
    rwa [blocks_eq, List.map_cons] at huids
  obtain ⟨-, hnested, -⟩ := h.nested
  have hdrafted := drafted_of_entries h.root huids hnested
    (fun b hb => (h.blocks b (mem_blocks_of_mem_body hb)).known) uidStem
  rw [h.rootName] at hdrafted ⊢
  rw [h.wellFormed.recordedBlocks_records h.root h.inner]
  exact hdrafted

end Workflow

end SlotFlow
