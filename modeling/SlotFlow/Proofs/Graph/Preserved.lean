import SlotFlow.Naming.Assignment
import SlotFlow.Proofs.Graph.WellFormed
/-!
# Edits keep workflows well formed

One lemma for each way to change a workflow. A granted edit is opened by its lemma in
`SlotFlow.Proofs.Graph.Granted`; what it does to the lists of blocks, slots and links then falls
under one of the lemmas of `BlocksSound` and `LinksSound`.
-/

namespace SlotFlow

-- ---------------------------------------------------------------------------
-- Changes of labels
-- ---------------------------------------------------------------------------

/-- A change of a slot's labels keeps its number, its kind and its type. -/
structure Slot.Relabels (s t : Slot) : Prop where
  id : t.id = s.id
  kind : t.kind = s.kind
  type : t.type = s.type
  sound : s.Sound → t.Sound

/-- A change of a block's labels keeps its number and those of its slots. -/
structure Block.Relabels (b c : Block) : Prop where
  id : c.id = b.id
  slots : List.Forall₂ Slot.Relabels b.slots c.slots
  slotNames : (c.slots.map Slot.name).Nodup

theorem Slot.Relabels.refl (s : Slot) : s.Relabels s := ⟨rfl, rfl, rfl, fun h => h⟩

/-- Where the slots stay as they are, so do their names. -/
theorem Block.Relabels.of_slots_eq {b c : Block} (hid : c.id = b.id) (hslots : c.slots = b.slots)
    (hnames : (b.slots.map Slot.name).Nodup) : b.Relabels c where
  id := hid
  slots := by
    rw [hslots]
    exact List.forall₂_same.mpr fun s _ => .refl s
  slotNames := by rwa [hslots]

theorem Block.Relabels.keeps {b c : Block} (h : b.Relabels c)
    (hsound : ∀ slot ∈ b.slots, slot.Sound) : b.Keeps c where
  id := h.id
  slotIds := by
    rw [map_eq_of_forall₂ (f := Slot.id) h.slots fun _ _ hst => hst.id]
  slotNames := h.slotNames
  slotSound t ht := by
    obtain ⟨s, hs, hst⟩ := exists_of_forall₂_right h.slots ht
    exact hst.sound (hsound s hs)
  border t ht hext := by
    obtain ⟨s, hs, hst⟩ := exists_of_forall₂_right h.slots ht
    rw [Slot.external, hst.kind] at hext
    exact ⟨s, hs, hext⟩

namespace Workflow.WellFormed

variable {μ : Type} {w w' : Workflow μ}

/-- A change of labels keeps a workflow well formed. -/
theorem relabel (h : w.WellFormed) (hb : List.Forall₂ Block.Relabels w.blocks w'.blocks)
    (hroot : w'.root.id = w.root.id) (hlinks : w'.links = w.links)
    (hnext : w'.nextId = w.nextId) : w'.WellFormed where
  blocks := by
    rw [hroot, hnext]
    refine h.blocks.of_keeps (((List.forall₂_and_left _ _).mpr ⟨fun b hm => hm, hb⟩).imp ?_)
    rintro b c ⟨hm, hbc⟩
    exact hbc.keeps (h.blocks.slotSound b hm)
  links := by
    rw [hlinks, hnext]
    refine h.links.of_slots (Nat.le_refl _) fun slot hs _ => ?_
    obtain ⟨b, hm, hsb⟩ := mem_slots.mp hs
    obtain ⟨c, hc, hbc⟩ := exists_of_forall₂_left hb hm
    obtain ⟨t, ht, hst⟩ := exists_of_forall₂_left hbc.slots hsb
    exact ⟨t, mem_slots.mpr ⟨c, hc, ht⟩, hst.id, congrArg SlotKind.direction hst.kind⟩
  types := by
    rw [hlinks]
    refine h.types.of_slots (List.Subset.refl _) fun slot hs _ => ?_
    obtain ⟨c, hc, hsc⟩ := mem_slots.mp hs
    obtain ⟨b, hm, hbc⟩ := exists_of_forall₂_right hb hc
    obtain ⟨s, hsb, hst⟩ := exists_of_forall₂_right hbc.slots hsc
    exact ⟨s, mem_slots.mpr ⟨b, hm, hsb⟩, hst.id, hst.kind, hst.type⟩

/-- A change of each block's own labels. -/
theorem mapBlocks (h : w.WellFormed) {f : Block → Block}
    (hf : ∀ block ∈ w.blocks, block.Relabels (f block)) : (w.mapBlocks f).WellFormed := by
  refine h.relabel ?_ (hf _ w.root_mem_blocks).id rfl rfl
  rw [blocks_mapBlocks, List.forall₂_map_right_iff]
  exact List.forall₂_same.mpr hf

/-- A change of one block that leaves its slots alone. -/
theorem modifyBlock (h : w.WellFormed) (id : BlockId) {f : Block → Block}
    (hid : ∀ block, (f block).id = block.id) (hslots : ∀ block, (f block).slots = block.slots) :
    (w.modifyBlock id f).WellFormed := by
  refine h.mapBlocks fun block hb => ?_
  have hnames := h.blocks.slotNames block hb
  split
  · exact .of_slots_eq (hid block) (hslots block) hnames
  · exact .of_slots_eq rfl rfl hnames

/-- A change of slots that leaves numbers, kinds and names alone, where the types still agree. -/
theorem mapSlots (h : w.WellFormed) {f : Slot → Slot}
    (hf : ∀ slot, (f slot).id = slot.id ∧ (f slot).kind = slot.kind ∧ (f slot).name = slot.name)
    (hsound : ∀ slot, slot.Sound → (f slot).Sound)
    (htypes : LinksTyped (w.slots.map f) w.links) : (w.mapSlots f).WellFormed where
  blocks := by
    refine h.blocks.of_keeps ?_
    rw [Workflow.mapSlots, blocks_mapBlocks, List.forall₂_map_right_iff]
    refine List.forall₂_same.mpr fun block hb => ⟨rfl, ?_, ?_, ?_, ?_⟩
    · simp [Function.comp_def, hf]
    · simpa [Function.comp_def, hf] using h.blocks.slotNames block hb
    · intro slot hs
      obtain ⟨old, ho, rfl⟩ := List.mem_map.mp hs
      exact hsound old (h.blocks.slotSound block hb old ho)
    · intro slot hs hext
      obtain ⟨old, ho, rfl⟩ := List.mem_map.mp hs
      rw [Slot.external, (hf old).2.1] at hext
      exact ⟨old, ho, hext⟩
  links := by
    rw [slots_mapSlots]
    refine h.links.of_slots (Nat.le_refl _) fun slot hs _ => ⟨f slot, List.mem_map_of_mem hs, ?_⟩
    exact ⟨(hf slot).1, congrArg SlotKind.direction (hf slot).2.1⟩
  types := by
    rw [slots_mapSlots]
    exact htypes

theorem setName (h : w.WellFormed) (name : String) : (w.setName name).WellFormed := by
  have hnames := h.blocks.slotNames
  refine h.relabel ?_ rfl rfl rfl
  have hbelow : ∀ block ∈ w.body.toList, block.Relabels block := fun block hb =>
    .of_slots_eq rfl rfl (hnames block (mem_blocks_of_mem_body hb))
  refine .cons (.of_slots_eq rfl rfl (hnames _ w.root_mem_blocks)) ?_
  exact List.rel_append (List.forall₂_same.mpr hbelow) .nil

/-- A slot takes on a name that no other slot of its block has. -/
theorem renameSlot (h : w.WellFormed) {id : SlotId} {name : String}
    (hw : w.renameSlot id name = .ok w') : w'.WellFormed := by
  obtain ⟨owned, ho, hfree, rfl⟩ := renameSlot_eq_ok.mp hw
  rw [getOwnedSlot_eq_ok, h.ownedSlot?_eq_some] at ho
  obtain ⟨howner, hslot, rfl⟩ := ho
  unfold Workflow.modifySlot Workflow.mapSlots
  refine h.mapBlocks fun block hb => ⟨rfl, ?_, ?_⟩
  · rw [List.forall₂_map_right_iff]
    refine List.forall₂_same.mpr fun slot _ => ?_
    split
    · exact ⟨rfl, rfl, rfl, fun hs => hs.rename name⟩
    · exact .refl slot
  · -- two slots of one block that agree in the new name are both the renamed one
    have hids : block.slots.Nodup := .of_map _ (h.blocks.slotNames block hb)
    rw [List.map_map, List.nodup_map_iff_inj_on hids]
    have hmeets : ∀ s ∈ block.slots, ∀ t ∈ block.slots, s.id = owned.slot.id → t.name = name →
        t.id = owned.slot.id := by
      intro s hs t ht hsid htname
      obtain ⟨rfl, -⟩ := h.slot_ext hb howner hs hslot hsid
      have hsome : (owned.owner.slot? name).isSome = true := by
        rw [Block.slot?, List.find?_isSome]
        exact ⟨t, ht, decide_eq_true htname⟩
      obtain ⟨present, hp⟩ := Option.isSome_iff_exists.mp hsome
      have hpmem : present ∈ owned.owner.slots := List.mem_of_find?_eq_some hp
      have hpname : present.name = name := by simpa using List.find?_some hp
      rw [← hfree present hp, List.inj_on_of_nodup_map (h.blocks.slotNames _ hb) ht hpmem
        (htname.trans hpname.symm)]
    intro s hs t ht hst
    simp only [Function.comp_apply] at hst
    by_cases hsid : s.id = owned.slot.id <;> by_cases htid : t.id = owned.slot.id
    · exact (h.slot_ext hb hb hs ht (hsid.trans htid.symm)).2
    · rw [if_pos hsid, if_neg htid] at hst
      exact absurd (hmeets s hs t ht hsid hst.symm) htid
    · rw [if_neg hsid, if_pos htid] at hst
      exact absurd (hmeets t ht s hs htid hst) hsid
    · rw [if_neg hsid, if_neg htid] at hst
      exact List.inj_on_of_nodup_map (h.blocks.slotNames block hb) hs ht hst

-- ---------------------------------------------------------------------------
-- Identifiers
-- ---------------------------------------------------------------------------

theorem mapBlocksState {σ : Type} (h : w.WellFormed) {f : σ → Block → Block × σ} (s : σ)
    (hf : ∀ s, ∀ block ∈ w.blocks, block.Relabels (f s block).1) :
    (w.mapBlocksState f s).1.WellFormed := by
  refine h.relabel ?_ (hf s _ w.root_mem_blocks).id rfl rfl
  have hall : List.Forall₂ (fun b c => ∃ s, c = (f s b).1) w.blocks
      (w.mapBlocksState f s).1.blocks :=
    .cons ⟨s, rfl⟩ (List.rel_append (Forest.forall₂_mapState ..) .nil)
  refine (((List.forall₂_and_left _ _).mpr ⟨fun b hm => hm, hall⟩).imp ?_)
  rintro b _ ⟨hb, s, rfl⟩
  exact hf s b hb

theorem assignNames (h : w.WellFormed) : w.assignNames.WellFormed := by
  unfold Workflow.assignNames
  have hblocks := h.mapBlocksState (f := Block.assignName) (w.codeNames ++ Identifier.reservedMembers)
    fun _ block hb => .of_slots_eq rfl rfl (h.blocks.slotNames block hb)
  refine hblocks.mapBlocksState _ fun taken block hb => ?_
  have hslots : ∀ (taken : List String) (slots : List Slot), List.Forall₂
      (fun s t : Slot => s.Relabels t ∧ t.name = s.name) slots (Slot.assignNames taken slots).1 := by
    intro taken slots
    induction slots generalizing taken with
    | nil => exact .nil
    | cons slot slots ih =>
      refine .cons ?_ (ih _)
      unfold Slot.assignName
      split <;> exact ⟨⟨rfl, rfl, rfl, fun hs => ⟨hs.optional, hs.objectId⟩⟩, rfl⟩
  refine ⟨rfl, (hslots taken _).imp fun _ _ hst => hst.1, ?_⟩
  rw [Block.assignSlotNames, map_eq_of_forall₂ (f := Slot.name) (hslots taken _)
    fun _ _ hst => hst.2]
  exact hblocks.blocks.slotNames block hb

end Workflow.WellFormed

-- ---------------------------------------------------------------------------
-- New elements
-- ---------------------------------------------------------------------------

/-- The slots that a kind of block is made with are named apart, and none is on the border. -/
structure Separate (requests : List SlotRequest) : Prop where
  names : (requests.map SlotRequest.name).Nodup
  inside : ∀ request ∈ requests, request.kind.external = false

theorem separate_nil : Separate [] := by
  constructor <;> simp

theorem separate_defaultSlots (kind : BlockKind) : Separate kind.defaultSlots := by
  constructor <;> cases kind with
  | constant value => cases value <;> simp [BlockKind.defaultSlots]
  | _ => simp [BlockKind.defaultSlots, BlockKind.startTimeSlot, BlockKind.targetTimeSlot,
      BlockKind.maxStepSlot]

/-- No name is repeated exactly if all are distinct and none has been seen. -/
theorem firstRepeated?_eq_none {seen names : List String} :
    firstRepeated? seen names = none ↔ names.Nodup ∧ ∀ name ∈ names, name ∉ seen := by
  induction names generalizing seen with
  | nil => simp [firstRepeated?]
  | cons name names ih =>
    rw [firstRepeated?]
    by_cases hseen : name ∈ seen
    · simp [hseen]
    · rw [if_neg hseen, ih]
      simp only [List.nodup_cons, List.mem_cons, forall_eq_or_imp, not_or]
      constructor
      · rintro ⟨hnodup, hrest⟩
        exact ⟨⟨fun hm => (hrest name hm).1 rfl, hnodup⟩, hseen, fun n hn => (hrest n hn).2⟩
      · rintro ⟨⟨hname, hnodup⟩, -, hrest⟩
        refine ⟨hnodup, fun n hn => ⟨?_, hrest n hn⟩⟩
        rintro rfl
        exact hname hn

theorem separate_slotRequests {declaration : ModelDeclaration}
    (h : declaration.repeatedSlot? = none) : Separate declaration.slotRequests where
  names := by
    have hnames : declaration.slotRequests.map SlotRequest.name = declaration.slotNames := by
      simp [ModelDeclaration.slotRequests, ModelDeclaration.slotNames, Function.comp_def,
        SlotDeclaration.slotRequest]
    rw [hnames]
    exact (firstRepeated?_eq_none.mp h).1
  inside request hr := by
    simp only [ModelDeclaration.slotRequests, List.mem_append, List.mem_map] at hr
    rcases hr with ⟨declaration, -, rfl⟩ | ⟨declaration, -, rfl⟩ <;> rfl

namespace Workflow

variable {μ : Type} {w w' : Workflow μ}

/-- New slots take numbers in a row. -/
theorem map_id_makeSlots (uidStem : String) (first : Nat) (requests : List SlotRequest) :
    (makeSlots uidStem first requests).map Slot.id =
      (List.range' first requests.length).map SlotId.mk := by
  induction requests generalizing first with
  | nil => rfl
  | cons request requests ih =>
    rw [makeSlots, List.map_cons, ih, List.length_cons, List.range'_succ, List.map_cons]
    rfl

theorem map_name_makeSlots (uidStem : String) (first : Nat) (requests : List SlotRequest) :
    (makeSlots uidStem first requests).map Slot.name = requests.map SlotRequest.name := by
  induction requests generalizing first with
  | nil => rfl
  | cons request requests ih =>
    rw [makeSlots, List.map_cons, ih]
    rfl

/-- There is a slot for each request. -/
theorem getElem?_makeSlots (uidStem : String) (first : Nat) (requests : List SlotRequest) (i : Nat) :
    (makeSlots uidStem first requests)[i]? = requests[i]?.map
      (Slot.ofRequest ⟨first + i⟩ (freshUid uidStem (first + i))) := by
  induction requests generalizing first i with
  | nil => rfl
  | cons request requests ih =>
    cases i with
    | zero => rfl
    | succ i =>
      rw [makeSlots, List.getElem?_cons_succ, ih, List.getElem?_cons_succ, Nat.add_assoc,
        Nat.add_comm 1 i]

theorem forall₂_makeSlots (uidStem : String) (first : Nat) (requests : List SlotRequest) :
    List.Forall₂ (fun request slot => ∃ id uid, slot = Slot.ofRequest id uid request) requests
      (makeSlots uidStem first requests) := by
  induction requests generalizing first with
  | nil => exact .nil
  | cons request requests ih => exact .cons ⟨_, _, rfl⟩ (ih (first + 1))

theorem exists_request_of_mem_makeSlots {uidStem : String} {first : Nat}
    {requests : List SlotRequest} {slot : Slot} (h : slot ∈ makeSlots uidStem first requests) :
    ∃ request ∈ requests, ∃ id uid, slot = Slot.ofRequest id uid request :=
  exists_of_forall₂_right (forall₂_makeSlots ..) h

/-- The block that comes to a container. -/
def newBlock (w : Workflow μ) (kind : BlockKind) (name : String) (requests : List SlotRequest)
    (uid : Option String) : Block where
  id := ⟨w.nextId⟩
  uid := uid.getD (freshUid w.uidStem w.nextId)
  name := name
  kind := kind
  slots := makeSlots w.uidStem (w.nextId + 1) requests

theorem perm_blocks_attachBlock {parent : BlockId} (hids : (w.blocks.map Block.id).Nodup)
    (hparent : parent ∈ w.blocks.map Block.id) (kind : BlockKind) (name : String)
    (requests : List SlotRequest) (uid : Option String) :
    (w.attachBlock parent kind name requests uid).2.blocks.Perm
      (w.blocks ++ [w.newBlock kind name requests uid]) := by
  refine perm_blocks_modifyBelow hids hparent fun below => ?_
  rw [Forest.toList_append, Forest.toList_tree, Forest.toList_nil]
  exact .refl _

/-- The root stays what it is, so that the new block is one of those below it. -/
theorem perm_body_attachBlock {parent : BlockId} (hids : (w.blocks.map Block.id).Nodup)
    (hparent : parent ∈ w.blocks.map Block.id) (kind : BlockKind) (name : String)
    (requests : List SlotRequest) (uid : Option String) :
    (w.attachBlock parent kind name requests uid).2.body.toList.Perm
      (w.body.toList ++ [w.newBlock kind name requests uid]) := by
  have hperm := perm_blocks_attachBlock hids hparent kind name requests uid
  have hroot : (w.attachBlock parent kind name requests uid).2.root = w.root := root_modifyBelow ..
  rw [blocks_eq, blocks_eq, hroot, List.cons_append] at hperm
  exact hperm.cons_inv

/-- A block that has just been attached may as well be changed beforehand. -/
theorem modifyBlock_attached (h : w.WellFormed) (parent : BlockId) {block : Block}
    (hid : block.id = ⟨w.nextId⟩) {f : Block → Block} (hf : ∀ b, (f b).id = b.id) :
    (w.modifyBelow parent fun children => children.append (.tree block .nil)).modifyBlock
        ⟨w.nextId⟩ f =
      w.modifyBelow parent fun children => children.append (.tree (f block) .nil) := by
  let change := fun b : Block => if b.id = ⟨w.nextId⟩ then f b else b
  have hchange : ∀ b, (change b).id = b.id := by
    intro b
    dsimp only [change]
    split
    · exact hf b
    · rfl
  have hsame : w.mapBlocks change = w := by
    refine mapBlocks_eq_self fun b hb => if_neg fun hbid => h.fresh_not_mem_ids ?_
    exact hbid ▸ List.mem_map_of_mem hb
  have hshape := @mapBlocks_modifyBelow _ w parent _
    (fun children => children.append (.tree block .nil))
    (fun children => children.append (.tree (f block) .nil)) hchange fun below => by
      rw [Forest.map_append]
      exact congrArg (fun b => (below.map change).append (.tree b .nil)) (if_pos hid)
  rw [hsame] at hshape
  exact hshape

/-- A new block may as well be attached under the name that it is given afterwards. -/
theorem modifyBlock_attachBlock (h : w.WellFormed) (parent : BlockId) (kind : BlockKind)
    (old name : String) (requests : List SlotRequest) (uid : Option String) :
    (w.attachBlock parent kind old requests uid).2.modifyBlock ⟨w.nextId⟩
        (fun block => { block with name := name }) =
      (w.attachBlock parent kind name requests uid).2 :=
  congrArg (fun grown : Workflow μ => { grown with nextId := w.nextId + 1 + requests.length })
    (modifyBlock_attached h parent (f := fun block => { block with name := name })
      (show (w.newBlock kind old requests uid).id = ⟨w.nextId⟩ from rfl) fun _ => rfl)

theorem makeSlots_append_one (uidStem : String) (first : Nat) (requests : List SlotRequest)
    (request : SlotRequest) :
    makeSlots uidStem first (requests ++ [request]) = makeSlots uidStem first requests ++
      [Slot.ofRequest ⟨first + requests.length⟩ (freshUid uidStem (first + requests.length))
        request] := by
  induction requests generalizing first with
  | nil => rfl
  | cons other requests ih =>
    rw [List.cons_append, makeSlots, makeSlots, ih, List.length_cons, Nat.add_right_comm,
      Nat.add_assoc, List.cons_append]

theorem appendSlot_attachBlock (h : w.WellFormed) (parent : BlockId) (kind : BlockKind)
    (name : String) (requests : List SlotRequest) (request : SlotRequest) (uid : Option String) :
    (w.attachBlock parent kind name requests uid).2.appendSlot ⟨w.nextId⟩ request =
      (w.attachBlock parent kind name (requests ++ [request]) uid).2 := by
  have hstem : (w.attachBlock parent kind name requests uid).2.uidStem = w.uidStem :=
    uidStem_modifyBelow ..
  have hnext : (w.attachBlock parent kind name requests uid).2.nextId =
      w.nextId + 1 + requests.length := rfl
  let slot := Slot.ofRequest ⟨w.nextId + 1 + requests.length⟩
    (freshUid w.uidStem (w.nextId + 1 + requests.length)) request
  have hattached := modifyBlock_attached h parent
    (f := fun block => { block with slots := block.slots ++ [slot] })
    (show (w.newBlock kind name requests uid).id = ⟨w.nextId⟩ from rfl) fun _ => rfl
  have hslots : { w.newBlock kind name requests uid with
      slots := (w.newBlock kind name requests uid).slots ++ [slot] } =
      w.newBlock kind name (requests ++ [request]) uid := by
    rw [newBlock, newBlock, makeSlots_append_one]
  rw [hslots] at hattached
  rw [appendSlot, hstem, hnext, attachBlock, attachBlock, List.length_append, List.length_singleton]
  exact congrArg (fun grown : Workflow μ =>
    { grown with nextId := w.nextId + 1 + requests.length + 1 }) hattached

/-- The slots that a new block is made with may as well be added one by one. -/
theorem foldl_appendSlot_attachBlock (h : w.WellFormed) (parent : BlockId) (kind : BlockKind)
    (name : String) (made requests : List SlotRequest) (uid : Option String) :
    requests.foldl (fun grown request => grown.appendSlot ⟨w.nextId⟩ request)
        (w.attachBlock parent kind name made uid).2 =
      (w.attachBlock parent kind name (made ++ requests) uid).2 := by
  induction requests generalizing made with
  | nil => rw [List.append_nil, List.foldl_nil]
  | cons request requests ih =>
    rw [List.foldl_cons, appendSlot_attachBlock h, ih, List.append_assoc, List.singleton_append]

namespace WellFormed

/-- Elements may come and go as long as the slots at the ends of links stay. -/
theorem of_stay (h : w.WellFormed) (hb : BlocksSound w'.root.id w'.nextId w'.blocks)
    (hlinks : w'.links = w.links) (hle : w.nextId ≤ w'.nextId)
    (hstay : ∀ slot ∈ w.slots, (∃ link ∈ w.links, link.touches slot.id = true) → slot ∈ w'.slots) :
    w'.WellFormed where
  blocks := hb
  links := by
    rw [hlinks]
    exact h.links.of_slots hle fun slot hs ht => ⟨slot, hstay slot hs ht, rfl, rfl⟩
  types := by
    rw [hlinks]
    refine h.types.of_stay h.links ?_ hstay
    rw [slots_eq]
    exact hb.slotIds

/-- A new block with the slots it is made with. -/
theorem attachBlock (h : w.WellFormed) {parent : BlockId} (hparent : parent ∈ w.blocks.map Block.id)
    (kind : BlockKind) (name : String) {requests : List SlotRequest} (hr : Separate requests)
    (uid : Option String) : (w.attachBlock parent kind name requests uid).2.WellFormed := by
  have hp := perm_blocks_attachBlock h.blocks.ids hparent kind name requests uid
  have hnext : (w.attachBlock parent kind name requests uid).2.nextId =
      w.nextId + 1 + requests.length := rfl
  have hroot : (w.attachBlock parent kind name requests uid).2.root.id = w.root.id := by
    simp [Workflow.attachBlock]
  have hlinks : (w.attachBlock parent kind name requests uid).2.links = w.links := by
    simp [Workflow.attachBlock]
  refine h.of_stay ?_ hlinks (by omega) fun slot hs _ => ?_
  · rw [hroot, hnext]
    refine (h.blocks.append_one ⟨Nat.le_refl _, ?_⟩ ?_ ?_ ?_ ?_).perm hp
    · show w.nextId < _
      omega
    · intro slot hs
      have hid := List.mem_map_of_mem (f := Slot.id) hs
      rw [newBlock, map_id_makeSlots, List.mem_map] at hid
      obtain ⟨n, hn, hnid⟩ := hid
      rw [List.mem_range'_1] at hn
      rw [← hnid]
      dsimp only
      omega
    · rw [newBlock, map_id_makeSlots]
      exact (List.nodup_range' ..).map fun _ _ => congrArg SlotId.val
    · rw [newBlock, map_name_makeSlots]
      exact hr.names
    · intro slot hs
      obtain ⟨request, hm, id, uid, rfl⟩ := exists_request_of_mem_makeSlots hs
      exact ⟨Slot.sound_ofRequest .., hr.inside request hm⟩
  · obtain ⟨block, hb, hsb⟩ := mem_slots.mp hs
    exact mem_slots.mpr ⟨block, hp.mem_iff.mpr (List.mem_append_left _ hb), hsb⟩

theorem addBlock (h : w.WellFormed) {parent : BlockId} {kind : BlockKind} {uid : Option String}
    {added : BlockId × Workflow μ} (hw : w.addBlock parent kind uid = .ok added) :
    added.2.WellFormed := by
  obtain ⟨⟨container, hc⟩, rfl⟩ := addBlock_eq_ok.mp hw
  exact h.attachBlock (h.mem_ids_of_getContainer hc) kind _ (separate_defaultSlots kind) uid

theorem addModelSetup (h : w.WellFormed) {parent : BlockId} {setup : ModelSetup}
    {uid : Option String} {added : BlockId × Workflow μ}
    (hw : w.addModelSetup parent setup uid = .ok added) : added.2.WellFormed := by
  obtain ⟨modelClass, -, hr, ⟨container, hc⟩, rfl⟩ := addModelSetup_eq_ok.mp hw
  exact h.attachBlock (h.mem_ids_of_getContainer hc) _ _ (separate_slotRequests hr) uid

theorem addSlot (h : w.WellFormed) {owner : BlockId} {request : SlotRequest}
    {added : SlotId × Workflow μ} (hw : w.addSlot owner request = .ok added) :
    added.2.WellFormed := by
  obtain ⟨block, hb, hborder, hname, rfl⟩ := addSlot_eq_ok.mp hw
  rw [getBlock_eq_ok, h.block?_eq_some] at hb
  obtain ⟨hb, rfl⟩ := hb
  have hroot : (w.appendSlot block.id request).root.id = w.root.id := by
    show (if w.root.id = block.id then _ else w.root : Block).id = _
    split <;> rfl
  refine h.of_stay ?_ rfl (Nat.le_succ _) fun slot hs _ => ?_
  · rw [hroot]
    have hsound := Slot.sound_ofRequest ⟨w.nextId⟩ (freshUid w.uidStem w.nextId) request
    have hblocks := h.blocks.append_slot hb rfl ?_ hsound hborder
    · rw [blocks_appendSlot]
      exact hblocks
    · intro s hs
      show s.name ≠ request.name
      simpa using List.find?_eq_none.mp hname s hs
  · obtain ⟨b, hb', hsb⟩ := mem_slots.mp hs
    refine mem_slots.mpr ⟨_, by rw [blocks_appendSlot]; exact List.mem_map_of_mem hb', ?_⟩
    split
    · exact List.mem_append_left _ hsb
    · exact hsb

-- ---------------------------------------------------------------------------
-- Elements that go
-- ---------------------------------------------------------------------------

/-- Links may go. -/
theorem filterLinks (h : w.WellFormed) (p : Link → Bool) :
    { w with links := w.links.filter p }.WellFormed where
  blocks := h.blocks
  links := h.links.filter p
  types := h.types.of_slots (fun _ => List.mem_of_mem_filter) fun slot hs _ => ⟨slot, hs, rfl, rfl, rfl⟩

/-- Slots may go together with the links that touch them. -/
theorem dropLinksOf (h : w.WellFormed) {gone : SlotId → Bool}
    (hb : BlocksSound w'.root.id w'.nextId w'.blocks) (hlinks : w'.links = w.links)
    (hnext : w'.nextId = w.nextId)
    (hstay : ∀ slot ∈ w.slots, gone slot.id = false → slot ∈ w'.slots) :
    (w'.dropLinksOf gone).WellFormed := by
  refine (h.filterLinks fun link => !gone link.source && !gone link.target).of_stay hb ?_ ?_ ?_
  · rw [← hlinks]
    rfl
  · exact Nat.le_of_eq hnext.symm
  · rintro slot hs ⟨link, hlink, htouch⟩
    refine hstay slot hs ?_
    simp only [List.mem_filter, Bool.and_eq_true, Bool.not_eq_true'] at hlink
    simp only [Link.touches, Bool.or_eq_true, decide_eq_true_eq] at htouch
    rcases htouch with hid | hid <;> rw [← hid]
    · exact hlink.2.1
    · exact hlink.2.2

theorem dropSlots (h : w.WellFormed) (ids : List SlotId) : (w.dropSlots ids).WellFormed := by
  refine h.dropLinksOf ?_ rfl rfl ?_
  · refine h.blocks.of_keeps ?_
    rw [blocks_mapBlocks, List.forall₂_map_right_iff]
    refine List.forall₂_same.mpr fun block hb => ⟨rfl, ?_, ?_, ?_, ?_⟩
    · exact List.filter_sublist.map _
    · exact (h.blocks.slotNames block hb).sublist (List.filter_sublist.map _)
    · exact fun slot hs => h.blocks.slotSound block hb slot (List.mem_of_mem_filter hs)
    · exact fun slot hs hext => ⟨slot, List.mem_of_mem_filter hs, hext⟩
  · intro slot hs hid
    obtain ⟨block, hb, hsb⟩ := mem_slots.mp hs
    refine mem_slots.mpr ⟨_, by rw [blocks_mapBlocks]; exact List.mem_map_of_mem hb, ?_⟩
    exact List.mem_filter.mpr ⟨hsb, by simpa using hid⟩

theorem removeSlot (h : w.WellFormed) {id : SlotId} (hw : w.removeSlot id = .ok w') :
    w'.WellFormed := by
  obtain ⟨-, rfl⟩ := removeSlot_eq_ok.mp hw
  exact h.dropSlots [id]

theorem removeBlock (h : w.WellFormed) {id : BlockId} (hw : w.removeBlock id = .ok w') :
    w'.WellFormed := by
  obtain ⟨hroot, block, below, hfind, rfl⟩ := removeBlock_eq_ok.mp hw
  have hp := perm_blocks_prune h.blocks.ids hroot hfind
  refine h.dropLinksOf (h.blocks.perm hp.symm).left_of_append rfl rfl ?_
  intro slot hs hgone
  obtain ⟨owner, ho, hso⟩ := mem_slots.mp hs
  rcases List.mem_append.mp (hp.mem_iff.mp ho) with hstay | hgo
  · exact mem_slots.mpr ⟨owner, hstay, hso⟩
  · have hmem : slot.id ∈ slotsWithin block below :=
      List.mem_flatMap.mpr ⟨owner, hgo, List.mem_map_of_mem hso⟩
    rw [← List.contains_iff_mem, hgone] at hmem
    cases hmem

-- ---------------------------------------------------------------------------
-- Moves
-- ---------------------------------------------------------------------------

/-- A container outside a subtree is still there when the subtree is cut. -/
theorem mem_ids_prune_of_getContainer (h : w.WellFormed) {id parent : BlockId}
    {block container : Block} {below : Forest Block} (hroot : id ≠ w.root.id)
    (hfind : w.subtree? id = some (block, below)) (hc : w.getContainer parent = .ok container)
    (hout : parent ∉ (Forest.tree block below).ids) :
    parent ∈ { w with body := w.body.prune (·.id = id) }.blocks.map Block.id := by
  have hparent := h.mem_ids_of_getContainer hc
  have hp := (perm_blocks_prune h.blocks.ids hroot hfind).map Block.id
  rw [hp.mem_iff, List.map_append, List.mem_append] at hparent
  exact hparent.resolve_right hout

/-- A move changes the order of the blocks, and nothing else. -/
theorem perm_blocks_moveBlock (h : w.WellFormed) {id parent : BlockId} {index : Nat}
    (hw : w.moveBlock id parent index = .ok w') : w'.blocks.Perm w.blocks := by
  obtain ⟨hroot, block, below, hfind, ⟨container, hc⟩, hacyclic, rfl⟩ := moveBlock_eq_ok.mp hw
  have hp := perm_blocks_prune h.blocks.ids hroot hfind
  have hcut := (h.blocks.perm hp.symm).left_of_append
  have hparent := h.mem_ids_prune_of_getContainer hroot hfind hc hacyclic
  refine (perm_blocks_modifyBelow hcut.ids hparent fun children => ?_).trans hp.symm
  rw [Forest.toList_tree]
  exact (Forest.toList_insertAt_perm ..).trans (@List.perm_append_comm _ (block :: below.toList) _)

theorem moveBlock (h : w.WellFormed) {id parent : BlockId} {index : Nat}
    (hw : w.moveBlock id parent index = .ok w') : w'.WellFormed := by
  have hp := h.perm_blocks_moveBlock hw
  obtain ⟨-, block, below, -, -, -, rfl⟩ := moveBlock_eq_ok.mp hw
  refine h.of_stay ?_ ?_ ?_ fun slot hs _ => ?_
  · rw [root_modifyBelow, nextId_modifyBelow]
    exact h.blocks.perm hp
  · exact links_modifyBelow ..
  · refine Nat.le_of_eq ?_
    rw [nextId_modifyBelow]
  · obtain ⟨owner, ho, hso⟩ := mem_slots.mp hs
    exact mem_slots.mpr ⟨owner, hp.mem_iff.mpr ho, hso⟩

-- ---------------------------------------------------------------------------
-- Links
-- ---------------------------------------------------------------------------

/-- The links that there are agree with the type that a connection gives to a slot. -/
theorem types_takeOn (h : w.WellFormed) {a b : Slot} (ha : a ∈ w.slots) (hb : b ∈ w.slots) :
    LinksTyped (w.slots.map (Slot.takeOn (adoptedType? a b))) w.links := by
  intro link hl s' hs' t' ht' hsource htarget
  obtain ⟨s, hs, rfl⟩ := List.mem_map.mp hs'
  obtain ⟨t, ht, rfl⟩ := List.mem_map.mp ht'
  rw [Slot.id_takeOn] at hsource htarget
  have hagree := h.types link hl s hs t ht hsource htarget
  -- a slot that takes on a type stands on the border and has none yet
  have hborder : ∀ slot ∈ w.slots, slot.takeOn (adoptedType? a b) = slot ∨
      slot.external = true ∧ slot.type = .unknown := by
    intro slot hslot
    have hsame : ∀ x ∈ w.slots, slot.id = x.id → slot = x := fun x hx hid =>
      List.inj_on_of_nodup_map h.slotIds hslot hx hid
    unfold adoptedType?
    split
    · rename_i hua
      rw [Slot.takeOn]
      split
      · rename_i hid
        rw [hsame a ha hid]
        exact .inr hua
      · exact .inl rfl
    · split
      · rename_i hub
        rw [Slot.takeOn]
        split
        · rename_i hid
          rw [hsame b hb hid]
          exact .inr hub
        · exact .inl rfl
      · exact .inl rfl
  rcases hborder s hs with hs' | ⟨hsext, hstype⟩ <;> rcases hborder t ht with ht' | ⟨htext, httype⟩
  · rw [hs', ht']
    exact hagree
  · rw [hs']
    constructor <;> simp only [Slot.external_takeOn, htext]
    · exact fun _ h => Bool.noConfusion h
    · exact fun _ h => Bool.noConfusion h
    · exact fun _ hsext _ => hagree.target htext hsext httype
  · rw [ht']
    constructor <;> simp only [Slot.external_takeOn, hsext]
    · exact fun h => Bool.noConfusion h
    · exact fun _ htext _ => hagree.source hsext htext hstype
    · exact fun _ h => Bool.noConfusion h
  · constructor <;> simp only [Slot.external_takeOn, hsext, htext]
    · exact fun h => Bool.noConfusion h
    · exact fun _ h => Bool.noConfusion h
    · exact fun _ h => Bool.noConfusion h

/-- Two slots that may be linked agree when they are. -/
theorem agree_takeOn {a b : Slot} (hid : a.id ≠ b.id) (h : a.compatible b = true) :
    (a.takeOn (adoptedType? a b)).Agree (b.takeOn (adoptedType? a b)) := by
  simp only [Slot.compatible, Bool.and_eq_true, Bool.or_eq_true, decide_eq_true_eq] at h
  unfold adoptedType?
  split
  · rename_i hua
    have ha : a.takeOn (some (a.id, b.type)) = { a with type := b.type } := if_pos rfl
    have hb : b.takeOn (some (a.id, b.type)) = b := if_neg hid.symm
    rw [ha, hb]
    exact ⟨fun _ _ => rfl, fun _ _ h => h, fun _ _ h => h⟩
  · rename_i hua
    split
    · rename_i hub
      have ha : a.takeOn (some (b.id, a.type)) = a := if_neg hid
      have hb : b.takeOn (some (b.id, a.type)) = { b with type := a.type } := if_pos rfl
      rw [ha, hb]
      exact ⟨fun _ _ => rfl, fun _ _ h => h, fun _ _ h => h⟩
    · rename_i hub
      refine ⟨fun ha hb => ?_, fun ha _ htype => ?_, fun hb _ htype => ?_⟩
      · simpa [Slot.takeOn, show a.external = false from ha, show b.external = false from hb] using h.2
      · exact absurd ⟨ha, htype⟩ hua
      · exact absurd ⟨hb, htype⟩ hub

/-- The slot that takes on a type may do so before the link is there. -/
theorem adopt (h : w.WellFormed) {a b : Slot} (ha : a ∈ w.slots) (hb : b ∈ w.slots) :
    (w.adopt (adoptedType? a b)).WellFormed := by
  rw [adopt_eq_mapSlots]
  exact h.mapSlots (fun slot => by simp) (fun slot hs => hs.takeOn _) (h.types_takeOn ha hb)

theorem connect (h : w.WellFormed) {a b : SlotId} {uid : Option String}
    {added : LinkId × Workflow μ} (hw : w.connect a b uid = .ok added) : added.2.WellFormed := by
  obtain ⟨first, second, plan, ha, hb, hplan, rfl⟩ := connect_eq_ok.mp hw
  rw [getOwnedSlot_eq_ok] at ha hb
  obtain ⟨hfirst, hfirstSlot, -⟩ := mem_of_ownedSlot? ha
  obtain ⟨hsecond, hsecondSlot, -⟩ := mem_of_ownedSlot? hb
  have hfirst : first.slot ∈ w.slots := mem_slots.mpr ⟨_, hfirst, hfirstSlot⟩
  have hsecond : second.slot ∈ w.slots := mem_slots.mpr ⟨_, hsecond, hsecondSlot⟩
  obtain ⟨source, target, hends, hout, hin, hroom, rfl⟩ := ends_of_connection hplan
  obtain ⟨hne, -, hcompatible, -⟩ := connection_eq_ok.mp hplan
  let adopts := adoptedType? first.slot second.slot
  have htyped : (w.adopt adopts).WellFormed := h.adopt hfirst hsecond
  have hmem : ∀ slot ∈ w.slots, slot.takeOn adopts ∈ (w.adopt adopts).slots := by
    intro slot hs
    rw [adopt_eq_mapSlots, slots_mapSlots]
    exact List.mem_map_of_mem hs
  have hsource : source ∈ w.slots ∧ target ∈ w.slots ∧
      (source.takeOn adopts).Agree (target.takeOn adopts) := by
    have hagree := agree_takeOn hne hcompatible
    rcases hends with ⟨rfl, rfl⟩ | ⟨rfl, rfl⟩
    · exact ⟨hfirst, hsecond, hagree⟩
    · exact ⟨hsecond, hfirst, hagree.symm⟩
  obtain ⟨hsource, htarget, hagree⟩ := hsource
  have hfree : ∀ other ∈ w.links, other.target ≠ target.id := by
    intro other ho heq
    have htouch := not_touches_of_isFull hin hroom other ho
    simp [Link.touches, heq] at htouch
  have hlinks := htyped.links
  have htypes := htyped.types
  have hids := htyped.slotIds
  rw [links_adopt, nextId_adopt] at hlinks
  rw [links_adopt] at htypes
  constructor
  · have hblocks := htyped.blocks.mono (Nat.le_succ _)
    rwa [nextId_adopt] at hblocks
  · refine hlinks.append_one rfl ⟨_, hmem source hsource, Slot.id_takeOn .., ?_⟩
      ⟨_, hmem target htarget, Slot.id_takeOn .., ?_⟩ hfree
    · rw [Slot.direction, Slot.kind_takeOn]
      exact hout
    · rw [Slot.direction, Slot.kind_takeOn]
      exact hin
  · refine htypes.append_one fun s hs t ht hsid htid => ?_
    rw [List.inj_on_of_nodup_map hids hs (hmem source hsource) (by simpa using hsid),
      List.inj_on_of_nodup_map hids ht (hmem target htarget) (by simpa using htid)]
    exact hagree

theorem disconnect (h : w.WellFormed) (id : LinkId) : (w.disconnect id).2.WellFormed := by
  unfold Workflow.disconnect
  split
  · exact h.filterLinks _
  · exact h

theorem disconnectSlots (h : w.WellFormed) (a b : SlotId) :
    (w.disconnectSlots a b).2.WellFormed := by
  unfold Workflow.disconnectSlots
  split
  · exact h.disconnect _
  · exact h

end WellFormed

end Workflow

end SlotFlow
