import SlotFlow.Proofs.Document.BlockPass
/-!
# The records of slots

The records of the slots of a workflow stand block by block. Those of the slots that a block is made
with come first, so each finds the slot of its name and changes it; each of the others asks for a
slot of a name that the block does not have yet.

The induction is on the records of a block, over the slots that have been dealt with and those that
have not, and then on the blocks.

* `Workflow.Refilled` — a workflow with other slots in its blocks.

## Results

* `Workflow.exists_refilled_made`, `Workflow.exists_refilled_added` — the two sorts of slots;
* `Workflow.exists_refilled_each` — from the records of one block to those of all;
* `Workflow.Restorable.outlined` — after the records of slots the tree is that of the workflow that
  was saved, apart from numbers.
-/

namespace SlotFlow

/-- The records of the slots of a block. -/
def Block.slotEntries (block : Block) : List (SlotData × SlotKind) :=
  block.slots.map fun slot => (slot.data (some block.uid), slot.kind)

/-- A block has the slots that another is made with, and the records of the other's slots fit it. -/
structure Block.Awaits (root : BlockId) (block saved : Block) : Prop where
  slots : ∃ requests, saved.MadeWith requests ∧
    List.Forall₂ (fun request slot => ∃ id uid, slot = Slot.ofRequest id uid request) requests
      block.slots
  names : (saved.slots.map Slot.name).Nodup
  sound : ∀ slot ∈ saved.slots, slot.Sound
  border : ∀ slot ∈ saved.slots, slot.external = true → block.id = root

/-- A block, with other slots if it has a number. -/
def Block.fill (id : BlockId) (slots : List Slot) (block : Block) : Block :=
  if block.id = id then { block with slots := slots } else block

namespace Block

variable {id : BlockId} {slots : List Slot} {block : Block}

@[simp] theorem id_fill : (block.fill id slots).id = block.id := by
  unfold fill
  split <;> rfl

@[simp] theorem label_fill : (block.fill id slots).label = block.label := by
  unfold fill
  split <;> rfl

@[simp] theorem uid_fill : (block.fill id slots).uid = block.uid :=
  uid_eq_of_label label_fill

theorem fill_self : block.fill block.id slots = { block with slots := slots } :=
  if_pos rfl

theorem fill_of_ne (h : block.id ≠ id) : block.fill id slots = block :=
  if_neg h

theorem fill_fill (others : List Slot) :
    (block.fill id slots).fill id others = block.fill id others := by
  by_cases h : block.id = id
  · subst h
    rw [fill_self, fill_self]
    exact fill_self
  · rw [fill_of_ne h]

end Block

/-- Changes that do the same to every label do the same to the forest. -/
theorem Forest.map_congr {α β : Type} {f g : α → β} {forest : Forest α}
    (h : ∀ a ∈ forest.toList, f a = g a) : forest.map f = forest.map g :=
  Forest.map_eq_of_map_eq (g := id) (f := id) rfl fun a _ b hb hab => by
    obtain rfl : b = a := hab
    exact h b hb

namespace Workflow

variable {μ : Type} {v u w : Workflow μ}

/-- A workflow without links whose blocks have been changed inside. -/
structure Refilled (f : Block → Block) (v u : Workflow μ) : Prop where
  unlinked : u.Unlinked
  name : u.name = v.name
  tree : u.tree = v.tree.map f

namespace Refilled

variable {f g : Block → Block}

theorem blocks (h : Refilled f v u) : u.blocks = v.blocks.map f := by
  rw [Workflow.blocks, h.tree, Forest.toList_map]
  rfl

theorem root (h : Refilled f v u) : u.root = f v.root := by
  have htree := h.tree
  injection htree

/-- A block that is left alone is still there. -/
theorem mem_of_eq (h : Refilled f v u) {b : Block} (hb : b ∈ v.blocks) (heq : f b = b) :
    b ∈ u.blocks := by
  rw [h.blocks]
  exact List.mem_map.mpr ⟨b, hb, heq⟩

theorem trans {t : Workflow μ} (h : Refilled f v u) (h' : Refilled g u t) :
    Refilled (g ∘ f) v t where
  unlinked := h'.unlinked
  name := h'.name.trans h.name
  tree := by rw [h'.tree, h.tree, Forest.map_map]

theorem congr (h : Refilled f v u) (heq : ∀ b ∈ v.blocks, f b = g b) : Refilled g v u where
  unlinked := h.unlinked
  name := h.name
  tree := h.tree.trans (Forest.map_congr heq)

end Refilled

-- ---------------------------------------------------------------------------
-- One record
-- ---------------------------------------------------------------------------

/-- A change of one slot of a block, written as a change of the list of its slots. -/
theorem map_modify_of_nodup {before after : List Slot} {slot : Slot}
    (hids : ((before ++ slot :: after).map Slot.id).Nodup) (g : Slot → Slot) :
    (before ++ slot :: after).map (fun s => if s.id = slot.id then g s else s) =
      before ++ g slot :: after := by
  rw [List.map_append, List.map_cons, List.nodup_append, List.nodup_cons] at hids
  obtain ⟨-, ⟨hafter, -⟩, hdis⟩ := hids
  have hkeep : ∀ xs : List Slot, (∀ s ∈ xs, s.id ≠ slot.id) →
      xs.map (fun s => if s.id = slot.id then g s else s) = xs := by
    intro xs hxs
    rw [List.map_congr_left fun s hs => if_neg (hxs s hs), List.map_id'']
    exact fun _ => rfl
  rw [List.map_append, List.map_cons, if_pos rfl, hkeep before, hkeep after]
  · exact fun s hs heq => hafter (heq ▸ List.mem_map_of_mem hs)
  · exact fun s hs => hdis _ (List.mem_map_of_mem hs) _ List.mem_cons_self

/-- A record that names a slot of the block changes that slot. -/
theorem refilled_of_named (h : v.Unlinked) (huids : (v.blocks.map Block.uid).Nodup) {c : Block}
    (hc : c ∈ v.blocks) {data : SlotData} {kind : SlotKind} (howner : data.owner = some c.uid)
    {before after : List Slot} {slot : Slot} (hslots : c.slots = before ++ slot :: after)
    (hname : slot.name = data.name) (hbefore : ∀ s ∈ before, s.name ≠ data.name) :
    Refilled (Block.fill c.id (before ++ applyRecord data slot :: after)) v
      (v.addRecordedSlot data kind) := by
  have hw := h.wellFormed
  have hfind : data.owner.bind v.blockWithUid? = some c := by
    rw [howner]
    exact (blockWithUid?_eq_some huids).mpr ⟨hc, rfl⟩
  have hslot : c.slot? data.name = some slot := by
    have hnone : before.find? (·.name = data.name) = none := by
      simpa [List.find?_eq_none] using hbefore
    rw [Block.slot?, hslots, List.find?_append, hnone, List.find?_cons_of_pos (by simpa using hname)]
    rfl
  have hmem : slot ∈ c.slots := hslots ▸ List.mem_append_right _ List.mem_cons_self
  have hadd : v.addRecordedSlot data kind = v.modifySlot slot.id (applyRecord data) := by
    rw [addRecordedSlot, hfind]
    dsimp only
    rw [hslot]
  refine ⟨h.addRecordedSlot data kind, ?_, ?_⟩ <;> rw [hadd]
  · rfl
  · show v.tree.map (fun b : Block => { b with
      slots := b.slots.map (fun s : Slot => if s.id = slot.id then applyRecord data s else s) }) = _
    refine Forest.map_congr fun b hb => ?_
    by_cases hid : b.id = c.id
    · obtain rfl := hw.block_ext hb hc hid
      have hids := hw.blocks.slotIds_of_mem hb
      rw [hslots] at hids
      rw [Block.fill_self, hslots, map_modify_of_nodup hids]
    · have hsame : b.slots.map (fun s => if s.id = slot.id then applyRecord data s else s) =
          b.slots := by
        rw [List.map_congr_left fun s hs => if_neg fun hsid =>
          hid (congrArg Block.id (hw.slot_ext hb hc hs hmem hsid).1), List.map_id'']
        exact fun _ => rfl
      rw [Block.fill_of_ne hid, hsame]

/-- A record that names no slot of the block asks for one. -/
theorem refilled_of_new (h : v.Unlinked) (huids : (v.blocks.map Block.uid).Nodup) {c : Block}
    (hc : c ∈ v.blocks) {data : SlotData} {kind : SlotKind} (howner : data.owner = some c.uid)
    (hname : ∀ s ∈ c.slots, s.name ≠ data.name)
    (hborder : kind.external = true → c.id = v.root.id) :
    ∃ id uid, Refilled
      (Block.fill c.id (c.slots ++ [Slot.ofRequest id uid (recordedRequest data kind)])) v
      (v.addRecordedSlot data kind) := by
  have hw := h.wellFormed
  have hfind : data.owner.bind v.blockWithUid? = some c := by
    rw [howner]
    exact (blockWithUid?_eq_some huids).mpr ⟨hc, rfl⟩
  have hslot : c.slot? data.name = none := by
    rw [Block.slot?, List.find?_eq_none]
    simpa using hname
  have hgranted : v.addSlot c.id (recordedRequest data kind) =
      .ok (⟨v.nextId⟩, v.appendSlot c.id (recordedRequest data kind)) :=
    addSlot_eq_ok.mpr ⟨c, getBlock_eq_ok.mpr (hw.block?_eq_some.mpr ⟨hc, rfl⟩), hborder, hslot, rfl⟩
  have hadd : v.addRecordedSlot data kind = v.appendSlot c.id (recordedRequest data kind) := by
    rw [addRecordedSlot, hfind]
    dsimp only
    rw [hslot]
    dsimp only
    rw [hgranted]
  refine ⟨⟨v.nextId⟩, freshUid v.uidStem v.nextId, h.addRecordedSlot data kind, ?_, ?_⟩ <;> rw [hadd]
  · rfl
  · show v.tree.map (fun b : Block => if b.id = c.id then { b with
      slots := b.slots ++ [Slot.ofRequest ⟨v.nextId⟩ (freshUid v.uidStem v.nextId)
        (recordedRequest data kind)] } else b) = _
    refine Forest.map_congr fun b hb => ?_
    by_cases hid : b.id = c.id
    · obtain rfl := hw.block_ext hb hc hid
      rw [Block.fill_self, if_pos rfl]
    · rw [Block.fill_of_ne hid, if_neg hid]

-- ---------------------------------------------------------------------------
-- The records of a block
-- ---------------------------------------------------------------------------

/-- Deals with the records of slots in turn. -/
def addEntries (v : Workflow μ) (entries : List (SlotData × SlotKind)) : Workflow μ :=
  entries.foldl (fun v (data, kind) => v.addRecordedSlot data kind) v

theorem Refilled.uids {id : BlockId} {slots : List Slot} (h : Refilled (Block.fill id slots) v u) :
    u.blocks.map Block.uid = v.blocks.map Block.uid := by
  rw [h.blocks, List.map_map]
  exact List.map_congr_left fun b _ => Block.uid_fill

/-- The block that has been filled is there with its new slots. -/
theorem Refilled.mem_fill {c : Block} {slots : List Slot}
    (h : Refilled (Block.fill c.id slots) v u) (hc : c ∈ v.blocks) :
    { c with slots := slots } ∈ u.blocks := by
  rw [h.blocks]
  exact List.mem_map.mpr ⟨c, hc, Block.fill_self⟩

/-- A block may be filled with the slots it has. -/
theorem Refilled.refl (h : v.Unlinked) {c : Block} (hc : c ∈ v.blocks) :
    Refilled (Block.fill c.id c.slots) v v where
  unlinked := h
  name := rfl
  tree := by
    refine (Forest.map_eq_self fun b hb => ?_).symm
    by_cases hid : b.id = c.id
    · obtain rfl := h.wellFormed.block_ext hb hc hid
      exact Block.fill_self
    · exact Block.fill_of_ne hid

/-- A block may be filled again. -/
theorem Refilled.again {id : BlockId} {slots others : List Slot} {t : Workflow μ}
    (h : Refilled (Block.fill id slots) v u) (h' : Refilled (Block.fill id others) u t) :
    Refilled (Block.fill id others) v t :=
  (h.trans h').congr fun _ _ => Block.fill_fill others

/-- The records of slots that a block is made with find these slots. What they make of them agrees
with the slots that were saved. -/
theorem exists_refilled_made (uid : String) {requests : List SlotRequest} {made fresh : List Slot}
    (hmade : List.Forall₂ (fun request slot => slot.Answers request) requests made)
    (hfresh : List.Forall₂ (fun request slot => ∃ id uid, slot = Slot.ofRequest id uid request)
      requests fresh) :
    ∀ {v : Workflow μ} {c : Block} (before : List Slot), v.Unlinked →
      (v.blocks.map Block.uid).Nodup → c ∈ v.blocks → c.uid = uid → c.slots = before ++ fresh →
      (∀ s ∈ before, ∀ t ∈ made, s.name ≠ t.name) → (made.map Slot.name).Nodup →
      ∃ slots, slots.map Slot.outline = made.map Slot.outline ∧
        Refilled (Block.fill c.id (before ++ slots)) v
          (v.addEntries (made.map fun slot => (slot.data (some uid), slot.kind))) := by
  induction hmade generalizing fresh with
  | nil =>
    intro v c before hv _ hc _ hslots _ _
    cases hfresh
    exact ⟨[], rfl, hslots ▸ .refl hv hc⟩
  | @cons request slot requests made hanswers _ ih =>
    intro v c before hv huids hc huid hslots hbefore hnames
    cases hfresh with
    | @cons _ first _ rest hfirst hrest =>
      obtain ⟨id, freshUid, rfl⟩ := hfirst
      rw [List.map_cons, List.nodup_cons] at hnames
      let data := slot.data (some uid)
      let changed := applyRecord data (Slot.ofRequest id freshUid request)
      have hchanged : changed.outline = slot.outline := hanswers.outline_applyRecord id freshUid _
      have hname : changed.name = slot.name := hanswers.name.symm
      have hstep : Refilled (Block.fill c.id (before ++ changed :: rest)) v
          (v.addRecordedSlot data slot.kind) :=
        refilled_of_named hv huids hc (congrArg some huid.symm) hslots hname
          fun s hs => hbefore s hs slot List.mem_cons_self
      have hbefore' : ∀ s ∈ before ++ [changed], ∀ t ∈ made, s.name ≠ t.name := by
        intro s hs t ht
        rw [List.mem_append, List.mem_singleton] at hs
        rcases hs with hs | rfl
        · exact hbefore s hs t (List.mem_cons_of_mem _ ht)
        · rw [hname]
          exact fun heq => hnames.1 (heq ▸ List.mem_map_of_mem ht)
      obtain ⟨slots, houtline, hrest⟩ := ih hrest (before ++ [changed]) hstep.unlinked
        (hstep.uids ▸ huids) (hstep.mem_fill hc) huid (by simp) hbefore' hnames.2
      refine ⟨changed :: slots, ?_, ?_⟩
      · rw [List.map_cons, List.map_cons, hchanged, houtline]
      · rw [List.append_assoc, List.singleton_append] at hrest
        exact hstep.again hrest

/-- The records of further slots bring them back. -/
theorem exists_refilled_added (uid : String) (added : List Slot) :
    ∀ {v : Workflow μ} {c : Block}, v.Unlinked → (v.blocks.map Block.uid).Nodup → c ∈ v.blocks →
      c.uid = uid → (∀ s ∈ c.slots, ∀ t ∈ added, s.name ≠ t.name) → (added.map Slot.name).Nodup →
      (∀ t ∈ added, t.Plain ∧ t.Sound ∧ (t.external = true → c.id = v.root.id)) →
      ∃ slots, slots.map Slot.outline = added.map Slot.outline ∧
        Refilled (Block.fill c.id (c.slots ++ slots)) v
          (v.addEntries (added.map fun slot => (slot.data (some uid), slot.kind))) := by
  induction added with
  | nil =>
    intro v c hv _ hc _ _ _ _
    refine ⟨[], rfl, ?_⟩
    rw [List.append_nil]
    exact .refl hv hc
  | cons slot added ih =>
    intro v c hv huids hc huid hdistinct hnames hsound
    rw [List.map_cons, List.nodup_cons] at hnames
    obtain ⟨hplain, hslot, hborder⟩ := hsound slot List.mem_cons_self
    let data := slot.data (some uid)
    obtain ⟨id, freshUid, hstep⟩ := @refilled_of_new _ _ hv huids c hc data slot.kind
      (congrArg some huid.symm) (fun s hs => hdistinct s hs slot List.mem_cons_self) hborder
    let new := Slot.ofRequest id freshUid (recordedRequest data slot.kind)
    have hnew : new.outline = slot.outline := hplain.outline_ofRequest hslot id freshUid _
    have hroot : (v.addRecordedSlot data slot.kind).root.id = v.root.id := by
      rw [hstep.root, Block.id_fill]
    have hdistinct' : ∀ s ∈ c.slots ++ [new], ∀ t ∈ added, s.name ≠ t.name := by
      intro s hs t ht
      rw [List.mem_append, List.mem_singleton] at hs
      rcases hs with hs | rfl
      · exact hdistinct s hs t (List.mem_cons_of_mem _ ht)
      · exact fun heq => hnames.1 (heq ▸ List.mem_map_of_mem ht)
    obtain ⟨slots, houtline, hrest⟩ := ih hstep.unlinked (hstep.uids ▸ huids) (hstep.mem_fill hc) huid
      hdistinct' hnames.2 fun t ht => hroot ▸ hsound t (List.mem_cons_of_mem _ ht)
    refine ⟨new :: slots, ?_, ?_⟩
    · rw [List.map_cons, List.map_cons, hnew, houtline]
    · rw [List.append_assoc, List.singleton_append] at hrest
      exact hstep.again hrest

/-- The records of the slots of a block bring them back. -/
theorem exists_refilled {b c : Block} (hv : v.Unlinked) (huids : (v.blocks.map Block.uid).Nodup)
    (hc : c ∈ v.blocks) (huid : c.uid = b.uid) (hb : c.Awaits v.root.id b) :
    ∃ slots, slots.map Slot.outline = b.slots.map Slot.outline ∧
      Refilled (Block.fill c.id slots) v (v.addEntries b.slotEntries) := by
  obtain ⟨requests, ⟨made, added, hslots, hmade, hplain⟩, hfresh⟩ := hb.slots
  have hnames := hb.names
  rw [hslots, List.map_append, List.nodup_append] at hnames
  obtain ⟨hmadeNames, haddedNames, hdistinct⟩ := hnames
  obtain ⟨first, hfirst, hstep⟩ := exists_refilled_made b.uid hmade hfresh [] hv huids hc huid
    (List.nil_append _).symm (by simp) hmadeNames
  rw [List.nil_append] at hstep
  have hroot : (v.addEntries (made.map fun slot => (slot.data (some b.uid), slot.kind))).root.id =
      v.root.id := by
    rw [hstep.root, Block.id_fill]
  have hfirstNames : first.map Slot.name = made.map Slot.name :=
    map_eq_of_map_eq hfirst fun s _ t _ hst =>
      Slot.eq_of_outline hst Slot.name fun _ => rfl
  obtain ⟨rest, hrest, hlast⟩ := exists_refilled_added b.uid added hstep.unlinked
    (hstep.uids ▸ huids) (hstep.mem_fill hc) huid
    (fun s hs t ht heq => hdistinct s.name (hfirstNames ▸ List.mem_map_of_mem hs) t.name
      (List.mem_map_of_mem ht) heq)
    haddedNames fun t ht => by
      have hmem : t ∈ b.slots := hslots ▸ List.mem_append_right _ ht
      rw [hroot]
      exact ⟨hplain t ht, hb.sound t hmem, hb.border t hmem⟩
  refine ⟨first ++ rest, ?_, ?_⟩
  · rw [hslots, List.map_append, List.map_append, hfirst, hrest]
  · rw [Block.slotEntries, hslots, List.map_append, addEntries, List.foldl_append]
    exact hstep.again hlast

-- ---------------------------------------------------------------------------
-- The records of all blocks
-- ---------------------------------------------------------------------------

section Each

variable {Awaits : BlockId → Block → Block → Prop} (Done : Block → Block → List Slot → Prop)

/-- If the records of the slots of any one block fill a block as they should, then those of several
blocks fill each the block of its uid. -/
theorem exists_refilled_each
    (hone : ∀ {v : Workflow μ} {b c : Block}, v.Unlinked → (v.blocks.map Block.uid).Nodup →
      c ∈ v.blocks → c.uid = b.uid → Awaits v.root.id c b →
      ∃ slots, Done c b slots ∧ Refilled (Block.fill c.id slots) v (v.addEntries b.slotEntries))
    (saved : List Block) :
    ∀ {v : Workflow μ}, v.Unlinked → (v.blocks.map Block.uid).Nodup →
      (saved.map Block.uid).Nodup →
      (∀ b ∈ saved, ∃ c ∈ v.blocks, c.uid = b.uid ∧ Awaits v.root.id c b) →
      ∃ f, Refilled f v (v.addEntries (saved.flatMap Block.slotEntries)) ∧
        (∀ c, (f c).label = c.label) ∧
        (∀ b ∈ saved, ∀ c ∈ v.blocks, c.uid = b.uid → Done c b (f c).slots) ∧
        ∀ c ∈ v.blocks, c.uid ∉ saved.map Block.uid → f c = c := by
  induction saved with
  | nil =>
    intro v hv _ _ _
    refine ⟨id, ⟨hv, rfl, (Forest.map_eq_self fun _ _ => rfl).symm⟩, fun _ => rfl, ?_, fun _ _ _ => rfl⟩
    intro b hb
    cases hb
  | cons b saved ih =>
    intro v hv huids hsaved hawaits
    rw [List.map_cons, List.nodup_cons] at hsaved
    obtain ⟨c, hc, huid, hb⟩ := hawaits b List.mem_cons_self
    obtain ⟨slots, hslots, hstep⟩ := hone hv huids hc huid hb
    have hroot : (v.addEntries b.slotEntries).root.id = v.root.id := by
      rw [hstep.root, Block.id_fill]
    -- a block with another uid is another block
    have hother : ∀ d ∈ v.blocks, d.uid ≠ b.uid → d.fill c.id slots = d := by
      intro d hd hne
      refine Block.fill_of_ne fun hid => hne ?_
      rw [hv.wellFormed.block_ext hd hc hid, huid]
    have hawaits' : ∀ other ∈ saved, ∃ d ∈ (v.addEntries b.slotEntries).blocks,
        d.uid = other.uid ∧ Awaits (v.addEntries b.slotEntries).root.id d other := by
      intro other ho
      obtain ⟨d, hd, hduid, hdother⟩ := hawaits other (List.mem_cons_of_mem _ ho)
      have hne : d.uid ≠ b.uid := by
        rw [hduid]
        exact fun heq => hsaved.1 (heq ▸ List.mem_map_of_mem ho)
      exact ⟨d, hstep.mem_of_eq hd (hother d hd hne), hduid, hroot ▸ hdother⟩
    obtain ⟨f, hrest, hlabel, hfilled, hkept⟩ :=
      ih hstep.unlinked (hstep.uids ▸ huids) hsaved.2 hawaits'
    have hrun : v.addEntries ((b :: saved).flatMap Block.slotEntries) =
        (v.addEntries b.slotEntries).addEntries (saved.flatMap Block.slotEntries) := by
      rw [List.flatMap_cons, addEntries, List.foldl_append]
      rfl
    refine ⟨f ∘ Block.fill c.id slots, hrun ▸ hstep.trans hrest, fun d => ?_, ?_, ?_⟩
    · rw [Function.comp_apply, hlabel, Block.label_fill]
    · intro other ho d hd hduid
      rw [Function.comp_apply]
      rcases List.mem_cons.mp ho with rfl | ho
      · -- the block that has just been dealt with is left alone afterwards
        obtain rfl : d = c := List.inj_on_of_nodup_map huids hd hc (hduid.trans huid.symm)
        rw [Block.fill_self, hkept _ (hstep.mem_fill hc) (by rw [hduid]; exact hsaved.1)]
        exact hslots
      · have hne : d.uid ≠ b.uid := by
          rw [hduid]
          exact fun heq => hsaved.1 (heq ▸ List.mem_map_of_mem ho)
        rw [hother d hd hne]
        exact hfilled other ho d (hstep.mem_of_eq hd (hother d hd hne)) hduid
    · intro d hd hnot
      rw [List.map_cons, List.mem_cons, not_or] at hnot
      rw [Function.comp_apply, hother d hd hnot.1]
      exact hkept d (hstep.mem_of_eq hd (hother d hd hnot.1)) hnot.2

end Each

/-- The records of the slots of a workflow. -/
theorem recordedSlots_records (w : Workflow μ) :
    recordedSlots w.records = w.blocks.flatMap Block.slotEntries := by
  have hblocks : recordedSlots (w.blocks.map w.recordOfBlock) = [] :=
    filterMap_blocks_eq_nil fun _ _ => rfl
  have hlinks : recordedSlots (w.links.map w.recordOfLink) = [] :=
    filterMap_links_eq_nil fun _ => rfl
  have hslots : recordedSlots (w.ownedSlots.map recordOfSlot) =
      w.ownedSlots.map fun owned => (owned.slot.data (some owned.owner.uid), owned.slot.kind) := by
    rw [recordedSlots, List.filterMap_map, ← List.filterMap_eq_map]
    rfl
  have happend : ∀ first second : List Record,
      recordedSlots (first ++ second) = recordedSlots first ++ recordedSlots second :=
    fun _ _ => List.filterMap_append
  rw [records, happend, happend, hblocks, hlinks, hslots, List.nil_append, List.append_nil,
    ownedSlots, List.map_flatMap]
  simp only [List.map_map, Function.comp_def]
  rfl

/-- A workflow without links that agrees with another apart from numbers. -/
structure Outlined (w sketch : Workflow μ) : Prop where
  unlinked : sketch.Unlinked
  name : sketch.name = w.name
  tree : sketch.tree.map Block.outline = w.tree.map Block.outline

namespace Drafted

variable {registry : Registry μ} {name : String}

theorem labels (h : Drafted registry name w.tree v) :
    v.blocks.map Block.label = w.blocks.map Block.label := by
  have hlist := congrArg Forest.toList h.tree
  rwa [Forest.toList_map, Forest.toList_map] at hlist

theorem uids (h : Drafted registry name w.tree v) (huids : (w.blocks.map Block.uid).Nodup) :
    (v.blocks.map Block.uid).Nodup := by
  rwa [map_eq_of_map_eq h.labels fun b _ c _ => Block.uid_eq_of_label]

/-- Each block has a counterpart with the slots it is made with. Slots on the border come to the
root. -/
theorem exists_block (h : Drafted registry name w.tree v) (hw : w.WellFormed)
    (huids : (w.blocks.map Block.uid).Nodup) {b : Block} (hb : b ∈ w.blocks) :
    ∃ c ∈ v.blocks, c.label = b.label ∧ c.Fresh registry ∧
      ∀ slot ∈ b.slots, slot.external = true → c.id = v.root.id := by
  have hmem : b.label ∈ v.blocks.map Block.label := h.labels ▸ List.mem_map_of_mem hb
  obtain ⟨c, hc, hcb⟩ := List.mem_map.mp hmem
  refine ⟨c, hc, hcb, h.fresh c hc, fun s hs hext => ?_⟩
  -- only the root has slots on the border
  have hbroot : b = w.root :=
    hw.block_ext hb w.root_mem_blocks (hw.blocks.border b hb s hs hext)
  have hroot : v.root.label = w.root.label := by
    have htree := h.tree
    injection htree
  have huid : c.uid = v.root.uid := by
    rw [Block.uid_eq_of_label hcb, hbroot, Block.uid_eq_of_label hroot]
  rw [List.inj_on_of_nodup_map (h.uids huids) hc v.root_mem_blocks huid]

end Drafted

/-- The records of the slots of a workflow bring them back. -/
theorem Restorable.outlined {registry : Registry μ} (h : w.Restorable registry)
    (hdraft : Drafted registry w.name w.tree v) :
    Outlined w (v.addEntries (recordedSlots w.records)) := by
  have hawaits : ∀ b ∈ w.blocks, ∃ c ∈ v.blocks, c.uid = b.uid ∧ c.Awaits v.root.id b := by
    intro b hb
    obtain ⟨c, hc, hcb, ⟨others, ho, hfresh⟩, hborder⟩ := hdraft.exists_block h.wellFormed h.uids hb
    obtain ⟨requests, hr, hmade⟩ := h.blocks b hb
    rw [Block.kind_eq_of_label hcb, hr, Option.some.injEq] at ho
    exact ⟨c, hc, Block.uid_eq_of_label hcb, ⟨requests, hmade, ho ▸ hfresh⟩,
      h.wellFormed.blocks.slotNames b hb, h.wellFormed.blocks.slotSound b hb, hborder⟩
  obtain ⟨f, hrefilled, hlabel, hfilled, -⟩ := exists_refilled_each
    (fun _ b slots => slots.map Slot.outline = b.slots.map Slot.outline)
    exists_refilled w.blocks hdraft.unlinked (hdraft.uids h.uids) h.uids hawaits
  rw [recordedSlots_records]
  refine ⟨hrefilled.unlinked, hrefilled.name.trans hdraft.name, ?_⟩
  rw [hrefilled.tree, Forest.map_map]
  refine Forest.map_eq_of_map_eq hdraft.tree fun b hb c hc hcb => ?_
  have hslots : (f c).slots.map Slot.outline = b.slots.map Slot.outline :=
    hfilled b hb c hc (Block.uid_eq_of_label hcb)
  calc (f c).outline
    _ = { (f c).label with slots := (f c).slots.map Slot.outline } := rfl
    _ = { b.label with slots := b.slots.map Slot.outline } := by rw [hlabel, hcb, hslots]
    _ = b.outline := rfl

end Workflow

end SlotFlow
