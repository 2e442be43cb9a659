import SlotFlow.Proofs.Graph.Granted
/-!
# Well-formed workflows

A workflow is well formed if its numbers are distinct and have been handed out, if slots are named
apart in their blocks and stand where their kind belongs, and if every link leads from an output to
an input that has no other link and agrees in type. The tree itself needs no clause: it is a value.

The invariant has three parts, each about lists: `BlocksSound` about the blocks, in whatever order,
`LinksSound` about the links over the slots there are, and `LinksTyped` about the types at their
ends. An edit changes these lists, so what it keeps is said of lists.

## Results

* `BlocksSound.perm`, `BlocksSound.left_of_append`, `BlocksSound.append_one`, `BlocksSound.of_keeps`
  — the ways in which edits change the blocks;
* `LinksSound.of_slots`, `LinksSound.filter`, `LinksSound.append_one` — the same for links;
* `LinksTyped.of_slots`, `LinksTyped.of_stay`, `LinksTyped.append_one` — the same for the types at
  their ends;
* `Workflow.WellFormed.block?_eq_some`, `Workflow.WellFormed.ownedSlot?_eq_some` — in a well-formed
  workflow elements are found by their numbers.
-/

namespace SlotFlow

-- ---------------------------------------------------------------------------
-- Slots
-- ---------------------------------------------------------------------------

/-- What holds of every slot by itself: only a plain input may be required, and a slot on the border
is known by its name. -/
structure Slot.Sound (slot : Slot) : Prop where
  optional : slot.external = true ∨ slot.direction = .output → slot.optional = true
  objectId : slot.external = true → slot.objectId = .name slot.name

theorem Slot.sound_ofRequest (id : SlotId) (freshUid : String) (request : SlotRequest) :
    (Slot.ofRequest id freshUid request).Sound where
  optional := by
    simp only [Slot.external, Slot.direction, Slot.ofRequest, Bool.or_eq_true, decide_eq_true_eq]
    rintro (h | h)
    · exact Or.inl (Or.inr h)
    · exact Or.inr h
  objectId h := if_pos h

/-- What two linked slots agree on. Inside the workflow it is the type; a slot on the border that has
no type is linked to nothing inside that has one. -/
structure Slot.Agree (s t : Slot) : Prop where
  inside : s.external = false → t.external = false → s.type = t.type
  source : s.external = true → t.external = false → s.type = .unknown → t.type = .unknown
  target : t.external = true → s.external = false → t.type = .unknown → s.type = .unknown

theorem Slot.Agree.symm {s t : Slot} (h : s.Agree t) : t.Agree s where
  inside ht hs := (h.inside hs ht).symm
  source := h.target
  target := h.source

theorem Slot.Agree.congr {s t s' t' : Slot} (h : s.Agree t) (hs : s'.kind = s.kind ∧ s'.type = s.type)
    (ht : t'.kind = t.kind ∧ t'.type = t.type) : s'.Agree t' := by
  constructor <;> simp only [Slot.external, hs, ht]
  · exact h.inside
  · exact h.source
  · exact h.target

theorem Slot.Sound.rename {slot : Slot} (h : slot.Sound) (name : String) :
    (slot.rename name).Sound where
  optional := h.optional
  objectId hext := if_pos hext

theorem Slot.Sound.takeOn {slot : Slot} (h : slot.Sound) (adopts : Option (SlotId × SlotType)) :
    (slot.takeOn adopts).Sound := by
  unfold Slot.takeOn
  split
  · exact h
  · split <;> exact ⟨h.optional, h.objectId⟩

-- ---------------------------------------------------------------------------
-- Blocks
-- ---------------------------------------------------------------------------

/-- The part of the invariant that is about blocks. Their numbers and those of their slots are below
`bound`, and slots on the border belong to `root`. -/
structure BlocksSound (root : BlockId) (bound : Nat) (blocks : List Block) : Prop where
  ids : (blocks.map Block.id).Nodup
  slotIds : ((blocks.flatMap Block.slots).map Slot.id).Nodup
  idBound : ∀ block ∈ blocks, block.id.val < bound
  slotBound : ∀ block ∈ blocks, ∀ slot ∈ block.slots, slot.id.val < bound
  slotNames : ∀ block ∈ blocks, (block.slots.map Slot.name).Nodup
  slotSound : ∀ block ∈ blocks, ∀ slot ∈ block.slots, slot.Sound
  border : ∀ block ∈ blocks, ∀ slot ∈ block.slots, slot.external = true → block.id = root

namespace BlocksSound

variable {root : BlockId} {bound : Nat} {xs ys : List Block}

theorem mono (h : BlocksSound root bound xs) {higher : Nat} (hle : bound ≤ higher) :
    BlocksSound root higher xs where
  ids := h.ids
  slotIds := h.slotIds
  idBound b hb := Nat.lt_of_lt_of_le (h.idBound b hb) hle
  slotBound b hb s hs := Nat.lt_of_lt_of_le (h.slotBound b hb s hs) hle
  slotNames := h.slotNames
  slotSound := h.slotSound
  border := h.border

theorem slotIds_of_mem (h : BlocksSound root bound xs) {block : Block} (hb : block ∈ xs) :
    (block.slots.map Slot.id).Nodup := by
  have hids := h.slotIds
  rw [List.map_flatMap, List.nodup_flatMap] at hids
  exact hids.1 block hb

/-- No clause says in which order the blocks stand. -/
theorem perm (h : BlocksSound root bound xs) (hp : ys.Perm xs) : BlocksSound root bound ys where
  ids := (hp.map _).nodup_iff.mpr h.ids
  slotIds := ((hp.flatMap_right _).map _).nodup_iff.mpr h.slotIds
  idBound b hb := h.idBound b (hp.mem_iff.mp hb)
  slotBound b hb := h.slotBound b (hp.mem_iff.mp hb)
  slotNames b hb := h.slotNames b (hp.mem_iff.mp hb)
  slotSound b hb := h.slotSound b (hp.mem_iff.mp hb)
  border b hb := h.border b (hp.mem_iff.mp hb)

/-- Blocks may go. -/
theorem left_of_append (h : BlocksSound root bound (xs ++ ys)) : BlocksSound root bound xs where
  ids := by
    have hids := h.ids
    rw [List.map_append] at hids
    exact hids.of_append_left
  slotIds := by
    have hids := h.slotIds
    rw [List.flatMap_append, List.map_append] at hids
    exact hids.of_append_left
  idBound b hb := h.idBound b (List.mem_append_left _ hb)
  slotBound b hb := h.slotBound b (List.mem_append_left _ hb)
  slotNames b hb := h.slotNames b (List.mem_append_left _ hb)
  slotSound b hb := h.slotSound b (List.mem_append_left _ hb)
  border b hb := h.border b (List.mem_append_left _ hb)

/-- A new block takes numbers that have not been handed out, and has no slot on the border. -/
theorem append_one (h : BlocksSound root bound xs) {block : Block} {higher : Nat}
    (hid : bound ≤ block.id.val ∧ block.id.val < higher)
    (hslots : ∀ slot ∈ block.slots, bound ≤ slot.id.val ∧ slot.id.val < higher)
    (hslotIds : (block.slots.map Slot.id).Nodup) (hnames : (block.slots.map Slot.name).Nodup)
    (hsound : ∀ slot ∈ block.slots, slot.Sound ∧ slot.external = false) :
    BlocksSound root higher (xs ++ [block]) := by
  have hle : bound ≤ higher := Nat.le_of_lt (Nat.lt_of_le_of_lt hid.1 hid.2)
  have hm := h.mono hle
  constructor
  · rw [List.map_append, List.nodup_append]
    refine ⟨h.ids, List.nodup_singleton _, ?_⟩
    rintro id hold _ hnew rfl
    obtain ⟨b, hb, rfl⟩ := List.mem_map.mp hold
    have hlt := h.idBound b hb
    rw [List.map_singleton, List.mem_singleton] at hnew
    rw [hnew] at hlt
    omega
  · rw [List.flatMap_append, List.map_append, List.nodup_append]
    refine ⟨h.slotIds, by simpa using hslotIds, ?_⟩
    rintro id hold _ hnew rfl
    obtain ⟨s, hs, rfl⟩ := List.mem_map.mp hold
    obtain ⟨b, hb, hsb⟩ := List.mem_flatMap.mp hs
    have hlt := h.slotBound b hb s hsb
    obtain ⟨t, ht, htid⟩ := List.mem_map.mp hnew
    have hge := (hslots t (by simpa using ht)).1
    rw [htid] at hge
    omega
  all_goals
    intro b hb
    rw [List.mem_append, List.mem_singleton] at hb
  · rcases hb with hb | rfl
    · exact hm.idBound b hb
    · exact hid.2
  · rcases hb with hb | rfl
    · exact hm.slotBound b hb
    · exact fun s hs => (hslots s hs).2
  · rcases hb with hb | rfl
    · exact h.slotNames b hb
    · exact hnames
  · rcases hb with hb | rfl
    · exact h.slotSound b hb
    · exact fun s hs => (hsound s hs).1
  · rcases hb with hb | rfl
    · exact h.border b hb
    · intro s hs hext
      rw [(hsound s hs).2] at hext
      cases hext

end BlocksSound

/-- What an edit inside a block keeps of it. Slots may go, and their labels may change. -/
structure Block.Keeps (b c : Block) : Prop where
  id : c.id = b.id
  slotIds : (c.slots.map Slot.id).Sublist (b.slots.map Slot.id)
  slotNames : (c.slots.map Slot.name).Nodup
  slotSound : ∀ slot ∈ c.slots, slot.Sound
  border : ∀ slot ∈ c.slots, slot.external = true → ∃ old ∈ b.slots, old.external = true

namespace BlocksSound

variable {root : BlockId} {bound : Nat} {xs ys : List Block}

/-- Edits inside blocks keep the invariant. -/
theorem of_keeps (h : BlocksSound root bound xs) (hk : List.Forall₂ Block.Keeps xs ys) :
    BlocksSound root bound ys where
  ids := by
    rw [map_eq_of_forall₂ (f := Block.id) hk fun _ _ hbc => hbc.id]
    exact h.ids
  slotIds := by
    have hsub : ((ys.flatMap Block.slots).map Slot.id).Sublist
        ((xs.flatMap Block.slots).map Slot.id) := by
      clear h
      induction hk with
      | nil => exact .slnil
      | cons hbc _ ih =>
        rw [List.flatMap_cons, List.flatMap_cons, List.map_append, List.map_append]
        exact hbc.slotIds.append ih
    exact h.slotIds.sublist hsub
  idBound c hc := by
    obtain ⟨b, hb, hbc⟩ := exists_of_forall₂_right hk hc
    rw [hbc.id]
    exact h.idBound b hb
  slotBound c hc t ht := by
    obtain ⟨b, hb, hbc⟩ := exists_of_forall₂_right hk hc
    obtain ⟨s, hs, hid⟩ := List.mem_map.mp (hbc.slotIds.subset (List.mem_map_of_mem ht))
    rw [← hid]
    exact h.slotBound b hb s hs
  slotNames c hc := by
    obtain ⟨b, _, hbc⟩ := exists_of_forall₂_right hk hc
    exact hbc.slotNames
  slotSound c hc := by
    obtain ⟨b, _, hbc⟩ := exists_of_forall₂_right hk hc
    exact hbc.slotSound
  border c hc t ht hext := by
    obtain ⟨b, hb, hbc⟩ := exists_of_forall₂_right hk hc
    obtain ⟨s, hs, hsext⟩ := hbc.border t ht hext
    rw [hbc.id]
    exact h.border b hb s hs hsext

/-- A slot comes to one of the blocks. -/
theorem append_slot (h : BlocksSound root bound xs) {owner : Block} {slot : Slot}
    (howner : owner ∈ xs) (hid : slot.id.val = bound) (hname : ∀ s ∈ owner.slots, s.name ≠ slot.name)
    (hsound : slot.Sound) (hborder : slot.external = true → owner.id = root) :
    BlocksSound root (bound + 1) (xs.map fun block =>
      if block.id = owner.id then { block with slots := block.slots ++ [slot] } else block) := by
  have hm := h.mono (Nat.le_succ bound)
  have hcases : ∀ c ∈ xs.map fun block =>
      if block.id = owner.id then { block with slots := block.slots ++ [slot] } else block,
      (c ∈ xs ∧ c.id ≠ owner.id) ∨ c = { owner with slots := owner.slots ++ [slot] } := by
    intro c hc
    obtain ⟨b, hb, rfl⟩ := List.mem_map.mp hc
    by_cases hbo : b.id = owner.id
    · rw [if_pos hbo, List.inj_on_of_nodup_map h.ids hb howner hbo]
      exact Or.inr rfl
    · rw [if_neg hbo]
      exact Or.inl ⟨hb, hbo⟩
  constructor
  · rw [List.map_map]
    convert h.ids using 2
    funext b
    simp only [Function.comp_apply]
    split <;> rfl
  · -- all slots are the old ones and the new one, which has a new number
    have hperm : ((xs.map fun block =>
        if block.id = owner.id then { block with slots := block.slots ++ [slot] }
        else block).flatMap Block.slots).Perm (xs.flatMap Block.slots ++ [slot]) := by
      rw [List.flatMap_map]
      refine perm_flatMap_of_mem h.ids howner (fun b hb => ?_) ?_
      · rw [if_neg hb]
      · rw [if_pos rfl]
    rw [(hperm.map _).nodup_iff, List.map_append, List.nodup_append]
    refine ⟨h.slotIds, List.nodup_singleton _, ?_⟩
    rintro id hold _ hnew rfl
    obtain ⟨s, hs, rfl⟩ := List.mem_map.mp hold
    obtain ⟨b, hb, hsb⟩ := List.mem_flatMap.mp hs
    have hlt := h.slotBound b hb s hsb
    rw [List.map_singleton, List.mem_singleton] at hnew
    rw [hnew] at hlt
    omega
  all_goals
    intro c hc
    rcases hcases c hc with ⟨hold, -⟩ | rfl
  · exact hm.idBound c hold
  · exact hm.idBound owner howner
  · exact hm.slotBound c hold
  · intro s hs
    rw [List.mem_append, List.mem_singleton] at hs
    rcases hs with hs | rfl
    · exact hm.slotBound owner howner s hs
    · omega
  · exact h.slotNames c hold
  · rw [List.map_append, List.nodup_append]
    refine ⟨h.slotNames owner howner, List.nodup_singleton _, ?_⟩
    rintro name hold _ hnew rfl
    obtain ⟨s, hs, rfl⟩ := List.mem_map.mp hold
    rw [List.map_singleton, List.mem_singleton] at hnew
    exact hname s hs hnew
  · exact h.slotSound c hold
  · intro s hs
    rw [List.mem_append, List.mem_singleton] at hs
    rcases hs with hs | rfl
    · exact h.slotSound owner howner s hs
    · exact hsound
  · exact h.border c hold
  · intro s hs hext
    rw [List.mem_append, List.mem_singleton] at hs
    rcases hs with hs | rfl
    · exact h.border owner howner s hs hext
    · exact hborder hext

end BlocksSound

-- ---------------------------------------------------------------------------
-- Links
-- ---------------------------------------------------------------------------

/-- The part of the invariant that is about links over the slots there are. -/
structure LinksSound (bound : Nat) (slots : List Slot) (links : List Link) : Prop where
  /-- Links stand in the order of their numbers. -/
  ordered : links.Pairwise fun first second => first.id.val < second.id.val
  /-- An input has at most one link. -/
  targets : (links.map Link.target).Nodup
  idBound : ∀ link ∈ links, link.id.val < bound
  source : ∀ link ∈ links, ∃ slot ∈ slots, slot.id = link.source ∧ slot.direction = .output
  target : ∀ link ∈ links, ∃ slot ∈ slots, slot.id = link.target ∧ slot.direction = .input

namespace LinksSound

variable {bound : Nat} {slots : List Slot} {links : List Link}

theorem nil : LinksSound bound slots [] := by
  constructor <;> simp

/-- The slots may change as long as those at the ends of links are there. -/
theorem of_slots (h : LinksSound bound slots links) {others : List Slot} {higher : Nat}
    (hle : bound ≤ higher)
    (hs : ∀ slot ∈ slots, (∃ link ∈ links, link.touches slot.id = true) →
      ∃ other ∈ others, other.id = slot.id ∧ other.direction = slot.direction) :
    LinksSound higher others links where
  ordered := h.ordered
  targets := h.targets
  idBound link hl := Nat.lt_of_lt_of_le (h.idBound link hl) hle
  source link hl := by
    obtain ⟨slot, hslot, hid, hdir⟩ := h.source link hl
    obtain ⟨other, ho, hoid, hodir⟩ := hs slot hslot ⟨link, hl, by simp [Link.touches, hid]⟩
    exact ⟨other, ho, hoid.trans hid, hodir.trans hdir⟩
  target link hl := by
    obtain ⟨slot, hslot, hid, hdir⟩ := h.target link hl
    obtain ⟨other, ho, hoid, hodir⟩ := hs slot hslot ⟨link, hl, by simp [Link.touches, hid]⟩
    exact ⟨other, ho, hoid.trans hid, hodir.trans hdir⟩

/-- Links may go. -/
theorem filter (h : LinksSound bound slots links) (p : Link → Bool) :
    LinksSound bound slots (links.filter p) where
  ordered := h.ordered.sublist List.filter_sublist
  targets := h.targets.sublist (List.filter_sublist.map _)
  idBound link hl := h.idBound link (List.mem_of_mem_filter hl)
  source link hl := h.source link (List.mem_of_mem_filter hl)
  target link hl := h.target link (List.mem_of_mem_filter hl)

/-- A new link leads from an output to an input that has none. -/
theorem append_one (h : LinksSound bound slots links) {link : Link} (hid : link.id.val = bound)
    (hsource : ∃ slot ∈ slots, slot.id = link.source ∧ slot.direction = .output)
    (htarget : ∃ slot ∈ slots, slot.id = link.target ∧ slot.direction = .input)
    (hfree : ∀ other ∈ links, other.target ≠ link.target) :
    LinksSound (bound + 1) slots (links ++ [link]) := by
  constructor
  · rw [List.pairwise_append]
    refine ⟨h.ordered, List.pairwise_singleton _ _, ?_⟩
    intro other ho last hl
    rw [List.mem_singleton] at hl
    rw [hl, hid]
    exact h.idBound other ho
  · rw [List.map_append, List.nodup_append]
    refine ⟨h.targets, List.nodup_singleton _, ?_⟩
    rintro id hold _ hnew rfl
    obtain ⟨other, ho, rfl⟩ := List.mem_map.mp hold
    rw [List.map_singleton, List.mem_singleton] at hnew
    exact hfree other ho hnew
  all_goals
    intro other ho
    rw [List.mem_append, List.mem_singleton] at ho
    rcases ho with ho | rfl
  · exact Nat.lt_succ_of_lt (h.idBound other ho)
  · omega
  · exact h.source other ho
  · exact hsource
  · exact h.target other ho
  · exact htarget

end LinksSound

/-- The part of the invariant that is about the types at the ends of links. -/
def LinksTyped (slots : List Slot) (links : List Link) : Prop :=
  ∀ link ∈ links, ∀ s ∈ slots, ∀ t ∈ slots, s.id = link.source → t.id = link.target → s.Agree t

namespace LinksTyped

variable {slots others : List Slot} {links fewer : List Link}

theorem nil : LinksTyped slots [] := by
  simp [LinksTyped]

/-- Links may go, and so may slots; labels of slots may change. -/
theorem of_slots (h : LinksTyped slots links) (hl : fewer ⊆ links)
    (hs : ∀ other ∈ others, (∃ link ∈ fewer, link.touches other.id = true) →
      ∃ slot ∈ slots, other.id = slot.id ∧ other.kind = slot.kind ∧ other.type = slot.type) :
    LinksTyped others fewer := by
  intro link hlink s' hs' t' ht' hsource htarget
  obtain ⟨s, hsm, hsid, hsame⟩ := hs s' hs' ⟨link, hlink, by simp [Link.touches, hsource]⟩
  obtain ⟨t, htm, htid, htsame⟩ := hs t' ht' ⟨link, hlink, by simp [Link.touches, htarget]⟩
  exact (h link (hl hlink) s hsm t htm (hsid ▸ hsource) (htid ▸ htarget)).congr hsame htsame

/-- Slots may come and go as long as those at the ends of links stay. -/
theorem of_stay (h : LinksTyped slots links) {bound : Nat} (hsound : LinksSound bound slots links)
    (hids : (others.map Slot.id).Nodup)
    (hstay : ∀ slot ∈ slots, (∃ link ∈ links, link.touches slot.id = true) → slot ∈ others) :
    LinksTyped others links := by
  intro link hl s hs t ht hsource htarget
  obtain ⟨s', hs', hsid, -⟩ := hsound.source link hl
  obtain ⟨t', ht', htid, -⟩ := hsound.target link hl
  have hsm := hstay s' hs' ⟨link, hl, by simp [Link.touches, hsid]⟩
  have htm := hstay t' ht' ⟨link, hl, by simp [Link.touches, htid]⟩
  rw [List.inj_on_of_nodup_map hids hs hsm (hsource.trans hsid.symm),
    List.inj_on_of_nodup_map hids ht htm (htarget.trans htid.symm)]
  exact h link hl s' hs' t' ht' hsid htid

/-- A new link joins slots that agree. -/
theorem append_one (h : LinksTyped slots links) {link : Link}
    (hagree : ∀ s ∈ slots, ∀ t ∈ slots, s.id = link.source → t.id = link.target → s.Agree t) :
    LinksTyped slots (links ++ [link]) := by
  intro other ho
  rw [List.mem_append, List.mem_singleton] at ho
  rcases ho with ho | rfl
  · exact h other ho
  · exact hagree

end LinksTyped

-- ---------------------------------------------------------------------------
-- Workflows
-- ---------------------------------------------------------------------------

namespace Workflow

variable {μ : Type}

/-- The invariant of workflows. -/
structure WellFormed (w : Workflow μ) : Prop where
  blocks : BlocksSound w.root.id w.nextId w.blocks
  links : LinksSound w.nextId w.slots w.links
  types : LinksTyped w.slots w.links

/-- A workflow that consists of its root is well formed. -/
theorem wellFormed_new (uidStem name : String) (registry : Registry μ) (uid : Option String) :
    (new uidStem name registry uid).WellFormed where
  blocks := by constructor <;> simp [new, blocks, tree, rootId]
  links := .nil
  types := .nil

theorem root_mem_blocks (w : Workflow μ) : w.root ∈ w.blocks := by
  simp [blocks, tree]

namespace WellFormed

variable {w : Workflow μ}

/-- A block is found by its number. -/
theorem block?_eq_some (h : w.WellFormed) {id : BlockId} {block : Block} :
    w.block? id = some block ↔ block ∈ w.blocks ∧ block.id = id := by
  rw [block?, subtree?, Forest.map_fst_find?]
  exact find?_key_eq_some h.blocks.ids

theorem mem_ids_of_getContainer (h : w.WellFormed) {id : BlockId} {container : Block}
    (hc : w.getContainer id = .ok container) : id ∈ w.blocks.map Block.id := by
  obtain ⟨hb, rfl⟩ := h.block?_eq_some.mp (getContainer_eq_ok.mp hc).1
  exact List.mem_map_of_mem hb

/-- A number that has not been handed out is that of no block. -/
theorem fresh_not_mem_ids (h : w.WellFormed) :
    (⟨w.nextId⟩ : BlockId) ∉ w.blocks.map Block.id := by
  intro hm
  obtain ⟨block, hb, hid⟩ := List.mem_map.mp hm
  have hlt := h.blocks.idBound block hb
  rw [hid] at hlt
  exact Nat.lt_irrefl _ hlt

theorem slotIds (h : w.WellFormed) : (w.slots.map Slot.id).Nodup := by
  rw [slots_eq]
  exact h.blocks.slotIds

theorem ownedSlotIds (h : w.WellFormed) : (w.ownedSlots.map (·.slot.id)).Nodup := by
  have hids := h.slotIds
  rwa [slots, List.map_map] at hids

theorem slot_lt (h : w.WellFormed) {slot : Slot} (hs : slot ∈ w.slots) : slot.id.val < w.nextId := by
  obtain ⟨owner, howner, hin⟩ := mem_slots.mp hs
  exact h.blocks.slotBound owner howner slot hin

theorem linkIds (h : w.WellFormed) : (w.links.map Link.id).Nodup := by
  rw [List.Nodup, List.pairwise_map]
  refine h.links.ordered.imp fun hlt heq => ?_
  rw [heq] at hlt
  exact Nat.lt_irrefl _ hlt

/-- A slot is found by its number, together with its block. -/
theorem ownedSlot?_eq_some (h : w.WellFormed) {id : SlotId} {owned : OwnedSlot} :
    w.ownedSlot? id = some owned ↔
      owned.owner ∈ w.blocks ∧ owned.slot ∈ owned.owner.slots ∧ owned.slot.id = id := by
  have hfind := find?_key_eq_some h.ownedSlotIds (k := id) (x := owned)
  rw [mem_ownedSlots, and_assoc] at hfind
  exact hfind

/-- A link leads from an output to an input, and both are slots of blocks. -/
theorem exists_ownedSlots_of_link (h : w.WellFormed) {link : Link} (hl : link ∈ w.links) :
    ∃ source ∈ w.ownedSlots, ∃ target ∈ w.ownedSlots,
      source.slot.id = link.source ∧ target.slot.id = link.target ∧
      source.slot.direction = .output ∧ target.slot.direction = .input := by
  obtain ⟨slot, hs, hsid, hout⟩ := h.links.source link hl
  obtain ⟨other, ht, htid, hin⟩ := h.links.target link hl
  obtain ⟨source, hsource, rfl⟩ := List.mem_map.mp hs
  obtain ⟨target, htarget, rfl⟩ := List.mem_map.mp ht
  exact ⟨source, hsource, target, htarget, hsid, htid, hout, hin⟩

/-- Blocks are told apart by their numbers. -/
theorem block_ext (h : w.WellFormed) {b c : Block} (hb : b ∈ w.blocks) (hc : c ∈ w.blocks)
    (hid : b.id = c.id) : b = c :=
  List.inj_on_of_nodup_map h.blocks.ids hb hc hid

/-- Slots are told apart by their numbers, and each belongs to one block. -/
theorem slot_ext (h : w.WellFormed) {b c : Block} {s t : Slot} (hb : b ∈ w.blocks)
    (hc : c ∈ w.blocks) (hs : s ∈ b.slots) (ht : t ∈ c.slots) (hid : s.id = t.id) :
    b = c ∧ s = t := by
  have heq : OwnedSlot.mk b s = OwnedSlot.mk c t :=
    List.inj_on_of_nodup_map h.ownedSlotIds (mem_ownedSlots.mpr ⟨hb, hs⟩)
      (mem_ownedSlots.mpr ⟨hc, ht⟩) hid
  exact ⟨congrArg OwnedSlot.owner heq, congrArg OwnedSlot.slot heq⟩

end WellFormed

end Workflow

end SlotFlow
