import SlotFlow.Proofs.Graph.Reachable
/-!
# What an edit leaves alone

A block or slot that is there after an edit was there before it, or it is new. An edit may give an old
block another name, another kind and other slots, and an old slot another name, another type and with the
name another object id; all else stays, the number and the identifier included. A slot gets another name
only if the edit says so, and another type only from a slot that the edit links it with. What is new has a
number that has not been handed out, and no identifier.

* `Workflow.Adopts` — a link that gives a slot a type;
* `Slot.Alters`, `Block.Alters` — a slot and a block before and after an edit;
* `Workflow.IsNewSlot`, `Workflow.IsNewBlock` — what an edit adds;
* `Workflow.Alters` — all blocks before and after an edit.

## Results

* `Workflow.WellFormed.alters_perform` — what an edit leaves alone;
* `Workflow.Alters.slot` — the same for all slots of a workflow.
-/

namespace SlotFlow

/-- An edit links a slot on the border that has no type with a slot of some type. -/
def Workflow.Adopts {μ : Type} (w : Workflow μ) (edit : Edit μ) (slot : Slot) (type : SlotType) : Prop :=
  slot.external = true ∧ slot.type = .unknown ∧ ∃ other ∈ w.slots, other.type = type ∧
    ∃ uid, edit = .connect slot.id other.id uid ∨ edit = .connect other.id slot.id uid

/-- A slot before and after an edit. -/
structure Slot.Alters {μ : Type} (w : Workflow μ) (edit : Edit μ) (s t : Slot) : Prop where
  rest : t = { s with name := t.name, type := t.type, objectId := t.objectId }
  name : t.name = s.name ∨ edit = .renameSlot s.id t.name
  type : t.type = s.type ∨ w.Adopts edit s t.type

namespace Slot.Alters

variable {μ : Type} {w : Workflow μ} {edit : Edit μ} {s t : Slot}

theorem refl (s : Slot) : s.Alters w edit s := ⟨rfl, .inl rfl, .inl rfl⟩

theorem id (h : s.Alters w edit t) : t.id = s.id := by
  have hid := congrArg Slot.id h.rest
  exact hid

theorem codeName (h : s.Alters w edit t) : t.codeName = s.codeName := by
  have hname := congrArg Slot.codeName h.rest
  exact hname

theorem optional (h : s.Alters w edit t) : t.optional = s.optional := by
  have hoptional := congrArg Slot.optional h.rest
  exact hoptional

end Slot.Alters

namespace Workflow

variable {μ : Type} {w w' : Workflow μ} {edit : Edit μ}

theorem alters_rename (s : Slot) (name : String) :
    s.Alters w (.renameSlot s.id name) (s.rename name) :=
  ⟨rfl, .inr rfl, .inl rfl⟩

/-- What a slot takes on when two slots are linked comes from the other one of them. -/
theorem WellFormed.alters_takeOn (h : w.WellFormed) {a b s : Slot} (ha : a ∈ w.slots)
    (hb : b ∈ w.slots) (hs : s ∈ w.slots) (uid : Option String) :
    s.Alters w (.connect a.id b.id uid) (s.takeOn (adoptedType? a b)) := by
  unfold adoptedType? Slot.takeOn
  split_ifs with hfirst hsecond
  · dsimp only
    split
    · rename_i hid
      obtain rfl := List.inj_on_of_nodup_map h.slotIds hs ha hid
      exact ⟨rfl, .inl rfl, .inr ⟨hfirst.1, hfirst.2, b, hb, rfl, uid, .inl rfl⟩⟩
    · exact .refl s
  · dsimp only
    split
    · rename_i hid
      obtain rfl := List.inj_on_of_nodup_map h.slotIds hs hb hid
      exact ⟨rfl, .inl rfl, .inr ⟨hsecond.1, hsecond.2, a, ha, rfl, uid, .inr rfl⟩⟩
    · exact .refl s
  · exact .refl s

/-- A slot has a number that has not been handed out, and no identifier. -/
structure IsNewSlot (w : Workflow μ) (slot : Slot) : Prop where
  id : w.nextId ≤ slot.id.val
  codeName : slot.codeName = none

/-- A block has a number that has not been handed out, and no identifier, and so have its slots. -/
structure IsNewBlock (w : Workflow μ) (block : Block) : Prop where
  id : w.nextId ≤ block.id.val
  codeName : block.codeName = none
  slots : ∀ slot ∈ block.slots, w.IsNewSlot slot

end Workflow

/-- A block before and after an edit. -/
structure Block.Alters {μ : Type} (w : Workflow μ) (edit : Edit μ) (b c : Block) : Prop where
  rest : c = { b with name := c.name, kind := c.kind, slots := c.slots }
  kind : c.kind = b.kind ∨ edit = .setBlockKind b.id c.kind
  slots : ∀ t ∈ c.slots, (∃ s ∈ b.slots, s.Alters w edit t) ∨ w.IsNewSlot t

namespace Block.Alters

variable {μ : Type} {w : Workflow μ} {edit : Edit μ} {b c : Block}

theorem refl (b : Block) : b.Alters w edit b :=
  ⟨rfl, .inl rfl, fun t ht => .inl ⟨t, ht, .refl t⟩⟩

theorem id (h : b.Alters w edit c) : c.id = b.id := by
  have hid := congrArg Block.id h.rest
  exact hid

theorem codeName (h : b.Alters w edit c) : c.codeName = b.codeName := by
  have hname := congrArg Block.codeName h.rest
  exact hname

end Block.Alters

namespace Workflow

variable {μ : Type} {w w' : Workflow μ} {edit : Edit μ}

/-- A workflow before and after an edit. -/
structure Alters (edit : Edit μ) (w w' : Workflow μ) : Prop where
  blocks : ∀ c ∈ w'.blocks, (∃ b ∈ w.blocks, b.Alters w edit c) ∨ w.IsNewBlock c
  nextId : w.nextId ≤ w'.nextId

namespace Alters

/-- What holds of the slots of each block holds of all slots. -/
theorem slot (h : w.Alters edit w') {t : Slot} (ht : t ∈ w'.slots) :
    (∃ s ∈ w.slots, s.Alters w edit t) ∨ w.IsNewSlot t := by
  obtain ⟨c, hc, hin⟩ := mem_slots.mp ht
  rcases h.blocks c hc with ⟨b, hb, halters⟩ | hnew
  · rcases halters.slots t hin with ⟨s, hs, hst⟩ | hnew
    · exact .inl ⟨s, mem_slots.mpr ⟨b, hb, hs⟩, hst⟩
    · exact .inr hnew
  · exact .inr (hnew.slots t hin)

/-- Blocks go or change their places. -/
theorem of_subset (h : w'.blocks ⊆ w.blocks) (hnext : w.nextId ≤ w'.nextId) : w.Alters edit w' :=
  ⟨fun c hc => .inl ⟨c, h hc, .refl c⟩, hnext⟩

/-- Each block is changed in its place. -/
theorem of_map {f : Block → Block} (h : w'.blocks = w.blocks.map f)
    (hf : ∀ b ∈ w.blocks, b.Alters w edit (f b)) (hnext : w.nextId ≤ w'.nextId) :
    w.Alters edit w' := by
  refine ⟨fun c hc => ?_, hnext⟩
  rw [h, List.mem_map] at hc
  obtain ⟨b, hb, rfl⟩ := hc
  exact .inl ⟨b, hb, hf b hb⟩

/-- Each slot is changed in its place. -/
theorem of_mapSlots {f : Slot → Slot} (h : w'.blocks = (w.mapSlots f).blocks)
    (hf : ∀ s ∈ w.slots, s.Alters w edit (f s)) (hnext : w.nextId ≤ w'.nextId) : w.Alters edit w' := by
  refine of_map (h.trans (blocks_mapBlocks ..)) (fun b hb => ⟨rfl, .inl rfl, fun t ht => ?_⟩) hnext
  obtain ⟨s, hs, rfl⟩ := List.mem_map.mp ht
  exact .inl ⟨s, hs, hf s (mem_slots.mpr ⟨b, hb, hs⟩)⟩

end Alters

/-- The slots of a new block are new. -/
theorem isNewSlot_of_mem_makeSlots {first : Nat} (hfirst : w.nextId ≤ first)
    {requests : List SlotRequest} {slot : Slot} (hs : slot ∈ makeSlots w.uidStem first requests) :
    w.IsNewSlot slot := by
  induction requests generalizing first with
  | nil => cases hs
  | cons request requests ih =>
    rcases List.mem_cons.mp hs with rfl | hs
    · exact ⟨hfirst, rfl⟩
    · exact ih (Nat.le_succ_of_le hfirst) hs

theorem isNewBlock_newBlock (w : Workflow μ) (kind : BlockKind) (name : String)
    (requests : List SlotRequest) (uid : Option String) :
    w.IsNewBlock (w.newBlock kind name requests uid) where
  id := Nat.le_refl _
  codeName := rfl
  slots _ hs := isNewSlot_of_mem_makeSlots (Nat.le_succ _) hs

theorem alters_appendSlot (owner : BlockId) (request : SlotRequest) :
    w.Alters edit (w.appendSlot owner request) := by
  refine .of_map (blocks_appendSlot ..) (fun b _ => ?_) (Nat.le_succ _)
  split
  · refine ⟨rfl, .inl rfl, fun t ht => ?_⟩
    rcases List.mem_append.mp ht with ht | ht
    · exact .inl ⟨t, ht, .refl t⟩
    · rw [List.mem_singleton.mp ht]
      exact .inr ⟨Nat.le_refl _, rfl⟩
  · exact .refl b

theorem alters_dropSlots (ids : List SlotId) : w.Alters edit (w.dropSlots ids) := by
  refine .of_map (blocks_dropSlots ..) (fun b _ => ⟨rfl, .inl rfl, fun t ht => ?_⟩) (Nat.le_refl _)
  exact .inl ⟨t, List.mem_of_mem_filter ht, .refl t⟩

/-- A change of one block. -/
theorem alters_modifyBlock (id : BlockId) {f : Block → Block}
    (hf : ∀ b : Block, b.id = id → b.Alters w edit (f b)) : w.Alters edit (w.modifyBlock id f) := by
  refine .of_map (blocks_mapBlocks ..) (fun b _ => ?_) (Nat.le_refl _)
  split
  · rename_i hid
    exact hf b hid
  · exact .refl b

theorem alters_disconnect (id : LinkId) : w.Alters edit (w.disconnect id).2 := by
  unfold Workflow.disconnect
  split <;> exact .of_subset (List.Subset.refl _) (Nat.le_refl _)

namespace WellFormed

theorem alters_attachBlock (h : w.WellFormed) {parent : BlockId} {container : Block}
    (hget : w.getContainer parent = .ok container) (kind : BlockKind) (name : String)
    (requests : List SlotRequest) (uid : Option String) :
    w.Alters edit (w.attachBlock parent kind name requests uid).2 := by
  have hperm := perm_blocks_attachBlock h.blocks.ids (h.mem_ids_of_getContainer hget) kind name
    requests uid
  refine ⟨fun c hc => ?_, Nat.le_add_right_of_le (Nat.le_succ _)⟩
  rcases List.mem_append.mp (hperm.mem_iff.mp hc) with hc | hc
  · exact .inl ⟨c, hc, .refl c⟩
  · rw [List.mem_singleton.mp hc]
    exact .inr (w.isNewBlock_newBlock ..)

/-- **What an edit leaves alone.** -/
theorem alters_perform (h : w.WellFormed) {answer : Answer}
    (he : w.perform edit = .ok (answer, w')) : w.Alters edit w' := by
  cases edit <;> simp only [Workflow.perform, map_eq_ok, Except.ok.injEq, Prod.mk.injEq] at he
  case addBlock =>
    obtain ⟨_, ha, -, rfl⟩ := he
    obtain ⟨⟨container, hget⟩, rfl⟩ := addBlock_eq_ok.mp ha
    exact h.alters_attachBlock hget ..
  case addModel =>
    obtain ⟨_, ha, -, rfl⟩ := he
    obtain ⟨modelClass, -, -, ⟨container, hget⟩, rfl⟩ := addModelSetup_eq_ok.mp ha
    exact h.alters_attachBlock hget ..
  case addSlot =>
    obtain ⟨_, ha, -, rfl⟩ := he
    obtain ⟨block, -, -, -, rfl⟩ := addSlot_eq_ok.mp ha
    exact alters_appendSlot ..
  case renameSlot id name =>
    obtain ⟨_, hr, -, rfl⟩ := he
    obtain ⟨owned, -, -, rfl⟩ := renameSlot_eq_ok.mp hr
    refine .of_mapSlots rfl (fun s _ => ?_) (Nat.le_refl _)
    split
    · rename_i hid
      exact hid ▸ alters_rename s name
    · exact .refl s
  case removeSlot =>
    obtain ⟨_, hr, -, rfl⟩ := he
    obtain ⟨-, rfl⟩ := removeSlot_eq_ok.mp hr
    exact alters_dropSlots _
  case removeBlock =>
    obtain ⟨_, hr, -, rfl⟩ := he
    obtain ⟨hroot, block, below, hfind, rfl⟩ := removeBlock_eq_ok.mp hr
    refine .of_subset (fun b hb => ?_) (Nat.le_refl _)
    exact (perm_blocks_prune h.blocks.ids hroot hfind).mem_iff.mpr (List.mem_append_left _ hb)
  case moveBlock =>
    obtain ⟨_, hm, -, rfl⟩ := he
    have hsub := (h.perm_blocks_moveBlock hm).subset
    obtain ⟨-, block, below, -, -, -, rfl⟩ := moveBlock_eq_ok.mp hm
    refine .of_subset hsub (Nat.le_of_eq ?_)
    rw [nextId_modifyBelow]
  case connect =>
    obtain ⟨_, hconnect, -, rfl⟩ := he
    obtain ⟨first, second, plan, hfirst, hsecond, hplan, rfl⟩ := connect_eq_ok.mp hconnect
    obtain ⟨_, _, -, -, -, -, rfl⟩ := ends_of_connection hplan
    obtain ⟨hown, hmem, rfl⟩ := mem_of_ownedSlot? (getOwnedSlot_eq_ok.mp hfirst)
    obtain ⟨hown', hmem', rfl⟩ := mem_of_ownedSlot? (getOwnedSlot_eq_ok.mp hsecond)
    have ha := mem_slots.mpr ⟨_, hown, hmem⟩
    have hb := mem_slots.mpr ⟨_, hown', hmem'⟩
    refine .of_mapSlots (f := Slot.takeOn (adoptedType? first.slot second.slot)) ?_
      (fun s hs => h.alters_takeOn ha hb hs _) (Nat.le_succ _)
    rw [← adopt_eq_mapSlots]
    rfl
  case disconnect id =>
    obtain ⟨-, rfl⟩ := he
    exact alters_disconnect id
  case disconnectSlots a b =>
    obtain ⟨-, rfl⟩ := he
    unfold Workflow.disconnectSlots
    split
    · exact alters_disconnect _
    · exact .of_subset (List.Subset.refl _) (Nat.le_refl _)
  case setName name =>
    obtain ⟨-, rfl⟩ := he
    refine ⟨fun c hc => ?_, Nat.le_refl _⟩
    rw [blocks_eq, List.mem_cons] at hc
    rcases hc with rfl | hc
    · exact .inl ⟨w.root, w.root_mem_blocks, rfl, .inl rfl, fun t ht => .inl ⟨t, ht, .refl t⟩⟩
    · exact .inl ⟨c, mem_blocks_of_mem_body hc, .refl c⟩
  case setBlockName id name =>
    obtain ⟨-, rfl⟩ := he
    exact alters_modifyBlock id fun b _ => ⟨rfl, .inl rfl, fun t ht => .inl ⟨t, ht, .refl t⟩⟩
  case setBlockKind id kind =>
    obtain ⟨-, rfl⟩ := he
    refine alters_modifyBlock id fun b hid => ⟨rfl, .inr ?_, fun t ht => .inl ⟨t, ht, .refl t⟩⟩
    rw [hid]
  case register modelClass =>
    obtain ⟨-, rfl⟩ := he
    exact .of_subset (List.Subset.refl _) (Nat.le_refl _)

end WellFormed

end Workflow

end SlotFlow
