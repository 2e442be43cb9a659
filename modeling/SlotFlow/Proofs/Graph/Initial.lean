import SlotFlow.Proofs.Graph.Altered
import SlotFlow.Proofs.Graph.Kinds
import SlotFlow.Proofs.Naming.Unnamed
/-!
# The slots that blocks start with

A block that is not a model is made with the slots of its kind, and these take the numbers after its own.
What becomes of them is told by their numbers, for an edit may give them other names, and other slots their
names. No edit makes a slot optional that was required, and nothing but a removal takes one away.

* `Block.initialSlot` — the number of a slot that a block was made with;
* `Block.KeepsInitial`, `Workflow.KeepsInitial` — what is left of the slots that blocks were made with;
* `Workflow.SlotsKept` — the workflows that there are if no kind is edited, and some slots are neither
  renamed nor removed.

## Results

* `Workflow.KeepsInitial.perform` — what an edit leaves of them;
* `Workflow.KeepsInitial.of_ofRecords` — a document gives blocks with all of them, whatever it says;
* `Workflow.SlotsKept.keepsInitial` — the slots that are kept are still there under their names.
-/

namespace SlotFlow

open Workflow

variable {μ : Type}

-- ---------------------------------------------------------------------------
-- One block
-- ---------------------------------------------------------------------------

/-- What a slot answers does not depend on its identifier. -/
theorem Slot.Answers.of_unnamed {request : SlotRequest} {s t : Slot} (h : s.Answers request)
    (hsame : t.unnamed = s.unnamed) : t.Answers request := by
  have hs : s.unnamed.Answers request :=
    ⟨h.name, h.kind, h.optional, h.objectId, h.type, h.objectType⟩
  rw [← hsame] at hs
  exact ⟨hs.name, hs.kind, hs.optional, hs.objectId, hs.type, hs.objectType⟩

/-- The number of the slot at a position among those that a block was made with. -/
def Block.initialSlot (block : Block) (i : Nat) : SlotId :=
  ⟨block.id.val + 1 + i⟩

/-- What is left of the slots that a block was made with. Those that are `kept` are there and answer what
is asked for by the block's kind. The others may have gone or have other names, but they are as optional as
they were. -/
structure Block.KeepsInitial (kept : SlotId → Prop) (block : Block) : Prop where
  there : ∀ i request, block.kind.defaultSlots[i]? = some request → kept (block.initialSlot i) →
    ∃ slot ∈ block.slots, slot.id = block.initialSlot i ∧ slot.Answers request
  optional : ∀ i request, block.kind.defaultSlots[i]? = some request →
    ∀ slot ∈ block.slots, slot.id = block.initialSlot i →
      slot.optional = (Slot.ofRequest slot.id slot.uid request).optional

namespace Block.KeepsInitial

variable {w : Workflow μ} {edit : Edit μ} {kept touched added : SlotId → Prop} {b c : Block}

/-- A new block has the slots that it was made with. -/
theorem newBlock (w : Workflow μ) {kind : BlockKind} {requests : List SlotRequest}
    (hdefault : kind.defaultSlots <+: requests) (name : String) (uid : Option String) :
    (w.newBlock kind name requests uid).KeepsInitial kept := by
  have hrequest : ∀ {i : Nat} {request : SlotRequest}, kind.defaultSlots[i]? = some request →
      requests[i]? = some request := by
    intro i request hr
    obtain ⟨hlt, rfl⟩ := List.getElem?_eq_some_iff.mp hr
    exact List.prefix_iff_getElem?.mp hdefault i hlt
  refine ⟨fun i request hr _ => ?_, fun i request hr slot hs hid => ?_⟩
  · have hslot := getElem?_makeSlots w.uidStem (w.nextId + 1) requests i
    rw [hrequest hr, Option.map_some] at hslot
    exact ⟨_, List.mem_of_getElem? hslot, rfl, Slot.answers_ofRequest ..⟩
  · obtain ⟨j, hj⟩ := List.getElem?_of_mem hs
    rw [Workflow.newBlock, getElem?_makeSlots] at hj
    obtain ⟨other, ho, rfl⟩ := Option.map_eq_some_iff.mp hj
    obtain rfl : j = i := Nat.add_left_cancel (congrArg SlotId.val hid)
    rw [hrequest hr] at ho
    cases ho
    rfl

/-- An edit takes away no slot that is kept, and makes no slot optional. A slot that it adds has a number
that no slot had before. -/
theorem step (h : b.KeepsInitial kept) (hcarried : b.Carried touched added c)
    (halters : b.Alters w edit c)
    (hbound : b.id.val + b.kind.defaultSlots.length < w.nextId)
    (htouched : ∀ id, touched id → ¬kept id) : c.KeepsInitial kept where
  there i request hr hkept := by
    rw [hcarried.kind] at hr
    have hsame : c.initialSlot i = b.initialSlot i := by rw [initialSlot, hcarried.id, initialSlot]
    rw [hsame] at hkept ⊢
    obtain ⟨s, hs, hid, hanswers⟩ := h.there i request hr hkept
    obtain ⟨t, ht, hst, hcarry⟩ :=
      hcarried.slots.exists_of_mem hs fun htouch => htouched _ htouch (hid ▸ hkept)
    exact ⟨t, ht, hst.trans hid, hcarry request hanswers⟩
  optional i request hr t ht hid := by
    rw [hcarried.kind] at hr
    have hsame : c.initialSlot i = b.initialSlot i := by rw [initialSlot, hcarried.id, initialSlot]
    rw [hsame] at hid
    rcases halters.slots t ht with ⟨s, hs, hst⟩ | hnew
    · rw [hst.optional]
      exact h.optional i request hr s hs (hst.id.symm.trans hid)
    · -- The numbers of the slots that the block was made with were handed out long ago.
      have hlength := (List.getElem?_eq_some_iff.mp hr).1
      have hle := hnew.id
      have hval : t.id.val = b.id.val + 1 + i := congrArg SlotId.val hid
      omega

/-- Slots that are changed in their places stay, if they answer what they answered before. -/
theorem map {g : Slot → Slot} (h : b.KeepsInitial kept) (hid : ∀ s, (g s).id = s.id)
    (hoptional : ∀ s, (g s).optional = s.optional)
    (hanswers : ∀ s request, s.Answers request → (g s).Answers request) :
    KeepsInitial kept { b with slots := b.slots.map g } where
  there i request hr hkept := by
    obtain ⟨s, hs, hsid, hanswer⟩ := h.there i request hr hkept
    exact ⟨g s, List.mem_map_of_mem hs, (hid s).trans hsid, hanswers s request hanswer⟩
  optional i request hr t ht htid := by
    obtain ⟨s, hs, rfl⟩ := List.mem_map.mp ht
    rw [hoptional]
    exact h.optional i request hr s hs ((hid s).symm.trans htid)

/-- Identifiers do not matter. -/
theorem of_unnamed (h : b.KeepsInitial kept) (hsame : c.unnamed = b.unnamed) :
    c.KeepsInitial kept := by
  have hslots : c.slots.map Slot.unnamed = b.slots.map Slot.unnamed := congrArg Block.slots hsame
  have hid : ∀ i, c.initialSlot i = b.initialSlot i := by
    intro i
    rw [initialSlot, Block.id_of_unnamed hsame, initialSlot]
  refine ⟨fun i request hr hkept => ?_, fun i request hr t ht htid => ?_⟩ <;>
    rw [Block.kind_of_unnamed hsame] at hr
  · rw [hid] at hkept ⊢
    obtain ⟨s, hs, hsid, hanswers⟩ := h.there i request hr hkept
    have hmem : s.unnamed ∈ c.slots.map Slot.unnamed := hslots ▸ List.mem_map_of_mem hs
    obtain ⟨t, ht, hst⟩ := List.mem_map.mp hmem
    exact ⟨t, ht, (Slot.id_of_unnamed hst).trans hsid, hanswers.of_unnamed hst⟩
  · rw [hid] at htid
    have hmem : t.unnamed ∈ b.slots.map Slot.unnamed := hslots ▸ List.mem_map_of_mem ht
    obtain ⟨s, hs, hst⟩ := List.mem_map.mp hmem
    rw [← Slot.optional_of_unnamed hst]
    exact h.optional i request hr s hs ((Slot.id_of_unnamed hst).trans htid)

end Block.KeepsInitial

-- ---------------------------------------------------------------------------
-- All blocks
-- ---------------------------------------------------------------------------

namespace Workflow

variable {w w' : Workflow μ} {edit : Edit μ} {kept : SlotId → Prop}

/-- What is left of the slots that the blocks of a workflow were made with. -/
structure KeepsInitial (kept : SlotId → Prop) (w : Workflow μ) : Prop where
  bound : ∀ block ∈ w.blocks, block.id.val + block.kind.defaultSlots.length < w.nextId
  blocks : ∀ block ∈ w.blocks, block.KeepsInitial kept

namespace KeepsInitial

theorem new (uidStem name : String) (registry : Registry μ) (uid : Option String) :
    KeepsInitial kept (new uidStem name registry uid) where
  bound block hb := by
    rw [List.mem_singleton.mp hb]
    exact Nat.zero_lt_one
  blocks block hb := by
    rw [List.mem_singleton.mp hb]
    refine ⟨fun _ _ hr => ?_, fun _ _ hr => ?_⟩ <;> cases hr

theorem attachBlock (h : w.KeepsInitial kept) (hw : w.WellFormed) {parent : BlockId}
    {container : Block} (hget : w.getContainer parent = .ok container) {kind : BlockKind}
    {requests : List SlotRequest} (hdefault : kind.defaultSlots <+: requests) (name : String)
    (uid : Option String) : KeepsInitial kept (w.attachBlock parent kind name requests uid).2 := by
  have hperm := perm_blocks_attachBlock hw.blocks.ids (hw.mem_ids_of_getContainer hget) kind name
    requests uid
  have hnext : (w.attachBlock parent kind name requests uid).2.nextId =
      w.nextId + 1 + requests.length := rfl
  refine ⟨fun block hb => ?_, fun block hb => ?_⟩ <;>
    rcases List.mem_append.mp (hperm.mem_iff.mp hb) with hb | hb
  · have hlt := h.bound block hb
    omega
  · rw [List.mem_singleton.mp hb]
    have hle := hdefault.length_le
    show w.nextId + kind.defaultSlots.length < w.nextId + 1 + requests.length
    omega
  · exact h.blocks block hb
  · rw [List.mem_singleton.mp hb]
    exact .newBlock w hdefault name uid

/-- **What an edit leaves of the slots that blocks were made with**, unless it changes a block's kind. -/
theorem perform (h : w.KeepsInitial kept) (hw : w.WellFormed) {answer : Answer}
    (he : w.perform edit = .ok (answer, w')) (hkind : ∀ id kind, edit ≠ .setBlockKind id kind)
    (hkept : ∀ id, edit.changedSlot? = some id → ¬kept id) : w'.KeepsInitial kept := by
  by_cases hblock : ∃ id, answer = .block id
  · obtain ⟨id, rfl⟩ := hblock
    obtain ⟨parent, container, kind, name, requests, uid, hget, hdefault, -, rfl⟩ :=
      exists_attachBlock_of_perform he
    exact h.attachBlock hw hget hdefault name uid
  have hcarries := hw.carries_perform he hkind
  have halters := hw.alters_perform he
  have hold : ∀ c ∈ w'.blocks, ∃ b ∈ w.blocks,
      b.Carried (fun id => edit.changedSlot? = some id) (fun id => answer = .slot id) c := by
    intro c hc
    rw [blocks_eq] at hc
    rcases List.mem_cons.mp hc with rfl | hc
    · exact ⟨w.root, w.root_mem_blocks, hcarries.root⟩
    · rcases hcarries.body c hc with ⟨b, hb, hbc⟩ | hmakes
      · exact ⟨b, mem_blocks_of_mem_body hb, hbc⟩
      · exact absurd ⟨c.id, hmakes.answer⟩ hblock
  refine ⟨fun c hc => ?_, fun c hc => ?_⟩ <;> obtain ⟨b, hb, hbc⟩ := hold c hc
  · rw [hbc.id, hbc.kind]
    exact Nat.lt_of_lt_of_le (h.bound b hb) hcarries.nextId
  · rcases halters.blocks c hc with ⟨other, ho, halter⟩ | hnew
    · obtain rfl := hw.block_ext ho hb (halter.id.symm.trans hbc.id)
      exact (h.blocks other ho).step hbc halter (h.bound other ho) hkept
    · have hlt := hw.blocks.idBound b hb
      have hle := hnew.id
      rw [hbc.id] at hle
      omega

theorem of_unnamed (h : w.KeepsInitial kept) (hsame : w'.unnamed = w.unnamed) :
    w'.KeepsInitial kept := by
  refine ⟨fun c hc => ?_, fun c hc => ?_⟩ <;>
    obtain ⟨b, hb, hbc⟩ := exists_block_of_unnamed hsame hc
  · rw [nextId_of_unnamed hsame, ← Block.id_of_unnamed hbc, ← Block.kind_of_unnamed hbc]
    exact h.bound b hb
  · exact (h.blocks b hb).of_unnamed hbc.symm

theorem assignNames (h : w.KeepsInitial kept) : w.assignNames.KeepsInitial kept :=
  h.of_unnamed w.unnamed_assignNames

/-- **A document gives blocks with all slots of their kinds**, whatever its records say. -/
theorem of_ofRecords {uidStem : String} {records : List Record} {registry : Registry μ}
    (hw : ofRecords uidStem records registry = .ok w) : w.KeepsInitial kept := by
  refine ofRecords_induction (P := KeepsInitial kept) ?_ ?_ ?_ ?_ ?_ hw
  · intro uidStem name uid
    exact .new ..
  · intro w h hp parent container hget kind requests hr name uid
    exact hp.attachBlock h hget (Registry.defaultSlots_prefix hr) name uid
  · intro w h hp id data
    refine ⟨fun c hc => ?_, fun c hc => ?_⟩ <;> rw [modifySlot, mapSlots, blocks_mapBlocks] at hc <;>
      obtain ⟨b, hb, rfl⟩ := List.mem_map.mp hc
    · exact hp.bound b hb
    · refine (hp.blocks b hb).map (fun s => ?_) (fun s => ?_) fun s request hs => ?_ <;> split
      · rfl
      · rfl
      · rfl
      · rfl
      · exact hs.applyRecord data
      · exact hs
  · intro w h hp owner request added ha
    refine hp.perform h (perform_addSlot ha) (fun _ _ hkind => ?_) fun _ hchanged => ?_
    · cases hkind
    · cases hchanged
  · intro w h hp a b uid added ha
    refine hp.perform h (perform_connect ha) (fun _ _ hkind => ?_) fun _ hchanged => ?_
    · cases hkind
    · cases hchanged

end KeepsInitial

-- ---------------------------------------------------------------------------
-- Histories
-- ---------------------------------------------------------------------------

/-- The workflows that there are if no block's kind is edited, and no slot that is `kept` is renamed or
removed. -/
inductive SlotsKept (kept : SlotId → Prop) : Workflow μ → Prop where
  | new (uidStem name : String) (registry : Registry μ) :
      SlotsKept kept (new uidStem name registry)
  | loaded {uidStem : String} {records : List Record} {registry : Registry μ} {w : Workflow μ}
      (h : ofRecords uidStem records registry = .ok w) : SlotsKept kept w
  | edited {w w' : Workflow μ} {edit : Edit μ} {answer : Answer} (h : SlotsKept kept w)
      (he : w.perform edit = .ok (answer, w')) (hkind : ∀ id kind, edit ≠ .setBlockKind id kind)
      (hkept : ∀ id, edit.changedSlot? = some id → ¬kept id) : SlotsKept kept w'
  | named {w : Workflow μ} (h : SlotsKept kept w) : SlotsKept kept w.assignNames
  | generated {w : Workflow μ} (h : SlotsKept kept w) (options : ProgramOptions)
      (form : ProgramForm) : SlotsKept kept (w.generate options form).2

theorem SlotsKept.kindsKept (h : w.SlotsKept kept) : w.KindsKept := by
  induction h with
  | new uidStem name registry => exact .new ..
  | loaded hw => exact .loaded hw
  | edited _ he hkind _ ih => exact ih.edited he hkind
  | named _ ih => exact ih.named
  | generated _ options form ih => exact ih.generated options form

/-- Where no slot is asked to be kept, any may be renamed or removed. -/
theorem KindsKept.slotsKept (h : w.KindsKept) : w.SlotsKept fun _ => False := by
  induction h with
  | new uidStem name registry => exact .new ..
  | loaded hw => exact .loaded hw
  | edited _ he hkind ih => exact ih.edited he hkind fun _ _ => not_false
  | named _ ih => exact ih.named
  | generated _ options form ih => exact ih.generated options form

/-- **The slots that are kept are there under their names**, and no others have become optional. -/
theorem SlotsKept.keepsInitial (h : w.SlotsKept kept) : w.KeepsInitial kept := by
  induction h with
  | new uidStem name registry => exact .new ..
  | loaded hw => exact .of_ofRecords hw
  | edited h he hkind hkept ih => exact ih.perform h.kindsKept.reachable.wellFormed he hkind hkept
  | named _ ih => exact ih.assignNames
  | generated _ options form ih => exact generate_keeps ih.assignNames ih options form

end Workflow

end SlotFlow
