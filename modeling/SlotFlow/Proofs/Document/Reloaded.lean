import SlotFlow.Proofs.Document.LinkPass
import SlotFlow.Proofs.Naming.Identifier
/-!
# Workflows that have been loaded

A document may say anything: it may list a child before its parent, name parents and classes that
there are not, change slots that blocks are made with, in part or several times, and ask for links
that are refused. What is built from it has forgotten all that. It only remembers what its own
records say, and so it comes back from them.

Each of the three passes keeps what a workflow needs for that: blocks and slots that are told apart
by their uids, and slots as their blocks' records call for them.

* `Document.Distinct` — the records give no uid twice;
* `Workflow.Growing`, `Workflow.Settling` — what holds during the passes over blocks and slots.

## Results

* `Workflow.restorable_of_ofRecords` — a loaded workflow is restorable;
* `Workflow.isomorphic_of_reload` — a loaded workflow that is saved and loaded again is the same up to
  numbers.
-/

namespace SlotFlow

-- ---------------------------------------------------------------------------
-- Uids
-- ---------------------------------------------------------------------------

/-- The uids by which a document refers to its blocks are distinct, and so are those of its slots.
None of the latter is one that the loader makes up. -/
structure Document.Distinct (uidStem : String) (records : List Record) : Prop where
  blocks : ∀ root, Workflow.recordedRoot? records = some root →
    (root.uid :: (Workflow.recordedBlocks records).map fun entry => entry.1.uid).Nodup
  slots : ((Workflow.recordedSlots records).map fun entry => entry.1.uid).Nodup
  fresh : ∀ entry ∈ Workflow.recordedSlots records, ∀ number,
    entry.1.uid ≠ Workflow.freshUid uidStem number

namespace Workflow

variable {μ : Type} {u v w : Workflow μ} {registry : Registry μ}

/-- Fresh uids are told apart by their numbers. -/
theorem freshUid_inj {uidStem : String} {m n : Nat} (h : freshUid uidStem m = freshUid uidStem n) :
    m = n :=
  Identifier.numbered_inj h

/-- A uid that does not start like the fresh ones is none of them. -/
theorem ne_freshUid {uidStem uid : String} (h : ¬uidStem.toList.IsPrefix uid.toList) (number : Nat) :
    uid ≠ freshUid uidStem number := by
  rintro rfl
  apply h
  rw [freshUid, String.toList_append]
  exact List.prefix_append ..

-- ---------------------------------------------------------------------------
-- Blocks one by one
-- ---------------------------------------------------------------------------

/-- Changes inside blocks that leave their slots as the records call for them. -/
theorem Laid.map (h : v.Laid registry) {f : Block → Block} (htree : u.tree = v.tree.map f)
    (hname : u.name = v.name) (hf : ∀ b, (f b).label = b.label)
    (hblocks : ∀ b ∈ v.blocks, b.Restorable registry → (f b).Restorable registry) :
    u.Laid registry := by
  have hkind : ∀ b, (f b).kind = b.kind := by
    intro b
    show (f b).label.kind = b.label.kind
    rw [hf]
  have hrootName : (f v.root).name = v.root.name := by
    show (f v.root).label.name = v.root.label.name
    rw [hf]
  have hsplit := htree
  injection hsplit with hroot hbody
  constructor
  · rw [hroot, hkind, h.root]
  · rw [hroot, hrootName, hname, h.rootName]
  · intro b hb
    rw [hbody, Forest.toList_map, List.mem_map] at hb
    obtain ⟨c, hc, rfl⟩ := hb
    rw [hkind]
    exact h.inner c hc
  · rw [htree]
    exact h.nested.map fun b => congrArg _ (hkind b)
  · intro b hb
    rw [Workflow.blocks, htree, Forest.toList_map, List.mem_map] at hb
    obtain ⟨c, hc, rfl⟩ := hb
    exact hblocks c hc (h.blocks c hc)

/-- Changes of slots that leave them as the records call for them. -/
theorem Laid.mapSlots (h : v.Laid registry) {g : Slot → Slot}
    (hanswers : ∀ request, ∀ slot ∈ v.slots, slot.Answers request → (g slot).Answers request)
    (hplain : ∀ slot ∈ v.slots, slot.Plain → (g slot).Plain) : (v.mapSlots g).Laid registry := by
  refine h.map (f := fun b => { b with slots := b.slots.map g }) rfl rfl (fun _ => rfl) ?_
  rintro b hb ⟨requests, hr, hmade⟩
  exact ⟨requests, hr, hmade.map
    (fun request slot hs => hanswers request slot (mem_slots.mpr ⟨b, hb, hs⟩))
    fun slot hs => hplain slot (mem_slots.mpr ⟨b, hb, hs⟩)⟩

/-- A new slot comes to those there are. -/
theorem WellFormed.perm_slots_appendSlot (h : v.WellFormed) {owner : Block}
    (howner : owner ∈ v.blocks) (request : SlotRequest) :
    (v.appendSlot owner.id request).slots.Perm
      (v.slots ++ [Slot.ofRequest ⟨v.nextId⟩ (freshUid v.uidStem v.nextId) request]) := by
  rw [slots_eq, slots_eq, blocks_appendSlot, List.flatMap_map]
  refine perm_flatMap_of_mem h.blocks.ids howner (fun b hb => ?_) ?_
  · rw [if_neg hb]
  · rw [if_pos rfl]

/-- A workflow without further blocks. -/
theorem laid_new (uidStem name : String) (registry : Registry μ) (uid : Option String) :
    (new uidStem name registry uid).Laid registry where
  root := rfl
  rootName := rfl
  inner b hb := absurd hb List.not_mem_nil
  nested := ⟨.inr rfl, trivial, trivial⟩
  blocks b hb := by
    rw [List.mem_singleton.mp hb]
    exact ⟨[], rfl, [], [], rfl, .nil, fun _ hs => absurd hs List.not_mem_nil⟩

/-- A new block below a container. -/
theorem Laid.attachBlock (h : v.Laid registry) (hv : v.WellFormed) {parent : BlockId}
    {container : Block} (hget : v.getContainer parent = .ok container) {kind : BlockKind}
    (hkind : kind ≠ .workflow) (name : String) {requests : List SlotRequest}
    (hr : registry.requests? kind = some requests) (uid : Option String) :
    (v.attachBlock parent kind name requests uid).2.Laid registry := by
  have hparent := hv.mem_ids_of_getContainer hget
  have hroot : (v.attachBlock parent kind name requests uid).2.root = v.root := root_modifyBelow ..
  constructor
  · rw [hroot, h.root]
  · rw [hroot, h.rootName]
    exact (name_modifyBelow ..).symm
  · intro b hb
    have hperm := perm_body_attachBlock hv.blocks.ids hparent kind name requests uid
    rcases List.mem_append.mp (hperm.mem_iff.mp hb) with hb | hb
    · exact h.inner b hb
    · rw [List.mem_singleton.mp hb]
      exact hkind
  · exact hv.nested_attachBlock h.nested hget ..
  · intro b hb
    have hperm := perm_blocks_attachBlock hv.blocks.ids hparent kind name requests uid
    rcases List.mem_append.mp (hperm.mem_iff.mp hb) with hb | hb
    · exact h.blocks b hb
    · rw [List.mem_singleton.mp hb]
      exact (fresh_newBlock hr v name uid).restorable

-- ---------------------------------------------------------------------------
-- The pass over blocks
-- ---------------------------------------------------------------------------

/-- What holds while blocks are added: the uids of the blocks that are pending are new, and no slot
has had its record yet. -/
structure Growing (registry : Registry μ) (uidStem : String) (pending : List String)
    (v : Workflow μ) : Prop where
  unlinked : v.Unlinked
  laid : v.Laid registry
  classes : v.registry = registry
  stem : v.uidStem = uidStem
  uids : (v.blocks.map Block.uid ++ pending).Nodup
  slotUids : ∀ slot ∈ v.slots, slot.uid = freshUid uidStem slot.id.val

/-- The slots that a recorded block is made with have fresh uids. -/
theorem uid_of_mem_makeSlots {uidStem : String} {first : Nat} {requests : List SlotRequest}
    (hr : ∀ request ∈ requests, request.uid = none) {slot : Slot}
    (h : slot ∈ makeSlots uidStem first requests) : slot.uid = freshUid uidStem slot.id.val := by
  induction requests generalizing first with
  | nil => cases h
  | cons request requests ih =>
    rw [makeSlots, List.mem_cons] at h
    rcases h with rfl | h
    · rw [Slot.ofRequest, hr request List.mem_cons_self]
      rfl
    · exact ih (fun other ho => hr other (List.mem_cons_of_mem _ ho)) h

theorem uid_of_requests? {kind : BlockKind} {requests : List SlotRequest}
    (hr : registry.requests? kind = some requests) :
    ∀ request ∈ requests, request.uid = none := by
  unfold Registry.requests? at hr
  split at hr
  · obtain ⟨modelClass, -, hclass⟩ := Option.bind_eq_some_iff.mp hr
    split at hclass
    · cases hclass
      intro request hm
      rw [ModelDeclaration.slotRequests, List.mem_append, List.mem_map, List.mem_map] at hm
      rcases hm with ⟨_, -, rfl⟩ | ⟨_, -, rfl⟩ <;> rfl
    · cases hclass
  · cases hr
    cases kind with
    | constant value => cases value <;> simp [BlockKind.defaultSlots]
    | _ => simp [BlockKind.defaultSlots]

namespace Growing

variable {uidStem : String} {pending others : List String}

theorem perm (h : Growing registry uidStem pending v) (hp : pending.Perm others) :
    Growing registry uidStem others v :=
  { h with uids := (hp.append_left _).nodup_iff.mp h.uids }

/-- A record whose parent is there adds a block or is dropped. -/
theorem addRecordedBlock {data : BlockData} {kind : BlockKind} (hkind : kind ≠ .workflow)
    (h : Growing registry uidStem (data.uid :: pending) v) (parent : BlockId) :
    Growing registry uidStem pending (v.addRecordedBlock parent data kind) := by
  have hv := h.unlinked.wellFormed
  have hadd := addRecordedBlock_eq hv parent data kind
  have hnext := h.unlinked.addRecordedBlock parent data kind
  rw [h.classes] at hadd
  split at hadd
  · rename_i requests container hr hget
    rw [hadd] at hnext ⊢
    have hperm := perm_blocks_attachBlock hv.blocks.ids (hv.mem_ids_of_getContainer hget) kind
      (data.name.getD kind.givenName) requests (some data.uid)
    refine ⟨hnext, h.laid.attachBlock hv hget hkind _ hr _, ?_, ?_, ?_, ?_⟩
    · exact (registry_modifyBelow ..).trans h.classes
    · exact (uidStem_modifyBelow ..).trans h.stem
    · rw [((hperm.map Block.uid).append_right _).nodup_iff, List.map_append, List.append_assoc]
      exact h.uids
    · intro slot hs
      obtain ⟨b, hb, hslot⟩ := mem_slots.mp hs
      rcases List.mem_append.mp (hperm.mem_iff.mp hb) with hb | hb
      · exact h.slotUids slot (mem_slots.mpr ⟨b, hb, hslot⟩)
      · rw [List.mem_singleton.mp hb] at hslot
        rw [← h.stem]
        exact uid_of_mem_makeSlots (uid_of_requests? hr) hslot
  · rw [hadd]
    exact { h with uids := h.uids.sublist ((List.sublist_cons_self ..).append_left _) }

theorem addAttachable (entries : List (BlockData × BlockKind)) :
    ∀ {v : Workflow μ} {others : List String}, (∀ entry ∈ entries, entry.2 ≠ .workflow) →
      Growing registry uidStem (entries.map (fun entry => entry.1.uid) ++ others) v →
      Growing registry uidStem ((v.addAttachable entries).2.map (fun entry => entry.1.uid) ++ others)
        (v.addAttachable entries).1 ∧
      (v.addAttachable entries).2 ⊆ entries := by
  induction entries with
  | nil => exact fun _ h => ⟨h, List.Subset.refl _⟩
  | cons entry rest ih =>
    intro v others hkinds h
    obtain ⟨data, kind⟩ := entry
    have hrest : ∀ entry ∈ rest, entry.2 ≠ .workflow :=
      fun entry he => hkinds entry (List.mem_cons_of_mem _ he)
    unfold Workflow.addAttachable
    split
    · rename_i parent _
      obtain ⟨hgrown, hsub⟩ := ih hrest (h.addRecordedBlock (hkinds _ List.mem_cons_self) parent)
      exact ⟨hgrown, List.Subset.trans hsub (List.subset_cons_self ..)⟩
    · obtain ⟨hgrown, hsub⟩ := ih hrest (h.perm List.perm_middle.symm)
      exact ⟨hgrown.perm List.perm_middle, List.cons_subset_cons _ hsub⟩

theorem addRecordedBlocks (fuel : Nat) : ∀ {v : Workflow μ} {entries : List (BlockData × BlockKind)},
    (∀ entry ∈ entries, entry.2 ≠ .workflow) →
    Growing registry uidStem (entries.map fun entry => entry.1.uid) v →
    ∃ left, Growing registry uidStem left (Workflow.addRecordedBlocks fuel v entries) := by
  induction fuel with
  | zero => exact fun _ h => ⟨_, h⟩
  | succ fuel ih =>
    intro v entries hkinds h
    rw [← List.append_nil (entries.map _)] at h
    obtain ⟨hgrown, hsub⟩ := addAttachable entries hkinds h
    rw [List.append_nil] at hgrown
    unfold Workflow.addRecordedBlocks
    generalize v.addAttachable entries = next at hgrown hsub ⊢
    obtain ⟨grown, left⟩ := next
    dsimp only at hgrown hsub ⊢
    split
    · exact ⟨_, hgrown⟩
    · exact ih (fun entry he => hkinds entry (hsub he)) hgrown

end Growing

-- ---------------------------------------------------------------------------
-- The pass over slots
-- ---------------------------------------------------------------------------

/-- What holds while slots are added and changed: the uids of the records that are pending are
new. -/
structure Settling (registry : Registry μ) (pending : List String) (v : Workflow μ) : Prop where
  unlinked : v.Unlinked
  laid : v.Laid registry
  uids : (v.blocks.map Block.uid).Nodup
  slotUids : (v.slots.map Slot.uid ++ pending).Nodup

theorem Growing.settling {uidStem : String} {left pending : List String}
    (h : Growing registry uidStem left v) (hpending : pending.Nodup)
    (hfresh : ∀ uid ∈ pending, ∀ number, uid ≠ freshUid uidStem number) :
    Settling registry pending v where
  unlinked := h.unlinked
  laid := h.laid
  uids := h.uids.of_append_left
  slotUids := by
    rw [List.nodup_append]
    refine ⟨?_, hpending, ?_⟩
    · have hids := h.unlinked.wellFormed.slotIds
      rw [List.nodup_map_iff_inj_on (.of_map _ hids)]
      intro s hs t ht huid
      rw [h.slotUids s hs, h.slotUids t ht] at huid
      exact List.inj_on_of_nodup_map hids hs ht (congrArg SlotId.mk (freshUid_inj huid))
    · intro uid hm other ho
      obtain ⟨slot, hs, rfl⟩ := List.mem_map.mp hm
      rw [h.slotUids slot hs]
      exact (hfresh other ho _).symm

namespace Settling

variable {pending : List String}

/-- A record that names a slot gives it a uid that no other slot has. -/
theorem modifySlot {data : SlotData} (h : Settling registry (data.uid :: pending) v) {id : SlotId}
    (hnext : (v.modifySlot id (applyRecord data)).Unlinked) :
    Settling registry pending (v.modifySlot id (applyRecord data)) where
  unlinked := hnext
  laid := by
    refine h.laid.mapSlots (fun request slot _ hs => ?_) fun slot _ hs => ?_
    · split
      · exact hs.applyRecord data
      · exact hs
    · split
      · exact hs.applyRecord data
      · exact hs
  uids := by
    rw [Workflow.modifySlot, Workflow.mapSlots, blocks_mapBlocks, List.map_map]
    exact h.uids
  slotUids := by
    have hids := h.unlinked.wellFormed.slotIds
    have huids := h.slotUids
    rw [List.nodup_append, List.nodup_cons] at huids
    obtain ⟨hslots, ⟨hdata, hpending⟩, hdis⟩ := huids
    have hnew : ∀ slot ∈ v.slots, slot.uid ≠ data.uid := fun slot hs =>
      hdis _ (List.mem_map_of_mem hs) _ List.mem_cons_self
    rw [Workflow.modifySlot, slots_mapSlots, List.map_map, List.nodup_append]
    refine ⟨?_, hpending, ?_⟩
    · rw [List.nodup_map_iff_inj_on (.of_map _ hids)]
      intro s hs t ht heq
      simp only [Function.comp_apply] at heq
      by_cases hsid : s.id = id <;> by_cases htid : t.id = id
      · exact List.inj_on_of_nodup_map hids hs ht (hsid.trans htid.symm)
      · rw [if_pos hsid, if_neg htid] at heq
        exact absurd heq.symm (hnew t ht)
      · rw [if_neg hsid, if_pos htid] at heq
        exact absurd heq (hnew s hs)
      · rw [if_neg hsid, if_neg htid] at heq
        exact List.inj_on_of_nodup_map hslots hs ht heq
    · intro uid hm other ho heq
      subst heq
      obtain ⟨slot, hs, rfl⟩ := List.mem_map.mp hm
      simp only [Function.comp_apply] at ho
      split at ho
      · exact hdata ho
      · exact hdis _ (List.mem_map_of_mem hs) _ (List.mem_cons_of_mem _ ho) rfl

/-- A record that names no slot adds one under its uid. -/
theorem appendSlot {data : SlotData} (h : Settling registry (data.uid :: pending) v) {owner : Block}
    (howner : owner ∈ v.blocks) {kind : SlotKind}
    (hnext : (v.appendSlot owner.id (recordedRequest data kind)).Unlinked) :
    Settling registry pending (v.appendSlot owner.id (recordedRequest data kind)) where
  unlinked := hnext
  laid := by
    let new := Slot.ofRequest ⟨v.nextId⟩ (freshUid v.uidStem v.nextId) (recordedRequest data kind)
    refine h.laid.map (f := fun b => if b.id = owner.id then { b with slots := b.slots ++ [new] } else b)
      rfl rfl (fun b => ?_) ?_
    · split <;> rfl
    · rintro b hb ⟨requests, hr, hmade⟩
      split
      · exact ⟨requests, hr, hmade.append (Slot.plain_ofRequest ..)⟩
      · exact ⟨requests, hr, hmade⟩
  uids := by
    have hsame : (v.appendSlot owner.id (recordedRequest data kind)).blocks.map Block.uid =
        v.blocks.map Block.uid := by
      rw [blocks_appendSlot, List.map_map]
      refine List.map_congr_left fun b _ => ?_
      rw [Function.comp_apply]
      split <;> rfl
    rw [hsame]
    exact h.uids
  slotUids := by
    have hperm := h.unlinked.wellFormed.perm_slots_appendSlot howner (recordedRequest data kind)
    rw [((hperm.map Slot.uid).append_right _).nodup_iff, List.map_append, List.append_assoc]
    exact h.slotUids

theorem addRecordedSlot {data : SlotData} (h : Settling registry (data.uid :: pending) v)
    (kind : SlotKind) : Settling registry pending (v.addRecordedSlot data kind) := by
  have hnext := h.unlinked.addRecordedSlot data kind
  have hskip : Settling registry pending v :=
    { h with slotUids := h.slotUids.sublist ((List.sublist_cons_self ..).append_left _) }
  unfold Workflow.addRecordedSlot at hnext ⊢
  cases howner : data.owner.bind v.blockWithUid? with
  | none => exact hskip
  | some owner =>
    rw [howner] at hnext
    dsimp only at hnext ⊢
    cases hslot : owner.slot? data.name with
    | some slot =>
      rw [hslot] at hnext
      exact h.modifySlot hnext
    | none =>
      rw [hslot] at hnext
      dsimp only at hnext ⊢
      cases hadd : v.addSlot owner.id (recordedRequest data kind) with
      | error error => exact hskip
      | ok added =>
        rw [hadd] at hnext
        obtain ⟨uid, -, hfind⟩ := Option.bind_eq_some_iff.mp howner
        obtain ⟨block, -, -, -, rfl⟩ := addSlot_eq_ok.mp hadd
        exact h.appendSlot (List.mem_of_find?_eq_some hfind) hnext

theorem addRecordedSlots (entries : List (SlotData × SlotKind)) : ∀ {v : Workflow μ},
    Settling registry (entries.map fun entry => entry.1.uid) v →
    Settling registry [] (entries.foldl (fun v (data, kind) => v.addRecordedSlot data kind) v) := by
  induction entries with
  | nil => exact fun h => h
  | cons entry rest ih => exact fun h => ih (h.addRecordedSlot entry.2)

end Settling

-- ---------------------------------------------------------------------------
-- The pass over links
-- ---------------------------------------------------------------------------

/-- What holds while links are made. -/
structure Settled (registry : Registry μ) (v : Workflow μ) : Prop where
  wellFormed : v.WellFormed
  laid : v.Laid registry
  uids : (v.blocks.map Block.uid).Nodup
  slotUids : (v.slots.map Slot.uid).Nodup

namespace Settled

theorem addRecordedLink (h : Settled registry v) (data : LinkData) :
    Settled registry (v.addRecordedLink data) := by
  unfold Workflow.addRecordedLink
  split
  · rename_i source target _ _
    cases hconnect : v.connect source.id target.id (some data.uid) with
    | error error => exact h
    | ok added =>
      have hnext := h.wellFormed.connect hconnect
      obtain ⟨first, second, plan, hfirst, hsecond, hplan, rfl⟩ := connect_eq_ok.mp hconnect
      obtain ⟨_, _, -, -, -, -, rfl⟩ := ends_of_connection hplan
      obtain ⟨hb, hs, -⟩ := mem_of_ownedSlot? (getOwnedSlot_eq_ok.mp hfirst)
      obtain ⟨hc, ht, -⟩ := mem_of_ownedSlot? (getOwnedSlot_eq_ok.mp hsecond)
      let adopts := adoptedType? first.slot second.slot
      have hlaid : (v.adopt adopts).Laid registry := by
        rw [adopt_eq_mapSlots]
        refine h.laid.mapSlots (fun request slot hslot ha => ?_) fun slot _ hp => hp.takeOn _
        exact h.wellFormed.answers_takeOn (mem_slots.mpr ⟨_, hb, hs⟩) (mem_slots.mpr ⟨_, hc, ht⟩)
          hslot ha
      have huids : (v.adopt adopts).blocks.map Block.uid = v.blocks.map Block.uid := by
        rw [adopt_eq_mapSlots, Workflow.mapSlots, blocks_mapBlocks, List.map_map]
        rfl
      have hslotUids : (v.adopt adopts).slots.map Slot.uid = v.slots.map Slot.uid := by
        rw [adopt_eq_mapSlots, slots_mapSlots, List.map_map]
        exact List.map_congr_left fun slot _ => Slot.uid_takeOn ..
      exact ⟨hnext, ⟨hlaid.root, hlaid.rootName, hlaid.inner, hlaid.nested, hlaid.blocks⟩,
        huids ▸ h.uids, hslotUids ▸ h.slotUids⟩
  · exact h

theorem addRecordedLinks (entries : List LinkData) : ∀ {v : Workflow μ}, Settled registry v →
    Settled registry (entries.foldl Workflow.addRecordedLink v) := by
  induction entries with
  | nil => exact fun h => h
  | cons entry rest ih => exact fun h => ih (h.addRecordedLink entry)

end Settled

-- ---------------------------------------------------------------------------
-- Loading and saving
-- ---------------------------------------------------------------------------

/-- The records of blocks below the root are not those of workflows. -/
theorem kind_of_mem_recordedBlocks {records : List Record} {entry : BlockData × BlockKind}
    (h : entry ∈ recordedBlocks records) : entry.2 ≠ .workflow := by
  rw [recordedBlocks, List.mem_filterMap] at h
  obtain ⟨record, -, hr⟩ := h
  cases record with
  | block data kind =>
    intro hkind
    cases kind <;> cases hr <;> cases hkind
  | slot data kind => cases hr
  | link data => cases hr

/-- What has been built from a document whose uids are distinct can be brought back, if no link leads
from border to border. -/
theorem restorable_of_ofRecords {uidStem : String} {records : List Record}
    (hw : ofRecords uidStem records registry = .ok w) (hd : Document.Distinct uidStem records)
    (hborder : w.LinkedInside) : w.Restorable registry := by
  unfold ofRecords at hw
  split at hw
  · cases hw
  · rename_i root hroot
    injection hw with hw
    have hstart : Growing registry uidStem ((recordedBlocks records).map fun entry => entry.1.uid)
        (new uidStem (root.name.getD defaultName) registry (some root.uid)) := by
      refine ⟨⟨wellFormed_new .., rfl⟩, laid_new .., rfl, rfl, hd.blocks root hroot, ?_⟩
      intro slot hs
      exact absurd hs List.not_mem_nil
    obtain ⟨left, hgrown⟩ := Growing.addRecordedBlocks (recordedBlocks records).length
      (fun entry he => kind_of_mem_recordedBlocks he) hstart
    have hsettling := Settling.addRecordedSlots (recordedSlots records)
      (hgrown.settling hd.slots fun uid hm number => by
        obtain ⟨entry, he, rfl⟩ := List.mem_map.mp hm
        exact hd.fresh entry he number)
    have huids := hsettling.slotUids
    rw [List.append_nil] at huids
    have hsettled := Settled.addRecordedLinks (recordedLinks records)
      ⟨hsettling.unlinked.wellFormed, hsettling.laid, hsettling.uids, huids⟩
    rw [hw] at hsettled
    exact ⟨hsettled.laid, hsettled.wellFormed, hsettled.uids, hsettled.slotUids, hborder⟩

/-- **Saving what has been loaded loses nothing.** Take any document whose uids are distinct. If the
workflow that is built from it has no link from border to border, then what is built from its own
records, over the same classes, differs from it in nothing but numbers and identifiers. -/
theorem isomorphic_of_reload {uidStem : String} {records : List Record}
    (hw : ofRecords uidStem records registry = .ok w) (hd : Document.Distinct uidStem records)
    (hborder : w.LinkedInside) (again : String) :
    ∃ w', ofRecords again w.records registry = .ok w' ∧ w.Isomorphic w' :=
  (restorable_of_ofRecords hw hd hborder).ofRecords_records again

/-- A document with a child before its parent, a record of a slot that the child is made with, and a
link through which a slot on the border takes on a type. -/
theorem isomorphic_of_reload_of_timeLoop :
    ∃ w w' : Workflow Unit, ofRecords "new-"
        [.slot ⟨"clock", some "plan", "now", .unknown, none, .default, false⟩ ⟨.output, true⟩,
         .link ⟨"wire", "clock", "start"⟩,
         .slot ⟨"start", some "loop", "start_time", .unknown, some "None", .default, false⟩
           ⟨.input, false⟩,
         .block ⟨"loop", some "steps", some "Loop"⟩ .timeLoop,
         .block ⟨"steps", none, none⟩ .sequential,
         .block ⟨"plan", none, some "Plan"⟩ .workflow] .empty = .ok w ∧
      w.links.length = 1 ∧ ofRecords "again-" w.records .empty = .ok w' ∧ w.Isomorphic w' := by
  obtain ⟨w', hw', hiso⟩ := @isomorphic_of_reload Unit _ .empty "new-"
    [.slot ⟨"clock", some "plan", "now", .unknown, none, .default, false⟩ ⟨.output, true⟩,
     .link ⟨"wire", "clock", "start"⟩,
     .slot ⟨"start", some "loop", "start_time", .unknown, some "None", .default, false⟩
       ⟨.input, false⟩,
     .block ⟨"loop", some "steps", some "Loop"⟩ .timeLoop,
     .block ⟨"steps", none, none⟩ .sequential,
     .block ⟨"plan", none, some "Plan"⟩ .workflow] rfl
    { blocks := fun root hroot => by
        cases hroot
        decide
      slots := by decide
      fresh := fun entry he => ne_freshUid (by
        revert entry
        decide) }
    (by unfold LinkedInside; decide) "again-"
  exact ⟨_, w', rfl, rfl, hw', hiso⟩

end Workflow

end SlotFlow
