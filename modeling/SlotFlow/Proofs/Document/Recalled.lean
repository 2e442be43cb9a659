import SlotFlow.Proofs.Document.Reloaded
import SlotFlow.Proofs.Document.Roster
/-!
# What the records of slots bring back

A block is made with slots of its own before the records of its slots are read. A record that names one of
them gives it its uid, and its type unless it has none; the slot keeps the kind it was made with. Any other
record adds the slot as it was.

So a slot without a type comes back with the type of the slot of its name, if its block is made with one,
and one that was removed and added again in another direction comes back in the one it had at first.

* `Registry.madeRequest?` — the slot of a name that blocks of a kind are made with;
* `Slot.reloadedType`, `Slot.reloadedKind` — a slot after its record has been read;
* `Block.Recalled` — the slots of a block while their records are read.

## Results

* `Workflow.exists_recalled_records` — what the records of a block's slots bring back, one by one;
* `Workflow.HostsFresh.exists_refilled` — and what they bring back of all of them;
* `Workflow.uids_recordedSlots_records` — they give the uids of the slots.
-/

namespace SlotFlow

variable {μ : Type} {registry : Registry μ} {uidStem : String}

-- ---------------------------------------------------------------------------
-- Slots that come back
-- ---------------------------------------------------------------------------

/-- The slot of a name that blocks of a kind are made with. -/
def Registry.madeRequest? (registry : Registry μ) (kind : BlockKind) (name : String) :
    Option SlotRequest :=
  ((registry.requests? kind).getD []).find? (·.name = name)

theorem Registry.madeRequest?_of_not_mem {kind : BlockKind} {name : String}
    (h : name ∉ registry.slotNames kind) : registry.madeRequest? kind name = none := by
  rw [madeRequest?, List.find?_eq_none]
  intro request hr heq
  exact h (of_decide_eq_true heq ▸ List.mem_map_of_mem hr)

/-- Blocks are made with slots inside the workflow. -/
theorem Registry.inside_of_madeRequest? {kind : BlockKind} {name : String} {request : SlotRequest}
    (h : registry.madeRequest? kind name = some request) : request.kind.external = false := by
  unfold madeRequest? at h
  cases hr : registry.requests? kind with
  | none =>
    rw [hr] at h
    cases h
  | some requests =>
    rw [hr] at h
    exact (separate_requests? hr).inside request (List.mem_of_find?_eq_some h)

namespace Slot

/-- The type of a slot of a block once its record has been read. -/
def reloadedType (registry : Registry μ) (block : Block) (slot : Slot) : SlotType :=
  if slot.type = .unknown then
    (registry.madeRequest? block.kind slot.name).elim .unknown SlotRequest.type
  else slot.type

/-- The kind of a slot of a block once its record has been read. -/
def reloadedKind (registry : Registry μ) (block : Block) (slot : Slot) : SlotKind :=
  (registry.madeRequest? block.kind slot.name).elim slot.kind SlotRequest.kind

/-- A slot inside comes back inside. -/
theorem inside_reloadedKind {block : Block} {slot : Slot} (h : slot.external = false) :
    (slot.reloadedKind registry block).external = false := by
  unfold reloadedKind
  cases hr : registry.madeRequest? block.kind slot.name with
  | none => exact h
  | some request => exact Registry.inside_of_madeRequest? hr

/-- A slot that a block of a kind is made with, under a fresh uid. -/
structure Made (registry : Registry μ) (uidStem : String) (kind : BlockKind) (slot : Slot) : Prop where
  uid : ∃ number, slot.uid = Workflow.freshUid uidStem number
  request : ∃ request, registry.madeRequest? kind slot.name = some request ∧
    slot.kind = request.kind ∧ slot.type = request.type

/-- What has come back of a slot of a block. -/
structure Recalls (registry : Registry μ) (block : Block) (saved slot : Slot) : Prop where
  uid : slot.uid = saved.uid
  name : slot.name = saved.name
  kind : slot.kind = saved.reloadedKind registry block
  type : slot.type = saved.reloadedType registry block

/-- A slot that a block is made with takes on what is recorded of the slot of its name. -/
theorem Made.recalls {block : Block} {saved slot : Slot} (h : slot.Made registry uidStem block.kind)
    (hname : slot.name = saved.name) (owner : Option String) :
    Recalls registry block saved (Workflow.applyRecord (saved.data owner) slot) := by
  obtain ⟨request, hrequest, hkind, htype⟩ := h.request
  rw [hname] at hrequest
  refine ⟨rfl, hname, ?_, ?_⟩
  · rw [reloadedKind, hrequest]
    exact hkind
  · rw [reloadedType, hrequest, Option.elim_some, ← htype]
    rfl

/-- A slot that its block is not made with is added as it was. -/
theorem recalls_ofRequest {block : Block} {saved : Slot}
    (hname : saved.name ∉ registry.slotNames block.kind) (id : SlotId) (freshUid : String)
    (owner : Option String) :
    Recalls registry block saved
      (Slot.ofRequest id freshUid (Workflow.recordedRequest (saved.data owner) saved.kind)) := by
  have hnone := Registry.madeRequest?_of_not_mem hname
  refine ⟨rfl, rfl, ?_, ?_⟩
  · rw [reloadedKind, hnone]
    rfl
  · show saved.type = saved.reloadedType registry block
    rw [reloadedType, hnone, Option.elim_none]
    split
    · assumption
    · rfl

end Slot

/-- A slot that a block is made with, or what has come back of one of the saved slots. -/
def Block.Accounts (registry : Registry μ) (uidStem : String) (block : Block) (done : List Slot)
    (slot : Slot) : Prop :=
  slot.Made registry uidStem block.kind ∨ ∃ saved ∈ done, Slot.Recalls registry block saved slot

theorem Block.Accounts.mono {block : Block} {done others : List Slot} {slot : Slot}
    (h : block.Accounts registry uidStem done slot) (hsub : done ⊆ others) :
    block.Accounts registry uidStem others slot :=
  h.imp_right fun ⟨saved, hs, hr⟩ => ⟨saved, hsub hs, hr⟩

/-- The slots of a block some of whose saved slots have had their record. -/
structure Block.Recalled (registry : Registry μ) (uidStem : String) (block : Block)
    (done slots : List Slot) : Prop where
  origin : ∀ slot ∈ slots, block.Accounts registry uidStem done slot
  names : registry.slotNames block.kind ⊆ slots.map Slot.name
  back : ∀ saved ∈ done, ∃ slot ∈ slots, Slot.Recalls registry block saved slot

namespace Block.Recalled

variable {block : Block} {done slots before after : List Slot} {saved found : Slot}

/-- A record that names a slot. -/
theorem named (h : block.Recalled registry uidStem done (before ++ found :: after))
    (hname : found.name = saved.name) (hdone : saved.name ∉ done.map Slot.name)
    (owner : Option String) :
    block.Recalled registry uidStem (done ++ [saved])
      (before ++ Workflow.applyRecord (saved.data owner) found :: after) := by
  have hother : ∀ old ∈ done, ¬Slot.Recalls registry block old found := fun old ho hr =>
    hdone (hname ▸ hr.name ▸ List.mem_map_of_mem ho)
  have hmade : found.Made registry uidStem block.kind := by
    refine (h.origin found (by simp)).resolve_right ?_
    rintro ⟨old, ho, hr⟩
    exact hother old ho hr
  have hnew := hmade.recalls hname owner
  constructor
  · intro slot hs
    rw [List.mem_append, List.mem_cons] at hs
    rcases hs with hs | rfl | hs
    · exact (h.origin slot (by simp [hs])).mono (List.subset_append_left ..)
    · exact .inr ⟨saved, by simp, hnew⟩
    · exact (h.origin slot (by simp [hs])).mono (List.subset_append_left ..)
  · have hnames := h.names
    rw [List.map_append, List.map_cons] at hnames ⊢
    exact hnames
  · intro old ho
    rcases List.mem_append.mp ho with ho | ho
    · obtain ⟨slot, hs, hr⟩ := h.back old ho
      have hne : slot ≠ found := fun heq => hother old ho (heq ▸ hr)
      refine ⟨slot, ?_, hr⟩
      simp only [List.mem_append, List.mem_cons, hne, false_or] at hs ⊢
      exact hs.imp_right .inr
    · rw [List.mem_singleton.mp ho]
      exact ⟨_, by simp, hnew⟩

/-- A record that names none. -/
theorem added (h : block.Recalled registry uidStem done slots)
    (hnew : ∀ slot ∈ slots, slot.name ≠ saved.name) (id : SlotId) (freshUid : String)
    (owner : Option String) :
    block.Recalled registry uidStem (done ++ [saved])
      (slots ++ [Slot.ofRequest id freshUid
        (Workflow.recordedRequest (saved.data owner) saved.kind)]) := by
  have hnot : saved.name ∉ registry.slotNames block.kind := by
    intro hmem
    obtain ⟨slot, hs, heq⟩ := List.mem_map.mp (h.names hmem)
    exact hnew slot hs heq
  have hrecalls := Slot.recalls_ofRequest hnot id freshUid owner
  constructor
  · intro slot hs
    rcases List.mem_append.mp hs with hs | hs
    · exact (h.origin slot hs).mono (List.subset_append_left ..)
    · rw [List.mem_singleton.mp hs]
      exact .inr ⟨saved, by simp, hrecalls⟩
  · rw [List.map_append]
    exact List.subset_append_of_subset_left _ h.names
  · intro old ho
    rcases List.mem_append.mp ho with ho | ho
    · obtain ⟨slot, hs, hr⟩ := h.back old ho
      exact ⟨slot, List.mem_append_left _ hs, hr⟩
    · rw [List.mem_singleton.mp ho]
      exact ⟨_, by simp, hrecalls⟩

end Block.Recalled

namespace Workflow

variable {u v w : Workflow μ}

-- ---------------------------------------------------------------------------
-- The records of slots
-- ---------------------------------------------------------------------------

/-- The records of the slots of a block bring these back, one after the other. -/
theorem exists_recalled_records {b : Block} (saved : List Slot) :
    ∀ {done : List Slot} {v : Workflow μ} {c : Block}, v.Unlinked → (v.blocks.map Block.uid).Nodup →
      c ∈ v.blocks → c.uid = b.uid → ((done ++ saved).map Slot.name).Nodup →
      (∀ slot ∈ saved, slot.external = true → c.id = v.root.id) →
      b.Recalled registry uidStem done c.slots →
      ∃ slots, b.Recalled registry uidStem (done ++ saved) slots ∧
        Refilled (Block.fill c.id slots) v
          (v.addEntries (saved.map fun slot => (slot.data (some b.uid), slot.kind))) := by
  induction saved with
  | nil =>
    intro done v c hv _ hc _ _ _ hrecalled
    exact ⟨c.slots, (List.append_nil done).symm ▸ hrecalled, .refl hv hc⟩
  | cons slot saved ih =>
    intro done v c hv huids hc huid hnames hborder hrecalled
    have howner : (slot.data (some b.uid)).owner = some c.uid := congrArg some huid.symm
    have hdone : slot.name ∉ done.map Slot.name := by
      rw [List.map_append, List.map_cons, List.nodup_append] at hnames
      exact fun hmem => hnames.2.2 _ hmem _ List.mem_cons_self rfl
    have hsplit : done ++ slot :: saved = (done ++ [slot]) ++ saved := by
      rw [List.append_assoc, List.singleton_append]
    obtain ⟨slots, hslots, hstep⟩ : ∃ slots, b.Recalled registry uidStem (done ++ [slot]) slots ∧
        Refilled (Block.fill c.id slots) v
          (v.addRecordedSlot (slot.data (some b.uid)) slot.kind) := by
      cases hfind : c.slots.find? (·.name = slot.name) with
      | some found =>
        obtain ⟨hname, before, after, heq, hbefore⟩ := List.find?_eq_some_iff_append.mp hfind
        have hname : found.name = slot.name := of_decide_eq_true hname
        refine ⟨_, (heq ▸ hrecalled).named hname hdone _,
          refilled_of_named hv huids hc howner heq hname fun s hs (hs' : s.name = slot.name) => ?_⟩
        simpa [hs'] using hbefore s hs
      | none =>
        have hnew : ∀ s ∈ c.slots, s.name ≠ slot.name := by
          simpa [List.find?_eq_none] using hfind
        obtain ⟨id, freshUid, hstep⟩ :=
          refilled_of_new hv huids hc howner hnew (hborder slot List.mem_cons_self)
        exact ⟨_, hrecalled.added hnew id freshUid _, hstep⟩
    have hroot : (v.addRecordedSlot (slot.data (some b.uid)) slot.kind).root.id = v.root.id := by
      rw [hstep.root, Block.id_fill]
    rw [hsplit] at hnames ⊢
    obtain ⟨filled, hfilled, hrest⟩ := ih hstep.unlinked (hstep.uids ▸ huids) (hstep.mem_fill hc) huid
      hnames (fun other ho => hroot ▸ hborder other (List.mem_cons_of_mem _ ho)) hslots
    exact ⟨filled, hfilled, hstep.again hrest⟩

/-- A block has the slots that a saved one is made with, under fresh uids, and may have the saved one's
other slots. -/
structure HostsFresh (registry : Registry μ) (uidStem : String) (root : BlockId)
    (block saved : Block) : Prop extends Hosts registry root block saved where
  uids : ∀ slot ∈ block.slots, ∃ number, slot.uid = freshUid uidStem number

/-- Before the records of its slots a block has the slots it is made with. -/
theorem HostsFresh.recalled {root : BlockId} {b c : Block}
    (h : HostsFresh registry uidStem root c b) : b.Recalled registry uidStem [] c.slots := by
  have hnames : c.slotNames = registry.slotNames b.kind := h.kind ▸ h.fresh.slotNames_eq
  refine ⟨fun slot hs => .inl ?_, hnames ▸ List.Subset.refl _, fun _ hs => absurd hs List.not_mem_nil⟩
  obtain ⟨requests, hr, hfresh⟩ := h.fresh
  rw [h.kind] at hr
  obtain ⟨request, hrequest, id, uid, rfl⟩ := exists_of_forall₂_right hfresh hs
  have hfind : requests.find? (·.name = request.name) = some request :=
    find?_key_of_mem (Registry.separate_requests? hr).names hrequest
  refine ⟨h.uids _ hs, request, ?_, rfl, rfl⟩
  show registry.madeRequest? b.kind request.name = some request
  rw [Registry.madeRequest?, hr, Option.getD_some, hfind]

/-- The records of the slots of a block bring them all back. -/
theorem HostsFresh.exists_refilled (hv : v.Unlinked) (huids : (v.blocks.map Block.uid).Nodup)
    {b c : Block} (hc : c ∈ v.blocks) (huid : c.uid = b.uid)
    (h : HostsFresh registry uidStem v.root.id c b) :
    ∃ slots, b.Recalled registry uidStem b.slots slots ∧
      Refilled (Block.fill c.id slots) v (v.addEntries b.slotEntries) :=
  @exists_recalled_records _ _ _ b b.slots [] v c hv huids hc huid h.names h.border h.recalled

/-- The uids of the records of a forest are those of its blocks. -/
theorem uids_entries (forest : Forest Block) (parent : String) :
    (forest.entries parent).map (fun entry => entry.1.uid) = forest.toList.map Block.uid := by
  induction forest generalizing parent with
  | nil => rfl
  | node b below after ihBelow ihAfter =>
    rw [Forest.entries, List.map_cons, List.map_append, ihBelow, ihAfter, Forest.toList_node,
      List.map_cons, List.map_append]

/-- The records of slots give the uids of the slots. -/
theorem uids_recordedSlots_records (w : Workflow μ) :
    (recordedSlots w.records).map (fun entry => entry.1.uid) = w.slots.map Slot.uid := by
  rw [recordedSlots_records, slots_eq, List.map_flatMap, List.map_flatMap]
  refine List.flatMap_congr fun block _ => ?_
  rw [Block.slotEntries, List.map_map]
  rfl

end Workflow

end SlotFlow
