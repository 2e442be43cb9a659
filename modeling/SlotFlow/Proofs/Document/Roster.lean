import SlotFlow.Proofs.Document.Built
import SlotFlow.Proofs.Document.Storable
/-!
# The names of the slots that come back

A record of a slot is matched by name with the slots that the block is made with, and what it does not
find it adds. Nothing is ever taken away. So a block that comes back has the slots it is made with,
whether or not they were there when the workflow was saved, and after them those of its slots that go
by other names: a slot that was removed is back, and a slot that was renamed is there twice.

* `Workflow.Storable` — a workflow whose blocks can all be brought back;
* `Block.reloadedNames` — the names of the slots of a block that has been saved and loaded.

## Results

* `Workflow.exists_refilled_named` — what the records of a block's slots make of the names of the slots
  that are there;
* `Workflow.Storable.exists_reloaded` — the names of the slots of all blocks;
* `Workflow.Built.slotNames_of_save` — the names stay as they were exactly if the slots that a block is
  made with still are its first ones.
-/

namespace SlotFlow

variable {μ : Type}

-- ---------------------------------------------------------------------------
-- Names of slots
-- ---------------------------------------------------------------------------

/-- The names of the slots of a block, in their order. -/
def Block.slotNames (block : Block) : List String :=
  block.slots.map Slot.name

/-- The names of the slots that a block of a kind is made with. -/
def Registry.slotNames (registry : Registry μ) (kind : BlockKind) : List String :=
  ((registry.requests? kind).getD []).map SlotRequest.name

/-- The names of the slots of a block that has been saved and loaded: those of the slots it is made
with, then the others it had. -/
def Block.reloadedNames (registry : Registry μ) (block : Block) : List String :=
  registry.slotNames block.kind ++
    block.slotNames.filter fun name => name ∉ registry.slotNames block.kind

/-- What is in a list besides its first part comes after it. -/
theorem append_filter_not_mem_eq_iff {made names : List String} (h : names.Nodup) :
    (made ++ names.filter fun name => name ∉ made) = names ↔ made <+: names := by
  constructor
  · intro heq
    exact ⟨_, heq⟩
  · rintro ⟨others, rfl⟩
    have hdistinct := (List.nodup_append.mp h).2.2
    have hmade : made.filter (fun name => name ∉ made) = [] := by
      simp [List.filter_eq_nil_iff]
    have hothers : others.filter (fun name => name ∉ made) = others := by
      rw [List.filter_eq_self]
      intro name hn
      simpa using fun hmem => hdistinct name hmem name hn rfl
    rw [List.filter_append, hmade, hothers, List.nil_append]

/-- The names stay as they were if the slots that the block is made with still are its first ones. -/
theorem Block.reloadedNames_eq_iff {registry : Registry μ} {block : Block}
    (h : block.slotNames.Nodup) :
    block.reloadedNames registry = block.slotNames ↔
      registry.slotNames block.kind <+: block.slotNames :=
  append_filter_not_mem_eq_iff h

theorem Block.Fresh.slotNames_eq {registry : Registry μ} {block : Block}
    (h : block.Fresh registry) : block.slotNames = registry.slotNames block.kind := by
  obtain ⟨requests, hr, hfresh⟩ := h
  rw [Registry.slotNames, hr, Option.getD_some, Block.slotNames]
  refine map_eq_of_forall₂ hfresh fun request slot hslot => ?_
  obtain ⟨id, uid, rfl⟩ := hslot
  rfl

namespace Workflow

variable {u v w : Workflow μ}

-- ---------------------------------------------------------------------------
-- The records of the slots of a block
-- ---------------------------------------------------------------------------

/-- The record of a slot adds its name if there is no slot of that name yet. -/
theorem exists_refilled_record (hv : v.Unlinked) (huids : (v.blocks.map Block.uid).Nodup) {c : Block}
    (hc : c ∈ v.blocks) {data : SlotData} {kind : SlotKind} (howner : data.owner = some c.uid)
    (hborder : kind.external = true → c.id = v.root.id) :
    ∃ slots, slots.map Slot.name =
        (if data.name ∈ c.slotNames then c.slotNames else c.slotNames ++ [data.name]) ∧
      Refilled (Block.fill c.id slots) v (v.addRecordedSlot data kind) := by
  cases hfind : c.slots.find? (·.name = data.name) with
  | some found =>
    obtain ⟨hname, before, after, hsplit, hbefore⟩ := List.find?_eq_some_iff_append.mp hfind
    have hname : found.name = data.name := of_decide_eq_true hname
    have hmem : data.name ∈ c.slotNames := by
      rw [Block.slotNames, hsplit, ← hname]
      exact List.mem_map_of_mem (List.mem_append_right _ List.mem_cons_self)
    refine ⟨_, ?_, refilled_of_named hv huids hc howner hsplit hname fun s hs => ?_⟩
    · rw [if_pos hmem, Block.slotNames, hsplit, List.map_append, List.map_append]
      rfl
    · simpa using hbefore s hs
  | none =>
    have hnew : ∀ s ∈ c.slots, s.name ≠ data.name := by simpa [List.find?_eq_none] using hfind
    have hnot : data.name ∉ c.slotNames := by
      rw [Block.slotNames, List.mem_map]
      rintro ⟨s, hs, heq⟩
      exact hnew s hs heq
    obtain ⟨id, freshUid, hstep⟩ := refilled_of_new hv huids hc howner hnew hborder
    refine ⟨_, ?_, hstep⟩
    rw [if_neg hnot, List.map_append]
    rfl

/-- The records of slots leave the names that there are as they are, and add those that are not among
them. -/
theorem exists_refilled_records (uid : String) (saved : List Slot) :
    ∀ {v : Workflow μ} {c : Block}, v.Unlinked → (v.blocks.map Block.uid).Nodup → c ∈ v.blocks →
      c.uid = uid → (saved.map Slot.name).Nodup →
      (∀ slot ∈ saved, slot.external = true → c.id = v.root.id) →
      ∃ slots, slots.map Slot.name =
          c.slotNames ++ (saved.map Slot.name).filter (fun name => name ∉ c.slotNames) ∧
        Refilled (Block.fill c.id slots) v
          (v.addEntries (saved.map fun slot => (slot.data (some uid), slot.kind))) := by
  induction saved with
  | nil =>
    intro v c hv _ hc _ _ _
    exact ⟨c.slots, (List.append_nil _).symm, .refl hv hc⟩
  | cons slot saved ih =>
    intro v c hv huids hc huid hnames hborder
    rw [List.map_cons, List.nodup_cons] at hnames
    have howner : (slot.data (some uid)).owner = some c.uid := congrArg some huid.symm
    obtain ⟨slots, hslots, hstep⟩ :=
      exists_refilled_record hv huids hc howner (hborder slot List.mem_cons_self)
    have hroot : (v.addRecordedSlot (slot.data (some uid)) slot.kind).root.id = v.root.id := by
      rw [hstep.root, Block.id_fill]
    obtain ⟨filled, hfilled, hrest⟩ := ih hstep.unlinked (hstep.uids ▸ huids) (hstep.mem_fill hc) huid
      hnames.2 fun other ho => hroot ▸ hborder other (List.mem_cons_of_mem _ ho)
    refine ⟨filled, ?_, hstep.again hrest⟩
    have hthen : Block.slotNames { c with slots := slots } = slots.map Slot.name := rfl
    rw [hfilled, hthen, hslots, List.map_cons]
    show _ = c.slotNames ++ List.filter _ (slot.name :: saved.map Slot.name)
    by_cases hmem : slot.name ∈ c.slotNames
    · rw [show (slot.data (some uid)).name = slot.name from rfl, if_pos hmem,
        List.filter_cons_of_neg (by simpa using hmem)]
    · -- no other record asks for the name
      have hsame : (saved.map Slot.name).filter (fun name => name ∉ c.slotNames ++ [slot.name]) =
          (saved.map Slot.name).filter fun name => name ∉ c.slotNames := by
        refine List.filter_congr fun name hn => ?_
        have hne : name ≠ slot.name := fun heq => hnames.1 (heq ▸ hn)
        simp [hne]
      rw [show (slot.data (some uid)).name = slot.name from rfl, if_neg hmem, hsame,
        List.filter_cons_of_pos (by simpa using hmem), List.append_assoc, List.singleton_append]

-- ---------------------------------------------------------------------------
-- The slots of all blocks
-- ---------------------------------------------------------------------------

/-- A block has the slots that a saved one is made with, and may have the saved one's other slots. -/
structure Hosts (registry : Registry μ) (root : BlockId) (block saved : Block) : Prop where
  fresh : block.Fresh registry
  kind : block.kind = saved.kind
  names : saved.slotNames.Nodup
  border : ∀ slot ∈ saved.slots, slot.external = true → block.id = root

/-- The records of the slots of a block give it their names besides those it is made with. -/
theorem exists_refilled_names {registry : Registry μ} (hv : v.Unlinked)
    (huids : (v.blocks.map Block.uid).Nodup) {b c : Block} (hc : c ∈ v.blocks) (huid : c.uid = b.uid)
    (h : Hosts registry v.root.id c b) :
    ∃ slots, slots.map Slot.name = b.reloadedNames registry ∧
      Refilled (Block.fill c.id slots) v (v.addEntries b.slotEntries) := by
  obtain ⟨slots, hslots, hrefilled⟩ :=
    exists_refilled_records b.uid b.slots hv huids hc huid h.names h.border
  refine ⟨slots, ?_, hrefilled⟩
  rw [hslots, h.fresh.slotNames_eq, h.kind]
  rfl

/-- The records of a workflow whose blocks can all be made again bring these back, in their order. -/
theorem Storable.exists_reloaded {registry : Registry μ} (h : w.Storable registry)
    (hw : w.WellFormed) (hroot : w.root.kind = .workflow) (hnested : w.body.Nested)
    (uidStem : String) :
    ∃ w', ofRecords uidStem w.records registry = .ok w' ∧
      w'.blocks.map (fun block => (block.uid, block.slotNames)) =
        w.blocks.map fun block => (block.uid, block.reloadedNames registry) := by
  have hdraft : Drafted registry w.root.name w.tree _ :=
    h.drafted hroot (List.Sublist.refl _) (fun _ => h.known) hnested uidStem
  have hentries := hw.recordedBlocks_records hroot h.inner
  rw [← hentries] at hdraft
  generalize hv : addRecordedBlocks (recordedBlocks w.records).length
    (new uidStem w.root.name registry (some w.root.uid)) (recordedBlocks w.records) = v at hdraft
  have hhosts : ∀ b ∈ w.blocks, ∃ c ∈ v.blocks, c.uid = b.uid ∧ Hosts registry v.root.id c b := by
    intro b hb
    obtain ⟨c, hc, hcb, hfresh, hborder⟩ := hdraft.exists_block hw h.uids hb
    exact ⟨c, hc, Block.uid_eq_of_label hcb, hfresh, Block.kind_eq_of_label hcb,
      hw.blocks.slotNames b hb, hborder⟩
  obtain ⟨f, hrefilled, hlabel, hfilled, -⟩ := exists_refilled_each
    (fun _ b slots => slots.map Slot.name = b.reloadedNames registry)
    (fun hv huids hc huid => exists_refilled_names hv huids hc huid) w.blocks hdraft.unlinked
    (hdraft.uids h.uids) h.uids hhosts
  obtain ⟨g, hblocks, hg⟩ := (relinked_addRecordedLinks (recordedLinks w.records)
    (v.addEntries (recordedSlots w.records))).blocks_eq
  refine ⟨(recordedLinks w.records).foldl addRecordedLink
    (v.addEntries (recordedSlots w.records)), ?_, ?_⟩
  · rw [ofRecords, recordedRoot?_records hroot, ← hv]
    rfl
  · rw [hblocks, recordedSlots_records, hrefilled.blocks, List.map_map, List.map_map]
    refine map_eq_of_map_eq hdraft.labels fun b hb c hc hcb => ?_
    have huid : c.uid = b.uid := Block.uid_eq_of_label hcb
    have hsame : (g (f c)).uid = c.uid :=
      (Block.uid_eq_of_label (hg (f c)).1).trans (Block.uid_eq_of_label (hlabel c))
    have hnames : (g (f c)).slotNames = b.reloadedNames registry :=
      (hg (f c)).2.trans (hfilled b hb c hc huid)
    exact Prod.ext (hsame.trans huid) hnames

-- ---------------------------------------------------------------------------
-- Saving and loading
-- ---------------------------------------------------------------------------

variable {events : List (Event μ)} {registry : Registry μ}

/-- **Loading restores the slots that blocks are made with.** Take any workflow that has been built
without a change of kinds, and whose blocks can all be made again. In what is built from its records
each block has the slots that blocks of its kind are made with, under their first names, and then its
other slots. So the names of the slots are those that were saved exactly if, in every block, the slots
it was made with are still there under their names. -/
theorem Built.slotNames_of_save (h : Built events w)
    (hkinds : ∀ event ∈ events, ∀ id kind, event.edit ≠ .setBlockKind id kind)
    (hstorable : w.Storable registry) (uidStem : String) :
    ∃ w', ofRecords uidStem w.records registry = .ok w' ∧
      w'.blocks.map (fun block => (block.uid, block.slotNames)) =
        w.blocks.map (fun block => (block.uid, block.reloadedNames registry)) ∧
      (w'.blocks.map (fun block => (block.uid, block.slotNames)) =
          w.blocks.map (fun block => (block.uid, block.slotNames)) ↔
        ∀ block ∈ w.blocks, registry.slotNames block.kind <+: block.slotNames) := by
  have hchronicle := h.chronicle hkinds
  have hw := h.reachable.wellFormed
  obtain ⟨-, hnested, -⟩ := hchronicle.nested
  obtain ⟨w', hload, hnames⟩ :=
    hstorable.exists_reloaded hw hchronicle.root hnested uidStem
  refine ⟨w', hload, hnames, ?_⟩
  rw [hnames, List.map_inj_left]
  refine forall₂_congr fun block hb => ?_
  rw [Prod.mk.injEq, and_iff_right rfl]
  exact Block.reloadedNames_eq_iff (hw.blocks.slotNames block hb)

/-- A time loop that has got a further slot comes back with the slots it had. -/
theorem slotNames_of_save_of_added :
    ∃ (events : List (Event Unit)) (w w' : Workflow Unit), Built events w ∧
      w.blocks.map Block.slotNames = [[], ["start_time", "target_time", "max_dt", "extra"]] ∧
      ofRecords "again-" w.records ⟨[]⟩ = .ok w' ∧
      w'.blocks.map (fun block => (block.uid, block.slotNames)) =
        w.blocks.map fun block => (block.uid, block.slotNames) := by
  have hloop := @Built.edited Unit _ _ _ (.addBlock rootId .timeLoop none) _
    (.new "new-" "Plan" ⟨[]⟩) rfl
  have hadded := @Built.edited Unit _ _ _
    (.addSlot ⟨1⟩ ⟨"extra", .unknown, ⟨.input, false⟩, false, none, .default, none⟩) _ hloop rfl
  obtain ⟨w', hload, -, hsame⟩ := @Built.slotNames_of_save Unit _ _ ⟨[]⟩ hadded (by simp)
    (.of_no_models (by decide) fun block hb => by
      rw [List.mem_singleton.mp hb]
      exact ⟨nofun, rfl⟩) "again-"
  refine ⟨_, _, w', hadded, rfl, hload, hsame.mpr ?_⟩
  intro block hb
  rw [blocks_eq] at hb
  rcases List.mem_cons.mp hb with rfl | hb
  · exact List.nil_prefix
  · rw [List.mem_singleton.mp hb]
    decide

/-- A time loop of which one slot was removed and another was renamed: the one is back, and the other
is there under both names. -/
theorem not_slotNames_kept_of_removed :
    ∃ (events : List (Event Unit)) (w w' : Workflow Unit), Built events w ∧
      (∀ event ∈ events, ∀ id kind, event.edit ≠ .setBlockKind id kind) ∧ w.Storable ⟨[]⟩ ∧
      ofRecords "again-" w.records ⟨[]⟩ = .ok w' ∧
      w.blocks.map Block.slotNames = [[], ["start_time", "stop"]] ∧
      w'.blocks.map Block.slotNames = [[], ["start_time", "target_time", "max_dt", "stop"]] := by
  have hloop := @Built.edited Unit _ _ _ (.addBlock rootId .timeLoop none) _
    (.new "new-" "Plan" ⟨[]⟩) rfl
  have hremoved := @Built.edited Unit _ _ _ (.removeSlot ⟨4⟩) _ hloop rfl
  have hrenamed := @Built.edited Unit _ _ _ (.renameSlot ⟨3⟩ "stop") _ hremoved rfl
  refine ⟨_, _, _, hrenamed, by simp, .of_no_models (by decide) fun block hb => ?_, rfl, by decide,
    by decide⟩
  rw [List.mem_singleton.mp hb]
  exact ⟨nofun, rfl⟩

end Workflow

end SlotFlow
