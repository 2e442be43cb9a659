import SlotFlow.Proofs.Document.LinkPass
/-!
# Workflows that documents can hold

Whatever became of the slots of a workflow, its blocks come back from their records if each can be
made: no two share a uid, none below the root is a workflow, and the classes of the models are there.
The records of slots and links do not touch what comes of the blocks by themselves.

* `Workflow.Storable` — a workflow whose blocks can all be brought back;
* `Workflow.Relinked` — a workflow whose slots may have taken on other types.

## Results

* `Workflow.Storable.drafted` — the records of blocks bring back the tree;
* `Workflow.labels_addEntries` — the records of slots leave the labels of the blocks alone;
* `Workflow.relinked_addRecordedLinks` — and so do those of links, and the names of slots, too.
-/

namespace SlotFlow.Workflow

variable {μ : Type} {u v w : Workflow μ} {registry : Registry μ}

-- ---------------------------------------------------------------------------
-- Workflows whose blocks come back
-- ---------------------------------------------------------------------------

/-- A workflow whose blocks can all be made again, over the classes of a registry. -/
structure Storable (registry : Registry μ) (w : Workflow μ) : Prop where
  uids : (w.blocks.map Block.uid).Nodup
  inner : ∀ block ∈ w.body.toList, block.kind ≠ .workflow
  /-- The class of each model is there and declares no slot twice. -/
  classes : ∀ block ∈ w.body.toList, ∀ setup, block.kind = .model setup →
    ∃ modelClass, registry.find? setup.className = some modelClass ∧
      modelClass.declaration.repeatedSlot? = none

namespace Storable

/-- Without models, no class has to be there. -/
theorem of_no_models (huids : (w.blocks.map Block.uid).Nodup)
    (hinner : ∀ block ∈ w.body.toList, block.kind ≠ .workflow ∧ block.kind.model? = none) :
    w.Storable registry where
  uids := huids
  inner block hb := (hinner block hb).1
  classes block hb setup hsetup := by
    have hnone := (hinner block hb).2
    rw [hsetup] at hnone
    cases hnone

theorem known (h : w.Storable registry) {block : Block} (hb : block ∈ w.body.toList) :
    block.Known registry := by
  cases hmodel : block.kind.model? with
  | none => exact ⟨_, registry.requests?_of_not_model hmodel⟩
  | some setup =>
    have hkind := BlockKind.model?_eq_some.mp hmodel
    obtain ⟨modelClass, hfind, hrepeated⟩ := h.classes block hb setup hkind
    refine ⟨modelClass.declaration.slotRequests, ?_⟩
    rw [hkind, Registry.requests?, hfind, Option.bind_some, hrepeated]

/-- The records of blocks with some of the uids bring back the tree of these, if each can be made. -/
theorem drafted (h : w.Storable registry) (hroot : w.root.kind = .workflow) {kept : Forest Block}
    (hsub : (kept.toList.map Block.uid).Sublist (w.body.toList.map Block.uid))
    (hknown : ∀ b ∈ kept.toList, b.Known registry) (hnested : kept.Nested) (uidStem : String) :
    Drafted registry w.root.name (.tree w.root kept)
      (addRecordedBlocks (kept.entries w.root.uid).length
        (new uidStem w.root.name registry (some w.root.uid)) (kept.entries w.root.uid)) := by
  have huids := h.uids
  rw [blocks_eq] at huids
  exact drafted_of_entries hroot ((hsub.cons_cons w.root.uid).nodup huids) hnested hknown uidStem

end Storable

/-- The record of the root comes first. -/
theorem recordedRoot?_records (hroot : w.root.kind = .workflow) :
    recordedRoot? w.records =
      some ⟨w.root.uid, (w.parent? w.root.id).map Block.uid, some w.root.name⟩ := by
  rw [records, blocks_eq, List.map_cons, recordOfBlock, hroot]
  rfl

-- ---------------------------------------------------------------------------
-- The records of slots
-- ---------------------------------------------------------------------------

theorem labels_addRecordedSlot (v : Workflow μ) (data : SlotData) (kind : SlotKind) :
    (v.addRecordedSlot data kind).tree.map Block.label = v.tree.map Block.label := by
  have hmap : ∀ f : Block → Block, (∀ b, (f b).label = b.label) →
      (v.mapBlocks f).tree.map Block.label = v.tree.map Block.label := by
    intro f hf
    show (v.tree.map f).map Block.label = v.tree.map Block.label
    rw [Forest.map_map]
    exact Forest.map_congr fun b _ => hf b
  unfold addRecordedSlot
  split
  · rfl
  · split
    · exact hmap _ fun _ => rfl
    · split
      · rename_i hadded
        obtain ⟨block, -, -, -, heq⟩ := addSlot_eq_ok.mp hadded
        cases heq
        refine hmap (fun b => if b.id = _ then { b with slots := b.slots ++ [_] } else b) fun b => ?_
        split <;> rfl
      · rfl

/-- The records of slots leave what comes of the blocks by themselves alone. -/
theorem labels_addEntries (entries : List (SlotData × SlotKind)) (v : Workflow μ) :
    (v.addEntries entries).tree.map Block.label = v.tree.map Block.label := by
  induction entries generalizing v with
  | nil => rfl
  | cons entry entries ih => exact (ih _).trans (labels_addRecordedSlot v entry.1 entry.2)

-- ---------------------------------------------------------------------------
-- The records of links
-- ---------------------------------------------------------------------------

/-- A workflow with the blocks of another, whose slots may have other types. -/
def Relinked (v u : Workflow μ) : Prop :=
  ∃ f : Block → Block, u.tree = v.tree.map f ∧
    ∀ b, (f b).label = b.label ∧ (f b).slots.map Slot.name = b.slots.map Slot.name

namespace Relinked

theorem refl (v : Workflow μ) : Relinked v v :=
  ⟨id, (Forest.map_eq_self fun _ _ => rfl).symm, fun _ => ⟨rfl, rfl⟩⟩

theorem trans {t : Workflow μ} (h : Relinked v u) (h' : Relinked u t) : Relinked v t := by
  obtain ⟨f, htree, hf⟩ := h
  obtain ⟨g, htree', hg⟩ := h'
  refine ⟨g ∘ f, by rw [htree', htree, Forest.map_map], fun b => ?_⟩
  exact ⟨(hg (f b)).1.trans (hf b).1, (hg (f b)).2.trans (hf b).2⟩

theorem blocks_eq (h : Relinked v u) :
    ∃ f : Block → Block, u.blocks = v.blocks.map f ∧
      ∀ b, (f b).label = b.label ∧ (f b).slots.map Slot.name = b.slots.map Slot.name := by
  obtain ⟨f, htree, hf⟩ := h
  exact ⟨f, by rw [Workflow.blocks, htree, Forest.toList_map, Workflow.blocks], hf⟩

theorem labels (h : Relinked v u) : u.tree.map Block.label = v.tree.map Block.label := by
  obtain ⟨f, htree, hf⟩ := h
  rw [htree, Forest.map_map]
  exact Forest.map_congr fun b _ => (hf b).1

end Relinked

/-- A link changes at most the type of a slot. -/
theorem relinked_addRecordedLink (v : Workflow μ) (data : LinkData) :
    Relinked v (v.addRecordedLink data) := by
  unfold addRecordedLink
  split
  · split
    · rename_i hadded
      obtain ⟨-, -, plan, -, -, -, heq⟩ := connect_eq_ok.mp hadded
      cases heq
      refine ⟨fun b => { b with slots := b.slots.map (Slot.takeOn plan.adopts) }, ?_, fun b => ?_⟩
      · show (v.adopt plan.adopts).tree = _
        rw [adopt_eq_mapSlots]
        rfl
      · refine ⟨rfl, ?_⟩
        show (b.slots.map (Slot.takeOn plan.adopts)).map Slot.name = _
        rw [List.map_map]
        exact List.map_congr_left fun slot _ => Slot.name_takeOn _ slot
    · exact .refl v
  · exact .refl v

theorem relinked_addRecordedLinks (entries : List LinkData) (v : Workflow μ) :
    Relinked v (entries.foldl addRecordedLink v) := by
  induction entries generalizing v with
  | nil => exact .refl v
  | cons entry entries ih => exact (relinked_addRecordedLink v entry).trans (ih _)

end SlotFlow.Workflow
