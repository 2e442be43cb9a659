import SlotFlow.Document.Assembly
import SlotFlow.Proofs.Graph.Preserved
/-!
# Workflows from documents

What the steps do by which a document becomes a workflow: a record of a block attaches one, a record
of a slot changes or adds one, a record of a link connects two slots. Every step keeps the workflow
well formed, whatever the record says.

## Results

* `Registry.requests?` — the slots that a recorded block is made with;
* `Workflow.addRecordedBlock_eq` — a recorded block is attached under its recorded name, or not at
  all;
* `Workflow.WellFormed.of_ofRecords` — a document gives a well-formed workflow;
* `Workflow.ofRecords_induction` — what the steps keep holds of the workflow that a document gives.
-/

namespace SlotFlow

variable {μ : Type}

-- ---------------------------------------------------------------------------
-- Recorded blocks
-- ---------------------------------------------------------------------------

/-- The slots that a recorded block of a kind is made with. There is no such block if its class is
missing or declares a slot twice. -/
def Registry.requests? (registry : Registry μ) : BlockKind → Option (List SlotRequest)
  | .model setup =>
    (registry.find? setup.className).bind fun modelClass =>
      match modelClass.declaration.repeatedSlot? with
      | none => some modelClass.declaration.slotRequests
      | some _ => none
  | kind => some kind.defaultSlots

theorem BlockKind.model?_eq_some {kind : BlockKind} {setup : ModelSetup} :
    kind.model? = some setup ↔ kind = .model setup := by
  cases kind <;> simp [BlockKind.model?]

theorem Registry.requests?_of_not_model (registry : Registry μ) {kind : BlockKind}
    (h : kind.model? = none) : registry.requests? kind = some kind.defaultSlots := by
  cases kind with
  | model setup => cases h
  | _ => rfl

/-- The slots of its kind come first. -/
theorem Registry.defaultSlots_prefix {registry : Registry μ} {kind : BlockKind}
    {requests : List SlotRequest} (h : registry.requests? kind = some requests) :
    kind.defaultSlots <+: requests := by
  cases hmodel : kind.model? with
  | some setup =>
    rw [BlockKind.model?_eq_some.mp hmodel]
    exact List.nil_prefix
  | none =>
    rw [registry.requests?_of_not_model hmodel] at h
    cases h
    exact List.prefix_refl _

/-- The name of a block whose record gives none. -/
def BlockKind.givenName : BlockKind → String
  | .model setup => setup.className
  | kind => kind.recordName

theorem Registry.separate_requests? {registry : Registry μ} {kind : BlockKind}
    {requests : List SlotRequest} (h : registry.requests? kind = some requests) :
    Separate requests := by
  unfold requests? at h
  split at h
  · obtain ⟨modelClass, -, hr⟩ := Option.bind_eq_some_iff.mp h
    split at hr
    · cases hr
      exact separate_slotRequests ‹_›
    · cases hr
  · cases h
    exact separate_defaultSlots _

namespace Workflow

variable {w w' : Workflow μ}

/-- A recorded block is attached to a container under its recorded name, or not at all. -/
theorem addRecordedBlock_eq (h : w.WellFormed) (parent : BlockId) (data : BlockData)
    (kind : BlockKind) :
    w.addRecordedBlock parent data kind =
      match w.registry.requests? kind, w.getContainer parent with
      | some requests, .ok _ =>
        (w.attachBlock parent kind (data.name.getD kind.givenName) requests (some data.uid)).2
      | _, _ => w := by
  have hnamed : ∀ (old : String) (requests : List SlotRequest),
      (match data.name with
        | none => (w.attachBlock parent kind old requests (some data.uid)).2
        | some name => (w.attachBlock parent kind old requests (some data.uid)).2.modifyBlock
            ⟨w.nextId⟩ fun block => { block with name := name }) =
        (w.attachBlock parent kind (data.name.getD old) requests (some data.uid)).2 := by
    intro old requests
    cases data.name with
    | none => rfl
    | some name => exact modifyBlock_attachBlock h ..
  cases kind with
  | model setup =>
    simp only [addRecordedBlock, addModelSetup, Registry.requests?]
    cases w.registry.find? setup.className with
    | none => rfl
    | some modelClass =>
      dsimp only [Option.bind_some]
      cases modelClass.declaration.repeatedSlot? with
      | some name => rfl
      | none => cases w.getContainer parent with
        | error error => rfl
        | ok container => exact hnamed ..
  | _ =>
    simp only [addRecordedBlock, addBlock, Registry.requests?]
    cases w.getContainer parent with
    | error error => rfl
    | ok container => exact hnamed ..

/-- What holds of a workflow before the first link is made. -/
structure Unlinked (w : Workflow μ) : Prop where
  wellFormed : w.WellFormed
  links : w.links = []

namespace Unlinked

theorem addRecordedBlock (h : w.Unlinked) (parent : BlockId) (data : BlockData)
    (kind : BlockKind) : (w.addRecordedBlock parent data kind).Unlinked := by
  rw [addRecordedBlock_eq h.wellFormed]
  split
  · rename_i requests container hr hc
    refine ⟨h.wellFormed.attachBlock (h.wellFormed.mem_ids_of_getContainer hc) _ _
      (Registry.separate_requests? hr) _, ?_⟩
    exact (links_modifyBelow ..).trans h.links
  · exact h

theorem addAttachable (h : w.Unlinked) (pending : List (BlockData × BlockKind)) :
    (w.addAttachable pending).1.Unlinked := by
  induction pending generalizing w with
  | nil => exact h
  | cons entry rest ih =>
    unfold Workflow.addAttachable
    split
    · exact ih (h.addRecordedBlock _ _ _)
    · exact ih h

theorem addRecordedBlocks (h : w.Unlinked) (fuel : Nat) (pending : List (BlockData × BlockKind)) :
    (Workflow.addRecordedBlocks fuel w pending).Unlinked := by
  induction fuel generalizing w pending with
  | zero => exact h
  | succ fuel ih =>
    have hnext := h.addAttachable pending
    unfold Workflow.addRecordedBlocks
    generalize w.addAttachable pending = next at hnext ⊢
    obtain ⟨grown, left⟩ := next
    dsimp only
    split
    · exact hnext
    · exact ih hnext left

/-- A recorded slot may change the type of a slot. There is no link yet to disagree with it. -/
theorem addRecordedSlot (h : w.Unlinked) (data : SlotData) (kind : SlotKind) :
    (w.addRecordedSlot data kind).Unlinked := by
  unfold Workflow.addRecordedSlot
  split
  · exact h
  · split
    · refine ⟨h.wellFormed.mapSlots (fun slot => ?_) (fun slot hs => ?_) ?_, h.links⟩
      · split <;> exact ⟨rfl, rfl, rfl⟩
      · split
        · exact ⟨hs.optional, hs.objectId⟩
        · exact hs
      · rw [h.links]
        exact .nil
    · split
      · rename_i hw
        refine ⟨h.wellFormed.addSlot hw, ?_⟩
        obtain ⟨block, -, -, -, heq⟩ := addSlot_eq_ok.mp hw
        cases heq
        exact h.links
      · exact h

theorem addRecordedSlots (h : w.Unlinked) (entries : List (SlotData × SlotKind)) :
    (entries.foldl (fun w (data, kind) => w.addRecordedSlot data kind) w).Unlinked := by
  induction entries generalizing w with
  | nil => exact h
  | cons entry entries ih => exact ih (h.addRecordedSlot _ _)

end Unlinked

namespace WellFormed

theorem addRecordedLink (h : w.WellFormed) (data : LinkData) :
    (w.addRecordedLink data).WellFormed := by
  unfold Workflow.addRecordedLink
  split
  · split
    · rename_i hw
      exact h.connect hw
    · exact h
  · exact h

theorem addRecordedLinks (h : w.WellFormed) (entries : List LinkData) :
    (entries.foldl Workflow.addRecordedLink w).WellFormed := by
  induction entries generalizing w with
  | nil => exact h
  | cons entry entries ih => exact ih (h.addRecordedLink _)

/-- A document gives a well-formed workflow, whatever its records say. -/
theorem of_ofRecords {uidStem : String} {records : List Record} {registry : Registry μ}
    (hw : ofRecords uidStem records registry = .ok w) : w.WellFormed := by
  unfold ofRecords at hw
  split at hw
  · cases hw
  · rename_i root _
    cases hw
    have hnew : Unlinked (new uidStem (root.name.getD defaultName) registry (some root.uid)) :=
      ⟨wellFormed_new .., rfl⟩
    exact ((hnew.addRecordedBlocks _ _).addRecordedSlots _).wellFormed.addRecordedLinks _

end WellFormed

-- ---------------------------------------------------------------------------
-- Induction over the records
-- ---------------------------------------------------------------------------

section Induction

variable {P : Workflow μ → Prop}

/-- What holds of a workflow before and after a recorded block is attached. -/
def KeptByBlocks (P : Workflow μ → Prop) : Prop :=
  ∀ ⦃w : Workflow μ⦄, w.WellFormed → P w → ∀ ⦃parent : BlockId⦄ ⦃container : Block⦄,
    w.getContainer parent = .ok container → ∀ ⦃kind : BlockKind⦄ ⦃requests : List SlotRequest⦄,
      w.registry.requests? kind = some requests → ∀ name uid,
        P (w.attachBlock parent kind name requests uid).2

/-- What holds of a workflow before and after a slot takes on what is recorded of it. -/
def KeptByRecords (P : Workflow μ → Prop) : Prop :=
  ∀ ⦃w : Workflow μ⦄, w.WellFormed → P w → ∀ id data, P (w.modifySlot id (applyRecord data))

/-- What holds of a workflow before and after a slot is added. -/
def KeptBySlots (P : Workflow μ → Prop) : Prop :=
  ∀ ⦃w : Workflow μ⦄, w.WellFormed → P w → ∀ ⦃owner : BlockId⦄ ⦃request : SlotRequest⦄
    ⦃added : SlotId × Workflow μ⦄, w.addSlot owner request = .ok added → P added.2

/-- What holds of a workflow before and after two slots are linked. -/
def KeptByLinks (P : Workflow μ → Prop) : Prop :=
  ∀ ⦃w : Workflow μ⦄, w.WellFormed → P w → ∀ ⦃a b : SlotId⦄ ⦃uid : Option String⦄
    ⦃added : LinkId × Workflow μ⦄, w.connect a b uid = .ok added → P added.2

theorem KeptByBlocks.addRecordedBlocks (hkept : KeptByBlocks P) (h : w.Unlinked) (hp : P w)
    (fuel : Nat) (pending : List (BlockData × BlockKind)) :
    P (Workflow.addRecordedBlocks fuel w pending) := by
  have hone : ∀ {w : Workflow μ}, w.Unlinked → P w → ∀ parent data kind,
      P (w.addRecordedBlock parent data kind) := by
    intro w h hp parent data kind
    rw [addRecordedBlock_eq h.wellFormed]
    split
    · exact hkept h.wellFormed hp ‹_› ‹_› ..
    · exact hp
  have hpass : ∀ {w : Workflow μ}, w.Unlinked → P w → ∀ pending, P (w.addAttachable pending).1 := by
    intro w h hp pending
    induction pending generalizing w with
    | nil => exact hp
    | cons entry rest ih =>
      unfold Workflow.addAttachable
      split
      · exact ih (h.addRecordedBlock _ _ _) (hone h hp _ _ _)
      · exact ih h hp
  induction fuel generalizing w pending with
  | zero => exact hp
  | succ fuel ih =>
    have hnext := h.addAttachable pending
    have hpnext := hpass h hp pending
    unfold Workflow.addRecordedBlocks
    generalize w.addAttachable pending = next at hnext hpnext ⊢
    obtain ⟨grown, left⟩ := next
    dsimp only
    split
    · exact hpnext
    · exact ih hnext hpnext left

theorem KeptBySlots.addRecordedSlots (hkept : KeptBySlots P) (hrecord : KeptByRecords P)
    (h : w.Unlinked) (hp : P w) (entries : List (SlotData × SlotKind)) :
    P (entries.foldl (fun w (data, kind) => w.addRecordedSlot data kind) w) := by
  induction entries generalizing w with
  | nil => exact hp
  | cons entry entries ih =>
    have hone : P (w.addRecordedSlot entry.1 entry.2) := by
      unfold Workflow.addRecordedSlot
      split
      · exact hp
      · split
        · exact hrecord h.wellFormed hp _ _
        · split
          · exact hkept h.wellFormed hp ‹_›
          · exact hp
    exact ih (h.addRecordedSlot _ _) hone

theorem KeptByLinks.addRecordedLinks (hkept : KeptByLinks P) (h : w.WellFormed) (hp : P w)
    (entries : List LinkData) : P (entries.foldl Workflow.addRecordedLink w) := by
  induction entries generalizing w with
  | nil => exact hp
  | cons entry entries ih =>
    refine ih (h.addRecordedLink _) ?_
    unfold Workflow.addRecordedLink
    split
    · split
      · exact hkept h hp ‹_›
      · exact hp
    · exact hp

/-- What holds of every new workflow over a registry and is kept by the four steps of the loader holds
of the workflow that a document gives, whatever its records say. -/
theorem ofRecords_induction {uidStem : String} {records : List Record} {registry : Registry μ}
    (hnew : ∀ uidStem name uid, P (new uidStem name registry uid)) (hblock : KeptByBlocks P)
    (hrecord : KeptByRecords P) (hslot : KeptBySlots P) (hlink : KeptByLinks P)
    (hw : ofRecords uidStem records registry = .ok w) : P w := by
  unfold ofRecords at hw
  split at hw
  · cases hw
  · rename_i root _
    cases hw
    have hstart : Unlinked (new uidStem (root.name.getD defaultName) registry (some root.uid)) :=
      ⟨wellFormed_new .., rfl⟩
    have hblocks := hblock.addRecordedBlocks hstart (hnew ..) (recordedBlocks records).length
      (recordedBlocks records)
    have hslots := hslot.addRecordedSlots hrecord (hstart.addRecordedBlocks _ _) hblocks
      (recordedSlots records)
    exact hlink.addRecordedLinks
      ((hstart.addRecordedBlocks _ _).addRecordedSlots _).wellFormed hslots _

end Induction

end Workflow

end SlotFlow
