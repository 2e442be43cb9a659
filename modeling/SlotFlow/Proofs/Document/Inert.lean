import Mathlib.Data.List.Nodup
import SlotFlow.Document.Assembly
/-!
# Records that a document passes over

A document may hold records that nothing comes of: blocks whose parent is never there, further roots,
slots and links that are refused. What comes of each record is written down as the load comes to it,
and the load is compared with one of the document without some of the records it passes over.

Roots, slots and links are gone through once, so there the two loads stay level record by record. Blocks
are gone through in passes. A pass of the one and of the other end in the same workflow with the same
blocks left, up to those that are not kept, but they need not both be the last: a pass that only refuses
is not. The passes are compared through what any number of them ends in.

* `Outcome` — what comes of a record;
* `Workflow.loadLog` — what comes of the records of a document, each by its position;
* `Workflow.Skipped` — nothing comes of it;
* `Document.without` — the records at other positions.

## Results

* `Workflow.map_fst_loadLog_perm` — something is said about each record, once;
* `Workflow.foldl_filter_of_stageLog` — what slots and links keep when records are left out;
* `Workflow.addRecordedBlocks_of_le` — the number of passes does not matter if there are enough;
* `Workflow.addRecordedBlocks_filter` — what the passes keep;
* `Workflow.ofRecords_without` — a document gives the same workflow without what it passes over.
-/

namespace SlotFlow

/-- What comes of a record. -/
inductive Outcome where
  /-- It goes into the workflow. -/
  | taken
  /-- It is of a root, and not the first such record. -/
  | spare
  /-- A block or a slot that it names is not there. -/
  | unresolved
  /-- What it asks for is refused. -/
  | refused (reason : EditError)
  deriving DecidableEq, Repr

/-- What comes of a record that asks for a change. -/
def Outcome.ofEdit {α : Type} : Except EditError α → Outcome
  | .ok _ => .taken
  | .error reason => .refused reason

namespace Document

variable {α β : Type}

/-- The parts of records, each with the tag of the record it is from. -/
def parts (part : List Record → List β) (records : List (Record × α)) : List (β × α) :=
  records.flatMap fun entry => (part [entry.1]).map (·, entry.2)

/-- The records at positions that are not listed. -/
def without (dropped : List Nat) (records : List Record) : List Record :=
  (records.zipIdx.filter fun entry => entry.2 ∉ dropped).map Prod.fst

/-- Whether a record is of a root. -/
def isRoot : Record → Bool
  | .block _ .workflow => true
  | _ => false

end Document

namespace Workflow

variable {α β μ : Type} {w : Workflow μ} {keep : α → Bool}

-- ---------------------------------------------------------------------------
-- What comes of a record
-- ---------------------------------------------------------------------------

/-- What comes of a recorded block whose parent is there. -/
def blockOutcome (w : Workflow μ) (parent : BlockId) (data : BlockData) : BlockKind → Outcome
  | .model setup => .ofEdit (w.addModelSetup parent setup (some data.uid))
  | kind => .ofEdit (w.addBlock parent kind (some data.uid))

/-- What comes of a recorded slot. -/
def slotOutcome (w : Workflow μ) : SlotData × SlotKind → Outcome
  | (data, kind) => match data.owner.bind w.blockWithUid? with
    | none => .unresolved
    | some owner => match owner.slot? data.name with
      | some _ => .taken
      | none => .ofEdit (w.addSlot owner.id (recordedRequest data kind))

/-- What comes of a recorded link. -/
def linkOutcome (w : Workflow μ) (data : LinkData) : Outcome :=
  match w.slotWithUid? data.source, w.slotWithUid? data.target with
  | some a, some b => .ofEdit (w.connect a.id b.id (some data.uid))
  | _, _ => .unresolved

/-- What comes of the records of roots. -/
def rootLog (records : List (Record × α)) : List (α × Outcome) :=
  match records.filter (Document.isRoot ·.1) with
  | [] => []
  | first :: rest => (first.2, .taken) :: rest.map fun entry => (entry.2, .spare)

/-- What comes of the blocks whose parent is there when their turn comes. -/
def attachLog (w : Workflow μ) : List ((BlockData × BlockKind) × α) → List (α × Outcome)
  | [] => []
  | ((data, kind), tag) :: rest =>
    match w.recordedParent? data with
    | some parent =>
      (tag, w.blockOutcome parent data kind) :: (w.addRecordedBlock parent data kind).attachLog rest
    | none => w.attachLog rest

/-- The blocks whose parent is not there when their turn comes. -/
def waiting (w : Workflow μ) :
    List ((BlockData × BlockKind) × α) → List ((BlockData × BlockKind) × α)
  | [] => []
  | ((data, kind), tag) :: rest =>
    match w.recordedParent? data with
    | some parent => (w.addRecordedBlock parent data kind).waiting rest
    | none => ((data, kind), tag) :: w.waiting rest

/-- What comes of the blocks in all passes. -/
def blockLog : Nat → Workflow μ → List ((BlockData × BlockKind) × α) → List (α × Outcome)
  | 0, _, pending => pending.map fun entry => (entry.2, .unresolved)
  | fuel + 1, w, pending =>
    let left := w.waiting pending
    w.attachLog pending ++
      if left.length = pending.length then left.map fun entry => (entry.2, .unresolved)
      else blockLog fuel (w.addAttachable (pending.map Prod.fst)).1 left

/-- What comes of records that are gone through once, each applied to what the ones before it left. -/
def stageLog (outcome : Workflow μ → β → Outcome) (apply : Workflow μ → β → Workflow μ) :
    Workflow μ → List (β × α) → List (α × Outcome)
  | _, [] => []
  | w, (item, tag) :: rest =>
    (tag, outcome w item) :: stageLog outcome apply (apply w item) rest

/-- What comes of all records, once the name and the uid of the root are known. -/
def recordLog (start : Workflow μ) (records : List (Record × α)) : List (α × Outcome) :=
  let pending := Document.parts recordedBlocks records
  let slots := Document.parts recordedSlots records
  let withBlocks := addRecordedBlocks pending.length start (pending.map Prod.fst)
  let withSlots := (slots.map Prod.fst).foldl (fun w (data, kind) => w.addRecordedSlot data kind)
    withBlocks
  rootLog records ++ blockLog pending.length start pending ++
    stageLog slotOutcome (fun w (data, kind) => w.addRecordedSlot data kind) withBlocks slots ++
    stageLog linkOutcome addRecordedLink withSlots (Document.parts recordedLinks records)

/-- What comes of the records of a document, each by its position. -/
def loadLog (uidStem : String) (records : List Record) (registry : Registry μ) :
    List (Nat × Outcome) :=
  match recordedRoot? records with
  | none => []
  | some root =>
    (new uidStem (root.name.getD defaultName) registry (some root.uid)).recordLog records.zipIdx

/-- The record at a position is passed over. -/
def Skipped (uidStem : String) (records : List Record) (registry : Registry μ) (position : Nat) :
    Prop :=
  ∃ outcome, (position, outcome) ∈ loadLog uidStem records registry ∧ outcome ≠ .taken

end Workflow

-- ---------------------------------------------------------------------------
-- Parts of records
-- ---------------------------------------------------------------------------

namespace Document

variable {α β : Type} {part : List Record → List β}

theorem parts_cons (entry : Record × α) (rest : List (Record × α)) :
    parts part (entry :: rest) = (part [entry.1]).map (·, entry.2) ++ parts part rest :=
  List.flatMap_cons

/-- Without the tags the parts are those of the records without them. -/
theorem map_fst_parts (hnil : part [] = [])
    (happend : ∀ first second, part (first ++ second) = part first ++ part second)
    (records : List (Record × α)) :
    (parts part records).map Prod.fst = part (records.map Prod.fst) := by
  induction records with
  | nil => exact hnil.symm
  | cons entry rest ih =>
    have hpart : ((part [entry.1]).map (·, entry.2)).map Prod.fst = part [entry.1] := by
      simp [Function.comp_def]
    rw [parts_cons, List.map_append, ih, hpart, ← happend, List.map_cons, List.singleton_append]

/-- The parts of the records that are kept are kept. -/
theorem parts_filter (keep : α → Bool) (records : List (Record × α)) :
    parts part (records.filter (keep ·.2)) = (parts part records).filter (keep ·.2) := by
  induction records with
  | nil => rfl
  | cons entry rest ih =>
    rw [parts_cons, List.filter_append, ← ih, List.filter_map]
    cases hkeep : keep entry.2 <;> simp [hkeep, Function.comp_def, parts_cons]

/-- A record is of a root, or it has one part. -/
theorem perm_parts (records : List (Record × α)) :
    ((records.filter (isRoot ·.1)).map Prod.snd ++
        (parts Workflow.recordedBlocks records).map Prod.snd ++
        (parts Workflow.recordedSlots records).map Prod.snd ++
        (parts Workflow.recordedLinks records).map Prod.snd).Perm (records.map Prod.snd) := by
  induction records with
  | nil => exact .nil
  | cons entry rest ih =>
    obtain ⟨record, tag⟩ := entry
    simp only [parts_cons, List.append_assoc] at ih ⊢
    have hcons := ih.cons tag
    cases record with
    | block data kind =>
      cases kind <;> try exact List.perm_middle.trans hcons
      exact hcons
    | slot data kind => exact (List.perm_middle.append_left _).trans (List.perm_middle.trans hcons)
    | link data =>
      exact ((List.perm_middle.append_left _).append_left _).trans
        ((List.perm_middle.append_left _).trans (List.perm_middle.trans hcons))

end Document

namespace Workflow

variable {α β μ : Type} {w : Workflow μ} {keep : α → Bool}

-- ---------------------------------------------------------------------------
-- One entry for each record
-- ---------------------------------------------------------------------------

theorem map_fst_rootLog (records : List (Record × α)) :
    (rootLog records).map Prod.fst = (records.filter (Document.isRoot ·.1)).map Prod.snd := by
  unfold rootLog
  generalize records.filter (Document.isRoot ·.1) = roots
  cases roots with
  | nil => rfl
  | cons first rest => simp [Function.comp_def]

theorem map_fst_stageLog (outcome : Workflow μ → β → Outcome)
    (apply : Workflow μ → β → Workflow μ) (items : List (β × α)) (w : Workflow μ) :
    (stageLog outcome apply w items).map Prod.fst = items.map Prod.snd := by
  induction items generalizing w with
  | nil => rfl
  | cons item rest ih => rw [stageLog, List.map_cons, List.map_cons, ih]

/-- The blocks whose turn comes and those that wait for it are the blocks. -/
theorem attachLog_waiting_perm (pending : List ((BlockData × BlockKind) × α)) (w : Workflow μ) :
    ((w.attachLog pending).map Prod.fst ++ (w.waiting pending).map Prod.snd).Perm
      (pending.map Prod.snd) := by
  induction pending generalizing w with
  | nil => exact .nil
  | cons entry rest ih =>
    obtain ⟨⟨data, kind⟩, tag⟩ := entry
    rw [attachLog, waiting]
    split
    · exact (ih _).cons tag
    · exact List.perm_middle.trans ((ih w).cons tag)

theorem map_fst_blockLog_perm (fuel : Nat) (w : Workflow μ)
    (pending : List ((BlockData × BlockKind) × α)) :
    ((blockLog fuel w pending).map Prod.fst).Perm (pending.map Prod.snd) := by
  have hunresolved : ∀ left : List ((BlockData × BlockKind) × α),
      (left.map fun entry => (entry.2, Outcome.unresolved)).map Prod.fst = left.map Prod.snd :=
    fun left => List.map_map
  induction fuel generalizing w pending with
  | zero => exact .of_eq (hunresolved pending)
  | succ fuel ih =>
    rw [blockLog, List.map_append]
    refine .trans (.append_left _ ?_) (attachLog_waiting_perm pending w)
    split
    · exact .of_eq (hunresolved _)
    · exact ih ..

/-- Something is said about each record, once. -/
theorem map_fst_recordLog_perm (start : Workflow μ) (records : List (Record × α)) :
    ((start.recordLog records).map Prod.fst).Perm (records.map Prod.snd) := by
  rw [recordLog, List.map_append, List.map_append, List.map_append, map_fst_rootLog,
    map_fst_stageLog, map_fst_stageLog]
  exact (((map_fst_blockLog_perm ..).append_left _).append_right _).append_right _ |>.trans
    (Document.perm_parts records)

/-- What is passed over is not taken. -/
theorem Skipped.not_taken {uidStem : String} {records : List Record} {registry : Registry μ}
    {position : Nat} (h : Skipped uidStem records registry position) :
    (position, .taken) ∉ loadLog uidStem records registry := by
  rintro htaken
  obtain ⟨outcome, hmem, hne⟩ := h
  have hnodup : ((loadLog uidStem records registry).map Prod.fst).Nodup := by
    unfold loadLog
    split
    · exact List.nodup_nil
    · rw [(map_fst_recordLog_perm _ _).nodup_iff, List.zipIdx_map_snd]
      exact List.nodup_range'
  exact hne (congrArg Prod.snd (List.inj_on_of_nodup_map hnodup hmem htaken rfl))

-- ---------------------------------------------------------------------------
-- Roots, slots and links
-- ---------------------------------------------------------------------------

theorem recordedRoot?_cons_of_not {record : Record} (h : Document.isRoot record = false)
    (rest : List Record) : recordedRoot? (record :: rest) = recordedRoot? rest := by
  cases record with
  | block data kind => cases kind <;> first | rfl | cases h
  | slot data kind => rfl
  | link data => rfl

/-- The first record of a root stays the first one. -/
theorem recordedRoot?_of_rootLog {records : List (Record × α)}
    (h : ∀ tag, (tag, .taken) ∈ rootLog records → keep tag = true) :
    recordedRoot? ((records.filter (keep ·.2)).map Prod.fst) =
      recordedRoot? (records.map Prod.fst) := by
  induction records with
  | nil => rfl
  | cons entry rest ih =>
    rw [List.map_cons]
    cases hroot : Document.isRoot entry.1 with
    | true =>
      have hkeep : keep entry.2 = true := h _ (by simp [rootLog, hroot])
      obtain ⟨data, heq⟩ : ∃ data, entry.1 = .block data .workflow := by
        unfold Document.isRoot at hroot
        split at hroot
        · exact ⟨_, ‹_›⟩
        · cases hroot
      rw [List.filter_cons, if_pos hkeep, List.map_cons, heq]
      rfl
    | false =>
      have hrest : rootLog (entry :: rest) = rootLog rest := by simp [rootLog, hroot]
      rw [recordedRoot?_cons_of_not hroot, ← ih (hrest ▸ h), List.filter_cons]
      split
      · exact recordedRoot?_cons_of_not hroot _
      · rfl

/-- A record that is not taken leaves the workflow as it is. -/
theorem addRecordedSlot_of_outcome {item : SlotData × SlotKind} (h : w.slotOutcome item ≠ .taken) :
    w.addRecordedSlot item.1 item.2 = w := by
  unfold slotOutcome at h
  unfold addRecordedSlot
  split
  · rfl
  · rename_i owner howner
    simp only [howner] at h
    split
    · rename_i slot hslot
      simp [hslot] at h
    · rename_i hslot
      simp only [hslot] at h
      split
      · rename_i hadd
        simp [hadd, Outcome.ofEdit] at h
      · rfl

theorem addRecordedLink_of_outcome {data : LinkData} (h : w.linkOutcome data ≠ .taken) :
    w.addRecordedLink data = w := by
  unfold linkOutcome at h
  unfold addRecordedLink
  split
  · rename_i a b ha hb
    simp only [ha, hb] at h
    split
    · rename_i hconnect
      simp [hconnect, Outcome.ofEdit] at h
    · rfl
  · rfl

/-- What records that are gone through once come to without some that are not taken. -/
theorem foldl_filter_of_stageLog {outcome : Workflow μ → β → Outcome}
    {apply : Workflow μ → β → Workflow μ}
    (hinert : ∀ w item, outcome w item ≠ .taken → apply w item = w) (items : List (β × α))
    (w : Workflow μ)
    (h : ∀ tag, (tag, .taken) ∈ stageLog outcome apply w items → keep tag = true) :
    ((items.filter (keep ·.2)).map Prod.fst).foldl apply w =
      (items.map Prod.fst).foldl apply w := by
  induction items generalizing w with
  | nil => rfl
  | cons item rest ih =>
    have hrest := ih (apply w item.1) fun tag htag => h tag (List.mem_cons_of_mem _ htag)
    rw [List.map_cons, List.foldl_cons, ← hrest, List.filter_cons]
    split
    · rfl
    · rename_i hdropped
      have hout : outcome w item.1 ≠ .taken := fun htaken =>
        hdropped (h item.2 (htaken ▸ List.mem_cons_self))
      rw [hinert w item.1 hout]

-- ---------------------------------------------------------------------------
-- Blocks
-- ---------------------------------------------------------------------------

theorem addRecordedBlock_of_outcome {parent : BlockId} {data : BlockData} {kind : BlockKind}
    (h : w.blockOutcome parent data kind ≠ .taken) : w.addRecordedBlock parent data kind = w := by
  unfold addRecordedBlock
  dsimp only
  split
  · rfl
  · rename_i hadded
    refine absurd ?_ h
    unfold blockOutcome
    split at hadded <;> simp_all [Outcome.ofEdit]

section Pass

variable {pending : List ((BlockData × BlockKind) × α)}

/-- A pass hands on what waits. -/
theorem snd_addAttachable (pending : List ((BlockData × BlockKind) × α)) (w : Workflow μ) :
    (w.addAttachable (pending.map Prod.fst)).2 = (w.waiting pending).map Prod.fst := by
  induction pending generalizing w with
  | nil => rfl
  | cons entry rest ih =>
    obtain ⟨⟨data, kind⟩, tag⟩ := entry
    cases hparent : w.recordedParent? data with
    | none => simp only [List.map_cons, addAttachable, waiting, hparent, ih]
    | some parent => simp only [List.map_cons, addAttachable, waiting, hparent, ih]

theorem waiting_sublist (pending : List ((BlockData × BlockKind) × α)) (w : Workflow μ) :
    (w.waiting pending).Sublist pending := by
  induction pending generalizing w with
  | nil => exact .slnil
  | cons entry rest ih =>
    rw [waiting]
    split
    · exact (ih _).cons _
    · exact (ih w).cons_cons _

/-- A pass over the blocks that are kept ends like one over all of them. -/
theorem addAttachable_filter
    (h : ∀ tag, (tag, .taken) ∈ w.attachLog pending → keep tag = true) :
    (w.addAttachable ((pending.filter (keep ·.2)).map Prod.fst)).1 =
        (w.addAttachable (pending.map Prod.fst)).1 ∧
      w.waiting (pending.filter (keep ·.2)) = (w.waiting pending).filter (keep ·.2) := by
  induction pending generalizing w with
  | nil => exact ⟨rfl, rfl⟩
  | cons entry rest ih =>
    obtain ⟨⟨data, kind⟩, tag⟩ := entry
    cases hparent : w.recordedParent? data with
    | none =>
      simp only [attachLog, hparent] at h
      obtain ⟨hgrown, hwaiting⟩ := ih h
      cases hkeep : keep tag <;> simp [hkeep, addAttachable, waiting, hparent, hgrown, hwaiting]
    | some parent =>
      simp only [attachLog, hparent] at h
      obtain ⟨hgrown, hwaiting⟩ := ih fun tag htag => h tag (List.mem_cons_of_mem _ htag)
      cases hkeep : keep tag with
      | true => simp [hkeep, addAttachable, waiting, hparent, hgrown, hwaiting]
      | false =>
        -- The block is refused, so the next one meets the same workflow.
        have hout : w.blockOutcome parent data kind ≠ .taken := fun htaken => by
          simp [h tag (htaken ▸ List.mem_cons_self)] at hkeep
        rw [addRecordedBlock_of_outcome hout] at hgrown hwaiting
        simp [hkeep, addAttachable, waiting, hparent, addRecordedBlock_of_outcome hout, hgrown,
          hwaiting]

end Pass

section Passes

variable {pending : List (BlockData × BlockKind)}

/-- A pass either hands on fewer blocks, or it does nothing at all. -/
theorem addAttachable_shrinks (pending : List (BlockData × BlockKind)) (w : Workflow μ) :
    (w.addAttachable pending).2.length < pending.length ∨ w.addAttachable pending = (w, pending) := by
  induction pending generalizing w with
  | nil => exact .inr rfl
  | cons entry rest ih =>
    obtain ⟨data, kind⟩ := entry
    rw [addAttachable]
    split
    · rename_i parent _
      refine .inl ?_
      rcases ih (w.addRecordedBlock parent data kind) with hlt | heq
      · exact Nat.lt_succ_of_lt hlt
      · rw [heq]
        exact Nat.lt_succ_self _
    · rcases ih w with hlt | heq
      · exact .inl (Nat.succ_lt_succ hlt)
      · rw [heq]
        exact .inr rfl

/-- Where a pass does nothing, all of them do nothing. -/
theorem addRecordedBlocks_of_stuck (h : w.addAttachable pending = (w, pending)) (fuel : Nat) :
    addRecordedBlocks fuel w pending = w := by
  cases fuel with
  | zero => rfl
  | succ fuel => simp [addRecordedBlocks, h]

/-- The number of passes does not matter if there are as many as blocks. -/
theorem addRecordedBlocks_of_le {fuel more : Nat} (hfuel : pending.length ≤ fuel)
    (hmore : pending.length ≤ more) :
    addRecordedBlocks fuel w pending = addRecordedBlocks more w pending := by
  induction fuel generalizing more w pending with
  | zero =>
    rw [List.eq_nil_of_length_eq_zero (Nat.le_zero.mp hfuel), addRecordedBlocks_of_stuck rfl,
      addRecordedBlocks_of_stuck rfl]
  | succ fuel ih =>
    rcases addAttachable_shrinks pending w with hlt | hstuck
    · obtain ⟨more, rfl⟩ := Nat.exists_eq_succ_of_ne_zero (by omega : more ≠ 0)
      rw [addRecordedBlocks, addRecordedBlocks]
      dsimp only
      split
      · rfl
      · exact ih (by omega) (by omega)
    · rw [addRecordedBlocks_of_stuck hstuck, addRecordedBlocks_of_stuck hstuck]

/-- The passes go on after a first one. -/
theorem addRecordedBlocks_pass {fuel more : Nat} (hfuel : pending.length ≤ fuel)
    (hmore : (w.addAttachable pending).2.length ≤ more) :
    addRecordedBlocks fuel w pending =
      addRecordedBlocks more (w.addAttachable pending).1 (w.addAttachable pending).2 := by
  rcases addAttachable_shrinks pending w with hlt | hstuck
  · obtain ⟨fuel, rfl⟩ := Nat.exists_eq_succ_of_ne_zero (by omega : fuel ≠ 0)
    rw [addRecordedBlocks]
    dsimp only
    split
    · rename_i hstop
      have hleft : (w.addAttachable pending).2 = [] := by
        simpa [Nat.ne_of_lt hlt] using hstop
      rw [hleft, addRecordedBlocks_of_stuck rfl]
    · exact addRecordedBlocks_of_le (by omega) hmore
  · rw [hstuck, addRecordedBlocks_of_stuck hstuck, addRecordedBlocks_of_stuck hstuck]

end Passes

/-- What the passes come to without some of the blocks that are not taken. -/
theorem addRecordedBlocks_filter {fuel more : Nat} {pending : List ((BlockData × BlockKind) × α)}
    (hfuel : pending.length ≤ fuel) (hmore : (pending.filter (keep ·.2)).length ≤ more)
    (h : ∀ tag, (tag, .taken) ∈ blockLog fuel w pending → keep tag = true) :
    addRecordedBlocks more w ((pending.filter (keep ·.2)).map Prod.fst) =
      addRecordedBlocks fuel w (pending.map Prod.fst) := by
  induction fuel generalizing more w pending with
  | zero =>
    rw [List.eq_nil_of_length_eq_zero (Nat.le_zero.mp hfuel)]
    exact addRecordedBlocks_of_stuck rfl more
  | succ fuel ih =>
    rw [blockLog] at h
    obtain ⟨hgrown, hwaiting⟩ := addAttachable_filter fun tag htag =>
      h tag (List.mem_append_left _ htag)
    have hleft := snd_addAttachable pending w
    have hkept := snd_addAttachable (pending.filter (keep ·.2)) w
    rw [hwaiting] at hkept
    rcases addAttachable_shrinks (pending.map Prod.fst) w with hlt | hstuck
    · rw [hleft, List.length_map, List.length_map] at hlt
      rw [if_neg (Nat.ne_of_lt hlt)] at h
      have hrest := ih (Nat.le_of_lt_succ (Nat.lt_of_lt_of_le hlt hfuel)) (Nat.le_refl _) fun tag htag =>
        h tag (List.mem_append_right _ htag)
      rw [addRecordedBlocks_pass (by simpa using hmore) (Nat.le_refl _), hgrown, hkept, List.length_map,
        hrest, ← hleft]
      exact (addRecordedBlocks_pass (by simpa using hfuel) (by simp [hleft]; omega)).symm
    · have hall : w.waiting pending = pending :=
        (waiting_sublist pending w).eq_of_length (by
          rw [← List.length_map Prod.fst, ← hleft, hstuck, List.length_map])
      rw [hall] at hkept
      rw [hstuck] at hgrown
      rw [addRecordedBlocks_of_stuck hstuck, addRecordedBlocks_of_stuck (Prod.ext hgrown hkept)]

-- ---------------------------------------------------------------------------
-- Documents
-- ---------------------------------------------------------------------------

/-- A document gives the same workflow as long as the records that are taken are kept. -/
theorem ofRecords_filter {uidStem : String} {registry : Registry μ} {root : BlockData}
    {records : List (Record × α)} (hroot : recordedRoot? (records.map Prod.fst) = some root)
    (h : ∀ tag, (tag, .taken) ∈
      (new uidStem (root.name.getD defaultName) registry (some root.uid)).recordLog records →
      keep tag = true) :
    ofRecords uidStem ((records.filter (keep ·.2)).map Prod.fst) registry =
      ofRecords uidStem (records.map Prod.fst) registry := by
  have hkept := fun tag htag => h tag (List.mem_append_left _ (List.mem_append_left _
    (List.mem_append_left _ htag)))
  have hblocks := fun tag htag => h tag (List.mem_append_left _ (List.mem_append_left _
    (List.mem_append_right _ htag)))
  have hslots := fun tag htag => h tag (List.mem_append_left _ (List.mem_append_right _ htag))
  have hlinks := fun tag htag => h tag (List.mem_append_right _ htag)
  have hblock := @Document.map_fst_parts α _ recordedBlocks rfl fun _ _ => List.filterMap_append
  have hslot := @Document.map_fst_parts α _ recordedSlots rfl fun _ _ => List.filterMap_append
  have hlink := @Document.map_fst_parts α _ recordedLinks rfl fun _ _ => List.filterMap_append
  rw [ofRecords, ofRecords, recordedRoot?_of_rootLog hkept, hroot]
  dsimp only
  rw [← hblock, ← hslot, ← hlink, ← hblock, ← hslot, ← hlink, Document.parts_filter,
    Document.parts_filter, Document.parts_filter, List.length_map, List.length_map,
    addRecordedBlocks_filter (Nat.le_refl _) (Nat.le_refl _) hblocks,
    foldl_filter_of_stageLog (fun _ _ => addRecordedSlot_of_outcome) _ _ hslots,
    foldl_filter_of_stageLog (fun _ _ => addRecordedLink_of_outcome) _ _ hlinks]

/-- **Records that are passed over are inert.** A document gives the same workflow, with the same
numbers, orders and types, without any of the records that it passes over. -/
theorem ofRecords_without {uidStem : String} {records : List Record} {registry : Registry μ}
    (hload : ofRecords uidStem records registry = .ok w) (dropped : List Nat)
    (hdropped : ∀ position ∈ dropped, Skipped uidStem records registry position) :
    ofRecords uidStem (Document.without dropped records) registry = .ok w := by
  have hkeep : ∀ position, (position, .taken) ∈ loadLog uidStem records registry →
      decide (position ∉ dropped) = true := fun position htaken =>
    decide_eq_true fun hmem => (hdropped position hmem).not_taken htaken
  cases hroot : recordedRoot? records with
  | none =>
    rw [ofRecords, hroot] at hload
    cases hload
  | some root =>
    simp only [loadLog, hroot] at hkeep
    rw [← List.zipIdx_map_fst 0 records] at hroot
    rw [Document.without, ofRecords_filter hroot hkeep, List.zipIdx_map_fst, hload]

/-- A document with records of all kinds that it passes over: of a block below one that is never there,
of a further root, of a block below a variable, of a slot of no block, of one on the border of a loop, of a
link that is there already and of one to no slot. The loop stands before the block it is below. -/
theorem ofRecords_without_of_orphan :
    ∃ (records : List Record) (w : Workflow Unit),
      ofRecords "new-" records ⟨[]⟩ = .ok w ∧
      loadLog "new-" records (⟨[]⟩ : Registry Unit) =
        [(1, .taken), (2, .spare), (4, .taken), (5, .taken),
          (6, .refused (.notAContainer "FloatVariableBlock")), (3, .taken), (0, .unresolved),
          (7, .unresolved), (8, .refused (.externalSlotOutside "TimeLoopBlock" "load")), (9, .taken),
          (10, .taken), (11, .taken), (12, .refused (.alreadyConnected "load" "start_time")),
          (13, .unresolved)] ∧
      w.blocks.map Block.uid = ["root", "below", "loop", "one"] ∧
      (Document.without [0, 2, 6, 7, 8, 12, 13] records).length = 7 ∧
      ofRecords "new-" (Document.without [0, 2, 6, 7, 8, 12, 13] records) ⟨[]⟩ = .ok w := by
  let records : List Record :=
    [.block { uid := "orphan", parent := some "nowhere" } .sequential,
     .block { uid := "root" } .workflow,
     .block { uid := "other" } .workflow,
     .block { uid := "loop", parent := some "below" } .timeLoop,
     .block { uid := "below", parent := some "root" } .sequential,
     .block { uid := "one", parent := some "root" } (.constant (.number 1)),
     .block { uid := "under", parent := some "one" } .sequential,
     .slot { uid := "none", name := "load" } ⟨.output, false⟩,
     .slot { uid := "outside", owner := some "loop", name := "load" } ⟨.output, true⟩,
     .slot { uid := "load", owner := some "root", name := "load" } ⟨.output, true⟩,
     .slot { uid := "start", owner := some "loop", name := "start_time" } ⟨.input, false⟩,
     .link { uid := "first", source := "load", target := "start" },
     .link { uid := "second", source := "load", target := "start" },
     .link { uid := "third", source := "load", target := "none" }]
  have hlog : loadLog "new-" records (⟨[]⟩ : Registry Unit) =
      [(1, .taken), (2, .spare), (4, .taken), (5, .taken),
        (6, .refused (.notAContainer "FloatVariableBlock")), (3, .taken), (0, .unresolved),
        (7, .unresolved), (8, .refused (.externalSlotOutside "TimeLoopBlock" "load")), (9, .taken),
        (10, .taken), (11, .taken), (12, .refused (.alreadyConnected "load" "start_time")),
        (13, .unresolved)] := by
    decide +kernel
  have hdropped : ∀ position ∈ [0, 2, 6, 7, 8, 12, 13],
      Skipped "new-" records (⟨[]⟩ : Registry Unit) position := by
    simp [Skipped, hlog]
  obtain ⟨w, hload, huids⟩ : ∃ w, ofRecords "new-" records (⟨[]⟩ : Registry Unit) = .ok w ∧
      w.blocks.map Block.uid = ["root", "below", "loop", "one"] :=
    ⟨_, rfl, by decide +kernel⟩
  exact ⟨records, w, hload, hlog, huids, rfl, ofRecords_without hload _ hdropped⟩

end Workflow

end SlotFlow
