import SlotFlow.Proofs.Graph.History
import SlotFlow.Proofs.Naming.Held
import SlotFlow.Proofs.Naming.Unnamed
/-!
# Names over a history

An element that has a name keeps it, whatever happens to the workflow, for as long as it exists. There is
one exception: a naming pass moves a named value to the name that its user chose, if that name is free
when the pass comes to the value. All other names that a pass makes are numbers after a stem, and the
number is the least one that is free at that moment. What goes gives its name back.

* `Workflow.heldAtBlock`, `Workflow.heldAtSlot` — the names that are held when a pass comes to an element;
* `IsFree`, `IsFirstFree` — names that may be given, and the first of them after a stem;
* `Workflow.Has`, `Workflow.Holds` — the elements that there are, and the names they go by;
* `Workflow.NamesStable` — names are kept, and new ones are the first that are free.

## Results

* `Workflow.Reachable.exists_visited_block`, `Workflow.Reachable.exists_visited_slot` — what a pass does
  to an element, in terms of what is held at that moment;
* `Workflow.Reachable.namesStable` — names are stable in every reachable workflow.
-/

namespace SlotFlow

open Identifier

-- ---------------------------------------------------------------------------
-- Free names
-- ---------------------------------------------------------------------------

/-- A name that nobody holds and that is not reserved. -/
def IsFree (held : List String) (name : String) : Prop :=
  name ∉ held ∧ name ∉ reservedMembers

/-- The name after a stem with the least number for which it is free. -/
def IsFirstFree (held : List String) (stem name : String) : Prop :=
  ∃ k : Nat, 1 ≤ k ∧ name = stem ++ toString k ∧ IsFree held name ∧
    ∀ i : Nat, 1 ≤ i → i < k → ¬IsFree held (stem ++ toString i)

/-- The name that the user of a named value chose, where it is free. -/
def Block.TakesChosen (held : List String) (block : Block) (name : String) : Prop :=
  ∃ text type, block.kind = .named text type ∧ ofName? text = some name ∧ IsFree held name

namespace Tracks

variable {taken held : List String}

theorem not_mem_iff (h : Tracks taken held) {name : String} : name ∉ taken ↔ IsFree held name := by
  rw [h.mem, not_or, IsFree]

theorem isFirstFree (h : Tracks taken held) (stem : String) :
    IsFirstFree held stem (firstFree stem taken) := by
  obtain ⟨k, hk, -, heq, hfree, hbelow⟩ := firstFree_spec stem taken
  refine ⟨k, hk, heq, h.not_mem_iff.mp (heq ▸ hfree), fun i hi hlt hfreei => ?_⟩
  exact h.not_mem_iff.mpr hfreei (hbelow i hi hlt)

theorem takesChosen_iff (h : Tracks taken held) {block : Block} {name : String} :
    block.TakesChosen held name ↔ block.preferredName? = some name ∧ name ∉ taken := by
  rw [h.not_mem_iff]
  constructor
  · rintro ⟨text, type, hkind, hname, hfree⟩
    refine ⟨?_, hfree⟩
    rw [Block.preferredName?, hkind]
    exact hname
  · rintro ⟨hwish, hfree⟩
    unfold Block.preferredName? at hwish
    split at hwish
    · rename_i text type hkind
      exact ⟨text, type, hkind, hwish, hfree⟩
    · cases hwish

end Tracks

-- ---------------------------------------------------------------------------
-- Where a walk comes to an element
-- ---------------------------------------------------------------------------

section Walks

variable {α β κ σ : Type}

theorem mapStateList_append_cons (f : σ → α → β × σ) (s : σ) (pre post : List α) (a : α) :
    (mapStateList f s (pre ++ a :: post)).1 =
      (mapStateList f s pre).1 ++ (f (mapStateList f s pre).2 a).1 ::
        (mapStateList f (f (mapStateList f s pre).2 a).2 post).1 := by
  rw [mapStateList_append]
  rfl

/-- A list with distinct keys is split where a key stands. -/
theorem takeWhile_dropWhile_key [DecidableEq κ] {key : α → κ} {pre post : List α} {a : α}
    (h : ((pre ++ a :: post).map key).Nodup) {k : κ} (hk : key a = k) :
    (pre ++ a :: post).takeWhile (key · ≠ k) = pre ∧
      (pre ++ a :: post).dropWhile (key · ≠ k) = a :: post := by
  have hbefore : ∀ b ∈ pre, decide (key b ≠ k) = true := by
    intro b hb
    rw [List.map_append, List.map_cons, List.nodup_append] at h
    rw [decide_eq_true_eq, ← hk]
    exact h.2.2 (key b) (List.mem_map_of_mem hb) (key a) List.mem_cons_self
  have hhere : ¬decide (key a ≠ k) = true := by simpa using hk
  constructor
  · rw [List.takeWhile_append_of_pos hbefore]
    simp only [List.takeWhile_cons_of_neg (p := fun b => decide (key b ≠ k)) hhere, List.append_nil]
  · rw [List.dropWhile_append_of_pos hbefore]
    exact List.dropWhile_cons_of_neg hhere

end Walks

namespace Workflow

variable {μ : Type} {w : Workflow μ}

-- ---------------------------------------------------------------------------
-- What is held on the way
-- ---------------------------------------------------------------------------

/-- The names that are held when a naming pass comes to a block: blocks before it have the names that
they have after the pass, and all else has the name that it had before. -/
def heldAtBlock (w : Workflow μ) (id : BlockId) : List String :=
  (w.assignNames.blocks.takeWhile (·.id ≠ id)).filterMap Block.codeName ++
    (w.blocks.dropWhile (·.id ≠ id)).filterMap Block.codeName ++ w.slots.filterMap Slot.codeName

/-- The names that are held when a naming pass comes to a slot: all blocks and the slots before it have
the names that they have after the pass, and the other slots have those that they had before. -/
def heldAtSlot (w : Workflow μ) (id : SlotId) : List String :=
  w.assignNames.blocks.filterMap Block.codeName ++
    (w.assignNames.slots.takeWhile (·.id ≠ id)).filterMap Slot.codeName ++
      (w.slots.dropWhile (·.id ≠ id)).filterMap Slot.codeName

/-- The blocks before a block choose their names before it does. -/
theorem exists_split_assignNames {pre post : List Block} {block : Block}
    (hsplit : w.blocks = pre ++ block :: post) {chosen : List Block × List String}
    (hchosen : chosen = mapStateList Block.assignName (w.codeNames ++ reservedMembers) pre) :
    ∃ pre' later post', w.assignNames.blocks = pre' ++ later :: post' ∧
      pre'.filterMap Block.codeName = chosen.1.filterMap Block.codeName ∧ later.id = block.id ∧
        later.codeName = some (block.chooseName chosen.2).1 := by
  have hwhole := w.blocks_assignNames
  generalize hstate : w.chosenBlocks.2 = state at hwhole
  rw [chosenBlocks, hsplit, mapStateList_append_cons, ← hchosen, mapStateList_append_cons] at hwhole
  refine ⟨_, _, _, hwhole, ?_, rfl, rfl⟩
  -- the slots that are named after that leave the names of the blocks alone
  exact filterMap_of_map_eq (map_mapStateList (f := Block.assignSlotNames) (fun _ _ => rfl) ..)

/-- What a naming pass does to a block: it chooses a name when the names taken are those that are held
at that moment, and those that are reserved. -/
theorem Reachable.exists_visited_block (h : w.Reachable) {block : Block} (hb : block ∈ w.blocks) :
    ∃ later ∈ w.assignNames.blocks, later.id = block.id ∧ ∃ taken taken' name,
      Tracks taken (w.heldAtBlock block.id) ∧ block.Chooses taken name taken' ∧
        later.codeName = some name := by
  obtain ⟨pre, post, hsplit⟩ := List.append_of_mem hb
  obtain ⟨pre', later, post', hwhole, hnames, hid, hname⟩ := exists_split_assignNames hsplit rfl
  have hids : (w.assignNames.blocks.map Block.id).Nodup := h.named.wellFormed.blocks.ids
  have hbefore : (w.blocks.map Block.id).Nodup := h.wellFormed.blocks.ids
  rw [hwhole] at hids
  rw [hsplit] at hbefore
  refine ⟨later, ?_, hid, _, _, _, ?_, block.chooses_chooseName _, hname⟩
  · rw [hwhole]
    exact List.mem_append_right _ List.mem_cons_self
  · have hstart : Tracks (w.codeNames ++ reservedMembers)
        (((block :: post).filterMap Block.codeName ++ w.slots.filterMap Slot.codeName) ++
          pre.filterMap Block.codeName) := by
      refine (Tracks.start h.namedApart).perm ?_
      rw [codeNames, hsplit, List.filterMap_append, List.append_assoc]
      exact List.perm_append_comm
    have htracks := hstart.mapStateList (f := Block.assignName) fun taken others b hb =>
      hb.chooses (b.chooses_chooseName taken)
    refine htracks.perm ?_
    rw [heldAtBlock, hwhole, hsplit, (takeWhile_dropWhile_key hids hid).1,
      (takeWhile_dropWhile_key hbefore rfl).2, hnames]
    exact List.perm_append_comm.trans (.of_eq (List.append_assoc ..).symm)

/-- What a naming pass does to a slot, when the names taken are those that are held at that moment, and
those that are reserved. -/
theorem Reachable.exists_visited_slot (h : w.Reachable) {slot : Slot} (hs : slot ∈ w.slots) :
    ∃ taken, Tracks taken (w.heldAtSlot slot.id) ∧
      (slot.assignName taken).1 ∈ w.assignNames.slots := by
  obtain ⟨pre, post, hsplit⟩ := List.append_of_mem hs
  have hwhole := w.slots_assignNames
  have hids : (w.assignNames.slots.map Slot.id).Nodup := h.named.wellFormed.slotIds
  have hbefore : (w.slots.map Slot.id).Nodup := h.wellFormed.slotIds
  rw [hsplit, mapStateList_append_cons] at hwhole
  rw [hwhole] at hids
  rw [hsplit] at hbefore
  refine ⟨(mapStateList Slot.assignName w.chosenBlocks.2 pre).2, ?_, ?_⟩
  · have hstart : Tracks w.chosenBlocks.2
        ((w.assignNames.blocks.filterMap Block.codeName ++ (slot :: post).filterMap Slot.codeName) ++
          pre.filterMap Slot.codeName) := by
      refine (tracks_chosenBlocks h.namedApart).perm ?_
      rw [filterMap_codeName_assignNames, hsplit, List.filterMap_append]
      refine List.perm_append_comm.trans ?_
      rw [List.append_assoc]
      exact .append_left _ List.perm_append_comm
    have htracks := hstart.mapStateList fun _ _ _ ht => ht.assignName_slot
    refine htracks.perm ?_
    rw [heldAtSlot, hwhole, hsplit, (takeWhile_dropWhile_key hids (slot.id_assignName _)).1,
      (takeWhile_dropWhile_key hbefore rfl).2, List.append_assoc, List.append_assoc]
    exact .append_left _ List.perm_append_comm
  · rw [hwhole]
    exact List.mem_append_right _ List.mem_cons_self

-- ---------------------------------------------------------------------------
-- One event
-- ---------------------------------------------------------------------------

/-- A block with a name keeps it in a pass, or it moves to the name that its user chose. -/
theorem Reachable.block_assignNames (h : w.Reachable) {later : Block}
    (hl : later ∈ w.assignNames.blocks) :
    ∃ block ∈ w.blocks, block.id = later.id ∧ (block.codeName.isSome = true →
      later.codeName = block.codeName ∨
        ∃ wanted, block.TakesChosen (w.heldAtBlock block.id) wanted ∧
          later.codeName = some wanted) := by
  obtain ⟨block, hb, hunnamed⟩ := exists_block_of_unnamed w.unnamed_assignNames hl
  have hid : block.id = later.id := Block.id_of_unnamed hunnamed
  refine ⟨block, hb, hid, fun hsome => ?_⟩
  obtain ⟨other, ho, hoid, taken, taken', name, htracks, hchooses, hname⟩ := h.exists_visited_block hb
  obtain rfl := h.named.wellFormed.block_ext ho hl (hoid.trans hid)
  cases hchooses with
  | kept hkept _ => exact .inl (hname.trans hkept.symm)
  | moved _ hwish _ hfree => exact .inr ⟨name, htracks.takesChosen_iff.mpr ⟨hwish, hfree⟩, hname⟩
  | wished hnone => simp [hnone] at hsome
  | numbered hnone => simp [hnone] at hsome

/-- A block that is there after an event was there before it with the same name, or a pass has named it,
or it is new. -/
theorem Reachable.block_happen (h : w.Reachable) {event : Happening μ} {later : Block}
    (hl : later ∈ (w.happen event).blocks) :
    (∃ block ∈ w.blocks, block.id = later.id ∧ (block.codeName.isSome = true →
      later.codeName = block.codeName ∨ event.IsPass ∧
        ∃ wanted, block.TakesChosen (w.heldAtBlock block.id) wanted ∧
          later.codeName = some wanted)) ∨ w.nextId ≤ later.id.val := by
  rcases w.happen_cases event with ⟨edit, answer, -, he⟩ | ⟨hpass, heq⟩ | heq
  · rcases (h.wellFormed.alters_perform he).blocks later hl with ⟨block, hb, halters⟩ | hnew
    · exact .inl ⟨block, hb, halters.id.symm, fun _ => .inl halters.codeName⟩
    · exact .inr hnew.id
  · rw [heq] at hl
    obtain ⟨block, hb, hid, hnames⟩ := h.block_assignNames hl
    exact .inl ⟨block, hb, hid, fun hsome => (hnames hsome).imp_right fun hmoved => ⟨hpass, hmoved⟩⟩
  · rw [heq] at hl
    exact .inl ⟨later, hl, rfl, fun _ => .inl rfl⟩

/-- A slot with a name keeps it in a pass. -/
theorem slot_assignNames {later : Slot} (hl : later ∈ w.assignNames.slots) :
    ∃ slot ∈ w.slots, slot.id = later.id ∧
      (slot.codeName.isSome = true → later.codeName = slot.codeName) := by
  rw [slots_assignNames] at hl
  obtain ⟨slot, hs, taken, rfl⟩ := exists_of_mem_mapStateList hl
  refine ⟨slot, hs, ?_⟩
  unfold Slot.assignName
  split
  · rename_i hnone _
    exact ⟨rfl, fun hsome => by simp [hnone] at hsome⟩
  · exact ⟨rfl, fun _ => rfl⟩

theorem Reachable.slot_happen (h : w.Reachable) {event : Happening μ} {later : Slot}
    (hl : later ∈ (w.happen event).slots) :
    (∃ slot ∈ w.slots, slot.id = later.id ∧
      (slot.codeName.isSome = true → later.codeName = slot.codeName)) ∨
        w.nextId ≤ later.id.val := by
  rcases w.happen_cases event with ⟨edit, answer, -, he⟩ | ⟨-, heq⟩ | heq
  · rcases (h.wellFormed.alters_perform he).slot hl with ⟨slot, hs, halters⟩ | hnew
    · exact .inl ⟨slot, hs, halters.id.symm, fun _ => halters.codeName⟩
    · exact .inr hnew.id
  · rw [heq] at hl
    exact .inl (slot_assignNames hl)
  · rw [heq] at hl
    exact .inl ⟨later, hl, rfl, fun _ => rfl⟩

-- ---------------------------------------------------------------------------
-- Many events
-- ---------------------------------------------------------------------------

/-- One of a list of events is a naming pass that moves a block to the name that its user chose. -/
def MovedTo (w : Workflow μ) (events : List (Happening μ)) (id : BlockId) (wanted : String) : Prop :=
  ∃ prior event rest, events = prior ++ event :: rest ∧ event.IsPass ∧
    ∃ reached ∈ (w.after prior).blocks, reached.id = id ∧
      reached.TakesChosen ((w.after prior).heldAtBlock id) wanted

theorem MovedTo.concat {events : List (Happening μ)} {id : BlockId} {wanted : String}
    (h : w.MovedTo events id wanted) (event : Happening μ) :
    w.MovedTo (events ++ [event]) id wanted := by
  obtain ⟨prior, moving, rest, rfl, hpass, hreached⟩ := h
  exact ⟨prior, moving, rest ++ [event], by simp, hpass, hreached⟩

/-- A block that keeps existing keeps its name, or it goes by a name that its user chose and that was
free when a pass came to it. -/
theorem Reachable.block_after (h : w.Reachable) (events : List (Happening μ)) {block later : Block}
    (hb : block ∈ w.blocks) (hl : later ∈ (w.after events).blocks) (hid : later.id = block.id)
    {name : String} (hname : block.codeName = some name) :
    later.codeName = some name ∨
      ∃ wanted, w.MovedTo events block.id wanted ∧ later.codeName = some wanted := by
  induction events using List.reverseRecOn generalizing later with
  | nil =>
    obtain rfl := h.wellFormed.block_ext hl hb hid
    exact .inl hname
  | append_singleton events event ih =>
    rw [after_concat] at hl
    rcases (h.after events).block_happen hl with ⟨reached, hr, hrid, hnames⟩ | hnew
    · have hbefore := ih hr (hrid.trans hid)
      have hsome : reached.codeName.isSome = true := by
        rcases hbefore with hkept | ⟨wanted, -, hmoved⟩
        · rw [hkept]
          rfl
        · rw [hmoved]
          rfl
      rcases hnames hsome with hsame | ⟨hpass, wanted, htakes, hwanted⟩
      · rw [hsame]
        refine hbefore.imp_right ?_
        rintro ⟨wanted, hmoved, hwanted⟩
        exact ⟨wanted, hmoved.concat event, hwanted⟩
      · have hreached : reached.id = block.id := hrid.trans hid
        exact .inr ⟨wanted, ⟨events, event, [], rfl, hpass, reached, hr, hreached,
          hreached ▸ htakes⟩, hwanted⟩
    · -- the number of a new block is not that of an old one
      have hlt := h.wellFormed.blocks.idBound block hb
      have hle := h.nextId_after events
      rw [hid] at hnew
      omega

/-- A slot that keeps existing keeps its name. -/
theorem Reachable.slot_after (h : w.Reachable) (events : List (Happening μ)) {slot later : Slot}
    (hs : slot ∈ w.slots) (hl : later ∈ (w.after events).slots) (hid : later.id = slot.id)
    {name : String} (hname : slot.codeName = some name) : later.codeName = some name := by
  induction events using List.reverseRecOn generalizing later with
  | nil =>
    obtain rfl := List.inj_on_of_nodup_map h.wellFormed.slotIds hl hs hid
    exact hname
  | append_singleton events event ih =>
    rw [after_concat] at hl
    rcases (h.after events).slot_happen hl with ⟨reached, hr, hrid, hnames⟩ | hnew
    · have hbefore := ih hr (hrid.trans hid)
      rw [hnames (by rw [hbefore]; rfl)]
      exact hbefore
    · obtain ⟨owner, howner, hin⟩ := mem_slots.mp hs
      have hlt := h.wellFormed.blocks.slotBound owner howner slot hin
      have hle := h.nextId_after events
      rw [hid] at hnew
      omega

-- ---------------------------------------------------------------------------
-- New names
-- ---------------------------------------------------------------------------

/-- A block without a name gets the one that its user chose, if that is free when the pass comes to it,
and the first free number after the stem of its kind otherwise. -/
theorem Reachable.newName_block (h : w.Reachable) {block later : Block} (hb : block ∈ w.blocks)
    (hnone : block.codeName = none) (hl : later ∈ w.assignNames.blocks) (hid : later.id = block.id) :
    ∃ name, later.codeName = some name ∧
      (block.TakesChosen (w.heldAtBlock block.id) name ∨
        (∀ wanted, ¬block.TakesChosen (w.heldAtBlock block.id) wanted) ∧
          IsFirstFree (w.heldAtBlock block.id) block.kind.codeStem name) := by
  obtain ⟨other, ho, hoid, taken, taken', name, htracks, hchooses, hname⟩ := h.exists_visited_block hb
  obtain rfl := h.named.wellFormed.block_ext ho hl (hoid.trans hid.symm)
  refine ⟨name, hname, ?_⟩
  cases hchooses with
  | kept hsome =>
    rw [hnone] at hsome
    cases hsome
  | moved hsome =>
    rw [hnone] at hsome
    cases hsome
  | wished _ hwish hfree => exact .inl (htracks.takesChosen_iff.mpr ⟨hwish, hfree⟩)
  | numbered _ htaken =>
    refine .inr ⟨fun wanted htakes => ?_, htracks.isFirstFree _⟩
    obtain ⟨hwish, hfree⟩ := htracks.takesChosen_iff.mp htakes
    exact hfree (htaken wanted hwish)

/-- A slot without a name gets the first free number after its stem, if it stands on the border. -/
theorem Reachable.newName_slot (h : w.Reachable) {slot later : Slot} (hs : slot ∈ w.slots)
    (hnone : slot.codeName = none) (hl : later ∈ w.assignNames.slots) (hid : later.id = slot.id) :
    match slot.codeStem? with
    | some stem =>
      ∃ name, later.codeName = some name ∧ IsFirstFree (w.heldAtSlot slot.id) stem name
    | none => later.codeName = none := by
  obtain ⟨taken, htracks, hvisited⟩ := h.exists_visited_slot hs
  have hsame : (slot.assignName taken).1 = later :=
    List.inj_on_of_nodup_map h.named.wellFormed.slotIds hvisited hl
      ((slot.id_assignName taken).trans hid.symm)
  rw [← hsame, Slot.assignName, hnone]
  cases slot.codeStem? with
  | some stem => exact ⟨_, rfl, htracks.isFirstFree stem⟩
  | none => exact hnone

-- ---------------------------------------------------------------------------
-- Names that are given back
-- ---------------------------------------------------------------------------

/-- The number of a block or of a slot. -/
inductive ElementId where
  | block (id : BlockId)
  | slot (id : SlotId)
  deriving DecidableEq, Repr

/-- A workflow has a block or a slot of a number. -/
def Has (w : Workflow μ) : ElementId → Prop
  | .block id => ∃ block ∈ w.blocks, block.id = id
  | .slot id => ∃ slot ∈ w.slots, slot.id = id

/-- An element goes by a name. -/
inductive Holds (w : Workflow μ) : ElementId → String → Prop where
  | block {block : Block} {name : String} (hb : block ∈ w.blocks)
      (hname : block.codeName = some name) : Holds w (.block block.id) name
  | slot {slot : Slot} {name : String} (hs : slot ∈ w.slots)
      (hname : slot.codeName = some name) : Holds w (.slot slot.id) name

theorem Holds.has {id : ElementId} {name : String} (h : w.Holds id name) : w.Has id := by
  cases h with
  | block hb => exact ⟨_, hb, rfl⟩
  | slot hs => exact ⟨_, hs, rfl⟩

theorem mem_codeNames_iff {name : String} : name ∈ w.codeNames ↔ ∃ id, w.Holds id name := by
  rw [codeNames, List.mem_append, List.mem_filterMap, List.mem_filterMap]
  constructor
  · rintro (⟨block, hb, hname⟩ | ⟨slot, hs, hname⟩)
    · exact ⟨_, .block hb hname⟩
    · exact ⟨_, .slot hs hname⟩
  · rintro ⟨id, hb, hname⟩
    · exact .inl ⟨_, hb, hname⟩
    · exact .inr ⟨_, ‹_›, ‹_›⟩

/-- Two elements do not go by one name. -/
theorem Holds.unique (h : NamedApart w.codeNames) {id id' : ElementId} {name : String}
    (hid : w.Holds id name) (hid' : w.Holds id' name) : id = id' := by
  obtain ⟨hblocks, hslots, hacross⟩ := List.nodup_append.mp h.nodup
  have hapart : ∀ {block : Block} {slot : Slot}, block ∈ w.blocks → slot ∈ w.slots →
      block.codeName = some name → slot.codeName = some name → False := by
    intro block slot hb hs hname hname'
    exact hacross name (List.mem_filterMap.mpr ⟨block, hb, hname⟩) name
      (List.mem_filterMap.mpr ⟨slot, hs, hname'⟩) rfl
  cases hid with
  | block hb hname =>
    cases hid' with
    | block hb' hname' => rw [eq_of_nodup_filterMap hblocks hb hb' hname hname']
    | slot hs hname' => exact (hapart hb hs hname hname').elim
  | slot hs hname =>
    cases hid' with
    | block hb hname' => exact (hapart hb hs hname' hname).elim
    | slot hs' hname' => rw [eq_of_nodup_filterMap hslots hs hs' hname hname']

/-- What goes by a name after an edit went by it before. -/
theorem Alters.holds {w' : Workflow μ} {edit : Edit μ} (h : w.Alters edit w') {id : ElementId}
    {name : String} (hid : w'.Holds id name) : w.Holds id name := by
  cases hid with
  | block hb hname =>
    obtain ⟨old, hold, heq, hsame⟩ := h.exists_named_block hb (by rw [hname]; rfl)
    exact heq ▸ .block hold (hsame.trans hname)
  | slot hs hname =>
    obtain ⟨old, hold, heq, hsame⟩ := h.exists_named_slot hs (by rw [hname]; rfl)
    exact heq ▸ .slot hold (hsame.trans hname)

/-- The name of what an edit removes is free. -/
theorem Reachable.isFree_of_removed (h : w.Reachable) {w' : Workflow μ} {edit : Edit μ}
    {answer : Answer} (he : w.perform edit = .ok (answer, w')) {id : ElementId} {name : String}
    (hid : w.Holds id name) (hgone : ¬w'.Has id) : IsFree w'.codeNames name := by
  refine ⟨fun hheld => ?_, (h.namedApart.usable name (mem_codeNames_iff.mpr ⟨id, hid⟩)).reserved⟩
  obtain ⟨other, ho⟩ := mem_codeNames_iff.mp hheld
  have hsame := ((h.wellFormed.alters_perform he).holds ho).unique h.namedApart hid
  exact hgone (hsame ▸ ho.has)

-- ---------------------------------------------------------------------------
-- Main result
-- ---------------------------------------------------------------------------

/-- Names are kept, new names are the first that are free, and names are given back. -/
structure NamesStable (w : Workflow μ) : Prop where
  /-- Whatever happens, a block that keeps existing keeps its name, or a pass has moved it to the name
  that its user chose. -/
  blocks : ∀ events, ∀ block ∈ w.blocks, ∀ later ∈ (w.after events).blocks, later.id = block.id →
    ∀ name, block.codeName = some name → later.codeName = some name ∨
      ∃ wanted, w.MovedTo events block.id wanted ∧ later.codeName = some wanted
  /-- Whatever happens, a slot that keeps existing keeps its name. -/
  slots : ∀ events, ∀ slot ∈ w.slots, ∀ later ∈ (w.after events).slots, later.id = slot.id →
    ∀ name, slot.codeName = some name → later.codeName = some name
  /-- A pass gives a block without a name the one that its user chose, if that is free when it comes to
  the block, and the first free number after a stem otherwise. -/
  newBlocks : ∀ block ∈ w.blocks, block.codeName = none → ∀ later ∈ w.assignNames.blocks,
    later.id = block.id → ∃ name, later.codeName = some name ∧
      (block.TakesChosen (w.heldAtBlock block.id) name ∨
        (∀ wanted, ¬block.TakesChosen (w.heldAtBlock block.id) wanted) ∧
          IsFirstFree (w.heldAtBlock block.id) block.kind.codeStem name)
  /-- A pass gives a slot without a name the first free number after its stem, if it has one. -/
  newSlots : ∀ slot ∈ w.slots, slot.codeName = none → ∀ later ∈ w.assignNames.slots,
    later.id = slot.id →
      match slot.codeStem? with
      | some stem =>
        ∃ name, later.codeName = some name ∧ IsFirstFree (w.heldAtSlot slot.id) stem name
      | none => later.codeName = none
  /-- The name of what an edit removes is held by nobody after that. -/
  givenBack : ∀ edit answer w', w.perform edit = .ok (answer, w') → ∀ id name, w.Holds id name →
    ¬w'.Has id → IsFree w'.codeNames name

/-- **Names are stable.** Over all histories of edits, naming passes and generations of programs, an
element that keeps existing keeps its name; only a named value may be moved in a pass, to the name its
user chose, and only if that name is free when the pass comes to it. -/
theorem Reachable.namesStable (h : w.Reachable) : w.NamesStable where
  blocks events _ hb _ hl hid _ hname := h.block_after events hb hl hid hname
  slots events _ hs _ hl hid _ hname := h.slot_after events hs hl hid hname
  newBlocks _ hb hnone _ hl hid := h.newName_block hb hnone hl hid
  newSlots _ hs hnone _ hl hid := h.newName_slot hs hnone hl hid
  givenBack _ _ _ he _ _ hid hgone := h.isFree_of_removed he hid hgone

/-- Two values for which one name is chosen. When the first one has gone, a pass moves the second one to
that name, and the next new value gets the number that the second one gave up. -/
theorem namesStable_of_two_values :
    ∃ w : Workflow Unit,
      (new "uid-" "Plan" .empty).after
        [.edit (.addBlock rootId (.named "heat flux" .field) none),
          .edit (.addBlock rootId (.named "heat flux" .field) none), .pass] = w ∧
      w.NamesStable ∧ w.codeNames = ["workflow_1", "heat_flux", "variable_1"] ∧
      (w.after [.edit (.removeBlock ⟨1⟩), .pass]).codeNames = ["workflow_1", "heat_flux"] ∧
      (w.after [.edit (.removeBlock ⟨1⟩), .pass,
        .edit (.addBlock rootId (.named "class" .field) none), .pass]).codeNames =
          ["workflow_1", "heat_flux", "variable_1"] := by
  have hreachable : ((new "uid-" "Plan" .empty : Workflow Unit).after
      [.edit (.addBlock rootId (.named "heat flux" .field) none),
        .edit (.addBlock rootId (.named "heat flux" .field) none), .pass]).Reachable :=
    Reachable.after (.new ..) _
  exact ⟨_, rfl, Reachable.namesStable hreachable, by decide +kernel, by decide +kernel,
    by decide +kernel⟩

end Workflow

end SlotFlow
