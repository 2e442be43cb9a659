import Mathlib.Data.List.Find
import SlotFlow.Proofs.Arena.Steps
/-!
# Programs and edits in lockstep

On the tables of a well-formed workflow every program that carries out an edit ends, and it does what
the edit does: where the edit is granted, it answers the same and leaves the tables of the new
workflow; where the edit is refused, it is refused with the same words and leaves the tables as they
were. The second part is not seen in the programs, some of which have changed rows before a later
step could refuse.

## Results

* `Workflow.WellFormed.run_addSlot`, …, `Workflow.WellFormed.run_connect` — one program after the
  other;
* `Workflow.WellFormed.run_perform` — all edits.
-/

namespace SlotFlow

variable {μ : Type}

-- ---------------------------------------------------------------------------
-- Running programs
-- ---------------------------------------------------------------------------

namespace Arena.Program

variable {α β : Type} {a a' : Arena μ} {x : Program μ α} {f : α → Program μ β}

@[simp] theorem run_pure (v : α) (a : Arena μ) : (pure v : Program μ α).run a = some (.ok v, a) := rfl

@[simp] theorem run_throw (error : EditError) (a : Arena μ) :
    (throw error : Program μ α).run a = some (.error error, a) := rfl

theorem run_bind_ok {v : α} (h : x.run a = some (.ok v, a')) :
    (x >>= f).run a = (f v).run a' := by
  unfold run at *
  rw [ExceptT.run_bind, StateT.run_bind, h]
  rfl

theorem run_bind_error {error : EditError} (h : x.run a = some (.error error, a')) :
    (x >>= f).run a = some (.error error, a') := by
  unfold run at *
  rw [ExceptT.run_bind, StateT.run_bind, h]
  rfl

theorem run_ite (c : Prop) [Decidable c] (x y : Program μ α) (a : Arena μ) :
    (if c then x else y).run a = if c then x.run a else y.run a := by
  split <;> rfl

@[simp] theorem run_throw_bind (error : EditError) (f : α → Program μ β) (a : Arena μ) :
    ((throw error : Program μ α) >>= f).run a = some (.error error, a) :=
  run_bind_error (run_throw ..)

@[simp] theorem run_get_bind (f : Arena μ → Program μ β) (a : Arena μ) :
    ((get : Program μ (Arena μ)) >>= f).run a = (f a).run a :=
  run_bind_ok rfl

@[simp] theorem run_modify (g : Arena μ → Arena μ) (a : Arena μ) :
    (modify g : Program μ PUnit).run a = some (.ok ⟨⟩, g a) := rfl

@[simp] theorem run_modify_bind (g : Arena μ → Arena μ) (f : PUnit → Program μ β) (a : Arena μ) :
    ((modify g : Program μ PUnit) >>= f).run a = (f ⟨⟩).run (g a) :=
  run_bind_ok (run_modify ..)

@[simp] theorem run_allocate_bind (f : Nat → Program μ β) (a : Arena μ) :
    (allocate >>= f).run a = (f a.nextId).run { a with nextId := a.nextId + 1 } :=
  run_bind_ok rfl

theorem run_expect_bind {read : Arena μ → Option α} {v : α} (h : read a = some v) :
    (expect read >>= f).run a = (f v).run a := by
  refine run_bind_ok ?_
  show (read a).map _ = _
  rw [h]
  rfl

theorem run_requireBlock_bind {id : BlockId} {row : BlockRow} {f : BlockRow → Program μ β}
    (h : a.blocks id = some row) : (requireBlock id >>= f).run a = (f row).run a := by
  refine run_bind_ok ?_
  rw [requireBlock, run_get_bind, h]
  rfl

theorem run_requireBlock_bind_none {id : BlockId} {f : BlockRow → Program μ β}
    (h : a.blocks id = none) :
    (requireBlock id >>= f).run a = some (.error (.blockNotFound id), a) := by
  refine run_bind_error ?_
  rw [requireBlock, run_get_bind, h]
  rfl

theorem run_requireSlot_bind {id : SlotId} {row : SlotRow} {f : SlotRow → Program μ β}
    (h : a.slots id = some row) : (requireSlot id >>= f).run a = (f row).run a := by
  refine run_bind_ok ?_
  rw [requireSlot, run_get_bind, h]
  rfl

theorem run_requireSlot_bind_none {id : SlotId} {f : SlotRow → Program μ β}
    (h : a.slots id = none) :
    (requireSlot id >>= f).run a = some (.error (.slotNotFound id), a) := by
  refine run_bind_error ?_
  rw [requireSlot, run_get_bind, h]
  rfl

end Arena.Program

namespace Workflow

open Arena.Program

variable {α : Type} {w w' : Workflow μ}

/-- What the program of an edit comes to: the answer and the new tables, or the refusal and the old
ones. -/
def outcome (w : Workflow μ) : Except EditError (α × Workflow μ) → Except EditError α × Arena μ
  | .ok (answer, w') => (.ok answer, w'.arena)
  | .error error => (.error error, w.arena)

-- ---------------------------------------------------------------------------
-- What programs read
-- ---------------------------------------------------------------------------

theorem blocks_arena_of_block? {id : BlockId} {block : Block} (hb : w.block? id = some block) :
    ∃ row, w.arena.blocks id = some row ∧ row.name = block.name ∧ row.kind = block.kind ∧
      row.slots = block.slots.map Slot.id :=
  ⟨_, congrArg (Option.map _) hb, rfl, rfl, rfl⟩

theorem blocks_arena_eq_none {id : BlockId} (hb : w.block? id = none) : w.arena.blocks id = none :=
  congrArg (Option.map _) hb

theorem slots_arena_of_ownedSlot? {id : SlotId} {owned : OwnedSlot}
    (hs : w.ownedSlot? id = some owned) :
    w.arena.slots id = some ⟨owned.slot, owned.owner.id, (w.linksAt id).map Link.id⟩ :=
  congrArg (Option.map _) hs

theorem slots_arena_eq_none {id : SlotId} (hs : w.ownedSlot? id = none) : w.arena.slots id = none :=
  congrArg (Option.map _) hs

theorem WellFormed.slotsOf_arena (h : w.WellFormed) {block : Block} (hb : block ∈ w.blocks) :
    w.arena.slotsOf block.id = block.slots.map Slot.id := by
  obtain ⟨row, hrow, -, -, hslots⟩ := blocks_arena_of_block? (h.block?_eq_some.mpr ⟨hb, rfl⟩)
  rw [Arena.slotsOf, hrow]
  exact hslots

/-- A slot is found by its name in the table, too. -/
theorem WellFormed.slotNamed?_arena (h : w.WellFormed) {block : Block} (hb : block ∈ w.blocks)
    (name : String) : w.arena.slotNamed? block.id name = (block.slot? name).map Slot.id := by
  have hname : ∀ slot ∈ block.slots,
      (w.arena.slots slot.id).any (·.slot.name = name) = decide (slot.name = name) := by
    intro slot hs
    obtain ⟨owner, hrow⟩ := h.exists_slots_arena (mem_slots.mpr ⟨block, hb, hs⟩)
    rw [hrow]
    rfl
  rw [Arena.slotNamed?, h.slotsOf_arena hb, List.find?_map, Block.slot?]
  exact congrArg (Option.map Slot.id) (List.find?_congr hname)

-- ---------------------------------------------------------------------------
-- New blocks and slots
-- ---------------------------------------------------------------------------

theorem WellFormed.run_addSlot (h : w.WellFormed) (owner : BlockId) (request : SlotRequest) :
    (Arena.addSlot owner request).run w.arena = some (w.outcome (w.addSlot owner request)) := by
  cases hb : w.block? owner with
  | none =>
    rw [Arena.addSlot, run_requireBlock_bind_none (blocks_arena_eq_none hb),
      Workflow.addSlot, getBlock_eq_error hb]
    rfl
  | some block =>
    obtain ⟨row, hrow, hname, -, -⟩ := blocks_arena_of_block? hb
    obtain ⟨hmem, rfl⟩ := h.block?_eq_some.mp hb
    have hget := getBlock_eq_ok.mpr hb
    have hnamed := h.slotNamed?_arena hmem request.name
    simp only [Arena.addSlot, run_requireBlock_bind hrow, run_get_bind, run_ite, run_throw_bind,
      run_allocate_bind, run_modify_bind, run_pure, hnamed, Option.isSome_map, hname]
    have htree : w.addSlot block.id request =
        if request.kind.external && block.id ≠ w.root.id then
          .error (.externalSlotOutside block.name request.name)
        else if (block.slot? request.name).isSome then
          .error (.duplicateSlotName block.name request.name)
        else .ok (⟨w.nextId⟩, w.appendSlot block.id request) := by
      rw [Workflow.addSlot, hget]
      rfl
    rw [htree]
    show (if (request.kind.external && decide (block.id ≠ w.root.id)) = true then _ else _) = _
    split
    · rfl
    · rename_i hborder
      split
      · rfl
      · rename_i hfree
        have h' := h.addSlot (htree.trans ((if_neg hborder).trans (if_neg hfree)))
        exact congrArg (fun a => some (Except.ok _, a))
          (h.arena_appendSlot (List.mem_map_of_mem hmem) h').symm

/-- The programs that add slots one by one do not stop before the end. -/
theorem WellFormed.run_addSlots (h : w.WellFormed) {b : Block} (hb : b ∈ w.blocks)
    {requests : List SlotRequest} (hr : Separate requests)
    (hfree : ∀ request ∈ requests, ∀ slot ∈ b.slots, slot.name ≠ request.name) :
    (Arena.addSlots b.id requests).run w.arena =
      some (.ok (), (requests.foldl (fun w request => w.appendSlot b.id request) w).arena) := by
  induction requests generalizing w b with
  | nil => rfl
  | cons request requests ih =>
    have hgranted : w.addSlot b.id request = .ok (⟨w.nextId⟩, w.appendSlot b.id request) := by
      refine addSlot_eq_ok.mpr ⟨b, getBlock_eq_ok.mpr (h.block?_eq_some.mpr ⟨hb, rfl⟩), ?_, ?_, rfl⟩
      · intro hext
        rw [hr.inside request List.mem_cons_self] at hext
        cases hext
      · rw [Block.slot?, List.find?_eq_none]
        intro slot hs
        simpa using hfree request List.mem_cons_self slot hs
    have hstep := h.run_addSlot b.id request
    rw [hgranted] at hstep
    have h' := h.addSlot hgranted
    let slot := Slot.ofRequest ⟨w.nextId⟩ (freshUid w.uidStem w.nextId) request
    let grown := { b with slots := b.slots ++ [slot] }
    have hgrown : grown ∈ (w.appendSlot b.id request).blocks := by
      rw [blocks_appendSlot]
      exact List.mem_map.mpr ⟨b, hb, if_pos rfl⟩
    have hnames := List.nodup_cons.mp hr.names
    have hr' : Separate requests :=
      ⟨hnames.2, fun r hm => hr.inside r (List.mem_cons_of_mem _ hm)⟩
    rw [Arena.addSlots, run_bind_ok hstep]
    refine ih h' (b := grown) hgrown hr' ?_
    intro other ho s hs
    rcases List.mem_append.mp hs with hs | hs
    · exact hfree other (List.mem_cons_of_mem _ ho) s hs
    · rw [List.mem_singleton.mp hs]
      rintro heq
      exact hnames.1 (List.mem_map.mpr ⟨other, ho, heq.symm⟩)

/-- The row of a new block is put in place if the container takes it. -/
theorem WellFormed.run_insertRow (h : w.WellFormed) (parent : BlockId) (kind : BlockKind)
    (uid : Option String) :
    (Arena.insertRow parent kind uid).run w.arena = some (w.outcome
      ((w.getContainer parent).map fun _ => w.attachBlock parent kind kind.recordName [] uid)) := by
  cases hb : w.block? parent with
  | none =>
    rw [Arena.insertRow, run_requireBlock_bind_none (blocks_arena_eq_none hb), getContainer,
      getBlock_eq_error hb]
    rfl
  | some block =>
    obtain ⟨row, hrow, hname, hkind, -⟩ := blocks_arena_of_block? hb
    simp only [Arena.insertRow, run_requireBlock_bind hrow, run_get_bind, run_ite, run_throw_bind,
      run_allocate_bind, run_modify_bind, run_pure, hname, hkind]
    have htree : w.getContainer parent =
        if block.kind.isContainer then .ok block else .error (.notAContainer block.name) := by
      rw [getContainer, getBlock_eq_ok.mpr hb]
      rfl
    rw [htree]
    cases hcontainer : block.kind.isContainer with
    | false => rfl
    | true =>
      have hparent := h.mem_ids_of_getContainer (getContainer_eq_ok.mpr ⟨hb, hcontainer⟩)
      have h' := h.attachBlock hparent kind kind.recordName separate_nil uid
      exact congrArg (fun a => some (Except.ok _, a))
        (h.arena_attachRow hparent kind kind.recordName uid h').symm

/-- The slots that a new block is made with are added without a refusal. -/
theorem WellFormed.run_addSlots_attachBlock (h : w.WellFormed) {parent : BlockId}
    (hparent : parent ∈ w.blocks.map Block.id) (kind : BlockKind) (name : String)
    {requests : List SlotRequest} (hr : Separate requests) (uid : Option String) :
    (Arena.addSlots ⟨w.nextId⟩ requests).run (w.attachBlock parent kind name [] uid).2.arena =
      some (.ok (), (w.attachBlock parent kind name requests uid).2.arena) := by
  have h' := h.attachBlock hparent kind name separate_nil uid
  have hnew : w.newBlock kind name [] uid ∈ (w.attachBlock parent kind name [] uid).2.blocks :=
    (perm_blocks_attachBlock h.blocks.ids hparent ..).mem_iff.mpr
      (List.mem_append_right _ List.mem_cons_self)
  have hrun := h'.run_addSlots hnew hr fun _ _ slot hs => absurd hs List.not_mem_nil
  have hfold := foldl_appendSlot_attachBlock h parent kind name [] requests uid
  rw [List.nil_append] at hfold
  rwa [show (w.newBlock kind name [] uid).id = ⟨w.nextId⟩ from rfl, hfold] at hrun

theorem WellFormed.run_insertBlock (h : w.WellFormed) (parent : BlockId) (kind : BlockKind)
    (uid : Option String) :
    (Arena.insertBlock parent kind uid).run w.arena =
      some (w.outcome (w.addBlock parent kind uid)) := by
  cases hc : w.getContainer parent with
  | error error =>
    have hrow := h.run_insertRow parent kind uid
    rw [hc] at hrow
    rw [Arena.insertBlock, run_bind_error hrow, Workflow.addBlock, hc]
    rfl
  | ok container =>
    have hrow : (Arena.insertRow parent kind uid).run w.arena =
        some (.ok ⟨w.nextId⟩, (w.attachBlock parent kind kind.recordName [] uid).2.arena) := by
      rw [h.run_insertRow, hc]
      rfl
    have hparent := h.mem_ids_of_getContainer hc
    rw [Arena.insertBlock, run_bind_ok hrow,
      run_bind_ok (h.run_addSlots_attachBlock hparent kind _ (separate_defaultSlots kind) uid),
      Workflow.addBlock, hc]
    rfl

/-- A new block may be given another name at once. -/
theorem WellFormed.arena_rename_attachBlock (h : w.WellFormed) {parent : BlockId}
    (hparent : parent ∈ w.blocks.map Block.id) (kind : BlockKind) (old new : String)
    (uid : Option String) :
    (w.attachBlock parent kind new [] uid).2.arena =
      (w.attachBlock parent kind old [] uid).2.arena.modifyBlock ⟨w.nextId⟩ fun row =>
        { row with name := new } := by
  have h' := h.attachBlock hparent kind old separate_nil uid
  have hrename := h'.arena_modifyBlock ⟨w.nextId⟩ (f := fun block => { block with name := new })
    (g := fun row => { row with name := new }) (fun _ => rfl) (fun _ => rfl) fun _ => rfl
  rwa [modifyBlock_attachBlock h] at hrename

theorem WellFormed.run_insertModel (h : w.WellFormed) (parent : BlockId) (setup : ModelSetup)
    (uid : Option String) :
    (Arena.insertModel parent setup uid).run w.arena =
      some (w.outcome (w.addModelSetup parent setup uid)) := by
  rw [Arena.insertModel, run_get_bind, show w.arena.registry = w.registry from rfl,
    Workflow.addModelSetup]
  cases hf : w.registry.find? setup.className with
  | none => rfl
  | some modelClass =>
    dsimp only
    cases hr : modelClass.declaration.repeatedSlot? with
    | some name => rfl
    | none =>
      dsimp only
      cases hc : w.getContainer parent with
      | error error =>
        have hblock := h.run_insertBlock parent (.model setup) uid
        rw [Workflow.addBlock, hc] at hblock
        rw [run_bind_error hblock]
        rfl
      | ok container =>
        have hparent := h.mem_ids_of_getContainer hc
        have hblock : (Arena.insertBlock parent (.model setup) uid).run w.arena =
            some (.ok ⟨w.nextId⟩, (w.attachBlock parent (.model setup)
              (BlockKind.model setup).recordName [] uid).2.arena) := by
          rw [h.run_insertBlock, Workflow.addBlock, hc]
          rfl
        rw [run_bind_ok hblock, run_modify_bind, ← h.arena_rename_attachBlock hparent,
          run_bind_ok (h.run_addSlots_attachBlock hparent _ _ (separate_slotRequests hr) uid)]
        rfl

-- ---------------------------------------------------------------------------
-- Changes of slots
-- ---------------------------------------------------------------------------

theorem WellFormed.run_renameSlot (h : w.WellFormed) (id : SlotId) (name : String) :
    (Arena.renameSlot id name).run w.arena =
      some (w.outcome ((w.renameSlot id name).map ((), ·))) := by
  cases ho : w.ownedSlot? id with
  | none =>
    rw [Arena.renameSlot, run_requireSlot_bind_none (slots_arena_eq_none ho), Workflow.renameSlot,
      getOwnedSlot_eq_error ho]
    rfl
  | some owned =>
    obtain ⟨howner, hslot, rfl⟩ := mem_of_ownedSlot? ho
    have hrename : ∀ w', w.renameSlot owned.slot.id name = .ok w' →
        (modify (Arena.modifySlot owned.slot.id fun row =>
          { row with slot := row.slot.rename name }) : Arena.Program μ PUnit).run w.arena =
          some (.ok (), w'.arena) := by
      intro w' hw
      have h' := h.renameSlot hw
      obtain ⟨-, -, -, rfl⟩ := renameSlot_eq_ok.mp hw
      rw [run_modify, h.arena_modifySlot owned.slot.id (f := (·.rename name)) (fun _ => rfl) h']
    rw [Arena.renameSlot, run_requireSlot_bind (slots_arena_of_ownedSlot? ho), run_get_bind,
      h.slotNamed?_arena howner]
    have hget := getOwnedSlot_eq_ok.mpr ho
    cases hp : owned.owner.slot? name with
    | none =>
      have hw : w.renameSlot owned.slot.id name = .ok (w.modifySlot owned.slot.id (·.rename name)) :=
        renameSlot_eq_ok.mpr ⟨owned, hget, by simp [hp], rfl⟩
      rw [hw]
      exact hrename _ hw
    | some present =>
      rw [Option.map_some]
      by_cases hsame : present.id = owned.slot.id
      · have hw : w.renameSlot owned.slot.id name = .ok (w.modifySlot owned.slot.id (·.rename name)) :=
          renameSlot_eq_ok.mpr ⟨owned, hget, by simp [hp, hsame], rfl⟩
        rw [hw]
        dsimp only
        rw [if_neg (not_not.mpr hsame)]
        exact hrename _ hw
      · -- the name is taken by another slot, and the refusal names the owner
        obtain ⟨row, hrow, hname, -, -⟩ :=
          blocks_arena_of_block? (h.block?_eq_some.mpr ⟨howner, rfl⟩)
        have hw : w.renameSlot owned.slot.id name =
            .error (.duplicateSlotName owned.owner.name name) := by
          simp only [Workflow.renameSlot, hget, bind, Except.bind, hp]
          exact if_pos hsame
        rw [hw]
        dsimp only
        rw [if_pos hsame, run_expect_bind hrow, run_throw_bind, hname]
        rfl

-- ---------------------------------------------------------------------------
-- Links and slots that go
-- ---------------------------------------------------------------------------

/-- A link that is not there may be removed as well. -/
theorem disconnect_snd (w : Workflow μ) (id : LinkId) :
    (w.disconnect id).2 = { w with links := w.links.filter (·.id ≠ id) } := by
  unfold Workflow.disconnect
  split
  · rfl
  · rename_i hnone
    have hall : w.links.filter (·.id ≠ id) = w.links := by
      rw [List.filter_eq_self]
      simpa using hnone
    rw [hall]

theorem WellFormed.run_disconnect (h : w.WellFormed) (id : LinkId) :
    (Arena.disconnect id).run w.arena =
      some (.ok (w.disconnect id).1, (w.disconnect id).2.arena) := by
  rw [Arena.disconnect, run_get_bind, disconnect_snd]
  cases hl : w.arena.links id with
  | none =>
    have hnone : ∀ link ∈ w.links, link.id ≠ id := by
      simpa using List.find?_eq_none.mp (show w.links.find? _ = none from hl)
    have hall : w.links.filter (·.id ≠ id) = w.links := by
      rw [List.filter_eq_self]
      simpa using hnone
    have hany : w.links.any (·.id = id) = false := by simpa using hnone
    rw [hall, Workflow.disconnect, hany]
    rfl
  | some link =>
    obtain ⟨hmem, rfl⟩ := h.links_arena_eq_some.mp hl
    have hany : w.links.any (·.id = link.id) = true := by
      rw [List.any_eq_true]
      exact ⟨link, hmem, decide_eq_true rfl⟩
    rw [h.arena_filterLink hmem, Workflow.disconnect, if_pos hany]
    rfl

theorem WellFormed.run_disconnectAll (h : w.WellFormed) (ids : List LinkId) :
    (Arena.disconnectAll ids).run w.arena =
      some (.ok (), { w with links := w.links.filter (·.id ∉ ids) }.arena) := by
  induction ids generalizing w with
  | nil =>
    have hall : w.links.filter (·.id ∉ []) = w.links := by simp
    rw [hall]
    rfl
  | cons id ids ih =>
    rw [Arena.disconnectAll, run_bind_ok (h.run_disconnect id), ih (h.disconnect id),
      disconnect_snd, List.filter_filter]
    simp only [List.mem_cons, not_or, Bool.decide_and, Bool.and_comm]

/-- The links that are left where a slot has gone. -/
theorem WellFormed.filter_not_mem_linksAt (h : w.WellFormed) (id : SlotId) :
    w.links.filter (·.id ∉ (w.linksAt id).map Link.id) =
      w.links.filter fun link => !decide (link.source = id) && !decide (link.target = id) := by
  refine List.filter_congr fun link hl => ?_
  have hiff : link.id ∈ (w.linksAt id).map Link.id ↔ link.touches id = true := by
    constructor
    · intro hm
      obtain ⟨other, ho, hid⟩ := List.mem_map.mp hm
      obtain ⟨hmem, htouch⟩ := List.mem_filter.mp ho
      rwa [← List.inj_on_of_nodup_map h.linkIds hmem hl hid]
    · exact fun htouch => List.mem_map_of_mem (List.mem_filter.mpr ⟨hl, htouch⟩)
  simp only [decide_not, hiff, Link.touches, Bool.decide_eq_true, Bool.not_or]

theorem WellFormed.run_removeSlot (h : w.WellFormed) (id : SlotId) :
    (Arena.removeSlot id).run w.arena = some (w.outcome ((w.removeSlot id).map ((), ·))) := by
  cases ho : w.ownedSlot? id with
  | none =>
    rw [Arena.removeSlot, run_requireSlot_bind_none (slots_arena_eq_none ho), Workflow.removeSlot,
      getOwnedSlot_eq_error ho]
    rfl
  | some owned =>
    obtain ⟨howner, hslot, rfl⟩ := mem_of_ownedSlot? ho
    have hw := removeSlot_eq_ok.mpr ⟨⟨owned, getOwnedSlot_eq_ok.mpr ho⟩, rfl⟩
    have h' := h.removeSlot hw
    rw [dropSlots_singleton] at hw h'
    -- the links go first, and then the slot without links
    have hunlinked := h.filterLinks fun link =>
      !decide (link.source = owned.slot.id) && !decide (link.target = owned.slot.id)
    rw [hw, Arena.removeSlot, run_requireSlot_bind (slots_arena_of_ownedSlot? ho),
      run_bind_ok (h.run_disconnectAll _), h.filter_not_mem_linksAt, run_modify_bind, run_modify]
    exact congrArg (fun a => some (Except.ok (), a))
      (hunlinked.arena_dropSlot howner hslot h').symm

/-- Slots that go are taken off the list of their block. -/
theorem WellFormed.blocks_arena_dropSlots (h : w.WellFormed) (ids : List SlotId) (id : BlockId) :
    (w.dropSlots ids).arena.blocks id = (w.arena.blocks id).map fun row =>
      { row with slots := row.slots.filter (· ∉ ids) } := by
  have hplaced : (w.dropSlots ids).placed = w.placed.map fun p =>
      { p with block := { p.block with slots := p.block.slots.filter (·.id ∉ ids) } } :=
    placed_mapBlocks (f := fun block => { block with slots := block.slots.filter (·.id ∉ ids) })
      fun _ => rfl
  rw [(h.dropSlots ids).blocks_arena, h.blocks_arena, hplaced]
  dsimp only
  rw [tableOf_map Placed.id (f := fun p => { p with block :=
    { p.block with slots := p.block.slots.filter (·.id ∉ ids) } }) fun _ => rfl, Option.map_map,
    Option.map_map]
  congr 1
  funext p
  have hids : (p.block.slots.filter (·.id ∉ ids)).map Slot.id =
      (p.block.slots.map Slot.id).filter (· ∉ ids) := by
    rw [List.filter_map]
    rfl
  exact congrArg (fun slots => { p.row with slots := slots }) hids

theorem WellFormed.slotsOf_dropSlots (h : w.WellFormed) (ids : List SlotId) (id : BlockId) :
    (w.dropSlots ids).arena.slotsOf id = (w.arena.slotsOf id).filter (· ∉ ids) := by
  rw [Arena.slotsOf, h.blocks_arena_dropSlots, Arena.slotsOf]
  cases w.arena.blocks id <;> rfl

/-- The programs that remove slots one by one do not stop before the end. -/
theorem WellFormed.run_removeSlots (h : w.WellFormed) {ids : List SlotId} (hids : ids.Nodup)
    (hmem : ids ⊆ w.slots.map Slot.id) :
    (Arena.removeSlots ids).run w.arena = some (.ok (), (w.dropSlots ids).arena) := by
  induction ids generalizing w with
  | nil =>
    have hsame : w.dropSlots [] = w := by
      have hlinks : w.links.filter (fun _ => true) = w.links := List.filter_eq_self.mpr fun _ _ => rfl
      have hblocks : (w.mapBlocks fun block => { block with slots := block.slots.filter (·.id ∉ []) }) =
          w := mapBlocks_eq_self fun block _ => by simp
      rw [Workflow.dropSlots, hblocks, Workflow.dropLinksOf]
      simp
    rw [hsame]
    rfl
  | cons id ids ih =>
    obtain ⟨hid, hnodup⟩ := List.nodup_cons.mp hids
    obtain ⟨slot, hslot, rfl⟩ := List.mem_map.mp (hmem List.mem_cons_self)
    obtain ⟨block, hb, hs⟩ := mem_slots.mp hslot
    have howned : w.ownedSlot? slot.id = some ⟨block, slot⟩ :=
      h.ownedSlot?_eq_some.mpr ⟨hb, hs, rfl⟩
    have hw : w.removeSlot slot.id = .ok (w.dropSlots [slot.id]) :=
      removeSlot_eq_ok.mpr ⟨⟨_, getOwnedSlot_eq_ok.mpr howned⟩, rfl⟩
    have hstep := h.run_removeSlot slot.id
    rw [hw] at hstep
    have hrest : ids ⊆ (w.dropSlots [slot.id]).slots.map Slot.id := by
      intro other ho
      obtain ⟨s, hs, rfl⟩ := List.mem_map.mp (hmem (List.mem_cons_of_mem _ ho))
      rw [slots_dropSlots]
      refine List.mem_map_of_mem (List.mem_filter.mpr ⟨hs, ?_⟩)
      have hne : s.id ≠ slot.id := fun heq => hid (heq ▸ ho)
      simpa using hne
    have happend : w.dropSlots (slot.id :: ids) = (w.dropSlots [slot.id]).dropSlots ids :=
      dropSlots_append [slot.id] ids
    rw [Arena.removeSlots, run_bind_ok hstep, ih (h.dropSlots _) hnodup hrest, happend]

theorem WellFormed.run_removeSlotsOf (h : w.WellFormed) {ids : List BlockId}
    (hids : (ids.flatMap w.arena.slotsOf).Nodup)
    (hmem : ids.flatMap w.arena.slotsOf ⊆ w.slots.map Slot.id) :
    (Arena.removeSlotsOf ids).run w.arena =
      some (.ok (), (w.dropSlots (ids.flatMap w.arena.slotsOf)).arena) := by
  induction ids generalizing w with
  | nil => exact h.run_removeSlots List.nodup_nil (List.nil_subset _)
  | cons id ids ih =>
    rw [List.flatMap_cons, List.nodup_append] at hids
    obtain ⟨hfirst, hrest, hdis⟩ := hids
    rw [List.flatMap_cons, List.append_subset] at hmem
    -- the blocks that follow keep their slots
    have hkeep : ids.flatMap (w.dropSlots (w.arena.slotsOf id)).arena.slotsOf =
        ids.flatMap w.arena.slotsOf := by
      refine List.flatMap_congr fun other ho => ?_
      rw [h.slotsOf_dropSlots, List.filter_eq_self]
      intro slot hs
      simp only [decide_eq_true_eq]
      exact fun hm => hdis slot hm slot (List.mem_flatMap.mpr ⟨other, ho, hs⟩) rfl
    rw [Arena.removeSlotsOf, run_get_bind, run_bind_ok (h.run_removeSlots hfirst hmem.1),
      ih (h.dropSlots _), hkeep, List.flatMap_cons, dropSlots_append]
    · rwa [hkeep]
    · rw [hkeep, slots_dropSlots]
      intro slot hs
      obtain ⟨s, hs', rfl⟩ := List.mem_map.mp (hmem.2 hs)
      refine List.mem_map_of_mem (List.mem_filter.mpr ⟨hs', ?_⟩)
      simp only [decide_eq_true_eq]
      exact fun hm => hdis _ hm _ hs rfl

-- ---------------------------------------------------------------------------
-- Removing and moving blocks
-- ---------------------------------------------------------------------------

theorem getSubtree_eq_error {id : BlockId} (h : w.block? id = none) :
    w.getSubtree id = .error (.blockNotFound id) := by
  rw [getSubtree, Option.map_eq_none_iff.mp h]

/-- The slots that the table lists for the blocks of a subtree. -/
theorem WellFormed.flatMap_slotsOf_arena (h : w.WellFormed) {id : BlockId} {block : Block}
    {below : Forest Block} (hfind : w.subtree? id = some (block, below)) :
    (id :: below.ids).flatMap w.arena.slotsOf = slotsWithin block below ∧
      (Forest.tree block below).toList ⊆ w.blocks := by
  have hmem := mem_subtrees_of_subtree? hfind
  have hsub : (Forest.tree block below).toList ⊆ w.blocks := by
    rw [Forest.toList_tree]
    exact (Forest.toList_sublist_of_mem_subtrees hmem).subset
  obtain ⟨-, rfl⟩ := mem_of_subtree? hfind
  refine ⟨?_, hsub⟩
  have hids : block.id :: below.ids = (Forest.tree block below).toList.map Block.id := by
    rw [Forest.toList_tree]
    rfl
  rw [hids, List.flatMap_map, slotsWithin]
  exact List.flatMap_congr fun b hb => h.slotsOf_arena (hsub hb)

/-- What is left of a subtree whose slots have gone. -/
theorem WellFormed.removed_eq (h : w.WellFormed) {id : BlockId} {block : Block}
    {below : Forest Block} (hroot : id ≠ w.root.id) (hfind : w.subtree? id = some (block, below)) :
    { w.dropSlots (slotsWithin block below) with
        body := (w.dropSlots (slotsWithin block below)).body.prune (·.id = id) } =
      { w with body := w.body.prune (·.id = id) }.dropLinksOf
        ((slotsWithin block below).contains ·) := by
  let strip := fun b : Block =>
    { b with slots := b.slots.filter (·.id ∉ slotsWithin block below) }
  -- the blocks that stay have none of the slots
  have hkeep : ∀ b ∈ { w with body := w.body.prune (·.id = id) }.blocks, strip b = b := by
    intro b hb
    have hperm := perm_blocks_prune h.blocks.ids hroot hfind
    have hslots : b.slots.filter (·.id ∉ slotsWithin block below) = b.slots := by
      rw [List.filter_eq_self]
      intro slot hs
      simp only [decide_eq_true_eq]
      intro hgone
      obtain ⟨c, hc, ht⟩ := List.mem_flatMap.mp hgone
      obtain ⟨t, ht, htid⟩ := List.mem_map.mp ht
      have hids := (hperm.map Block.id).nodup_iff.mp h.blocks.ids
      rw [List.map_append, List.nodup_append] at hids
      have heq := (h.slot_ext (hperm.mem_iff.mpr (List.mem_append_left _ hb))
        (hperm.mem_iff.mpr (List.mem_append_right _ hc)) hs ht htid.symm).1
      exact hids.2.2 _ (List.mem_map_of_mem hb) _ (List.mem_map_of_mem hc) (congrArg Block.id heq)
    dsimp only [strip]
    rw [hslots]
  have hsame := mapBlocks_eq_self hkeep
  have hprune : (w.body.map strip).prune (·.id = id) = (w.body.prune (·.id = id)).map strip :=
    Forest.prune_map (fun _ => rfl) _
  show { w with
    root := strip w.root
    body := (w.body.map strip).prune (·.id = id)
    links := _ } = _
  rw [hprune]
  exact congrArg (Workflow.dropLinksOf ((slotsWithin block below).contains ·)) hsame

/-- The slots of a block and of those below it are removed without a refusal. -/
theorem WellFormed.run_removeSlotsOf_subtree (h : w.WellFormed) {id : BlockId} {block : Block}
    {below : Forest Block} (hroot : id ≠ w.root.id) (hfind : w.subtree? id = some (block, below)) :
    (Arena.removeSlotsOf (id :: below.ids)).run w.arena =
      some (.ok (), (w.dropSlots (slotsWithin block below)).arena) := by
  obtain ⟨hslots, hsub⟩ := h.flatMap_slotsOf_arena hfind
  have hnodup : (slotsWithin block below).Nodup := by
    have hids := (h.blocks.perm (perm_blocks_prune h.blocks.ids hroot hfind).symm).slotIds
    rw [List.flatMap_append, List.map_append, List.map_flatMap, List.map_flatMap] at hids
    exact hids.of_append_right
  have hmem : slotsWithin block below ⊆ w.slots.map Slot.id := by
    intro slotId hs
    obtain ⟨b, hb, hs⟩ := List.mem_flatMap.mp hs
    obtain ⟨slot, hslot, rfl⟩ := List.mem_map.mp hs
    exact List.mem_map_of_mem (mem_slots.mpr ⟨b, hsub hb, hslot⟩)
  have hrun := h.run_removeSlotsOf (hslots ▸ hnodup) (hslots ▸ hmem)
  rwa [hslots] at hrun

/-- A block whose slots have gone goes with everything below it. -/
theorem WellFormed.arena_removeBlock (h : w.WellFormed) {id : BlockId}
    (hw : w.removeBlock id = .ok w') {block : Block} {below : Forest Block}
    (hfind : w.subtree? id = some (block, below)) {row : BlockRow}
    (hrow : w.arena.blocks id = some row) :
    w'.arena = ((w.dropSlots (slotsWithin block below)).arena.eraseBlocks
      (id :: below.ids)).dropChild row.parent id := by
  have h' := h.removeBlock hw
  obtain ⟨hroot, _, _, hfind', rfl⟩ := removeBlock_eq_ok.mp hw
  cases hfind.symm.trans hfind'
  let strip := fun b : Block =>
    { b with slots := b.slots.filter (·.id ∉ slotsWithin block below) }
  have hstripped : (w.dropSlots (slotsWithin block below)).subtree? id =
      some (strip block, below.map strip) := by
    have hmap := subtree?_mapBlocks (w := w) (g := strip) (fun _ => rfl) id
    rw [hfind] at hmap
    exact hmap
  have hempty : ∀ b ∈ (Forest.tree (strip block) (below.map strip)).toList, b.slots = [] := by
    have htree : (Forest.tree (strip block) (below.map strip)).toList =
        (Forest.tree block below).toList.map strip := by
      rw [Forest.toList_tree, Forest.toList_tree, Forest.toList_map, List.map_cons]
    rw [htree]
    intro b hb
    obtain ⟨c, hc, rfl⟩ := List.mem_map.mp hb
    refine List.filter_eq_nil_iff.mpr fun slot hs => ?_
    have hgone : slot.id ∈ slotsWithin block below :=
      List.mem_flatMap.mpr ⟨c, hc, List.mem_map_of_mem hs⟩
    simpa using hgone
  have hstripRow := h.blocks_arena_dropSlots (slotsWithin block below) id
  rw [hrow] at hstripRow
  have hids : (below.map strip).ids = below.ids := by
    rw [Forest.ids, Forest.toList_map, List.map_map]
    rfl
  rw [← h.removed_eq hroot hfind] at h' ⊢
  rw [(h.dropSlots _).arena_prune hroot hstripped hstripRow hempty h', hids]

theorem WellFormed.run_removeBlock (h : w.WellFormed) (id : BlockId) :
    (Arena.removeBlock id).run w.arena = some (w.outcome ((w.removeBlock id).map ((), ·))) := by
  by_cases hroot : id = w.root.id
  · rw [Arena.removeBlock, run_get_bind, run_ite, if_pos (show id = w.arena.root from hroot),
      Workflow.removeBlock, if_pos hroot]
    rfl
  · cases hfind : w.subtree? id with
    | none =>
      have hb : w.block? id = none := Option.map_eq_none_iff.mpr hfind
      rw [Arena.removeBlock, run_get_bind, run_ite, if_neg (show ¬id = w.arena.root from hroot),
        run_requireBlock_bind_none (blocks_arena_eq_none hb), Workflow.removeBlock, if_neg hroot,
        getSubtree_eq_error hb]
      rfl
    | some found =>
      obtain ⟨block, below⟩ := found
      have hb : w.block? id = some block := Option.map_eq_some_iff.mpr ⟨_, hfind, rfl⟩
      obtain ⟨row, hrow, -⟩ := blocks_arena_of_block? hb
      have hw := removeBlock_eq_ok.mpr ⟨hroot, block, below, hfind, rfl⟩
      rw [Arena.removeBlock, run_get_bind, run_ite, if_neg (show ¬id = w.arena.root from hroot),
        run_requireBlock_bind hrow, run_expect_bind (h.descendants?_arena hfind),
        run_bind_ok (h.run_removeSlotsOf_subtree hroot hfind), run_modify_bind, run_modify,
        ← h.arena_removeBlock hw hfind hrow, hw]
      rfl

theorem WellFormed.run_moveBlock (h : w.WellFormed) (id parent : BlockId) (index : Nat) :
    (Arena.moveBlock id parent index).run w.arena =
      some (w.outcome ((w.moveBlock id parent index).map ((), ·))) := by
  by_cases hroot : id = w.root.id
  · rw [Arena.moveBlock, run_get_bind, run_ite, if_pos (show id = w.arena.root from hroot),
      Workflow.moveBlock, if_pos hroot]
    rfl
  · rw [Arena.moveBlock, run_get_bind, run_ite, if_neg (show ¬id = w.arena.root from hroot)]
    cases hfind : w.subtree? id with
    | none =>
      have hb : w.block? id = none := Option.map_eq_none_iff.mpr hfind
      rw [run_requireBlock_bind_none (blocks_arena_eq_none hb), Workflow.moveBlock, if_neg hroot,
        getSubtree_eq_error hb]
      rfl
    | some found =>
      obtain ⟨block, below⟩ := found
      have hb : w.block? id = some block := Option.map_eq_some_iff.mpr ⟨_, hfind, rfl⟩
      have hget := getSubtree_eq_ok.mpr hfind
      obtain ⟨row, hrow, hname, -⟩ := blocks_arena_of_block? hb
      rw [run_requireBlock_bind hrow]
      cases hc : w.block? parent with
      | none =>
        rw [run_requireBlock_bind_none (blocks_arena_eq_none hc), Workflow.moveBlock, if_neg hroot,
          hget, getContainer, getBlock_eq_error hc]
        rfl
      | some container =>
        obtain ⟨parentRow, hparentRow, hparentName, hparentKind, -⟩ := blocks_arena_of_block? hc
        have htree : w.getContainer parent =
            if container.kind.isContainer then .ok container
            else .error (.notAContainer container.name) := by
          rw [getContainer, getBlock_eq_ok.mpr hc]
          rfl
        rw [run_requireBlock_bind hparentRow, run_ite, hparentKind, hparentName]
        cases hkind : container.kind.isContainer with
        | false =>
          rw [hkind] at htree
          rw [Workflow.moveBlock, if_neg hroot, hget, htree]
          rfl
        | true =>
          rw [hkind] at htree
          have hcyclic : parent ∈ (Forest.tree block below).ids ↔
              parent = id ∨ parent ∈ below.ids := by
            rw [Forest.tree, Forest.ids_node, (mem_of_subtree? hfind).2, Forest.ids_nil,
              List.append_nil, List.mem_cons]
          have hnext : ¬(!true) = true := by simp
          rw [if_neg hnext, run_expect_bind (h.descendants?_arena hfind), run_ite]
          by_cases hcycle : parent = id ∨ parent ∈ below.ids
          · have hany : (Forest.tree block below).toList.any (·.id = parent) = true := by
              obtain ⟨b, hmem, hid⟩ := List.mem_map.mp (hcyclic.mpr hcycle)
              exact List.any_eq_true.mpr ⟨b, hmem, decide_eq_true hid⟩
            have hw : w.moveBlock id parent index = .error (.cyclicMove block.name) := by
              rw [Workflow.moveBlock, if_neg hroot, hget, htree]
              exact if_pos hany
            rw [if_pos hcycle, hw, hname]
            rfl
          · have hw : w.moveBlock id parent index =
                .ok ({ w with body := w.body.prune (·.id = id) }.modifyBelow parent
                  (Forest.insertAt block below index)) :=
              moveBlock_eq_ok.mpr
                ⟨hroot, block, below, hfind, ⟨_, htree⟩, fun hm => hcycle (hcyclic.mp hm), rfl⟩
            rw [if_neg hcycle, hw, run_modify_bind, run_modify_bind, run_modify,
              ← h.arena_move hw hrow]
            rfl

-- ---------------------------------------------------------------------------
-- New links
-- ---------------------------------------------------------------------------

/-- The links that a slot lists are those that touch it. -/
theorem WellFormed.any_joins_arena (h : w.WellFormed) (x y : SlotId) :
    (((w.linksAt x).map Link.id).filterMap w.arena.links).any (·.joins x y) =
      w.links.any (·.joins x y) := by
  have hlinks : ((w.linksAt x).map Link.id).filterMap w.arena.links = w.linksAt x := by
    rw [List.filterMap_map]
    have hfind : ∀ link ∈ w.linksAt x, (w.arena.links ∘ Link.id) link = some link :=
      fun link hl => h.links_arena_eq_some.mpr ⟨List.mem_of_mem_filter hl, rfl⟩
    rw [List.filterMap_congr hfind, List.filterMap_some]
  rw [hlinks, linksAt, List.any_filter]
  congr 1
  funext link
  simp only [Link.touches, Link.joins]
  by_cases hs : link.source = x <;> by_cases ht : link.target = x <;> simp [hs, ht]

theorem isFull_arena (w : Workflow μ) (slot : Slot) (owner : BlockId) :
    Arena.isFull ⟨slot, owner, (w.linksAt slot.id).map Link.id⟩ = w.isFull slot := by
  unfold Arena.isFull isFull
  dsimp only
  cases slot.maxLinks with
  | none => rfl
  | some most => exact congrArg (fun n => decide (most ≤ n)) (List.length_map _)

theorem connection_eq (w : Workflow μ) (a b : Slot) :
    w.connection a b =
      if a.id = b.id then .error (.selfConnection a.name)
      else if a.direction = b.direction then .error (.sameDirection a.name b.name a.direction)
      else if !a.compatible b then .error (.typeMismatch a.name a.type b.name b.type)
      else if w.links.any (·.joins a.id b.id) then .error (.alreadyConnected a.name b.name)
      else if w.isFull a then .error (.capacityExceeded a.name)
      else if w.isFull b then .error (.capacityExceeded b.name)
      else match a.direction with
        | .output => .ok ⟨a.id, b.id, adoptedType? a b⟩
        | .input => .ok ⟨b.id, a.id, adoptedType? a b⟩ :=
  rfl

/-- A request to link two slots is decided alike. -/
theorem WellFormed.run_plan (h : w.WellFormed) {a b : OwnedSlot} {x y : SlotId}
    (ha : w.ownedSlot? x = some a) (hb : w.ownedSlot? y = some b) :
    (Arena.plan x y).run w.arena = some (w.connection a.slot b.slot, w.arena) := by
  obtain ⟨-, -, rfl⟩ := mem_of_ownedSlot? ha
  obtain ⟨-, -, rfl⟩ := mem_of_ownedSlot? hb
  rw [Arena.plan, run_requireSlot_bind (slots_arena_of_ownedSlot? ha),
    run_requireSlot_bind (slots_arena_of_ownedSlot? hb), run_get_bind, connection_eq]
  dsimp only
  rw [h.any_joins_arena, isFull_arena, isFull_arena]
  simp only [run_ite, run_throw_bind]
  split
  · rfl
  · split
    · rfl
    · split
      · rfl
      · split
        · rfl
        · split
          · rfl
          · split
            · rfl
            · cases a.slot.direction <;> rfl

/-- The slot that takes on a type has a row. -/
theorem WellFormed.arena_adopt (h : w.WellFormed) (adopts : Option (SlotId × SlotType))
    (h' : (w.adopt adopts).WellFormed) : (w.adopt adopts).arena = w.arena.adopt adopts := by
  cases adopts with
  | none => rfl
  | some adopted => exact h.arena_modifySlot adopted.1 (fun _ => rfl) h'

theorem WellFormed.run_connect (h : w.WellFormed) (x y : SlotId) (uid : Option String) :
    (Arena.connect x y uid).run w.arena = some (w.outcome (w.connect x y uid)) := by
  cases ha : w.ownedSlot? x with
  | none =>
    have hplan : (Arena.plan x y).run w.arena = some (.error (.slotNotFound x), w.arena) := by
      rw [Arena.plan, run_requireSlot_bind_none (slots_arena_eq_none ha)]
    rw [Arena.connect, run_bind_error hplan, Workflow.connect, getOwnedSlot_eq_error ha]
    rfl
  | some a =>
    have hgetA := getOwnedSlot_eq_ok.mpr ha
    cases hb : w.ownedSlot? y with
    | none =>
      have hplan : (Arena.plan x y).run w.arena = some (.error (.slotNotFound y), w.arena) := by
        rw [Arena.plan, run_requireSlot_bind (slots_arena_of_ownedSlot? ha),
          run_requireSlot_bind_none (slots_arena_eq_none hb)]
      rw [Arena.connect, run_bind_error hplan, Workflow.connect, hgetA, getOwnedSlot_eq_error hb]
      rfl
    | some b =>
      have hgetB := getOwnedSlot_eq_ok.mpr hb
      have hplan := h.run_plan ha hb
      cases hc : w.connection a.slot b.slot with
      | error error =>
        rw [hc] at hplan
        rw [Arena.connect, run_bind_error hplan, Workflow.connect, hgetA, hgetB]
        show _ = some (w.outcome (w.connection a.slot b.slot >>= _))
        rw [hc]
        rfl
      | ok plan =>
        rw [hc] at hplan
        have hw : w.connect x y uid = .ok (⟨w.nextId⟩, w.addLink plan uid) :=
          connect_eq_ok.mpr ⟨a, b, plan, hgetA, hgetB, hc, rfl⟩
        rw [hw]
        obtain ⟨hownerA, hslotA, -⟩ := mem_of_ownedSlot? ha
        obtain ⟨hownerB, hslotB, -⟩ := mem_of_ownedSlot? hb
        obtain ⟨hne, -⟩ := connection_eq_ok.mp hc
        obtain ⟨source, target, hends, -, -, -, rfl⟩ := ends_of_connection hc
        have hdistinct : source.id ≠ target.id := by
          rcases hends with ⟨rfl, rfl⟩ | ⟨rfl, rfl⟩
          · exact hne
          · exact hne.symm
        let adopts := adoptedType? a.slot b.slot
        have hadopt := h.arena_adopt adopts
          (h.adopt (mem_slots.mpr ⟨_, hownerA, hslotA⟩) (mem_slots.mpr ⟨_, hownerB, hslotB⟩))
        let link : Link :=
          ⟨⟨w.nextId⟩, uid.getD (freshUid w.uidStem w.nextId), source.id, target.id⟩
        have hfresh : ∀ other ∈ (w.adopt adopts).links, other.id ≠ link.id := by
          intro other ho heq
          rw [links_adopt] at ho
          have hlt := h.links.idBound other ho
          rw [heq] at hlt
          exact Nat.lt_irrefl _ hlt
        have hlink := arena_appendLink hfresh hdistinct (w.nextId + 1)
        rw [links_adopt, hadopt] at hlink
        have hnext : (w.arena.adopt adopts).nextId = w.nextId := by
          rw [← hadopt]
          exact nextId_adopt adopts
        have hstem : (w.arena.adopt adopts).uidStem = w.uidStem := by
          cases adopts <;> rfl
        rw [Arena.connect, run_bind_ok hplan, run_modify_bind, run_allocate_bind, run_get_bind,
          run_modify_bind, run_modify_bind, run_modify_bind, run_pure]
        dsimp only at hlink ⊢
        rw [hstem] at hlink
        rw [hnext, hstem]
        exact congrArg (fun a => some (Except.ok _, a)) hlink.symm

/-- The first of the links that join two slots is found on the list of either. -/
theorem WellFormed.find?_joins_arena (h : w.WellFormed) (x y : SlotId) :
    ((w.arena.slots x).bind fun row =>
        row.links.find? fun id => (w.arena.links id).any (·.joins x y)) =
      (w.links.find? (·.joins x y)).map Link.id := by
  have htouch : ∀ link : Link, link.joins x y = true → link.touches x = true := by
    intro link hj
    simp only [Link.joins, Bool.or_eq_true, Bool.and_eq_true, decide_eq_true_eq] at hj
    rcases hj with ⟨hx, -⟩ | ⟨-, hx⟩ <;> simp [Link.touches, hx]
  cases ho : w.ownedSlot? x with
  | none =>
    have hnone : w.links.find? (·.joins x y) = none := by
      rw [List.find?_eq_none]
      intro link hl hj
      have hend : ∃ slot ∈ w.slots, slot.id = x := by
        have htouches := htouch link hj
        rw [Link.touches, Bool.or_eq_true, decide_eq_true_eq, decide_eq_true_eq] at htouches
        rcases htouches with rfl | rfl
        · exact (h.links.source link hl).imp fun _ hs => ⟨hs.1, hs.2.1⟩
        · exact (h.links.target link hl).imp fun _ hs => ⟨hs.1, hs.2.1⟩
      obtain ⟨slot, hslot, hid⟩ := hend
      obtain ⟨block, hb, hs⟩ := mem_slots.mp hslot
      have hfound : w.ownedSlot? x = some ⟨block, slot⟩ :=
        h.ownedSlot?_eq_some.mpr ⟨hb, hs, hid⟩
      rw [ho] at hfound
      cases hfound
    rw [slots_arena_eq_none ho, hnone]
    rfl
  | some owned =>
    have hread : ∀ link ∈ w.linksAt x,
        (w.arena.links link.id).any (·.joins x y) = link.joins x y := by
      intro link hl
      rw [h.links_arena_eq_some.mpr ⟨List.mem_of_mem_filter hl, rfl⟩]
      rfl
    rw [slots_arena_of_ownedSlot? ho, Option.bind_some, List.find?_map]
    refine congrArg (Option.map Link.id) ((List.find?_congr hread).trans ?_)
    rw [linksAt, List.find?_filter]
    refine List.find?_congr fun link _ => ?_
    cases hj : link.joins x y with
    | false => simp
    | true => simp [htouch link hj]

theorem WellFormed.run_disconnectSlots (h : w.WellFormed) (x y : SlotId) :
    (Arena.disconnectSlots x y).run w.arena =
      some (.ok (w.disconnectSlots x y).1, (w.disconnectSlots x y).2.arena) := by
  rw [Arena.disconnectSlots, run_get_bind, h.find?_joins_arena, Workflow.disconnectSlots]
  cases w.links.find? (·.joins x y) with
  | none => rfl
  | some link => exact h.run_disconnect link.id

-- ---------------------------------------------------------------------------
-- All edits
-- ---------------------------------------------------------------------------

/-- A program that is followed by its answer. -/
theorem run_bind_outcome {β : Type} {program : Arena.Program μ α}
    {result : Except EditError (α × Workflow μ)} (answer : α → β)
    (hrun : program.run w.arena = some (w.outcome result)) :
    (program >>= fun v => pure (answer v)).run w.arena =
      some (w.outcome (result.map fun added => (answer added.1, added.2))) := by
  cases result with
  | error error => exact run_bind_error hrun
  | ok added => exact run_bind_ok hrun

/-- A program that has nothing to answer. -/
theorem run_bind_done {program : Arena.Program μ Unit} {result : Except EditError (Workflow μ)}
    (hrun : program.run w.arena = some (w.outcome (result.map ((), ·)))) :
    (program >>= fun _ => pure Answer.done).run w.arena =
      some (w.outcome (result.map (Answer.done, ·))) := by
  cases result with
  | error error => exact run_bind_error hrun
  | ok changed => exact run_bind_ok hrun

/-- The name of a workflow is that of its root. -/
theorem WellFormed.arena_setName (h : w.WellFormed) (name : String) :
    (w.setName name).arena = { w.arena with name := name }.modifyBlock w.arena.root fun row =>
      { row with name := name } := by
  have hroot := h.arena_modifyBlock w.root.id (f := fun block => { block with name := name })
    (g := fun row => { row with name := name }) (fun _ => rfl) (fun _ => rfl) fun _ => rfl
  have hbody : w.body.map (fun block =>
      if block.id = w.root.id then { block with name := name } else block) = w.body := by
    refine Forest.map_eq_self fun block hb => if_neg ?_
    intro hid
    have hids := h.blocks.ids
    rw [Workflow.blocks, tree, Forest.toList_tree, List.map_cons, List.nodup_cons] at hids
    exact hids.1 (hid ▸ List.mem_map_of_mem hb)
  have hset : w.setName name = { w.modifyBlock w.root.id fun block =>
      { block with name := name } with name := name } := by
    dsimp only [Workflow.modifyBlock, Workflow.mapBlocks]
    rw [hbody, if_pos rfl]
    rfl
  rw [hset]
  exact congrArg (fun a : Arena μ => { a with name := name }) hroot

/-- The program of an edit answers what the edit answers, and leaves the tables of the workflow that
the edit gives. If the edit is refused, these are the old ones. -/
theorem WellFormed.run_perform (h : w.WellFormed) (edit : Edit μ) :
    (Arena.perform edit).run w.arena = some (w.outcome (w.perform edit)) := by
  cases edit with
  | addBlock parent kind uid =>
    exact run_bind_outcome Answer.block (h.run_insertBlock parent kind uid)
  | addModel parent setup uid =>
    exact run_bind_outcome Answer.block (h.run_insertModel parent setup uid)
  | addSlot owner request => exact run_bind_outcome Answer.slot (h.run_addSlot owner request)
  | renameSlot slot name => exact run_bind_done (h.run_renameSlot slot name)
  | removeSlot slot => exact run_bind_done (h.run_removeSlot slot)
  | removeBlock block => exact run_bind_done (h.run_removeBlock block)
  | moveBlock block parent index => exact run_bind_done (h.run_moveBlock block parent index)
  | connect a b uid => exact run_bind_outcome Answer.link (h.run_connect a b uid)
  | disconnect link => exact run_bind_ok (h.run_disconnect link)
  | disconnectSlots a b => exact run_bind_ok (h.run_disconnectSlots a b)
  | setName name =>
    rw [Arena.perform, run_modify_bind, run_pure, ← h.arena_setName]
    rfl
  | setBlockName block name =>
    rw [Arena.perform, run_modify_bind, run_pure,
      ← h.arena_modifyBlock block (f := fun block => { block with name := name })
        (fun _ => rfl) (fun _ => rfl) fun _ => rfl]
    rfl
  | setBlockKind block kind =>
    rw [Arena.perform, run_modify_bind, run_pure,
      ← h.arena_modifyBlock block (f := fun block => { block with kind := kind })
        (fun _ => rfl) (fun _ => rfl) fun _ => rfl]
    rfl
  | register modelClass => rfl

end Workflow

end SlotFlow
