import SlotFlow.Proofs.Graph.History
import SlotFlow.Proofs.Naming.Unnamed
/-!
# Slots over a history

A slot stays what it was made as for as long as it exists: it keeps its block, its kind, whether it may be
left open and the type of its objects. It goes by another name only if it is renamed. Its type is written
once at most: a slot on the border that was made without a type takes on that of the slot it is linked
with, and such a link gives a type to no other slot.

* `OwnedSlot.Alike` — one slot at two moments;
* `Workflow.Grants` — an event is an edit, and the edit is granted;
* `OwnedSlot.Follows` — a slot before and after one event;
* `OwnedSlot.Lasts` — a slot before and after many events;
* `Workflow.Retypes` — an event that gives a slot another type;
* `Workflow.TypesWriteOnce` — what holds of slots over all histories.

## Results

* `Workflow.Reachable.follows_happen` — what one event does to a slot;
* `Workflow.Reachable.lasts_after` — what a history does to a slot;
* `Workflow.Reachable.typesWriteOnce` — types are written once.
-/

namespace SlotFlow

-- ---------------------------------------------------------------------------
-- A slot at two moments
-- ---------------------------------------------------------------------------

/-- One slot at two moments: what it was made as has stayed. -/
structure OwnedSlot.Alike (old later : OwnedSlot) : Prop where
  id : later.slot.id = old.slot.id
  owner : later.owner.id = old.owner.id
  kind : later.slot.kind = old.slot.kind
  optional : later.slot.optional = old.slot.optional
  objectType : later.slot.objectType = old.slot.objectType

/-- An event is an edit, and the edit is granted. -/
def Workflow.Grants {μ : Type} (w : Workflow μ) (event : Happening μ) (edit : Edit μ) : Prop :=
  event = .edit edit ∧ ∃ answer, w.perform edit = .ok (answer, w.happen event)

/-- A slot before and after one event. -/
structure OwnedSlot.Follows {μ : Type} (w : Workflow μ) (event : Happening μ) (old later : OwnedSlot) :
    Prop extends old.Alike later where
  name : later.slot.name = old.slot.name ∨
    event = .edit (.renameSlot old.slot.id later.slot.name)
  type : later.slot.type = old.slot.type ∨
    ∃ edit, w.Grants event edit ∧ w.Adopts edit old.slot later.slot.type

/-- A slot before and after many events. -/
structure OwnedSlot.Lasts {μ : Type} (events : List (Happening μ)) (old later : OwnedSlot) :
    Prop extends old.Alike later where
  name : later.slot.name = old.slot.name ∨
    .edit (.renameSlot old.slot.id later.slot.name) ∈ events
  type : later.slot.type = old.slot.type ∨ old.slot.external = true ∧ old.slot.type = .unknown

namespace OwnedSlot

variable {μ : Type} {w : Workflow μ} {event : Happening μ} {events : List (Happening μ)}
  {old reached later : OwnedSlot}

theorem Alike.refl (old : OwnedSlot) : old.Alike old := ⟨rfl, rfl, rfl, rfl, rfl⟩

theorem Alike.trans (h : old.Alike reached) (h' : reached.Alike later) : old.Alike later where
  id := h'.id.trans h.id
  owner := h'.owner.trans h.owner
  kind := h'.kind.trans h.kind
  optional := h'.optional.trans h.optional
  objectType := h'.objectType.trans h.objectType

theorem Alike.external (h : old.Alike later) : later.slot.external = old.slot.external := by
  rw [Slot.external, Slot.external, h.kind]

/-- Slots that differ in their identifiers only. -/
theorem Alike.of_unnamed (h : old.unnamed = later.unnamed) : old.Alike later := by
  have howner : old.owner.unnamed = later.owner.unnamed := congrArg OwnedSlot.owner h
  have hslot : old.slot.unnamed = later.slot.unnamed := congrArg OwnedSlot.slot h
  constructor
  · exact (Slot.id_of_unnamed hslot).symm
  · exact (Block.id_of_unnamed howner).symm
  · exact (Slot.kind_of_unnamed hslot).symm
  · exact show later.slot.unnamed.optional = old.slot.unnamed.optional from hslot ▸ rfl
  · exact show later.slot.unnamed.objectType = old.slot.unnamed.objectType from hslot ▸ rfl

theorem Follows.refl (old : OwnedSlot) : Follows w event old old :=
  ⟨.refl old, .inl rfl, .inl rfl⟩

theorem Follows.of_unnamed (h : old.unnamed = later.unnamed) : Follows w event old later := by
  have hslot : old.slot.unnamed = later.slot.unnamed := congrArg OwnedSlot.slot h
  refine ⟨.of_unnamed h, .inl ?_, .inl ?_⟩
  · exact show later.slot.unnamed.name = old.slot.unnamed.name from hslot ▸ rfl
  · exact show later.slot.unnamed.type = old.slot.unnamed.type from hslot ▸ rfl

/-- What an edit does to a slot. -/
theorem Follows.of_alters {edit : Edit μ} (hgrants : w.Grants event edit)
    (howner : later.owner.id = old.owner.id) (h : old.slot.Alters w edit later.slot) :
    Follows w event old later := by
  refine ⟨⟨h.id, howner, ?_, ?_, ?_⟩, h.name.imp_right fun hrename => ?_,
    h.type.imp_right fun hadopts => ⟨edit, hgrants, hadopts⟩⟩
  · rw [h.rest]
  · rw [h.rest]
  · rw [h.rest]
  · rw [hgrants.1, hrename]

theorem Lasts.refl (old : OwnedSlot) : Lasts events old old :=
  ⟨.refl old, .inl rfl, .inl rfl⟩

/-- One event more. -/
theorem Lasts.concat (h : Lasts events old reached) (h' : Follows w event reached later) :
    Lasts (events ++ [event]) old later where
  toAlike := h.toAlike.trans h'.toAlike
  name := by
    rcases h'.name with hsame | hrename
    · rw [hsame]
      exact h.name.imp_right (List.mem_append_left _)
    · rw [h.id] at hrename
      exact .inr (List.mem_append_right _ (List.mem_singleton.mpr hrename.symm))
  type := by
    rcases h'.type with hsame | ⟨edit, -, hext, hunknown, -⟩
    · rw [hsame]
      exact h.type
    · -- a slot that has no type now had none before
      rw [h.external] at hext
      refine .inr ⟨hext, ?_⟩
      rcases h.type with heq | ⟨-, hnone⟩
      · rw [← heq, hunknown]
      · exact hnone

end OwnedSlot

-- ---------------------------------------------------------------------------
-- Steps and runs
-- ---------------------------------------------------------------------------

namespace Workflow

variable {μ : Type} {w : Workflow μ} {event : Happening μ}

theorem Alters.ownedSlot {w' : Workflow μ} {edit : Edit μ} (h : w.Alters edit w') {later : OwnedSlot}
    (hl : later ∈ w'.ownedSlots) :
    (∃ old ∈ w.ownedSlots, later.owner.id = old.owner.id ∧ old.slot.Alters w edit later.slot) ∨
      w.nextId ≤ later.slot.id.val := by
  obtain ⟨howner, hslot⟩ := mem_ownedSlots.mp hl
  rcases h.blocks _ howner with ⟨block, hb, halters⟩ | hnew
  · rcases halters.slots _ hslot with ⟨slot, hs, hst⟩ | hnew
    · exact .inl ⟨⟨block, slot⟩, mem_ownedSlots.mpr ⟨hb, hs⟩, halters.id, hst⟩
    · exact .inr hnew.id
  · exact .inr (hnew.slots _ hslot).id

theorem exists_ownedSlot_assignNames {later : OwnedSlot} (hl : later ∈ w.assignNames.ownedSlots) :
    ∃ old ∈ w.ownedSlots, old.unnamed = later.unnamed := by
  obtain ⟨howner, hslot⟩ := mem_ownedSlots.mp hl
  obtain ⟨block, hb, hblock⟩ := exists_block_of_unnamed w.unnamed_assignNames howner
  have hmem := List.mem_map_of_mem (f := Slot.unnamed) hslot
  rw [show later.owner.slots.map Slot.unnamed = block.slots.map Slot.unnamed from
    congrArg Block.slots hblock.symm] at hmem
  obtain ⟨slot, hs, hsame⟩ := List.mem_map.mp hmem
  exact ⟨⟨block, slot⟩, mem_ownedSlots.mpr ⟨hb, hs⟩, congrArg₂ OwnedSlot.mk hblock hsame⟩

/-- A slot that is there after an event was there before it, or it is new. -/
theorem Reachable.follows_happen (h : w.Reachable) {later : OwnedSlot}
    (hl : later ∈ (w.happen event).ownedSlots) :
    (∃ old ∈ w.ownedSlots, old.Follows w event later) ∨ w.nextId ≤ later.slot.id.val := by
  rcases w.happen_cases event with ⟨edit, answer, hevent, he⟩ | ⟨-, heq⟩ | heq
  · refine ((h.wellFormed.alters_perform he).ownedSlot hl).imp_left ?_
    rintro ⟨old, hold, howner, halters⟩
    exact ⟨old, hold, .of_alters ⟨hevent, answer, he⟩ howner halters⟩
  · rw [heq] at hl
    obtain ⟨old, hold, hsame⟩ := exists_ownedSlot_assignNames hl
    exact .inl ⟨old, hold, .of_unnamed hsame⟩
  · rw [heq] at hl
    exact .inl ⟨later, hl, .refl later⟩

/-- What one event does to a slot that is there before and after it. -/
theorem Reachable.follows_of_id (h : w.Reachable) {old later : OwnedSlot} (ho : old ∈ w.ownedSlots)
    (hl : later ∈ (w.happen event).ownedSlots) (hid : later.slot.id = old.slot.id) :
    old.Follows w event later := by
  rcases h.follows_happen hl with ⟨other, hother, hfollows⟩ | hnew
  · obtain rfl : other = old :=
      List.inj_on_of_nodup_map h.wellFormed.ownedSlotIds hother ho (hfollows.id.symm.trans hid)
    exact hfollows
  · have hlt := h.wellFormed.slot_lt (List.mem_map_of_mem (f := OwnedSlot.slot) ho)
    rw [hid] at hnew
    omega

/-- What a history does to a slot that is there before and after it. -/
theorem Reachable.lasts_after (h : w.Reachable) (events : List (Happening μ)) {old later : OwnedSlot}
    (ho : old ∈ w.ownedSlots) (hl : later ∈ (w.after events).ownedSlots)
    (hid : later.slot.id = old.slot.id) : old.Lasts events later := by
  induction events using List.reverseRecOn generalizing later with
  | nil =>
    obtain rfl : later = old := List.inj_on_of_nodup_map h.wellFormed.ownedSlotIds hl ho hid
    exact .refl later
  | append_singleton events event ih =>
    rw [after_concat] at hl
    rcases (h.after events).follows_happen hl with ⟨reached, hr, hfollows⟩ | hnew
    · exact (ih hr (hfollows.id.symm.trans hid)).concat hfollows
    · -- the number of a new slot is not that of an old one
      have hlt := h.wellFormed.slot_lt (List.mem_map_of_mem (f := OwnedSlot.slot) ho)
      have hle := h.nextId_after events
      rw [hid] at hnew
      omega

-- ---------------------------------------------------------------------------
-- Changes of types
-- ---------------------------------------------------------------------------

/-- An event gives a slot another type. -/
def Retypes (w : Workflow μ) (event : Happening μ) (id : SlotId) (type : SlotType) : Prop :=
  ∃ old ∈ w.slots, ∃ later ∈ (w.happen event).slots,
    old.id = id ∧ later.id = id ∧ later.type = type ∧ old.type ≠ type

/-- A slot gets another type by a link only, and it is that of the slot it is linked with. -/
theorem Reachable.adopts_of_retypes (h : w.Reachable) {id : SlotId} {type : SlotType}
    (hr : w.Retypes event id type) :
    ∃ old ∈ w.slots, old.id = id ∧ old.type ≠ type ∧
      ∃ edit, w.Grants event edit ∧ w.Adopts edit old type := by
  obtain ⟨_, hold, _, hlater, rfl, hid, rfl, hne⟩ := hr
  obtain ⟨old, ho, rfl⟩ := List.mem_map.mp hold
  obtain ⟨later, hl, rfl⟩ := List.mem_map.mp hlater
  have hedit := (h.follows_of_id ho hl hid).type.resolve_left (Ne.symm hne)
  exact ⟨old.slot, hold, rfl, hne, hedit⟩

/-- A link gives a type to one slot. -/
theorem Reachable.eq_of_retypes (h : w.Reachable) {id other : SlotId} {type type' : SlotType}
    (hr : w.Retypes event id type) (hr' : w.Retypes event other type') : other = id := by
  obtain ⟨a, -, rfl, hne, edit, hgrants, -, hunknown, p, hp, rfl, uid, hedit⟩ :=
    h.adopts_of_retypes hr
  obtain ⟨b, hb, rfl, -, edit', hgrants', -, hunknown', q, -, rfl, uid', hedit'⟩ :=
    h.adopts_of_retypes hr'
  obtain rfl : edit = edit' := by
    have heq := hgrants.1.symm.trans hgrants'.1
    injection heq
  by_contra hapart
  -- otherwise the second slot is the one that the first takes its type from, and it has none
  have hsource : b.id = p.id := by
    rcases hedit with rfl | rfl <;> rcases hedit' with heq | heq
    · exact absurd (Edit.connect.inj heq).1.symm hapart
    · exact (Edit.connect.inj heq).2.1.symm
    · exact (Edit.connect.inj heq).1.symm
    · exact absurd (Edit.connect.inj heq).2.1.symm hapart
  obtain rfl := List.inj_on_of_nodup_map h.wellFormed.slotIds hb hp hsource
  exact hne (hunknown.trans hunknown'.symm)

/-- A slot that has got a type keeps it. -/
theorem Reachable.not_retypes_again (h : w.Reachable) {id : SlotId} {type type' : SlotType}
    (hr : w.Retypes event id type) (middle : List (Happening μ)) (next : Happening μ) :
    ¬(w.after (event :: middle)).Retypes next id type' := by
  rw [after_cons]
  intro hr'
  obtain ⟨old, ho, -, hne, -, -, -, hunknown, -⟩ := h.adopts_of_retypes hr
  obtain ⟨_, -, _, hlater, -, rfl, rfl, -⟩ := hr
  obtain ⟨_, hagain, hid, -, -, -, -, hunknown', -⟩ :=
    ((h.happen event).after middle).adopts_of_retypes hr'
  obtain ⟨later, hl, rfl⟩ := List.mem_map.mp hlater
  obtain ⟨again, ha, rfl⟩ := List.mem_map.mp hagain
  rcases ((h.happen event).lasts_after middle hl ha hid).type with hsame | ⟨-, hnone⟩
  · exact hne (hunknown.trans (hsame ▸ hunknown').symm)
  · exact hne (hunknown.trans hnone.symm)

-- ---------------------------------------------------------------------------
-- Main result
-- ---------------------------------------------------------------------------

/-- What holds of the slots of a workflow over all histories. -/
structure TypesWriteOnce (w : Workflow μ) : Prop where
  /-- A slot that keeps existing keeps what it was made as. It keeps its name unless one of the events
  renames it, and its type unless it stands on the border and has none. -/
  lasts : ∀ events, ∀ old ∈ w.ownedSlots, ∀ later ∈ (w.after events).ownedSlots,
    later.slot.id = old.slot.id → old.Lasts events later
  /-- Each event keeps all of that, too; a name changes only in an event that renames the slot, and a
  type only if the event links the slot, which stands on the border and has none, with one of that
  type. -/
  follows : ∀ prior event, ∀ old ∈ (w.after prior).ownedSlots,
    ∀ later ∈ (w.after (prior ++ [event])).ownedSlots, later.slot.id = old.slot.id →
      old.Follows (w.after prior) event later
  /-- No event changes the types of two slots. -/
  alone : ∀ prior event id type other type', (w.after prior).Retypes event id type →
    (w.after prior).Retypes event other type' → other = id
  /-- No slot has its type changed twice. -/
  once : ∀ prior first middle second id type type', (w.after prior).Retypes first id type →
    ¬(w.after (prior ++ first :: middle)).Retypes second id type'

/-- **Types are written once.** Over all histories, a slot keeps its block, its kind and the rest of what
it was made as, it is renamed by requests to rename it only, and its type changes once at most: in a link
that is granted, from none to that of the slot it is linked with, and only on the border. -/
theorem Reachable.typesWriteOnce (h : w.Reachable) : w.TypesWriteOnce where
  lasts events _ ho _ hl hid := h.lasts_after events ho hl hid
  follows prior event _ ho _ hl hid := by
    rw [after_concat] at hl
    exact (h.after prior).follows_of_id ho hl hid
  alone prior _ _ _ _ _ hr hr' := (h.after prior).eq_of_retypes hr hr'
  once prior first middle second _ _ _ hr := by
    rw [after_append]
    exact (h.after prior).not_retypes_again hr middle second

/-- An input of a workflow takes its type from the start time of a loop. When that link has gone, a link
with a number does not change the type again. -/
theorem typesWriteOnce_of_load :
    ∃ w : Workflow Unit,
      (new "uid-" "Plan" .empty).after
        [.edit (.addSlot rootId { name := "load", type := .unknown, kind := ⟨.output, true⟩ }),
          .edit (.addBlock rootId .timeLoop none),
          .edit (.addBlock rootId (.named "x" .double) none)] = w ∧
      w.TypesWriteOnce ∧ w.Retypes (.edit (.connect ⟨1⟩ ⟨3⟩ none)) ⟨1⟩ .physicalQuantity ∧
      (w.after [.edit (.connect ⟨1⟩ ⟨3⟩ none), .edit (.disconnectSlots ⟨1⟩ ⟨3⟩),
        .edit (.connect ⟨7⟩ ⟨1⟩ none)]).slots.map Slot.type =
          [.physicalQuantity, .physicalQuantity, .physicalQuantity, .physicalQuantity, .double] := by
  have hreachable : ((new "uid-" "Plan" .empty : Workflow Unit).after
      [.edit (.addSlot rootId { name := "load", type := .unknown, kind := ⟨.output, true⟩ }),
        .edit (.addBlock rootId .timeLoop none),
        .edit (.addBlock rootId (.named "x" .double) none)]).Reachable :=
    Reachable.after (.new ..) _
  refine ⟨_, rfl, Reachable.typesWriteOnce hreachable, ?_, by decide +kernel⟩
  unfold Retypes
  decide +kernel

end Workflow

end SlotFlow
