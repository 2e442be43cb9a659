import SlotFlow.Graph.Readiness
import SlotFlow.Proofs.Editing.Removed
/-!
# What is reported as missing

A required slot is an input inside the workflow, so that it has one link or none. The report names those that
have none, each once, in tree order. When a block is removed, the report loses what was about the slots that
go, and gains the slots that were linked to one of these.

* `Issue.slot` — what an issue is about;
* `Workflow.severed` — slots that lose their only link with a block;
* `Workflow.ReportsUnlinked` — what a report consists of, and how the removal of a block changes it.

## Results

* `Workflow.WellFormed.mem_issues_unconnected`, `Workflow.map_slot_issues_sublist` — what is reported;
* `Workflow.WellFormed.issuesAt_removeBlock` — the issues of a slot that stays;
* `Workflow.Reachable.reportsUnlinked` — all of this for reachable workflows.
-/

namespace SlotFlow

variable {μ : Type}

/-- The slot that an issue is about. -/
def Issue.slot : Issue → SlotId
  | unconnectedSlot _ slot _ => slot
  | connectedExternalSlot slot _ => slot

/-- The issue of a required slot without a link. -/
def OwnedSlot.issue (owned : OwnedSlot) : Issue :=
  .unconnectedSlot owned.owner.id owned.slot.id owned.slot.name

namespace Workflow

variable {w w' : Workflow μ} {id : BlockId}

/-- Whether a slot is required and its only link leads to a slot of one of some blocks. -/
def severed (w : Workflow μ) (gone : List BlockId) (owned : OwnedSlot) : Bool :=
  match w.linksAt owned.slot.id with
  | [link] => !owned.slot.optional && (link.otherEnd? owned.slot.id).any fun far =>
      (w.ownedSlot? far).any (·.owner.id ∈ gone)
  | _ => false

-- ---------------------------------------------------------------------------
-- Reports
-- ---------------------------------------------------------------------------

theorem isLinked_eq (w : Workflow μ) (slot : SlotId) :
    w.isLinked slot = !(w.linksAt slot).isEmpty := by
  rw [isLinked, linksAt, Bool.eq_iff_iff]
  simp [List.filter_eq_nil_iff]

theorem issuesAt_false (w : Workflow μ) (owned : OwnedSlot) :
    w.issuesAt false owned =
      if !owned.slot.optional && (w.linksAt owned.slot.id).isEmpty then [owned.issue] else [] := by
  rw [issuesAt, isLinked_eq, Bool.not_not]
  simp [OwnedSlot.issue]

theorem mem_issuesAt_unconnected {forExecution : Bool} {owned : OwnedSlot} {block : BlockId}
    {slot : SlotId} {name : String} :
    .unconnectedSlot block slot name ∈ w.issuesAt forExecution owned ↔
      owned.slot.id = slot ∧ owned.slot.optional = false ∧ w.linksAt owned.slot.id = [] ∧
        owned.owner.id = block ∧ owned.slot.name = name := by
  simp only [issuesAt, isLinked_eq, Bool.not_not, List.mem_append, List.mem_ite_nil_right,
    List.mem_singleton, Bool.and_eq_true, Bool.not_eq_true', List.isEmpty_iff,
    Issue.unconnectedSlot.injEq, reduceCtorEq, and_false, or_false]
  tauto

theorem mem_issuesAt_connected {forExecution : Bool} {owned : OwnedSlot} {slot : SlotId}
    {name : String} :
    .connectedExternalSlot slot name ∈ w.issuesAt forExecution owned ↔
      forExecution = true ∧ owned.slot.id = slot ∧ owned.slot.external = true ∧
        w.linksAt owned.slot.id ≠ [] ∧ owned.slot.name = name := by
  simp only [issuesAt, isLinked_eq, Bool.not_not, List.mem_append, List.mem_ite_nil_right,
    List.mem_singleton, Bool.and_eq_true, Bool.not_eq_true', List.isEmpty_eq_false_iff,
    Issue.connectedExternalSlot.injEq, reduceCtorEq, and_false, false_or]
  tauto

/-- A slot has one issue or none. -/
theorem map_slot_issues_sublist (w : Workflow μ) (forExecution : Bool) :
    ((w.issues forExecution).map Issue.slot).Sublist (w.ownedSlots.map (·.slot.id)) := by
  have hone : ∀ owned : OwnedSlot,
      ((w.issuesAt forExecution owned).map Issue.slot).Sublist [owned.slot.id] := by
    intro owned
    rw [issuesAt]
    cases w.isLinked owned.slot.id <;> simp only [Bool.not_false, Bool.not_true, Bool.and_true,
      Bool.and_false, Bool.false_eq_true, if_false, List.nil_append, List.append_nil]
    all_goals split <;> simp [Issue.slot]
  rw [issues]
  induction w.ownedSlots with
  | nil => exact .slnil
  | cons owned rest ih =>
    rw [List.flatMap_cons, List.map_append, List.map_cons]
    exact (hone owned).append ih

namespace WellFormed

/-- Outputs are optional, and an input has at most one link. -/
theorem linksAt_required (h : w.WellFormed) {owned : OwnedSlot} (ho : owned ∈ w.ownedSlots)
    (hrequired : owned.slot.optional = false) :
    w.linksAt owned.slot.id = [] ∨ ∃ link, w.linksAt owned.slot.id = [link] := by
  obtain ⟨howner, hslot⟩ := mem_ownedSlots.mp ho
  have hin : owned.slot.direction = .input := by
    cases hdir : owned.slot.direction with
    | input => rfl
    | output =>
      have hoptional := (h.blocks.slotSound _ howner _ hslot).optional (.inr hdir)
      exact absurd (hoptional.symm.trans hrequired) nofun
  have hle := h.length_linksAt_le (mem_slots.mpr ⟨_, howner, hslot⟩) hin
  rw [List.length_map] at hle
  cases hlinks : w.linksAt owned.slot.id with
  | nil => exact .inl rfl
  | cons link rest =>
    rw [hlinks, List.length_cons] at hle
    obtain rfl : rest = [] := List.length_eq_zero_iff.mp (by omega)
    exact .inr ⟨link, rfl⟩

end WellFormed

theorem keepsSlot_arena_eq (w : Workflow μ) (gone : List BlockId) (slot : SlotId) :
    w.arena.keepsSlot gone slot = !(w.ownedSlot? slot).any (·.owner.id ∈ gone) := by
  cases ho : w.ownedSlot? slot with
  | none =>
    rw [Arena.keepsSlot, slots_arena_eq_none ho]
    rfl
  | some owned =>
    rw [Arena.keepsSlot, slots_arena_of_ownedSlot? ho]
    exact decide_not

/-- A link at a slot that stays is left if the slot at its other end is. -/
theorem any_otherEnd?_eq {gone : List BlockId} {link : Link} {slot : SlotId}
    (hkeeps : w.arena.keepsSlot gone slot = true) (htouch : link.touches slot = true) :
    ((link.otherEnd? slot).any fun far => (w.ownedSlot? far).any (·.owner.id ∈ gone)) =
      !w.arena.keepsLink gone link := by
  rw [Arena.keepsLink, Link.otherEnd?]
  by_cases hsource : link.source = slot
  · rw [if_pos hsource, hsource, hkeeps, Bool.true_and, keepsSlot_arena_eq, Option.any_some,
      Bool.not_not]
  · have htarget : link.target = slot := by simpa [Link.touches, hsource] using htouch
    rw [if_neg hsource, if_pos htarget, htarget, hkeeps, Bool.and_true, keepsSlot_arena_eq,
      Option.any_some, Bool.not_not]

theorem severed_of_optional {gone : List BlockId} {owned : OwnedSlot}
    (h : owned.slot.optional = true) : w.severed gone owned = false := by
  rw [severed, h]
  split <;> rfl

theorem severed_of_unlinked {gone : List BlockId} {owned : OwnedSlot}
    (h : w.linksAt owned.slot.id = []) : w.severed gone owned = false := by
  rw [severed, h]

namespace WellFormed

/-- A required slot that stays is without a link afterwards if it was so before, or if the only link that it
had leads to a slot that goes. -/
theorem isEmpty_linksAt_removeBlock (h : w.WellFormed) (hw : w.removeBlock id = .ok w')
    {owned : OwnedSlot} (ho : owned ∈ w.ownedSlots) (hstays : owned.owner.id ∉ w.subtreeIds id)
    (hrequired : owned.slot.optional = false) :
    (w'.linksAt owned.slot.id).isEmpty =
      ((w.linksAt owned.slot.id).isEmpty || w.severed (w.subtreeIds id) owned) := by
  rw [h.linksAt_removeBlock hw, severed]
  rcases h.linksAt_required ho hrequired with hnone | ⟨link, hone⟩
  · rw [hnone]
    rfl
  · have hmem : link ∈ w.linksAt owned.slot.id := hone ▸ List.mem_cons_self
    have hkeeps : w.arena.keepsSlot (w.subtreeIds id) owned.slot.id = true := by
      rw [h.keepsSlot_arena _ ho]
      exact decide_eq_true hstays
    rw [hone, hrequired]
    dsimp only
    rw [any_otherEnd?_eq hkeeps (List.mem_filter.mp hmem).2]
    cases hlink : w.arena.keepsLink (w.subtreeIds id) link <;> simp [hlink]

theorem issuesAt_removeBlock (h : w.WellFormed) (hw : w.removeBlock id = .ok w')
    {owned : OwnedSlot} (ho : owned ∈ w.ownedSlots) (hstays : owned.owner.id ∉ w.subtreeIds id) :
    w'.issuesAt false owned = w.issuesAt false owned ++
      if w.severed (w.subtreeIds id) owned then [owned.issue] else [] := by
  rw [issuesAt_false, issuesAt_false]
  cases hoptional : owned.slot.optional with
  | true => simp [severed_of_optional hoptional]
  | false =>
    rw [h.isEmpty_linksAt_removeBlock hw ho hstays hoptional]
    rcases h.linksAt_required ho hoptional with hnone | ⟨link, hone⟩
    · simp [severed_of_unlinked hnone, hnone]
    · simp [hone]

theorem issues_removeBlock (h : w.WellFormed) (hw : w.removeBlock id = .ok w') :
    w'.issues false = (w.ownedSlots.filter (·.owner.id ∉ w.subtreeIds id)).flatMap fun owned =>
      w.issuesAt false owned ++
        if w.severed (w.subtreeIds id) owned then [owned.issue] else [] := by
  rw [issues, h.ownedSlots_removeBlock hw]
  refine List.flatMap_congr fun owned ho => ?_
  obtain ⟨hmem, hstays⟩ := List.mem_filter.mp ho
  exact h.issuesAt_removeBlock hw hmem (of_decide_eq_true hstays)

/-- The rows of the table of slots are those of the slots of blocks. -/
theorem exists_row_iff (h : w.WellFormed) {P : SlotRow → Prop} {slot : SlotId} :
    (∃ row, w.arena.slots slot = some row ∧ P row) ↔ ∃ owned ∈ w.ownedSlots, owned.slot.id = slot ∧
      P ⟨owned.slot, owned.owner.id, (w.linksAt owned.slot.id).map Link.id⟩ := by
  constructor
  · rintro ⟨row, hrow, hP⟩
    obtain ⟨owned, ho, rfl⟩ := Option.map_eq_some_iff.mp hrow
    obtain ⟨howner, hslot, rfl⟩ := h.ownedSlot?_eq_some.mp ho
    exact ⟨owned, mem_ownedSlots.mpr ⟨howner, hslot⟩, rfl, hP⟩
  · rintro ⟨owned, ho, rfl, hP⟩
    obtain ⟨howner, hslot⟩ := mem_ownedSlots.mp ho
    exact ⟨_, slots_arena_of_ownedSlot? (h.ownedSlot?_eq_some.mpr ⟨howner, hslot, rfl⟩), hP⟩

theorem mem_issues_unconnected (h : w.WellFormed) {forExecution : Bool} {block : BlockId}
    {slot : SlotId} {name : String} :
    .unconnectedSlot block slot name ∈ w.issues forExecution ↔ ∃ row, w.arena.slots slot = some row ∧
      row.slot.optional = false ∧ row.links = [] ∧ row.owner = block ∧ row.slot.name = name := by
  simp only [h.exists_row_iff, issues, List.mem_flatMap, mem_issuesAt_unconnected, List.map_eq_nil_iff]

theorem mem_issues_connected (h : w.WellFormed) {forExecution : Bool} {slot : SlotId} {name : String} :
    .connectedExternalSlot slot name ∈ w.issues forExecution ↔ forExecution = true ∧
      ∃ row, w.arena.slots slot = some row ∧
        row.slot.external = true ∧ row.links ≠ [] ∧ row.slot.name = name := by
  simp only [h.exists_row_iff, issues, List.mem_flatMap, mem_issuesAt_connected, ne_eq,
    List.map_eq_nil_iff]
  tauto

end WellFormed

-- ---------------------------------------------------------------------------
-- Main result
-- ---------------------------------------------------------------------------

/-- What a report on a workflow consists of, and how the removal of a block changes it. -/
structure ReportsUnlinked (w : Workflow μ) : Prop where
  /-- A slot of the table is reported, with its owner and its name, if it is required and has no link. -/
  unconnected : ∀ forExecution block slot name,
    .unconnectedSlot block slot name ∈ w.issues forExecution ↔
      ∃ row, w.arena.slots slot = some row ∧ row.slot.optional = false ∧ row.links = [] ∧
        row.owner = block ∧ row.slot.name = name
  /-- If the program is to stand alone, a slot on the border is reported if it has a link. Otherwise no other
  slot is reported. -/
  connected : ∀ forExecution slot name,
    .connectedExternalSlot slot name ∈ w.issues forExecution ↔
      forExecution = true ∧ ∃ row, w.arena.slots slot = some row ∧ row.slot.external = true ∧
        row.links ≠ [] ∧ row.slot.name = name
  /-- No slot is reported twice. -/
  once : ∀ forExecution, ((w.issues forExecution).map Issue.slot).Nodup
  /-- When a block is removed, what was reported about the slots that stay is still reported, and the required
  slots that had their only link with a slot that goes come in between, all in tree order. -/
  removed : ∀ id ∈ w.blocks.map Block.id, id ≠ w.root.id → ∃ w', w.removeBlock id = .ok w' ∧
    w'.issues false = (w.ownedSlots.filter (·.owner.id ∉ w.subtreeIds id)).flatMap fun owned =>
      w.issuesAt false owned ++
        if w.severed (w.subtreeIds id) owned then
          [.unconnectedSlot owned.owner.id owned.slot.id owned.slot.name]
        else []

/-- **What is reported as missing.** The report on a reachable workflow names each required slot without a
link once, with its owner, and no other slot. When a block is removed, the required slots elsewhere that were
linked to one of its slots come to the report, and what was about its slots is left out. -/
theorem Reachable.reportsUnlinked (h : w.Reachable) : w.ReportsUnlinked where
  unconnected _ _ _ _ := h.wellFormed.mem_issues_unconnected
  connected _ _ _ := h.wellFormed.mem_issues_connected
  once forExecution := h.wellFormed.ownedSlotIds.sublist (w.map_slot_issues_sublist forExecution)
  removed id hid hroot := by
    obtain ⟨w', hw⟩ := exists_removeBlock hid hroot
    exact ⟨w', hw, h.wellFormed.issues_removeBlock hw⟩

/-- With the constant that both loops are linked to, two inputs lose their only link. They come before and
after the one that had none, as they do in the tree. -/
theorem reportsUnlinked_of_twoLoops :
    twoLoops.ReportsUnlinked ∧ twoLoops.issues false = [.unconnectedSlot ⟨11⟩ ⟨12⟩ "start_time"] ∧
      (twoLoops.removeBlock ⟨7⟩).toOption.map (·.issues false) =
        some [.unconnectedSlot ⟨1⟩ ⟨3⟩ "target_time",
          .unconnectedSlot ⟨11⟩ ⟨12⟩ "start_time", .unconnectedSlot ⟨11⟩ ⟨13⟩ "target_time"] :=
  ⟨Reachable.reportsUnlinked (.after (.new ..) _), rfl, rfl⟩

end Workflow

end SlotFlow
