import SlotFlow.Graph.Readiness
import SlotFlow.Proofs.Graph.Initial
import SlotFlow.Proofs.Program.Scoped
/-!
# Where time loops start and stop

A time loop takes the times at which it starts and stops from two of its slots, which are required. Programs
look them up by their names. Whether a workflow is ready is judged by the slots that there are, so a slot
that has been removed is not missed, and one that has been renamed is asked for a link but not found. In
either case the program sets the time to `None`.

* `LoopTime` — the two times;
* `Workflow.SetsTimes` — what a program sets them to.

## Results

* `Workflow.isLinked_of_isReady` — in a workflow that is ready, required slots are linked;
* `Workflow.KindsKept.setsTimes` — which time loops lack a time although the workflow is ready;
* `Workflow.ready_without_start` — such a time loop.
-/

namespace SlotFlow

-- ---------------------------------------------------------------------------
-- The times of a loop
-- ---------------------------------------------------------------------------

/-- The times that a time loop needs to know from outside. -/
inductive LoopTime where
  | start
  | target
  deriving DecidableEq, Repr

namespace LoopTime

/-- The name of the slot from which a time is taken. -/
def slotName : LoopTime → String
  | start => BlockKind.startTimeSlot
  | target => BlockKind.targetTimeSlot

/-- The position of this slot among those that a time loop is made with. -/
def index : LoopTime → Nat
  | start => 0
  | target => 1

/-- The line of a program that sets a time. -/
def line : LoopTime → String → Expr → Line
  | start => .setStart
  | target => .setTarget

/-- A time loop is made with a required slot for each time. -/
theorem exists_request (which : LoopTime) :
    ∃ request, BlockKind.timeLoop.defaultSlots[which.index]? = some request ∧
      request.name = which.slotName ∧
      ∀ id uid, (Slot.ofRequest id uid request).optional = false := by
  cases which <;> exact ⟨_, rfl, rfl, fun _ _ => rfl⟩

end LoopTime

namespace Workflow

variable {μ : Type} {w : Workflow μ} {options : ProgramOptions} {form : ProgramForm} {block : Block}
  {forExecution : Bool}

-- ---------------------------------------------------------------------------
-- Named slots
-- ---------------------------------------------------------------------------

/-- In a workflow that is ready, required slots are linked. -/
theorem isLinked_of_isReady (h : w.isReady forExecution = true) {slot : Slot} (hs : slot ∈ w.slots)
    (hrequired : slot.optional = false) : w.isLinked slot.id = true := by
  obtain ⟨owner, howner, hslot⟩ := mem_slots.mp hs
  have hnone := List.flatMap_eq_nil_iff.mp (List.isEmpty_iff.mp h) ⟨owner, slot⟩
    (mem_ownedSlots.mpr ⟨howner, hslot⟩)
  by_contra hlinked
  rw [Bool.not_eq_true] at hlinked
  simp [issuesAt, hrequired, hlinked] at hnone

theorem WellFormed.slot?_eq_some_iff (h : w.WellFormed) (hb : block ∈ w.blocks) {name : String}
    {slot : Slot} : block.slot? name = some slot ↔ slot ∈ block.slots ∧ slot.name = name :=
  find?_key_eq_some (h.blocks.slotNames block hb)

/-- A slot that has a name and a link is the one that is looked up by its name. -/
theorem WellFormed.isNamedLinked_iff (h : w.WellFormed) (hb : block ∈ w.blocks) {name : String} :
    w.isNamedLinked block name = true ↔
      ∃ slot ∈ block.slots, slot.name = name ∧ w.isLinked slot.id = true := by
  unfold isNamedLinked
  constructor
  · intro hlinked
    split at hlinked
    · obtain ⟨hs, hname⟩ := (h.slot?_eq_some_iff hb).mp ‹_›
      exact ⟨_, hs, hname, hlinked⟩
    · cases hlinked
  · rintro ⟨slot, hs, hname, hlinked⟩
    rw [(h.slot?_eq_some_iff hb).mpr ⟨hs, hname⟩]
    exact hlinked

/-- What is read from a slot that is not there or has no link is `None`. -/
theorem readNamed_eq_none {name : String} (h : w.isNamedLinked block name = false) (time : TimeExpr) :
    w.readNamed block name time = .none := by
  unfold isNamedLinked at h
  unfold readNamed readSlot
  split
  · rename_i slot hslot
    rw [hslot] at h
    dsimp only at h
    split
    · rename_i source hsource
      rw [(isLinked_of_partner? hsource).1] at h
      cases h
    · rfl
  · rfl

/-- What is read from a slot with a link is what the slot at the other end provides. -/
theorem exists_readNamed_eq {name : String} (h : w.isNamedLinked block name = true) :
    ∃ slot source, block.slot? name = some slot ∧ w.partner? slot.id = some source ∧
      ∀ time, w.readNamed block name time = w.provideSlot source time := by
  unfold isNamedLinked at h
  split at h
  · rename_i slot hslot
    obtain ⟨source, hsource⟩ := exists_partner?_of_isLinked h
    refine ⟨slot, source, hslot, hsource, fun time => ?_⟩
    rw [readNamed, hslot]
    dsimp only
    rw [readSlot, hsource]
  · cases h

-- ---------------------------------------------------------------------------
-- Loops of a workflow that is ready
-- ---------------------------------------------------------------------------

/-- **What the time loops of a program start and stop at**, where the workflow is ready. -/
structure SetsTimes (w : Workflow μ) (form : ProgramForm) (program : Code) : Prop where
  /-- A line that sets a time belongs to a time loop, which has one for each, and sets it to what is read
  from the slot that has its name. -/
  line : ∀ (which : LoopTime) loop value, which.line loop value ∈ program.toList ↔
    ∃ position ∈ w.loopPositions, loop = position.label.identifier ∧
      value = w.readNamed position.label which.slotName (scopeBelow form position.above).time
  /-- If this slot is there and has a link, it is what the slot at the other end provides. -/
  provided : ∀ position ∈ w.loopPositions, ∀ which : LoopTime,
    w.isNamedLinked position.label which.slotName = true →
    ∃ slot source, position.label.slot? which.slotName = some slot ∧
      w.partner? slot.id = some source ∧
      ∀ time, w.readNamed position.label which.slotName time = w.provideSlot source time
  /-- If not, it is `None`. -/
  none : ∀ position ∈ w.loopPositions, ∀ which : LoopTime,
    w.isNamedLinked position.label which.slotName = false →
    ∀ time, w.readNamed position.label which.slotName time = .none
  /-- This is so if the slot that the loop was made with has gone or has another name, and no slot with a
  link has come to have its name. -/
  lacks : ∀ position ∈ w.loopPositions, ∀ which : LoopTime,
    w.isNamedLinked position.label which.slotName = false ↔
      ∀ slot ∈ position.label.slots, slot.name = which.slotName →
        slot.id ≠ position.label.initialSlot which.index ∧ w.isLinked slot.id = false

section Ready

variable {v : Workflow μ} {kept : SlotId → Prop} {position : Forest.Position Block}

/-- The slots that a time loop was made with for its times are linked, if they are still there. -/
theorem KeepsInitial.isLinked_of_isReady (h : v.KeepsInitial kept) (hready : w.isReady forExecution = true)
    (hsame : v.unnamed = w.unnamed) (hp : position ∈ v.loopPositions) {which : LoopTime} {slot : Slot}
    (hs : slot ∈ position.label.slots) (hid : slot.id = position.label.initialSlot which.index) :
    v.isLinked slot.id = true := by
  obtain ⟨hin, hkind⟩ := mem_loopPositions.mp hp
  have hb := label_mem_blocks hin
  obtain ⟨request, hrequest, -, hrequired⟩ := which.exists_request
  rw [← hkind] at hrequest
  have hoptional := (h.blocks _ hb).optional _ request hrequest slot hs hid
  rw [hrequired] at hoptional
  obtain ⟨other, ho, hother⟩ := exists_slot_of_unnamed hsame (mem_slots.mpr ⟨_, hb, hs⟩)
  have hlinked := Workflow.isLinked_of_isReady hready ho
    ((Slot.optional_of_unnamed hother).trans hoptional)
  rw [isLinked, links_of_unnamed hsame, ← Slot.id_of_unnamed hother]
  exact hlinked

/-- A slot that is kept is there under its name, and has a link. -/
theorem KeepsInitial.isNamedLinked (h : v.KeepsInitial kept) (hv : v.WellFormed)
    (hready : w.isReady forExecution = true) (hsame : v.unnamed = w.unnamed)
    (hp : position ∈ v.loopPositions) {which : LoopTime}
    (hkept : kept (position.label.initialSlot which.index)) :
    v.isNamedLinked position.label which.slotName = true := by
  obtain ⟨hin, hkind⟩ := mem_loopPositions.mp hp
  have hb := label_mem_blocks hin
  obtain ⟨request, hrequest, hname, -⟩ := which.exists_request
  rw [← hkind] at hrequest
  obtain ⟨slot, hs, hid, hanswers⟩ := (h.blocks _ hb).there _ request hrequest hkept
  exact (hv.isNamedLinked_iff hb).mpr
    ⟨slot, hs, hanswers.name.trans hname, h.isLinked_of_isReady hready hsame hp hs hid⟩

/-- A time is lacking if the slot for it is not there under its name, and no other has taken its place. -/
theorem KeepsInitial.isNamedLinked_eq_false_iff (h : v.KeepsInitial kept) (hv : v.WellFormed)
    (hready : w.isReady forExecution = true) (hsame : v.unnamed = w.unnamed)
    (hp : position ∈ v.loopPositions) (which : LoopTime) :
    v.isNamedLinked position.label which.slotName = false ↔
      ∀ slot ∈ position.label.slots, slot.name = which.slotName →
        slot.id ≠ position.label.initialSlot which.index ∧ v.isLinked slot.id = false := by
  have hb := label_mem_blocks (mem_loopPositions.mp hp).1
  rw [← Bool.not_eq_true, hv.isNamedLinked_iff hb]
  constructor
  · intro hnone slot hs hname
    have hlinked : ¬v.isLinked slot.id = true := fun hlinked => hnone ⟨slot, hs, hname, hlinked⟩
    exact ⟨fun hid => hlinked (h.isLinked_of_isReady hready hsame hp hs hid),
      Bool.eq_false_iff.mpr hlinked⟩
  · rintro hnone ⟨slot, hs, hname, hlinked⟩
    rw [(hnone slot hs hname).2] at hlinked
    cases hlinked

end Ready

/-- **Which time loops lack a time** in a workflow that is ready. Take a workflow in which no block's kind
has been edited, which is ready, and for which there is a program. A time loop starts and stops at what is
read from the slots that have the names for it, and nothing is read if there is no such slot or it has no
link. This is so for a time exactly if the slot that the loop was made with for it is not there under its
name, and no other slot with a link has the name. It happens only where this slot has been renamed or
removed. -/
theorem KindsKept.setsTimes (h : w.KindsKept) (hready : w.isReady forExecution = true)
    {lines : List String} (hg : (w.generate options form).1 = .ok lines) :
    ∃ program, w.assignNames.programCode options form = .ok program ∧ lines = program.lines ∧
      w.assignNames.SetsTimes form program ∧
      ∀ position ∈ w.assignNames.loopPositions, ∀ which : LoopTime,
        w.SlotsKept (· = position.label.initialSlot which.index) →
        w.assignNames.isNamedLinked position.label which.slotName = true := by
  obtain ⟨program, hprogram, rfl⟩ := generate_eq_ok hg
  have hwell := h.named.reachable.wellFormed
  have hnested := h.named.shaped.nested
  have hinitial := h.slotsKept.keepsInitial.assignNames
  refine ⟨program, hprogram, rfl, ⟨?_, ?_, ?_, ?_⟩, ?_⟩
  · rintro (_ | _)
    · exact setStart_mem_iff hprogram hnested
    · exact setTarget_mem_iff hprogram hnested
  · intro position _ which hlinked
    exact exists_readNamed_eq hlinked
  · intro position _ which hnone
    exact readNamed_eq_none hnone
  · intro position hp which
    exact hinitial.isNamedLinked_eq_false_iff hwell hready w.unnamed_assignNames hp which
  · intro position hp which hkept
    exact hkept.keepsInitial.assignNames.isNamedLinked hwell hready w.unnamed_assignNames hp rfl

/-- The registry of a model that tells the time. -/
def clocks : Registry Unit where
  classes := [
    { name := "Clock"
      importStatement := "from clocks import Clock"
      declaration :=
        { name := "Clock"
          inputs := []
          outputs := [{ name := "now", type := .physicalQuantity }] } }]

/-- A time loop that takes its times from a clock before it. -/
theorem setsTimes_of_clock :
    ∃ (w : Workflow Unit) (lines : List String) (program : Code), w.KindsKept ∧
      w.isReady true = true ∧ (w.generate {} .execution).1 = .ok lines ∧
      "\t\ttimeloop_1_time = self.model_1.get(None, None, 0)" ∈ lines ∧
      w.assignNames.SetsTimes .execution program := by
  have hclock := @KindsKept.edited Unit _ _ (.addModel rootId ⟨"Clock", none, none⟩ none) _
    (.new "uid-" "Plan" clocks) rfl nofun
  have hloop := @KindsKept.edited Unit _ _ (.addBlock rootId .timeLoop none) _ hclock rfl nofun
  have hstart := @KindsKept.edited Unit _ _ (.connect ⟨2⟩ ⟨4⟩ none) _ hloop rfl nofun
  have htarget := @KindsKept.edited Unit _ _ (.connect ⟨2⟩ ⟨5⟩ none) _ hstart rfl nofun
  have hlength := @KindsKept.edited Unit _ _ (.connect ⟨2⟩ ⟨6⟩ none) _ htarget rfl nofun
  obtain ⟨program, -, -, hsets, -⟩ :=
    @KindsKept.setsTimes Unit _ {} .execution true hlength rfl _ rfl
  refine ⟨_, _, program, hlength, rfl, rfl, ?_, hsets⟩
  decide +kernel

/-- A time loop whose slot for the time at which it starts has been removed. The workflow is ready, and the
program starts the loop at `None`. -/
theorem ready_without_start :
    ∃ (w : Workflow Unit) (lines : List String) (loop : Block), w.KindsKept ∧
      w.isReady true = true ∧ (w.generate {} .execution).1 = .ok lines ∧ loop ∈ w.blocks ∧
      loop.kind = .timeLoop ∧ loop.slot? BlockKind.startTimeSlot = none ∧
      "\t\ttimeloop_1_time = None" ∈ lines := by
  have hclock := @KindsKept.edited Unit _ _ (.addModel rootId ⟨"Clock", none, none⟩ none) _
    (.new "uid-" "Plan" clocks) rfl nofun
  have hloop := @KindsKept.edited Unit _ _ (.addBlock rootId .timeLoop none) _ hclock rfl nofun
  have hremoved := @KindsKept.edited Unit _ _ (.removeSlot ⟨4⟩) _ hloop rfl nofun
  have htarget := @KindsKept.edited Unit _ _ (.connect ⟨2⟩ ⟨5⟩ none) _ hremoved rfl nofun
  have hlength := @KindsKept.edited Unit _ _ (.connect ⟨2⟩ ⟨6⟩ none) _ htarget rfl nofun
  refine ⟨_, _, _, hlength, rfl, rfl,
    List.mem_cons_of_mem _ (List.mem_cons_of_mem _ List.mem_cons_self), rfl, rfl, ?_⟩
  decide +kernel

end Workflow

end SlotFlow
