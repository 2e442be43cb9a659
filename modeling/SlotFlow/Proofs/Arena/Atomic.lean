import SlotFlow.Proofs.Arena.Lockstep
import SlotFlow.Proofs.Arena.Sound
/-!
# Edits on the tables of reachable workflows

The programs that carry out edits rely on tables whose rows fit together, and they have to leave such
tables behind, whether they are granted or refused. Three of them change rows and only then take
steps that might refuse: a new block is put in place before its slots are added, a new model gets
those of its class after that, and a block that is removed loses its slots one by one first. In a
reachable workflow these steps do not refuse.

## Results

* `Workflow.Reachable.sound_and_lockstep` — the tables are sound, and every program does to them what
  the edit does to the workflow;
* `Workflow.Reachable.refused_unchanged` — a refused program has changed nothing, and the late steps
  of the others are not refused.
-/

namespace SlotFlow.Workflow

open Arena.Program

variable {μ : Type} {w : Workflow μ}

-- ---------------------------------------------------------------------------
-- Late steps
-- ---------------------------------------------------------------------------

/-- Once its row is in place, the slots of a new block are added. -/
theorem WellFormed.addSlots_of_insertRow (h : w.WellFormed) {parent : BlockId} {kind : BlockKind}
    {uid : Option String} {id : BlockId} {a : Arena μ}
    (hrow : (Arena.insertRow parent kind uid).run w.arena = some (.ok id, a)) :
    ∃ full, (Arena.addSlots id kind.defaultSlots).run a = some (.ok (), full) := by
  rw [h.run_insertRow] at hrow
  cases hc : w.getContainer parent with
  | error error =>
    rw [hc] at hrow
    cases hrow
  | ok container =>
    rw [hc] at hrow
    cases hrow
    exact ⟨_, h.run_addSlots_attachBlock (h.mem_ids_of_getContainer hc) kind _
      (separate_defaultSlots kind) uid⟩

/-- Once a model is in place under the name of its class, the slots of the class are added. -/
theorem WellFormed.addSlots_of_insertBlock (h : w.WellFormed) {parent : BlockId}
    {setup : ModelSetup} {uid : Option String} {id : BlockId} {a : Arena μ}
    {declaration : ModelDeclaration} (hr : declaration.repeatedSlot? = none)
    (hblock : (Arena.insertBlock parent (.model setup) uid).run w.arena = some (.ok id, a)) :
    ∃ full, (Arena.addSlots id declaration.slotRequests).run
      (a.modifyBlock id fun row => { row with name := setup.className }) =
        some (.ok (), full) := by
  have hrun := h.run_insertBlock parent (.model setup) uid
  rw [hblock, Workflow.addBlock] at hrun
  cases hc : w.getContainer parent with
  | error error =>
    rw [hc] at hrun
    cases hrun
  | ok container =>
    rw [hc] at hrun
    have hparent := h.mem_ids_of_getContainer hc
    obtain ⟨rfl, rfl⟩ : id = ⟨w.nextId⟩ ∧ a = (w.attachBlock parent (.model setup)
        (BlockKind.model setup).recordName [] uid).2.arena := by
      injection hrun with hpair
      injection hpair with hid ha
      injection hid with hid
      exact ⟨hid, ha⟩
    rw [← h.arena_rename_attachBlock hparent]
    exact ⟨_, h.run_addSlots_attachBlock hparent _ _ (separate_slotRequests hr) uid⟩

/-- Once a block may go, its slots and those of the blocks below it are removed. -/
theorem WellFormed.removeSlotsOf_below (h : w.WellFormed) {id : BlockId} (hroot : id ≠ w.root.id)
    (hb : (w.arena.blocks id).isSome = true) :
    ∃ below a, w.arena.descendants? id = some below ∧
      (Arena.removeSlotsOf (id :: below)).run w.arena = some (.ok (), a) := by
  cases hfind : w.subtree? id with
  | none =>
    rw [blocks_arena_eq_none (Option.map_eq_none_iff.mpr hfind)] at hb
    cases hb
  | some found =>
    obtain ⟨block, below⟩ := found
    exact ⟨_, _, h.descendants?_arena hfind, h.run_removeSlotsOf_subtree hroot hfind⟩

-- ---------------------------------------------------------------------------
-- Reachable workflows
-- ---------------------------------------------------------------------------

/-- **The rows fit together, whatever was done.** The tables of a reachable workflow are sound, and
the program of every edit ends and keeps them in step: it answers what the edit answers and leaves
the tables of the workflow that the edit gives. -/
theorem Reachable.sound_and_lockstep (h : w.Reachable) :
    w.arena.Sound ∧ ∀ edit : Edit μ,
      (Arena.perform edit).run w.arena = some (w.outcome (w.perform edit)) :=
  ⟨h.wellFormed.sound_arena, h.wellFormed.run_perform⟩

/-- The tables of a workflow with a time loop. -/
theorem sound_and_lockstep_of_timeLoop :
    ∃ w : Workflow Unit,
      (new "uid-" "Plan" .empty).perform (.addBlock rootId .timeLoop none) = .ok (.block ⟨1⟩, w) ∧
      w.arena.Sound ∧ ∀ edit : Edit Unit,
        (Arena.perform edit).run w.arena = some (w.outcome (w.perform edit)) :=
  ⟨_, rfl, Reachable.sound_and_lockstep
    (@Reachable.edited _ _ _ (.addBlock rootId .timeLoop none) _ (.new "uid-" "Plan" .empty) rfl)⟩

/-- **A refused edit changes nothing.** The program of every edit ends on the tables of a reachable
workflow. If it is refused, the tables are as they were. In particular the steps that come after a
change are not refused: the slots that a new block is made with, those that its class declares, and
the removal of the slots of a block and of everything below it. -/
theorem Reachable.refused_unchanged (h : w.Reachable) :
    (∀ edit : Edit μ, ∃ result a, (Arena.perform edit).run w.arena = some (result, a) ∧
      ∀ error, result = .error error → a = w.arena) ∧
    (∀ parent kind uid id a, (Arena.insertRow parent kind uid).run w.arena = some (.ok id, a) →
      ∃ full, (Arena.addSlots id kind.defaultSlots).run a = some (.ok (), full)) ∧
    (∀ parent setup uid id a modelClass, w.registry.find? setup.className = some modelClass →
      modelClass.declaration.repeatedSlot? = none →
      (Arena.insertBlock parent (.model setup) uid).run w.arena = some (.ok id, a) →
      ∃ full, (Arena.addSlots id modelClass.declaration.slotRequests).run
        (a.modifyBlock id fun row => { row with name := setup.className }) =
          some (.ok (), full)) ∧
    (∀ id, id ≠ w.root.id → (w.arena.blocks id).isSome = true →
      ∃ below a, w.arena.descendants? id = some below ∧
        (Arena.removeSlotsOf (id :: below)).run w.arena = some (.ok (), a)) := by
  have hw := h.wellFormed
  refine ⟨fun edit => ?_, ?_, ?_, fun _ => hw.removeSlotsOf_below⟩
  · refine ⟨_, _, hw.run_perform edit, fun error herror => ?_⟩
    cases hp : w.perform edit with
    | error _ => rfl
    | ok added =>
      rw [hp] at herror
      cases herror
  · intro parent kind uid id a hrow
    exact hw.addSlots_of_insertRow hrow
  · intro parent setup uid id a modelClass _ hr hblock
    exact hw.addSlots_of_insertBlock hr hblock

/-- A time loop takes no second slot of a name it is made with, and is left alone. -/
theorem refused_unchanged_of_timeLoop :
    ∃ w : Workflow Unit,
      (new "uid-" "Plan" .empty).perform (.addBlock rootId .timeLoop none) = .ok (.block ⟨1⟩, w) ∧
      (Arena.perform (.addSlot ⟨1⟩ ⟨"max_dt", .double, ⟨.input, false⟩, false, none, .default, none⟩)).run
        w.arena = some (.error (.duplicateSlotName "TimeLoopBlock" "max_dt"), w.arena) := by
  obtain ⟨result, a, hrun, hsame⟩ := (Reachable.refused_unchanged
    (@Reachable.edited Unit _ _ (.addBlock rootId .timeLoop none) _ (.new "uid-" "Plan" .empty)
      rfl)).1 (.addSlot ⟨1⟩ ⟨"max_dt", .double, ⟨.input, false⟩, false, none, .default, none⟩)
  have hresult : some result = some (.error (.duplicateSlotName "TimeLoopBlock" "max_dt")) :=
    (congrArg (Option.map Prod.fst) hrun).symm.trans rfl
  injection hresult with hresult
  refine ⟨_, rfl, ?_⟩
  rw [hrun, hsame _ hresult, hresult]

end SlotFlow.Workflow
