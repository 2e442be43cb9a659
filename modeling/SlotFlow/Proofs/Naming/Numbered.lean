import SlotFlow.Proofs.Graph.Altered
import SlotFlow.Proofs.Naming.Held
/-!
# Slots go by numbers

No user chooses the name of a slot. A naming pass gives a slot on the border a number after a stem that
says on which side of the border it is, and an edit gives it no name.

* `Slot.Numbered` — the name of a slot is one that a naming pass gives to a slot;
* `Workflow.KeepsSlotNames` — a step that gives no slot a name.

## Results

* `Workflow.WellFormed.keepsSlotNames_perform` — every edit is such a step;
* `Workflow.Reachable.slots_numbered` — the name of every slot is a number after one of the stems.
-/

namespace SlotFlow

/-- The name of a slot, if it has one, is a number after one of the stems for slots on the border. -/
def Slot.Numbered (slot : Slot) : Prop :=
  ∀ name, slot.codeName = some name →
    ∃ stem ∈ ["external_input_", "external_output_"], ∃ k : Nat, name = stem ++ toString k

namespace Slot

variable {slot : Slot}

theorem numbered_of_none (h : slot.codeName = none) : slot.Numbered := by
  intro name hname
  rw [h] at hname
  cases hname

theorem Numbered.assignName (h : slot.Numbered) (taken : List String) :
    (slot.assignName taken).1.Numbered := by
  unfold Slot.assignName
  split
  · rename_i stem _ hstem
    intro name hname
    obtain ⟨k, -, -, heq, -⟩ := firstFree_spec stem taken
    have hnumber : name = stem ++ toString k := (Option.some.inj hname).symm.trans heq
    refine ⟨stem, ?_, k, hnumber⟩
    unfold codeStem? at hstem
    split at hstem
    · split at hstem <;> cases hstem <;> simp
    · cases hstem
  · exact h

end Slot

namespace Workflow

variable {μ : Type} {w w' : Workflow μ}

-- ---------------------------------------------------------------------------
-- Steps that give no slot a name
-- ---------------------------------------------------------------------------

/-- A slot with a name after the step had a slot with that name before it. -/
def KeepsSlotNames (w w' : Workflow μ) : Prop :=
  ∀ slot ∈ w'.slots, slot.codeName = none ∨ ∃ old ∈ w.slots, slot.codeName = old.codeName

/-- **No edit gives a slot a name.** -/
theorem WellFormed.keepsSlotNames_perform (h : w.WellFormed) {edit : Edit μ} {answer : Answer}
    (he : w.perform edit = .ok (answer, w')) : w.KeepsSlotNames w' := by
  intro slot hs
  rcases (h.alters_perform he).slot hs with ⟨old, hold, halters⟩ | hnew
  · exact .inr ⟨old, hold, halters.codeName⟩
  · exact .inl hnew.codeName

-- ---------------------------------------------------------------------------
-- Reachable workflows
-- ---------------------------------------------------------------------------

theorem KeepsSlotNames.numbered (h : w.KeepsSlotNames w') (hw : ∀ slot ∈ w.slots, slot.Numbered) :
    ∀ slot ∈ w'.slots, slot.Numbered := by
  intro slot hs
  rcases h slot hs with hnone | ⟨old, hold, hname⟩
  · exact Slot.numbered_of_none hnone
  · intro name hslot
    exact hw old hold name (hname ▸ hslot)

theorem numbered_assignNames (hw : ∀ slot ∈ w.slots, slot.Numbered) :
    ∀ slot ∈ w.assignNames.slots, slot.Numbered := by
  intro slot hs
  rw [slots_assignNames] at hs
  obtain ⟨old, hold, taken, rfl⟩ := exists_of_mem_mapStateList hs
  exact (hw old hold).assignName taken

/-- **The name of every slot is a number after one of the stems.** -/
theorem Reachable.slots_numbered (h : w.Reachable) : ∀ slot ∈ w.slots, slot.Numbered := by
  have hnone : ∀ {w : Workflow μ}, w.codeNames = [] → ∀ slot ∈ w.slots, slot.Numbered := by
    intro w hempty slot hs
    exact Slot.numbered_of_none ((codeNames_eq_nil_iff.mp hempty).2 slot hs)
  induction h with
  | new => exact hnone rfl
  | loaded hw => exact hnone (codeNames_ofRecords hw)
  | edited h he ih => exact (h.wellFormed.keepsSlotNames_perform he).numbered ih
  | named _ ih => exact numbered_assignNames ih
  | generated _ options form ih =>
    exact generate_keeps (P := fun w => ∀ slot ∈ w.slots, slot.Numbered) (numbered_assignNames ih) ih
      options form

end Workflow

end SlotFlow
