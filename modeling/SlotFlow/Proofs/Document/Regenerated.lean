import SlotFlow.Proofs.Document.Built
import SlotFlow.Proofs.Naming.Held
import SlotFlow.Proofs.Program.Reindexed
/-!
# Programs of workflows that come back from their records

What is built from the records of a workflow has other numbers than the workflow and no identifiers.
As long as the workflow has none either, the two get the same ones, and as numbers do not show in a
program, they have the same program.

## Results

* `Workflow.registry_ofRecords` — a document leaves the model classes alone;
* `Workflow.Renumbers.reindexes` — without identifiers, isomorphic workflows differ in numbers only;
* `Workflow.Built.generate_of_save` — a workflow that comes back from its records has the program it
  had.
-/

namespace SlotFlow

/-- A block without identifiers is numbered anew in either way. -/
theorem Block.renumber_eq_reindex (ρ : Renumbering) {block : Block} (hname : block.codeName = none)
    (hslots : ∀ slot ∈ block.slots, slot.codeName = none) :
    block.renumber ρ = block.reindex ρ := by
  have hinside : block.slots.map (Slot.renumber ρ) = block.slots.map (Slot.reindex ρ) :=
    List.map_congr_left fun slot hs => by rw [Slot.renumber, Slot.reindex, hslots slot hs]
  rw [renumber, reindex, hinside, hname]

theorem Block.reindex_same (block : Block) : block.reindex .same = block := by
  have hslots : block.slots.map (Slot.reindex .same) = block.slots := List.map_id' block.slots
  rw [reindex, hslots]
  rfl

namespace Workflow

variable {μ : Type} {w w' : Workflow μ} {ρ : Renumbering}

/-- A document leaves the model classes alone. -/
theorem registry_ofRecords {uidStem : String} {records : List Record} {registry : Registry μ}
    (hw : ofRecords uidStem records registry = .ok w) : w.registry = registry := by
  refine ofRecords_induction (P := fun w => w.registry = registry) (fun _ _ _ => rfl) ?_ ?_ ?_ ?_ hw
  · intro w _ hp parent container _ kind requests _ name uid
    rw [attachBlock]
    dsimp only
    rw [registry_modifyBelow]
    exact hp
  · intro w _ hp id data
    exact hp
  · intro w _ hp owner request added ha
    obtain ⟨block, -, -, -, rfl⟩ := addSlot_eq_ok.mp ha
    exact hp
  · intro w _ hp a b uid added ha
    obtain ⟨first, second, plan, -, -, -, rfl⟩ := connect_eq_ok.mp ha
    show (w.adopt plan.adopts).registry = registry
    rw [adopt_eq_mapSlots]
    exact hp

/-- The trees are numbered anew in either way where there are no identifiers. -/
theorem tree_map_renumber (h : w.codeNames = []) (ρ : Renumbering) :
    w.tree.map (Block.renumber ρ) = w.tree.map (Block.reindex ρ) := by
  rw [codeNames_eq_nil_iff] at h
  refine Forest.map_congr fun block hb => ?_
  exact Block.renumber_eq_reindex ρ (h.1 block hb) fun slot hs =>
    h.2 slot (mem_slots.mpr ⟨block, hb, hs⟩)

/-- **Without identifiers, isomorphic workflows differ in numbers only.** -/
theorem Renumbers.reindexes (h : Renumbers ρ w w') (hw : w.WellFormed) (hnone : w.codeNames = [])
    (hnone' : w'.codeNames = []) (hregistry : w'.registry = w.registry) : Reindexes ρ w w' := by
  have htree : w'.tree = w.tree.map (Block.reindex ρ) := by
    have hsame : w'.tree.map (Block.reindex .same) = w'.tree :=
      Forest.map_eq_self fun block _ => block.reindex_same
    rw [← tree_map_renumber hnone, ← h.tree, tree_map_renumber hnone', hsame]
  injection htree with hroot hbody
  exact ⟨hw, fun s hs t ht hst => congrArg Slot.id (h.slots s hs t ht hst), hroot, hbody, h.links,
    hregistry⟩

/-- **A workflow that comes back from its records has the program it had.** Take any workflow that
has been built by edits, with a history that may be forgotten, over the model classes there are now,
and of which no element has got an identifier yet. What is built from its records has the same
program in every form and with all settings; where there is none, the reason is the same. -/
theorem Built.generate_of_save {events : List (Event μ)} (h : Built events w)
    (hf : w.Faithful w.registry events) (hnone : w.codeNames = []) (uidStem : String) :
    ∃ w', ofRecords uidStem w.records w.registry = .ok w' ∧
      ∀ options form, (w'.generate options form).1 = (w.generate options form).1 := by
  obtain ⟨w', hw', ρ, hρ⟩ := (h.restorable hf).ofRecords_records uidStem
  have hreindexes := hρ.reindexes h.reachable.wellFormed hnone (codeNames_ofRecords hw')
    (registry_ofRecords hw')
  exact ⟨w', hw', hreindexes.generate_eq⟩

/-- A model in a time loop, which takes its input and its longest step from the border. What comes
back from its records has the program in which the model is handed the input. -/
theorem generate_of_save_of_heat :
    ∃ (events : List (Event Unit)) (w w' : Workflow Unit) (lines : List String),
      Built events w ∧ w.codeNames = [] ∧ ofRecords "again-" w.records w.registry = .ok w' ∧
        (w'.generate {} .component).1 = .ok lines ∧
        "\t\t\tself.model_1.set(self.external_input_1, 0)" ∈ lines := by
  let heat : ModelClass Unit := ⟨"Heat", "import heat",
    ⟨"Heat", [⟨"load", .property, false, "", none, .default⟩], [], ""⟩, none⟩
  have hloop := @Built.edited Unit _ _ _ (.addBlock rootId .timeLoop none) _
    (.new "new-" "Plan" ⟨[heat]⟩) rfl
  have hmodel := @Built.edited Unit _ _ _ (.addModel ⟨1⟩ ⟨"Heat", none, none⟩ none) _ hloop rfl
  have hslot := @Built.edited Unit _ _ _
    (.addSlot rootId ⟨"source", .property, ⟨.output, true⟩, false, none, .default, none⟩) _ hmodel rfl
  have hlinked := @Built.edited Unit _ _ _ (.connect ⟨7⟩ ⟨6⟩ none) _ hslot rfl
  obtain ⟨w', hw', hsame⟩ := @Built.generate_of_save Unit _ _ hlinked
    { kinds := by simp
      rootName := rfl
      uids := by decide
      slotUids := by decide
      inner := by
        intro block hb hkind
        rcases List.mem_cons.mp hb with rfl | hb
        · cases hkind
        · rw [List.mem_singleton.mp hb] at hkind
          cases hkind
      classes := by
        intro block hb setup hsetup
        rcases List.mem_cons.mp hb with rfl | hb
        · cases hsetup
        · rw [List.mem_singleton.mp hb] at hsetup ⊢
          cases hsetup
          exact ⟨_, List.mem_cons_of_mem _ (List.mem_cons_of_mem _ List.mem_cons_self), rfl,
            ⟨⟨1⟩, none, rfl⟩, rfl⟩
      made := by
        intro block _ creation _ _ fresh _ slot _ event he
        have hnone : event.edit.changedSlot? = none := by
          revert event
          simp [Edit.changedSlot?]
        rw [hnone]
        intro hsome
        cases hsome
      added := by
        unfold Slot.Plain
        decide
      border := by
        unfold LinkedInside
        decide } rfl "again-"
  refine ⟨_, _, w', _, hlinked, rfl, hw', (hsame {} .component).trans rfl, ?_⟩
  decide +kernel

end Workflow

end SlotFlow
