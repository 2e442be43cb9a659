import SlotFlow.Proofs.Graph.Altered
import SlotFlow.Proofs.Naming.Pass
/-!
# The names that are held

No edit gives an element a name: elements come without one, keep theirs when they are changed, and
take it along when they go. So only a naming pass makes names, and a naming pass makes names that
are told apart.

* `Workflow.Withholds` — a step that makes no name.

## Results

* `Workflow.WellFormed.withholds_perform` — no edit makes a name;
* `Workflow.codeNames_ofRecords` — neither does a document;
* `Workflow.Reachable.namedApart` — the names that are held are told apart at every moment;
* `Workflow.Reachable.names_told_apart` — after a naming pass everything that needs a name has one
  of its own, which is an identifier that is free for attributes.
-/

namespace SlotFlow

/-- What is picked from a list with distinct keys is picked from another list as often at least, if
there is the same to pick under the same keys. -/
theorem subperm_filterMap {α β κ : Type} {key : α → κ} {f : α → Option β} {xs ys : List α}
    (hkeys : (ys.map key).Nodup)
    (h : ∀ y ∈ ys, (f y).isSome = true → ∃ x ∈ xs, key x = key y ∧ f x = f y) :
    (ys.filterMap f).Subperm (xs.filterMap f) := by
  induction ys generalizing xs with
  | nil => exact List.nil_subperm
  | cons y ys ih =>
    rw [List.map_cons, List.nodup_cons] at hkeys
    cases hy : f y with
    | none =>
      rw [List.filterMap_cons_none hy]
      exact ih hkeys.2 fun z hz => h z (List.mem_cons_of_mem _ hz)
    | some b =>
      obtain ⟨x, hx, hkey, hfx⟩ := h y List.mem_cons_self (by rw [hy]; rfl)
      obtain ⟨pre, post, rfl⟩ := List.append_of_mem hx
      -- what is picked for the others does not stand under the key of the first one
      have hrest : (ys.filterMap f).Subperm ((pre ++ post).filterMap f) := by
        refine ih hkeys.2 fun z hz hsome => ?_
        obtain ⟨other, ho, hother, hfo⟩ := h z (List.mem_cons_of_mem _ hz) hsome
        refine ⟨other, ?_, hother, hfo⟩
        rw [List.mem_append, List.mem_cons, or_left_comm] at ho
        rcases ho with rfl | ho
        · exact absurd (List.mem_map.mpr ⟨z, hz, hother.symm.trans hkey⟩) hkeys.1
        · exact List.mem_append.mpr ho
      rw [List.filterMap_cons_some hy, List.filterMap_append,
        List.filterMap_cons_some (hfx.trans hy)]
      rw [List.filterMap_append] at hrest
      exact ((List.subperm_cons b).mpr hrest).trans List.perm_middle.symm.subperm

namespace Workflow

variable {μ : Type} {w w' : Workflow μ} {edit : Edit μ}

-- ---------------------------------------------------------------------------
-- Steps that make no name
-- ---------------------------------------------------------------------------

/-- No name is held where no element has one. -/
theorem codeNames_eq_nil_iff : w.codeNames = [] ↔
    (∀ block ∈ w.blocks, block.codeName = none) ∧ ∀ slot ∈ w.slots, slot.codeName = none := by
  rw [codeNames, List.append_eq_nil_iff, List.filterMap_eq_nil_iff, List.filterMap_eq_nil_iff]

/-- A step after which no name is held that has not been held before, and none more often. -/
def Withholds (w w' : Workflow μ) : Prop :=
  w'.codeNames.Subperm w.codeNames

namespace Alters

/-- A block with a name was there with the same name. -/
theorem exists_named_block (h : w.Alters edit w') {block : Block} (hb : block ∈ w'.blocks)
    (hsome : block.codeName.isSome = true) :
    ∃ old ∈ w.blocks, old.id = block.id ∧ old.codeName = block.codeName := by
  rcases h.blocks block hb with ⟨old, hold, halters⟩ | hnew
  · exact ⟨old, hold, halters.id.symm, halters.codeName.symm⟩
  · rw [hnew.codeName] at hsome
    cases hsome

/-- A slot with a name was there with the same name. -/
theorem exists_named_slot (h : w.Alters edit w') {slot : Slot} (hs : slot ∈ w'.slots)
    (hsome : slot.codeName.isSome = true) :
    ∃ old ∈ w.slots, old.id = slot.id ∧ old.codeName = slot.codeName := by
  rcases h.slot hs with ⟨old, hold, halters⟩ | hnew
  · exact ⟨old, hold, halters.id.symm, halters.codeName.symm⟩
  · rw [hnew.codeName] at hsome
    cases hsome

theorem withholds (h : w.Alters edit w') (hw' : w'.WellFormed) : w.Withholds w' := by
  have hids : (w'.blocks.map Block.id).Nodup := hw'.blocks.ids
  exact List.Subperm.append (subperm_filterMap hids fun _ => h.exists_named_block)
    (subperm_filterMap hw'.slotIds fun _ => h.exists_named_slot)

/-- Where there was no name there is none. -/
theorem codeNames_eq_nil (h : w.Alters edit w') (hnone : w.codeNames = []) : w'.codeNames = [] := by
  rw [codeNames_eq_nil_iff] at hnone ⊢
  constructor
  · intro block hb
    by_contra hne
    obtain ⟨old, hold, -, hname⟩ := h.exists_named_block hb (Option.isSome_iff_ne_none.mpr hne)
    exact hne (hname.symm.trans (hnone.1 old hold))
  · intro slot hs
    by_contra hne
    obtain ⟨old, hold, -, hname⟩ := h.exists_named_slot hs (Option.isSome_iff_ne_none.mpr hne)
    exact hne (hname.symm.trans (hnone.2 old hold))

end Alters

/-- No edit makes a name. -/
theorem WellFormed.withholds_perform (h : w.WellFormed) {answer : Answer}
    (he : w.perform edit = .ok (answer, w')) : w.Withholds w' :=
  (h.alters_perform he).withholds (h.perform he)

/-- A change of slots that leaves names alone. -/
theorem codeNames_mapSlots {f : Slot → Slot} (h : ∀ slot, (f slot).codeName = slot.codeName) :
    (w.mapSlots f).codeNames = w.codeNames := by
  have hslots : (w.mapSlots f).slots.filterMap Slot.codeName = w.slots.filterMap Slot.codeName := by
    refine filterMap_of_map_eq ?_
    rw [slots_mapSlots, List.map_map]
    exact List.map_congr_left fun slot _ => h slot
  rw [codeNames, hslots, mapSlots, blocks_mapBlocks, List.filterMap_map]
  rfl

/-- Nothing that a document describes has a name. -/
theorem codeNames_ofRecords {uidStem : String} {records : List Record} {registry : Registry μ}
    (hw : ofRecords uidStem records registry = .ok w) : w.codeNames = [] := by
  refine ofRecords_induction (P := fun w => w.codeNames = []) (fun _ _ _ => rfl) ?_ ?_ ?_ ?_ hw
  · intro w h hp parent container hget kind requests _ name uid
    have halters : w.Alters (.addBlock parent kind uid) _ :=
      h.alters_attachBlock hget kind name requests uid
    exact halters.codeNames_eq_nil hp
  · intro w _ hp id data
    refine (codeNames_mapSlots fun slot => ?_).trans hp
    split <;> rfl
  · intro w h hp owner request added ha
    exact (h.alters_perform (perform_addSlot ha)).codeNames_eq_nil hp
  · intro w h hp a b uid added ha
    exact (h.alters_perform (perform_connect ha)).codeNames_eq_nil hp

-- ---------------------------------------------------------------------------
-- Names of reachable workflows
-- ---------------------------------------------------------------------------

namespace Reachable

/-- The names that are held are told apart at every moment, and all of them are usable. -/
theorem namedApart (h : w.Reachable) : NamedApart w.codeNames := by
  have hnone : NamedApart [] := ⟨List.nodup_nil, fun _ hname => nomatch hname⟩
  induction h with
  | new uidStem name registry => exact hnone
  | loaded hw =>
    rw [codeNames_ofRecords hw]
    exact hnone
  | edited h he ih => exact ih.of_subperm (h.wellFormed.withholds_perform he)
  | named _ ih => exact namedApart_assignNames ih
  | generated _ options form ih =>
    exact generate_keeps (P := fun w => NamedApart w.codeNames) (namedApart_assignNames ih) ih
      options form

/-- **Names are told apart and valid.** At every moment no two elements of a workflow have the same
name. After a naming pass every block and every slot on the border has one, and every name is an
identifier, no keyword and no member that is reserved. -/
theorem names_told_apart (h : w.Reachable) :
    w.codeNames.Nodup ∧
      (∀ block ∈ w.assignNames.blocks, block.codeName.isSome = true) ∧
      (∀ slot ∈ w.assignNames.slots, slot.external = true → slot.codeName.isSome = true) ∧
      w.assignNames.codeNames.Nodup ∧
      ∀ name ∈ w.assignNames.codeNames, Identifier.IsWord name ∧
        name ∉ Identifier.keywords ∧ name ∉ Identifier.reservedMembers := by
  have hafter := h.named.namedApart
  obtain ⟨hblocks, hslots⟩ := w.named_assignNames
  refine ⟨h.namedApart.nodup, hblocks, hslots, hafter.nodup, fun name hname => ?_⟩
  obtain ⟨hword, hkeyword, hreserved⟩ := hafter.usable name hname
  exact ⟨hword, hkeyword, hreserved⟩

end Reachable

/-- A value named like the next number makes the numbers pass over its name, and a value named like a
keyword gets a numbered name. -/
theorem names_told_apart_of_values :
    ∃ v w : Workflow Unit,
      (new "uid-" "Plan" .empty).perform (.addBlock rootId (.named "variable_1" .double) none) =
        .ok (.block ⟨1⟩, v) ∧
      v.perform (.addBlock rootId (.named "class" .double) none) = .ok (.block ⟨3⟩, w) ∧
      w.assignNames.codeNames = ["workflow_1", "variable_1", "variable_2"] ∧
      w.assignNames.codeNames.Nodup ∧
      ∀ name ∈ w.assignNames.codeNames, Identifier.IsWord name ∧
        name ∉ Identifier.keywords ∧ name ∉ Identifier.reservedMembers := by
  obtain ⟨-, -, -, hnodup, hvalid⟩ := Reachable.names_told_apart
    (@Reachable.edited Unit _ _ (.addBlock rootId (.named "class" .double) none) _
      (@Reachable.edited Unit _ _ (.addBlock rootId (.named "variable_1" .double) none) _
        (.new "uid-" "Plan" .empty) rfl) rfl)
  exact ⟨_, _, rfl, rfl, by decide +kernel, hnodup, hvalid⟩

end Workflow

end SlotFlow
