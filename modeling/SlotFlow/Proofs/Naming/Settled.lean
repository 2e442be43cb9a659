import SlotFlow.Proofs.Naming.Held
/-!
# Naming passes in a row

A named value goes by the name its user chose if that name is free when the pass comes to it. A value
further on may give a name up after that, when it moves to the name that its own user chose. If
somebody before it has wished for that name, one pass is not enough: the next one hands the name
over.

* `Workflow.NamesSettled` — nobody wishes for a name that is free;
* `Workflow.KeepsWishes` — no name is given up that somebody wishes for.

## Results

* `Workflow.wish_assignNames` — what is wished for is taken before the pass or held after it;
* `Workflow.assignNames_eq_self` — a pass leaves a settled workflow alone;
* `Workflow.Reachable.settles_iff` — one pass is enough exactly if it keeps the wishes;
* `Workflow.not_settled_of_handed_over` — a history after which one pass is not enough.
-/

namespace SlotFlow

open Identifier

-- ---------------------------------------------------------------------------
-- A step of the pass
-- ---------------------------------------------------------------------------

namespace Block.Chooses

variable {taken taken' : List String} {block : Block} {name : String}

/-- Nothing is taken but what was taken before and the name that is chosen. -/
theorem subset (h : block.Chooses taken name taken') : taken' ⊆ name :: taken := by
  cases h with
  | moved => exact List.cons_subset_cons _ fun _ hn => List.mem_of_mem_filter hn
  | _ => exact List.Subset.refl _

/-- A block gets the name that it wants, or that name is taken. -/
theorem grants (h : block.Chooses taken name taken') {wanted : String}
    (hwish : block.preferredName? = some wanted) : wanted = name ∨ wanted ∈ taken := by
  cases h with
  | kept _ hkept => exact hkept wanted hwish
  | moved _ hmoved =>
    rw [hwish] at hmoved
    exact .inl (Option.some.inj hmoved)
  | wished _ hwished =>
    rw [hwish] at hwished
    exact .inl (Option.some.inj hwished)
  | numbered _ hnumbered => exact .inr (hnumbered wanted hwish)

end Block.Chooses

/-- What a block of a list wishes for is taken at the start, or some block of the list gets it: a
name that is taken on the way is held by a block that has been visited. -/
theorem wish_mapStateList (taken : List String) {blocks : List Block} {block : Block}
    {wanted : String} (hb : block ∈ blocks) (hwish : block.preferredName? = some wanted) :
    wanted ∈ taken ∨
      wanted ∈ (mapStateList Block.assignName taken blocks).1.filterMap Block.codeName := by
  induction blocks generalizing taken with
  | nil => cases hb
  | cons first blocks ih =>
    have hchooses := first.chooses_chooseName taken
    show wanted ∈ taken ∨ wanted ∈ (first.chooseName taken).1 ::
      (mapStateList Block.assignName (first.chooseName taken).2 blocks).1.filterMap Block.codeName
    rw [List.mem_cons]
    rcases List.mem_cons.mp hb with rfl | hb
    · rcases hchooses.grants hwish with hname | htaken
      · exact .inr (.inl hname)
      · exact .inl htaken
    · rcases ih (first.chooseName taken).2 hb with htaken | hlater
      · rcases List.mem_cons.mp (hchooses.subset htaken) with hname | htaken
        · exact .inr (.inl hname)
        · exact .inl htaken
      · exact .inr (.inr hlater)

/-- A block that has a name stays as it is where the name it wants is taken. -/
theorem Block.assignName_eq_self (taken : List String) {block : Block} {name : String}
    (hname : block.codeName = some name)
    (hwish : ∀ wanted, block.preferredName? = some wanted → wanted = name ∨ wanted ∈ taken) :
    block.assignName taken = (block, name :: taken) := by
  have hkept : block.chooseName taken = (name, name :: taken) := by
    have hchooses := block.chooses_chooseName taken
    generalize block.chooseName taken = chosen at hchooses
    obtain ⟨chosen, after⟩ := chosen
    dsimp only at hchooses
    cases hchooses with
    | kept hold _ =>
      rw [hname] at hold
      cases hold
      rfl
    | moved hold hwanted hne hfree =>
      rw [hname] at hold
      cases hold
      rcases hwish _ hwanted with heq | htaken
      · exact absurd heq hne
      · exact absurd htaken hfree
    | wished hnone =>
      rw [hname] at hnone
      cases hnone
    | numbered hnone =>
      rw [hname] at hnone
      cases hnone
  rw [assignName, hkept, ← hname]

/-- Slots that have a name or need none stay as they are. -/
theorem Slot.assignNames_eq_self {taken : List String} {slots : List Slot}
    (h : ∀ slot ∈ slots, slot.external = true → slot.codeName.isSome = true) :
    Slot.assignNames taken slots = (slots, taken) := by
  induction slots with
  | nil => rfl
  | cons slot slots ih =>
    have hone : slot.assignName taken = (slot, taken) := by
      unfold assignName
      split
      · rename_i hnone hstem
        have hext : slot.external = true := by
          by_contra hno
          rw [codeStem?, if_neg hno] at hstem
          cases hstem
        have hsome := h slot List.mem_cons_self hext
        rw [hnone] at hsome
        cases hsome
      · rfl
    rw [assignNames, hone, ih fun other ho => h other (List.mem_cons_of_mem _ ho)]

namespace Workflow

variable {μ : Type} {w : Workflow μ}

-- ---------------------------------------------------------------------------
-- Wishes
-- ---------------------------------------------------------------------------

/-- No named value goes by another name than the one its user chose while that one is held by nobody
and is not reserved. -/
def NamesSettled (w : Workflow μ) : Prop :=
  ∀ block ∈ w.blocks, ∀ wanted ∈ block.preferredName?, block.codeName ≠ some wanted →
    wanted ∈ w.codeNames ∨ wanted ∈ reservedMembers

/-- A name that some value's user chose, and that somebody holds, is still held after a naming
pass. -/
def KeepsWishes (w : Workflow μ) : Prop :=
  ∀ block ∈ w.blocks, ∀ wanted ∈ block.preferredName?, wanted ∈ w.codeNames →
    wanted ∈ w.assignNames.codeNames

instance (w : Workflow μ) : Decidable w.NamesSettled :=
  inferInstanceAs (Decidable (∀ block ∈ w.blocks, ∀ wanted ∈ block.preferredName?,
    block.codeName ≠ some wanted → wanted ∈ w.codeNames ∨ wanted ∈ reservedMembers))

instance (w : Workflow μ) : Decidable w.KeepsWishes :=
  inferInstanceAs (Decidable (∀ block ∈ w.blocks, ∀ wanted ∈ block.preferredName?,
    wanted ∈ w.codeNames → wanted ∈ w.assignNames.codeNames))

/-- What a block goes by is among the names. -/
theorem mem_codeNames_of_block {block : Block} {name : String} (hb : block ∈ w.blocks)
    (hname : block.codeName = some name) : name ∈ w.codeNames :=
  List.mem_append_left _ (List.mem_filterMap.mpr ⟨block, hb, hname⟩)

/-- In a settled workflow every name that is wished for is held or reserved. -/
theorem NamesSettled.wish (h : w.NamesSettled) {block : Block} {wanted : String} (hb : block ∈ w.blocks)
    (hwish : block.preferredName? = some wanted) :
    wanted ∈ w.codeNames ∨ wanted ∈ reservedMembers := by
  by_cases hname : block.codeName = some wanted
  · exact .inl (mem_codeNames_of_block hb hname)
  · exact h block hb wanted hwish hname

/-- The wishes are the same before and after a naming pass. -/
theorem map_preferredName?_assignNames (w : Workflow μ) :
    w.assignNames.blocks.map Block.preferredName? = w.blocks.map Block.preferredName? := by
  have hsame := congrArg (List.map Block.preferredName?)
    (map_unnamed_of_unnamed w.unnamed_assignNames)
  rwa [List.map_map, List.map_map] at hsame

/-- What is wished for is held before the pass, or reserved, or held after it. -/
theorem wish_assignNames {block : Block} {wanted : String} (hb : block ∈ w.blocks)
    (hwish : block.preferredName? = some wanted) :
    wanted ∈ w.codeNames ∨ wanted ∈ reservedMembers ∨ wanted ∈ w.assignNames.codeNames := by
  have hlist := wish_mapStateList (w.codeNames ++ reservedMembers) hb hwish
  rw [List.mem_append] at hlist
  rcases hlist with (hheld | hreserved) | hchosen
  · exact .inl hheld
  · exact .inr (.inl hreserved)
  · refine .inr (.inr (List.mem_append_left _ ?_))
    rw [filterMap_codeName_assignNames]
    exact hchosen

/-- A pass leaves a settled workflow alone if everything in it has its name. -/
theorem assignNames_eq_self (h : w.NamesSettled)
    (hblocks : ∀ block ∈ w.blocks, block.codeName.isSome = true)
    (hslots : ∀ slot ∈ w.slots, slot.external = true → slot.codeName.isSome = true) :
    w.assignNames = w := by
  -- all the while the names that are taken are those that are held or reserved
  have hfirst : ∀ taken : List String,
      (∀ name, name ∈ taken ↔ name ∈ w.codeNames ∨ name ∈ reservedMembers) → ∀ block ∈ w.blocks,
      (block.assignName taken).1 = block ∧
        ∀ name, name ∈ (block.assignName taken).2 ↔ name ∈ w.codeNames ∨ name ∈ reservedMembers := by
    intro taken htaken block hb
    obtain ⟨name, hname⟩ := Option.isSome_iff_exists.mp (hblocks block hb)
    have hself := Block.assignName_eq_self taken hname fun wanted hwish =>
      .inr ((htaken wanted).mpr (h.wish hb hwish))
    rw [hself]
    refine ⟨rfl, fun other => ?_⟩
    rw [List.mem_cons, htaken]
    refine ⟨?_, .inr⟩
    rintro (rfl | hother)
    · exact .inl (mem_codeNames_of_block hb hname)
    · exact hother
  have hsecond : ∀ taken : List String, ∀ block ∈ w.blocks,
      block.assignSlotNames taken = (block, taken) := by
    intro taken block hb
    rw [Block.assignSlotNames, Slot.assignNames_eq_self fun slot hs =>
      hslots slot (mem_slots.mpr ⟨block, hb, hs⟩)]
  have hpass : (w.mapBlocksState Block.assignName (w.codeNames ++ reservedMembers)).1 = w := by
    have hroot := hfirst _ (fun _ => List.mem_append) w.root w.root_mem_blocks
    have hbody := Forest.mapState_eq_self w.body hroot.2 fun taken htaken block hb =>
      hfirst taken htaken block (mem_blocks_of_mem_body hb)
    rw [mapBlocksState, hroot.1, hbody.1]
  rw [assignNames, hpass]
  generalize (w.mapBlocksState Block.assignName (w.codeNames ++ reservedMembers)).2 = taken
  have hroot := hsecond taken w.root w.root_mem_blocks
  have hbody := Forest.mapState_eq_self (P := fun _ => True) (s := taken) w.body trivial
    fun taken _ block hb => ⟨congrArg Prod.fst (hsecond taken block (mem_blocks_of_mem_body hb)),
      trivial⟩
  rw [mapBlocksState, hroot, hbody.1]

/-- A pass that changes nothing leaves nobody with a wish for a free name. -/
theorem settled_of_assignNames_eq (h : w.assignNames = w) : w.NamesSettled := by
  intro block hb wanted hwish _
  rcases wish_assignNames hb hwish with hheld | hreserved | hafter
  · exact .inl hheld
  · exact .inr hreserved
  · rw [h] at hafter
    exact .inl hafter

-- ---------------------------------------------------------------------------
-- One pass after the other
-- ---------------------------------------------------------------------------

/-- A second pass changes something exactly if the first one leaves a wish open. -/
theorem assignNames_assignNames_iff (w : Workflow μ) :
    w.assignNames.assignNames = w.assignNames ↔ w.assignNames.NamesSettled := by
  refine ⟨settled_of_assignNames_eq, fun hsettled => ?_⟩
  obtain ⟨hblocks, hslots⟩ := w.named_assignNames
  exact assignNames_eq_self hsettled hblocks hslots

/-- A pass leaves a wish open exactly if somebody gives a name up in it that somebody wishes for, and
nobody takes it. -/
theorem settled_assignNames_iff (h : NamedApart w.codeNames) :
    w.assignNames.NamesSettled ↔ w.KeepsWishes := by
  constructor
  · intro hsettled block hb wanted hwish hheld
    have hmem := List.mem_map_of_mem (f := Block.preferredName?) hb
    rw [← map_preferredName?_assignNames, List.mem_map] at hmem
    obtain ⟨after, ha, hsame⟩ := hmem
    exact (hsettled.wish ha (hsame.trans hwish)).resolve_right (h.usable wanted hheld).reserved
  · intro hkeeps block hb wanted hwish _
    have hmem := List.mem_map_of_mem (f := Block.preferredName?) hb
    rw [map_preferredName?_assignNames, List.mem_map] at hmem
    obtain ⟨before, hbefore, hsame⟩ := hmem
    rcases wish_assignNames hbefore (hsame.trans hwish) with hheld | hreserved | hafter
    · exact .inl (hkeeps before hbefore wanted (hsame.trans hwish) hheld)
    · exact .inr hreserved
    · exact .inl hafter

/-- The generation of a program under a valid name is a naming pass. -/
theorem generate_snd {options : ProgramOptions} (form : ProgramForm)
    (h : ofName? options.className = some options.className) :
    (w.generate options form).2 = w.assignNames := by
  rw [generate, if_pos h]

/-- **When one naming pass is enough.** A second pass in a row changes nothing exactly if no name is
given up in the first one that some value's user chose. The same condition says when the first pass
leaves no value without the name its user chose while that name is free, and when a second program
uses the identifiers of the first one, whatever the forms of the two. -/
theorem Reachable.settles_iff (h : w.Reachable) :
    (w.assignNames.assignNames = w.assignNames ↔ w.KeepsWishes) ∧
      (w.assignNames.NamesSettled ↔ w.KeepsWishes) ∧
      ∀ options options' : ProgramOptions, ∀ form form' : ProgramForm,
        ofName? options.className = some options.className →
        ofName? options'.className = some options'.className →
        (((w.generate options form).2.generate options' form').2 = (w.generate options form).2 ↔
          w.KeepsWishes) := by
  have hsettled := settled_assignNames_iff h.namedApart
  have htwice := w.assignNames_assignNames_iff.trans hsettled
  refine ⟨htwice, hsettled, fun options options' form form' hname hname' => ?_⟩
  rw [generate_snd form hname, generate_snd form' hname']
  exact htwice

/-- Two values for which one name is chosen: the first of them has it after one pass. -/
theorem settles_iff_of_oneName :
    ∃ v w : Workflow Unit,
      (new "uid-" "Plan" .empty).perform (.addBlock rootId (.named "heat flux" .field) none) =
        .ok (.block ⟨1⟩, v) ∧
      v.perform (.addBlock rootId (.named "heat flux" .field) none) = .ok (.block ⟨3⟩, w) ∧
      w.assignNames.codeNames = ["workflow_1", "heat_flux", "variable_1"] ∧
      w.assignNames.assignNames = w.assignNames ∧ w.assignNames.NamesSettled ∧
      ((w.generate ({} : ProgramOptions) .component).2.generate {} .execution).2 =
        (w.generate {} .component).2 := by
  obtain ⟨htwice, hsettled, hgenerate⟩ := Reachable.settles_iff
    (@Reachable.edited Unit _ _ (.addBlock rootId (.named "heat flux" .field) none) _
      (@Reachable.edited Unit _ _ (.addBlock rootId (.named "heat flux" .field) none) _
        (.new "uid-" "Plan" .empty) rfl) rfl)
  refine ⟨_, _, rfl, rfl, by decide +kernel, htwice.mpr ?_, hsettled.mpr ?_,
    (hgenerate {} {} .component .execution ?_ ?_).mpr ?_⟩ <;> decide +kernel

/-- A history after which one pass is not enough. The second of two values for which one name is
chosen gets a numbered name, then the first value goes, and a value comes before the second for which
that numbered name is chosen. The next pass visits the newcomer while the name is held, and hands the
name its user chose to the other one after that; it takes one more pass until the newcomer moves. -/
theorem not_settled_of_handed_over :
    ∃ w : Workflow Unit, w.Reachable ∧
      w.assignNames.codeNames = ["workflow_1", "variable_2", "y"] ∧
      w.assignNames.assignNames.codeNames = ["workflow_1", "variable_1", "y"] ∧
      ¬w.assignNames.NamesSettled ∧
      ((w.generate {} .component).2.generate {} .execution).2.codeNames ≠
        (w.generate {} .component).2.codeNames := by
  have hfirst := @Reachable.edited Unit _ _ (.addBlock rootId (.named "y" .double) none) _
    (.new "uid-" "Plan" .empty) rfl
  have hsecond := (@Reachable.edited Unit _ _ (.addBlock rootId (.named "y" .double) none) _
    hfirst rfl).named
  have hgone := @Reachable.edited Unit _ _ (.removeBlock ⟨1⟩) _ hsecond rfl
  have hthird := @Reachable.edited Unit _ _
    (.addBlock rootId (.named "variable_1" .double) none) _ hgone rfl
  have hmoved := @Reachable.edited Unit _ _ (.moveBlock ⟨5⟩ rootId 0) _ hthird rfl
  exact ⟨_, hmoved, by decide +kernel, by decide +kernel, by decide +kernel, by decide +kernel⟩

end Workflow

end SlotFlow
