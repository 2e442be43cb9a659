import SlotFlow.Proofs.Graph.Preserved
import SlotFlow.Proofs.Naming.Identifier
/-!
# A naming pass

A naming pass walks over the blocks and then over the slots, and carries along the names that are
taken. At every moment these are the names that are held and those that are reserved. So a name that
is not taken may be given to the next element, and a name that an element gives up may be given to a
later one.

* `NamedApart` — names that are told apart and usable;
* `Tracks` — what is taken is what is held or reserved: the invariant of the pass;
* `Block.Chooses` — the ways in which a block comes by its name;
* `Block.unnamed`, `Workflow.unnamed` — what a naming pass leaves alone.

## Results

* `Tracks.chooses`, `Tracks.assignName_slot` — a step of the pass keeps the invariant;
* `Tracks.mapStateList` — so does a walk;
* `Workflow.namedApart_assignNames`, `Workflow.named_assignNames` — names are told apart after the
  pass, and every element that needs one has one;
* `Workflow.unnamed_assignNames` — nothing but names has changed.
-/

namespace SlotFlow

-- ---------------------------------------------------------------------------
-- Walks over lists
-- ---------------------------------------------------------------------------

section Walks

variable {α β γ σ : Type}

/-- Changes each element of a list, handing a state from one to the next. -/
def mapStateList (f : σ → α → β × σ) : σ → List α → List β × σ
  | s, [] => ([], s)
  | s, a :: as =>
    let first := f s a
    let others := mapStateList f first.2 as
    (first.1 :: others.1, others.2)

theorem mapStateList_append (f : σ → α → β × σ) (s : σ) (as bs : List α) :
    mapStateList f s (as ++ bs) =
      ((mapStateList f s as).1 ++ (mapStateList f (mapStateList f s as).2 bs).1,
        (mapStateList f (mapStateList f s as).2 bs).2) := by
  induction as generalizing s with
  | nil => rfl
  | cons a as ih => simp only [List.cons_append, mapStateList, ih]

/-- What is changed is some element, in some state. -/
theorem exists_of_mem_mapStateList {f : σ → α → β × σ} {s : σ} {as : List α} {b : β}
    (h : b ∈ (mapStateList f s as).1) : ∃ a ∈ as, ∃ s, b = (f s a).1 := by
  induction as generalizing s with
  | nil => cases h
  | cons a as ih =>
    rcases List.mem_cons.mp h with rfl | h
    · exact ⟨a, List.mem_cons_self, s, rfl⟩
    · obtain ⟨a', ha, hb⟩ := ih h
      exact ⟨a', List.mem_cons_of_mem _ ha, hb⟩

/-- What no step changes stays. -/
theorem map_mapStateList {f : σ → α → β × σ} {g : α → γ} {k : β → γ}
    (h : ∀ s a, k (f s a).1 = g a) (s : σ) (as : List α) :
    (mapStateList f s as).1.map k = as.map g := by
  induction as generalizing s with
  | nil => rfl
  | cons a as ih => simp only [mapStateList, List.map_cons, h, ih]

/-- What is picked from a list depends on what is made of each element. -/
theorem filterMap_of_map_eq {f : α → Option γ} {g : β → Option γ} {as : List α} {bs : List β}
    (h : as.map f = bs.map g) : as.filterMap f = bs.filterMap g := by
  have hpick := congrArg (List.filterMap id) h
  rwa [List.filterMap_map, List.filterMap_map] at hpick

/-- A walk over a forest is one over its labels. -/
theorem Forest.toList_mapState (f : σ → α → β × σ) (s : σ) (forest : Forest α) :
    (forest.mapState f s).1.toList = (mapStateList f s forest.toList).1 ∧
      (forest.mapState f s).2 = (mapStateList f s forest.toList).2 := by
  induction forest generalizing s with
  | nil => exact ⟨rfl, rfl⟩
  | node a below after ihBelow ihAfter =>
    simp only [mapState, toList_node, mapStateList, mapStateList_append, ihBelow, ihAfter,
      and_self]

/-- A change of labels that no step of a walk touches. -/
theorem Forest.map_mapState {f : σ → α → β × σ} {g : α → γ} {k : β → γ}
    (h : ∀ s a, k (f s a).1 = g a) (s : σ) (forest : Forest α) :
    (forest.mapState f s).1.map k = forest.map g := by
  induction forest generalizing s with
  | nil => rfl
  | node a below after ihBelow ihAfter => simp only [mapState, map, h, ihBelow, ihAfter]

/-- Where every step leaves its label alone, as long as the state has a property, so does the
walk. -/
theorem Forest.mapState_eq_self {f : σ → α → α × σ} {P : σ → Prop} {s : σ} (forest : Forest α)
    (hs : P s) (h : ∀ s, P s → ∀ a ∈ forest.toList, (f s a).1 = a ∧ P (f s a).2) :
    (forest.mapState f s).1 = forest ∧ P (forest.mapState f s).2 := by
  induction forest generalizing s with
  | nil => exact ⟨rfl, hs⟩
  | node a below after ihBelow ihAfter =>
    obtain ⟨ha, hfirst⟩ := h s hs a List.mem_cons_self
    obtain ⟨hbelow, hnext⟩ := ihBelow hfirst fun s hs b hb =>
      h s hs b (List.mem_cons_of_mem _ (List.mem_append_left _ hb))
    obtain ⟨hafter, hlast⟩ := ihAfter hnext fun s hs b hb =>
      h s hs b (List.mem_cons_of_mem _ (List.mem_append_right _ hb))
    refine ⟨?_, hlast⟩
    simp only [mapState]
    rw [ha, hbelow, hafter]

end Walks

-- ---------------------------------------------------------------------------
-- Names that are held
-- ---------------------------------------------------------------------------

open Identifier

/-- Names that are told apart, each of them usable. -/
structure NamedApart (held : List String) : Prop where
  nodup : held.Nodup
  usable : ∀ name ∈ held, IsUsable name

/-- What is taken is what is held or reserved. -/
structure Tracks (taken held : List String) : Prop where
  apart : NamedApart held
  mem : ∀ name, name ∈ taken ↔ name ∈ held ∨ name ∈ reservedMembers

theorem NamedApart.of_subperm {held fewer : List String} (h : NamedApart held)
    (hsub : fewer.Subperm held) : NamedApart fewer where
  nodup := by
    obtain ⟨same, hperm, hsame⟩ := hsub
    exact hperm.nodup_iff.mp (h.nodup.sublist hsame)
  usable name hname := h.usable name (hsub.subset hname)

/-- A name that two elements have in a list is the name of one element. -/
theorem eq_of_nodup_filterMap {α β : Type} {f : α → Option β} {as : List α}
    (h : (as.filterMap f).Nodup) {a b : α} {x : β} (ha : a ∈ as) (hb : b ∈ as) (hfa : f a = some x)
    (hfb : f b = some x) : a = b := by
  induction as with
  | nil => cases ha
  | cons c as ih =>
    have hfirst : f c = some x → ∀ d ∈ as, f d = some x → False := by
      intro hfc d hd hfd
      rw [List.filterMap_cons_some hfc] at h
      exact (List.nodup_cons.mp h).1 (List.mem_filterMap.mpr ⟨d, hd, hfd⟩)
    have hrest : (as.filterMap f).Nodup := h.sublist ((List.sublist_cons_self c as).filterMap f)
    rcases List.mem_cons.mp ha with rfl | hina
    · rcases List.mem_cons.mp hb with rfl | hinb
      · rfl
      · exact (hfirst hfa b hinb hfb).elim
    · rcases List.mem_cons.mp hb with rfl | hinb
      · exact (hfirst hfb a hina hfa).elim
      · exact ih hrest hina hinb

namespace Tracks

variable {taken held others : List String} {name : String}

theorem perm (h : Tracks taken held) (hp : held.Perm others) : Tracks taken others where
  apart := h.apart.of_subperm hp.symm.subperm
  mem name := by rw [h.mem, hp.mem_iff]

/-- At the start everything that is held or reserved is taken. -/
theorem start (h : NamedApart held) : Tracks (held ++ reservedMembers) held where
  apart := h
  mem _ := List.mem_append

theorem reserved_subset (h : Tracks taken held) : reservedMembers ⊆ taken :=
  fun name hname => (h.mem name).mpr (.inr hname)

/-- A usable name that is not taken may be held. -/
theorem cons (h : Tracks taken others) (hfree : name ∉ taken) (husable : IsUsable name) :
    Tracks (name :: taken) (name :: others) where
  apart := by
    refine ⟨List.nodup_cons.mpr ⟨fun hm => hfree ((h.mem name).mpr (.inl hm)), h.apart.nodup⟩, ?_⟩
    intro n hn
    rcases List.mem_cons.mp hn with rfl | hn
    · exact husable
    · exact h.apart.usable n hn
  mem n := by rw [List.mem_cons, List.mem_cons, h.mem, or_assoc]

/-- A name that is held may be taken once more. -/
theorem again (h : Tracks taken held) (hname : name ∈ held) : Tracks (name :: taken) held where
  apart := h.apart
  mem n := by
    rw [List.mem_cons, h.mem]
    refine ⟨?_, .inr⟩
    rintro (rfl | hn)
    · exact .inl hname
    · exact hn

/-- A name that is given up is no longer taken. -/
theorem release (h : Tracks taken (name :: others)) :
    Tracks (taken.filter (· ≠ name)) others where
  apart := h.apart.of_subperm (List.sublist_cons_self ..).subperm
  mem n := by
    have hnot := (List.nodup_cons.mp h.apart.nodup).1
    have hreserved := (h.apart.usable name List.mem_cons_self).reserved
    rw [List.mem_filter, h.mem, List.mem_cons, decide_eq_true_eq]
    constructor
    · rintro ⟨(rfl | hn) | hn, hne⟩
      · exact absurd rfl hne
      · exact .inl hn
      · exact .inr hn
    · rintro (hn | hn)
      · exact ⟨.inl (.inr hn), fun heq => hnot (heq ▸ hn)⟩
      · exact ⟨.inr hn, fun heq => hreserved (heq ▸ hn)⟩

end Tracks

theorem filterMap_cons_toList {α β : Type} (f : α → Option β) (a : α) (as : List α) :
    (a :: as).filterMap f = (f a).toList ++ as.filterMap f := by
  cases h : f a <;> simp [h]

/-- Where every step keeps track of the names, so does a walk. -/
theorem Tracks.mapStateList {α : Type} {f : List String → α → α × List String}
    {name : α → Option String}
    (hf : ∀ taken others a, Tracks taken ((name a).toList ++ others) →
      Tracks (f taken a).2 ((name (f taken a).1).toList ++ others))
    {taken others : List String} {as : List α} (h : Tracks taken (others ++ as.filterMap name)) :
    Tracks (SlotFlow.mapStateList f taken as).2
      (others ++ (SlotFlow.mapStateList f taken as).1.filterMap name) := by
  induction as generalizing taken others with
  | nil => exact h
  | cons a as ih =>
    rw [filterMap_cons_toList] at h
    have hfirst := hf taken (others ++ as.filterMap name) a
      (h.perm (by simpa using List.perm_append_comm_assoc others (name a).toList _))
    have hnext : Tracks (f taken a).2 (others ++ (name (f taken a).1).toList ++ as.filterMap name) :=
      hfirst.perm (by simpa using List.perm_append_comm_assoc (name (f taken a).1).toList others _)
    have hrest := ih hnext
    rw [List.append_assoc, ← filterMap_cons_toList] at hrest
    exact hrest

-- ---------------------------------------------------------------------------
-- Blocks
-- ---------------------------------------------------------------------------

namespace Block

/-- How a block comes by its name, and what is taken then. -/
inductive Chooses (taken : List String) (block : Block) : String → List String → Prop where
  /-- It keeps its name: it wants no other one, or the one that it wants is taken. -/
  | kept {name : String} (hname : block.codeName = some name)
      (hwish : ∀ wanted, block.preferredName? = some wanted → wanted = name ∨ wanted ∈ taken) :
      Chooses taken block name (name :: taken)
  /-- It gives its name up for the one that it wants. -/
  | moved {old wanted : String} (hname : block.codeName = some old)
      (hwish : block.preferredName? = some wanted) (hne : wanted ≠ old) (hfree : wanted ∉ taken) :
      Chooses taken block wanted (wanted :: taken.filter (· ≠ old))
  /-- It has had no name, and gets the one that it wants. -/
  | wished {wanted : String} (hname : block.codeName = none)
      (hwish : block.preferredName? = some wanted) (hfree : wanted ∉ taken) :
      Chooses taken block wanted (wanted :: taken)
  /-- It has had no name, and gets a numbered one. -/
  | numbered (hname : block.codeName = none)
      (hwish : ∀ wanted, block.preferredName? = some wanted → wanted ∈ taken) :
      Chooses taken block (firstFree block.kind.codeStem taken)
        (firstFree block.kind.codeStem taken :: taken)

/-- There are no other ways. -/
theorem chooses_chooseName (taken : List String) (block : Block) :
    block.Chooses taken (block.chooseName taken).1 (block.chooseName taken).2 := by
  cases hname : block.codeName with
  | none =>
    rw [chooseName, hname]
    dsimp only
    split
    · rename_i hnone
      refine .numbered hname fun wanted hw => ?_
      rw [hnone] at hw
      cases hw
    · rename_i wanted hwanted
      rw [if_neg (Option.some_ne_none wanted).symm]
      split
      · rename_i htaken
        refine .numbered hname fun other ho => ?_
        rw [hwanted] at ho
        exact Option.some.inj ho ▸ htaken
      · rename_i hfree
        exact .wished hname hwanted hfree
  | some current =>
    rw [chooseName, hname]
    dsimp only
    split
    · rename_i hnone
      refine .kept hname fun wanted hw => ?_
      rw [hnone] at hw
      cases hw
    · rename_i wanted hwanted
      have honly : ∀ other, block.preferredName? = some other → wanted = other := by
        intro other ho
        rw [hwanted] at ho
        exact Option.some.inj ho
      split
      · rename_i hcurrent
        exact .kept (hname.trans hcurrent) fun other ho => .inl (honly other ho).symm
      · rename_i hcurrent
        split
        · rename_i htaken
          exact .kept hname fun other ho => .inr (honly other ho ▸ htaken)
        · rename_i hfree
          exact .moved hname hwanted (fun heq => hcurrent (congrArg some heq.symm)) hfree

/-- The name that a user asks for is usable where all names that are reserved are taken. -/
theorem isUsable_of_preferredName? {block : Block} {wanted : String} {taken : List String}
    (h : block.preferredName? = some wanted) (htaken : reservedMembers ⊆ taken)
    (hfree : wanted ∉ taken) : IsUsable wanted := by
  unfold preferredName? at h
  split at h
  · obtain ⟨hword, hkeyword⟩ := isWord_of_ofName? h
    exact ⟨hword, hkeyword, fun hm => hfree (htaken hm)⟩
  · cases h

end Block

/-- A block that comes by its name keeps track of the names. -/
theorem Tracks.chooses {taken taken' others : List String} {block : Block} {name : String}
    (h : Tracks taken (block.codeName.toList ++ others)) (hc : block.Chooses taken name taken') :
    Tracks taken' (name :: others) := by
  have hreserved := h.reserved_subset
  cases hc with
  | kept hname _ =>
    rw [hname] at h
    exact h.again List.mem_cons_self
  | moved hname hwish _ hfree =>
    rw [hname] at h
    refine h.release.cons (fun hm => hfree (List.mem_of_mem_filter hm)) ?_
    exact Block.isUsable_of_preferredName? hwish hreserved hfree
  | wished hname hwish hfree =>
    rw [hname] at h
    exact h.cons hfree (Block.isUsable_of_preferredName? hwish hreserved hfree)
  | numbered hname _ =>
    rw [hname] at h
    exact h.cons (firstFree_not_mem _ _) (isUsable_firstFree (BlockKind.isWord_codeStem _) hreserved)

-- ---------------------------------------------------------------------------
-- Slots
-- ---------------------------------------------------------------------------

/-- A slot that has a name or needs none stays as it is, and others get a numbered one. -/
theorem Tracks.assignName_slot {taken others : List String} {slot : Slot}
    (h : Tracks taken (slot.codeName.toList ++ others)) :
    Tracks (slot.assignName taken).2 ((slot.assignName taken).1.codeName.toList ++ others) := by
  unfold Slot.assignName
  split
  · rename_i stem hname hstem
    rw [hname] at h
    exact h.cons (firstFree_not_mem _ _)
      (isUsable_firstFree (Slot.isWord_codeStem? hstem) h.reserved_subset)
  · exact h

theorem Slot.assignNames_eq (taken : List String) (slots : List Slot) :
    Slot.assignNames taken slots = mapStateList Slot.assignName taken slots := by
  induction slots generalizing taken with
  | nil => rfl
  | cons slot slots ih => simp only [Slot.assignNames, mapStateList, ih]

/-- A walk over blocks that names their slots is one over all their slots. -/
theorem flatMap_slots_mapStateList (taken : List String) (blocks : List Block) :
    (mapStateList Block.assignSlotNames taken blocks).1.flatMap Block.slots =
      (mapStateList Slot.assignName taken (blocks.flatMap Block.slots)).1 := by
  induction blocks generalizing taken with
  | nil => rfl
  | cons block blocks ih =>
    simp only [mapStateList, List.flatMap_cons, mapStateList_append, ih, Block.assignSlotNames,
      Slot.assignNames_eq]

theorem Slot.id_assignName (slot : Slot) (taken : List String) :
    (slot.assignName taken).1.id = slot.id := by
  unfold assignName
  split <;> rfl

theorem Slot.external_assignName (slot : Slot) (taken : List String) :
    (slot.assignName taken).1.external = slot.external := by
  unfold assignName
  split <;> rfl

/-- A slot on the border has a name after it has been given one. -/
theorem Slot.isSome_assignName {slot : Slot} (h : slot.external = true) (taken : List String) :
    (slot.assignName taken).1.codeName.isSome = true := by
  have hstem : ∃ stem, slot.codeStem? = some stem := by
    unfold codeStem?
    rw [if_pos h]
    split <;> exact ⟨_, rfl⟩
  obtain ⟨stem, hstem⟩ := hstem
  unfold assignName
  rw [hstem]
  cases hname : slot.codeName with
  | none => rfl
  | some name => rw [hname]; rfl

-- ---------------------------------------------------------------------------
-- What stays
-- ---------------------------------------------------------------------------

/-- A slot without its identifier. -/
def Slot.unnamed (slot : Slot) : Slot :=
  { slot with codeName := none }

/-- A block without its identifier and those of its slots. -/
def Block.unnamed (block : Block) : Block :=
  { block with codeName := none, slots := block.slots.map Slot.unnamed }

theorem Slot.unnamed_assignName (taken : List String) (slot : Slot) :
    (slot.assignName taken).1.unnamed = slot.unnamed := by
  unfold assignName
  split <;> rfl

theorem Block.unnamed_assignSlotNames (taken : List String) (block : Block) :
    (block.assignSlotNames taken).1.unnamed = block.unnamed := by
  simp only [unnamed, assignSlotNames, Slot.assignNames_eq, map_mapStateList Slot.unnamed_assignName]

namespace Workflow

variable {μ : Type} {w : Workflow μ}

/-- A workflow without identifiers. -/
def unnamed (w : Workflow μ) : Workflow μ :=
  w.mapBlocks Block.unnamed

/-- A walk over a workflow is one over its blocks. -/
theorem blocks_mapBlocksState {σ : Type} (f : σ → Block → Block × σ) (s : σ) :
    (w.mapBlocksState f s).1.blocks = (mapStateList f s w.blocks).1 ∧
      (w.mapBlocksState f s).2 = (mapStateList f s w.blocks).2 := by
  have hbody := Forest.toList_mapState f (f s w.root).2 w.body
  simp only [blocks_eq, mapBlocksState, mapStateList, hbody, and_self]

theorem unnamed_mapBlocksState {σ : Type} {f : σ → Block → Block × σ}
    (h : ∀ s block, (f s block).1.unnamed = block.unnamed) (s : σ) :
    (w.mapBlocksState f s).1.unnamed = w.unnamed := by
  simp only [unnamed, mapBlocks, mapBlocksState, h, Forest.map_mapState h]

/-- A naming pass changes nothing but identifiers. -/
theorem unnamed_assignNames (w : Workflow μ) : w.assignNames.unnamed = w.unnamed := by
  unfold assignNames
  rw [unnamed_mapBlocksState Block.unnamed_assignSlotNames, unnamed_mapBlocksState fun _ _ => rfl]

/-- The blocks of workflows that differ in identifiers only do so, too. -/
theorem map_unnamed_of_unnamed {v : Workflow μ} (h : v.unnamed = w.unnamed) :
    v.blocks.map Block.unnamed = w.blocks.map Block.unnamed := by
  rw [← blocks_mapBlocks, ← blocks_mapBlocks]
  exact congrArg blocks h

@[simp] theorem links_assignNames (w : Workflow μ) : w.assignNames.links = w.links := rfl

-- ---------------------------------------------------------------------------
-- The pass
-- ---------------------------------------------------------------------------

/-- The names that blocks choose, one after the other. -/
def chosenBlocks (w : Workflow μ) : List Block × List String :=
  mapStateList Block.assignName (w.codeNames ++ reservedMembers) w.blocks

/-- After the blocks the slots are named. -/
theorem blocks_assignNames (w : Workflow μ) :
    w.assignNames.blocks =
      (mapStateList Block.assignSlotNames w.chosenBlocks.2 w.chosenBlocks.1).1 := by
  have hblocks := blocks_mapBlocksState (w := w) Block.assignName (w.codeNames ++ reservedMembers)
  rw [← chosenBlocks] at hblocks
  rw [assignNames, (blocks_mapBlocksState ..).1, hblocks.1, hblocks.2]

theorem map_codeName_assignNames (w : Workflow μ) :
    w.assignNames.blocks.map Block.codeName = w.chosenBlocks.1.map Block.codeName := by
  rw [blocks_assignNames]
  exact map_mapStateList (f := Block.assignSlotNames) (fun _ _ => rfl) ..

theorem filterMap_codeName_assignNames (w : Workflow μ) :
    w.assignNames.blocks.filterMap Block.codeName = w.chosenBlocks.1.filterMap Block.codeName :=
  filterMap_of_map_eq w.map_codeName_assignNames

theorem slots_assignNames (w : Workflow μ) :
    w.assignNames.slots = (mapStateList Slot.assignName w.chosenBlocks.2 w.slots).1 := by
  have hsame : w.chosenBlocks.1.map Block.slots = w.blocks.map Block.slots :=
    map_mapStateList (f := Block.assignName) (fun _ _ => rfl) ..
  rw [slots_eq, blocks_assignNames, flatMap_slots_mapStateList, List.flatMap_def, hsame,
    ← List.flatMap_def, ← slots_eq]

/-- The blocks choose names that are told apart from each other and from those of the slots. -/
theorem tracks_chosenBlocks (h : NamedApart w.codeNames) :
    Tracks w.chosenBlocks.2
      (w.slots.filterMap Slot.codeName ++ w.chosenBlocks.1.filterMap Block.codeName) := by
  have hstart : Tracks (w.codeNames ++ Identifier.reservedMembers)
      (w.slots.filterMap Slot.codeName ++ w.blocks.filterMap Block.codeName) :=
    (Tracks.start h).perm List.perm_append_comm
  refine hstart.mapStateList fun taken others block hb => ?_
  exact hb.chooses (block.chooses_chooseName taken)

/-- **Names are told apart after a naming pass** if they are before. -/
theorem namedApart_assignNames (h : NamedApart w.codeNames) :
    NamedApart w.assignNames.codeNames := by
  have hslots := ((tracks_chosenBlocks h).perm List.perm_append_comm).mapStateList
    fun _ _ _ hs => hs.assignName_slot
  rw [codeNames, filterMap_codeName_assignNames, slots_assignNames]
  exact hslots.apart

/-- After a naming pass every block and every slot on the border has a name. -/
theorem named_assignNames (w : Workflow μ) :
    (∀ block ∈ w.assignNames.blocks, block.codeName.isSome = true) ∧
      ∀ slot ∈ w.assignNames.slots, slot.external = true → slot.codeName.isSome = true := by
  constructor
  · intro block hb
    have hname := List.mem_map_of_mem (f := Block.codeName) hb
    rw [map_codeName_assignNames, List.mem_map] at hname
    obtain ⟨chosen, hc, hname⟩ := hname
    obtain ⟨_, -, _, rfl⟩ := exists_of_mem_mapStateList hc
    rw [← hname]
    rfl
  · intro slot hs hext
    rw [slots_assignNames] at hs
    obtain ⟨old, -, taken, rfl⟩ := exists_of_mem_mapStateList hs
    rw [Slot.external_assignName] at hext
    exact Slot.isSome_assignName hext taken

end Workflow

end SlotFlow
