import SlotFlow.Proofs.Document.Built
import SlotFlow.Proofs.Document.Recorded
import SlotFlow.Proofs.Document.Storable
/-!
# The blocks that a text keeps

What a text holds of a workflow are the records that are finite. A constant with a double that is not has
no record there, and so it does not come back. No other block goes with it: a constant is no container, so
nothing stands below it. Its slots and links are recorded, but they find no owner.

So the tree that comes back is the tree that was saved without its constants that are not finite, and the
doubles of the others are what the conversion makes of their texts.

* `Block.mapDoubles` — a block with other doubles.

## Results

* `Forest.Nested.entries_prune` — the records of blocks that are left when blocks without children go;
* `Workflow.map_recordOfBlock_of_labels` — the records of blocks depend on what comes of them by
  themselves;
* `Workflow.Storable.exists_reread` — the blocks that come back from a text;
* `Workflow.Built.blocks_of_save` — all of them do, unchanged, exactly if every double comes back.
-/

namespace SlotFlow

/-- A container holds no doubles. -/
theorem BlockKind.isFinite_of_isContainer {kind : BlockKind} (h : kind.isContainer = true) :
    kind.isFinite = true := by
  cases kind with
  | workflow | sequential | timeLoop | ifElse => rfl
  | model _ | constant _ | named _ _ | code _ => cases h

-- ---------------------------------------------------------------------------
-- Blocks with other doubles
-- ---------------------------------------------------------------------------

/-- A block with other doubles. -/
def Block.mapDoubles (f : Float → Float) (block : Block) : Block :=
  { block with kind := block.kind.mapDoubles f }

section MapDoubles

variable {f : Float → Float}

theorem BlockKind.isContainer_mapDoubles (kind : BlockKind) :
    (kind.mapDoubles f).isContainer = kind.isContainer := by
  cases kind with
  | constant value => cases value <;> rfl
  | _ => rfl

/-- A constant is made whatever its doubles are. -/
theorem Block.Known.mapDoubles {μ : Type} {registry : Registry μ} {block : Block}
    (h : block.Known registry) : (block.mapDoubles f).Known registry := by
  obtain ⟨id, uid, name, kind, slots, codeName⟩ := block
  cases kind with
  | constant value => cases value <;> exact ⟨_, registry.requests?_of_not_model rfl⟩
  | _ => exact h

end MapDoubles

-- ---------------------------------------------------------------------------
-- The records of a forest
-- ---------------------------------------------------------------------------

namespace Forest

/-- The records of blocks with other doubles. -/
theorem entries_mapDoubles (f : Float → Float) (forest : Forest Block) (parent : String) :
    (forest.map (Block.mapDoubles f)).entries parent =
      (forest.entries parent).map fun entry => (entry.1, entry.2.mapDoubles f) := by
  induction forest generalizing parent with
  | nil => rfl
  | node b below after ihBelow ihAfter =>
    rw [map, entries, entries, ihAfter, List.map_cons, List.map_append, ← ihBelow]
    rfl

/-- The records of blocks do not depend on their numbers and slots. -/
theorem entries_map_label (forest : Forest Block) (parent : String) :
    (forest.map Block.label).entries parent = forest.entries parent := by
  induction forest generalizing parent with
  | nil => rfl
  | node b below after ihBelow ihAfter =>
    rw [map, entries, entries, ihBelow, ihAfter]
    rfl

/-- Without blocks that are no containers, a forest has the records of the others. -/
theorem Nested.entries_prune {forest : Forest Block} (h : forest.Nested) {p : BlockKind → Bool}
    (hp : ∀ kind, kind.isContainer = true → p kind = false) (parent : String) :
    (forest.prune fun block => p block.kind).entries parent =
      (forest.entries parent).filter fun entry => !p entry.2 := by
  induction forest generalizing parent with
  | nil => rfl
  | node b below after ihBelow ihAfter =>
    obtain ⟨hb, hbelow, hafter⟩ := h
    rw [Forest.prune, entries, List.filter_cons, List.filter_append, ← ihBelow hbelow,
      ← ihAfter hafter]
    cases hpb : p b.kind with
    | false => rfl
    | true =>
      -- a block that goes has no children
      have hleaf : below = nil := by
        refine hb.resolve_right fun hcontainer => ?_
        rw [hp _ hcontainer] at hpb
        cases hpb
      rw [hleaf]
      rfl

end Forest

namespace Workflow

variable {μ : Type} {w w' : Workflow μ} {registry : Registry μ} {conversion : Json.Conversion}

/-- A workflow has the records of blocks that a tree calls for if it agrees with it apart from numbers
and slots. -/
theorem map_recordOfBlock_of_labels (hw : w'.WellFormed) {root : Block} {body : Forest Block}
    (h : w'.tree.map Block.label = (Forest.tree root body).map Block.label) :
    w'.blocks.map w'.recordOfBlock =
      .block ⟨root.uid, none, some root.name⟩ root.kind ::
        (body.entries root.uid).map fun entry => .block entry.1 entry.2 := by
  rw [tree, Forest.tree, Forest.tree, Forest.map, Forest.map] at h
  injection h with hroot hbody
  have hname : w'.root.name = root.name := by
    show w'.root.label.name = root.label.name
    rw [hroot]
  rw [hw.map_recordOfBlock, ← Forest.entries_map_label w'.body, hbody, Forest.entries_map_label,
    Block.uid_eq_of_label hroot, Block.kind_eq_of_label hroot, hname]

-- ---------------------------------------------------------------------------
-- Records that are finite, and what becomes of their doubles
-- ---------------------------------------------------------------------------

/-- The doubles in the records of a workflow are those of its blocks. -/
theorem forall_doubles_records_iff {p : Float → Prop} :
    (∀ record ∈ w.records, ∀ x ∈ record.doubles, p x) ↔
      ∀ block ∈ w.blocks, ∀ x ∈ block.kind.doubles, p x := by
  rw [records, List.forall_mem_append, List.forall_mem_append, List.forall_mem_map,
    List.forall_mem_map, List.forall_mem_map]
  refine ⟨fun h => h.1.1, fun h => ⟨⟨h, fun owned _ x hx => ?_⟩, fun link _ x hx => ?_⟩⟩ <;>
    exact absurd hx List.not_mem_nil

/-- The record of the root is among those that are finite. -/
theorem recordedRoot?_filter (records : List Record) :
    recordedRoot? (records.filter Record.isFinite) = recordedRoot? records := by
  induction records with
  | nil => rfl
  | cons record records ih =>
    cases record with
    | block data kind =>
      cases kind with
      | workflow => rfl
      | constant value =>
        rw [List.filter_cons]
        split <;> exact ih
      | _ => exact ih
    | _ => exact ih

theorem recordedBlocks_filter (records : List Record) :
    recordedBlocks (records.filter Record.isFinite) =
      (recordedBlocks records).filter fun entry => entry.2.isFinite := by
  rw [recordedBlocks, List.filterMap_filter, recordedBlocks, List.filter_filterMap]
  refine List.filterMap_congr fun record _ => ?_
  cases record with
  | block data kind =>
    cases kind <;> rfl
  | _ => rfl

/-- Other doubles leave the record of the root alone. -/
theorem recordedRoot?_map (f : Float → Float) (records : List Record) :
    recordedRoot? (records.map (Record.mapDoubles f)) = recordedRoot? records := by
  induction records with
  | nil => rfl
  | cons record records ih =>
    cases record with
    | block data kind =>
      cases kind with
      | workflow => rfl
      | constant value => cases value <;> exact ih
      | _ => exact ih
    | _ => exact ih

theorem recordedBlocks_map (f : Float → Float) (records : List Record) :
    recordedBlocks (records.map (Record.mapDoubles f)) =
      (recordedBlocks records).map fun entry => (entry.1, entry.2.mapDoubles f) := by
  rw [recordedBlocks, List.filterMap_map, recordedBlocks, List.map_filterMap]
  refine List.filterMap_congr fun record _ => ?_
  cases record with
  | block data kind =>
    cases kind with
    | constant value => cases value <;> rfl
    | _ => rfl
  | _ => rfl

/-- The records of slots and links do not touch what comes of the blocks by themselves. -/
theorem exists_ofRecords {records : List Record} {root : BlockData}
    (hroot : recordedRoot? records = some root) (uidStem : String) :
    ∃ w', ofRecords uidStem records registry = .ok w' ∧
      w'.tree.map Block.label = (addRecordedBlocks (recordedBlocks records).length
        (new uidStem (root.name.getD defaultName) registry (some root.uid))
        (recordedBlocks records)).tree.map Block.label := by
  refine ⟨_, by rw [ofRecords, hroot], ?_⟩
  rw [(relinked_addRecordedLinks _ _).labels]
  exact labels_addEntries _ _

-- ---------------------------------------------------------------------------
-- Saving and loading
-- ---------------------------------------------------------------------------

/-- **The blocks that come back from a text** are those whose kinds are finite, in their order, each below
the block it was below and with its doubles reread. -/
theorem Storable.exists_reread (h : w.Storable registry) (conversion : Json.Conversion)
    (hw : w.WellFormed) (hroot : w.root.kind = .workflow) (hnested : w.body.Nested)
    (hlegible : ∀ block ∈ w.blocks, ∀ x ∈ block.kind.doubles, conversion.Legible x)
    (uidStem : String) :
    ∃ w', ofText uidStem w.toText registry conversion = .ok w' ∧
      w'.blocks.map w'.recordOfBlock =
        ((w.blocks.map w.recordOfBlock).filter Record.isFinite).map
          (Record.mapDoubles conversion.reread) := by
  let kept := w.body.prune fun block => !block.kind.isFinite
  have hcontainer : ∀ kind : BlockKind, kind.isContainer = true → (!kind.isFinite) = false := by
    intro kind hkind
    rw [BlockKind.isFinite_of_isContainer hkind]
    rfl
  have hkept : (w.body.entries w.root.uid).filter (fun entry => entry.2.isFinite) =
      kept.entries w.root.uid := by
    rw [hnested.entries_prune hcontainer]
    simp only [Bool.not_not]
  have hread := Document.read?_toText (forall_doubles_records_iff.mpr hlegible)
  obtain ⟨w', hload, hlabels⟩ := @exists_ofRecords _ registry _ _
    ((recordedRoot?_map conversion.reread _).trans
      ((recordedRoot?_filter w.records).trans (recordedRoot?_records hroot))) uidStem
  rw [recordedBlocks_map, recordedBlocks_filter, hw.recordedBlocks_records hroot h.inner, hkept,
    ← Forest.entries_mapDoubles] at hlabels
  have hsub : kept.toList.Sublist w.body.toList := Forest.toList_prune_sublist ..
  have huids : ((kept.map (Block.mapDoubles conversion.reread)).toList.map Block.uid).Sublist
      (w.body.toList.map Block.uid) := by
    rw [Forest.toList_map, List.map_map]
    exact hsub.map Block.uid
  have hknown : ∀ b ∈ (kept.map (Block.mapDoubles conversion.reread)).toList, b.Known registry := by
    rw [Forest.toList_map]
    exact List.forall_mem_map.mpr fun b hb => (h.known (hsub.subset hb)).mapDoubles
  have hdraft := h.drafted hroot huids hknown
    ((hnested.prune _).map fun b => b.kind.isContainer_mapDoubles) uidStem
  refine ⟨w', ?_, ?_⟩
  · rw [ofText, toText, hread]
    exact hload
  · rw [hw.map_recordOfBlock,
      map_recordOfBlock_of_labels (WellFormed.of_ofRecords hload) (hlabels.trans hdraft.tree),
      Forest.entries_mapDoubles, ← hkept, hroot, List.filter_cons_of_pos rfl, List.filter_map,
      List.map_map, List.map_cons, List.map_map]
    rfl

variable {events : List (Event μ)}

/-- **Saving and loading keeps the blocks that are finite.** Take any workflow that has been built without
a change of kinds, and whose blocks can all be made again. Its text can be read exactly if the text of each
of its doubles can. Then what is built from it has its blocks with their uids, parents, names and kinds,
apart from the constants that hold a double that is not finite, and with the doubles reread. So it has all of
them unchanged exactly if every double comes back. -/
theorem Built.blocks_of_save (h : Built events w)
    (hkinds : ∀ event ∈ events, ∀ id kind, event.edit ≠ .setBlockKind id kind)
    (hstorable : w.Storable registry) (conversion : Json.Conversion) (uidStem : String) :
    ((∃ w', ofText uidStem w.toText registry conversion = .ok w') ↔
      ∀ block ∈ w.blocks, ∀ x ∈ block.kind.doubles, conversion.Legible x) ∧
    ∀ w', ofText uidStem w.toText registry conversion = .ok w' →
      w'.blocks.map w'.recordOfBlock =
        ((w.blocks.filter fun block => block.kind.isFinite).map w.recordOfBlock).map
          (Record.mapDoubles conversion.reread) ∧
      (w'.blocks.map w'.recordOfBlock = w.blocks.map w.recordOfBlock ↔
        ∀ block ∈ w.blocks, ∀ x ∈ block.kind.doubles, conversion.reread? x = some x) := by
  have hchronicle := h.chronicle hkinds
  obtain ⟨-, hnested, -⟩ := hchronicle.nested
  have hreread := hstorable.exists_reread conversion h.reachable.wellFormed hchronicle.root hnested
  have hlegible {w'} (hload : ofText uidStem w.toText registry conversion = .ok w') :
      ∀ block ∈ w.blocks, ∀ x ∈ block.kind.doubles, conversion.Legible x := by
    refine forall_doubles_records_iff.mp fun record hrecord x hx => ?_
    by_contra hx'
    rw [ofText, toText, Document.read?_toText_eq_none hrecord hx hx'] at hload
    cases hload
  refine ⟨⟨fun ⟨w', hload⟩ => hlegible hload, fun hlegible => ?_⟩, fun w' hload => ?_⟩
  · obtain ⟨w', hload, -⟩ := hreread hlegible uidStem
    exact ⟨w', hload⟩
  · obtain ⟨_, hload', hrecords⟩ := hreread (hlegible hload) uidStem
    cases hload.symm.trans hload'
    have hfilter : (w.blocks.filter fun block => block.kind.isFinite).map w.recordOfBlock =
        (w.blocks.map w.recordOfBlock).filter Record.isFinite := by
      rw [List.filter_map]
      rfl
    refine ⟨hrecords.trans (congrArg _ hfilter.symm), ?_⟩
    rw [hrecords, Record.map_filter_eq_self_iff (List.forall_mem_map.mpr (hlegible hload)),
      List.forall_mem_map]
    exact .rfl

/-- A workflow with one number. -/
def oneNumber (value : Float) : Workflow Unit :=
  ((new "new-" "Plan" ⟨[]⟩).attachBlock rootId (.constant (.number value)) "FloatVariableBlock"
    (BlockKind.constant (.number value)).defaultSlots none).2

theorem built_oneNumber (value : Float) :
    Built [⟨new "new-" "Plan" ⟨[]⟩, .addBlock rootId (.constant (.number value)) none, .block ⟨1⟩,
      oneNumber value⟩] (oneNumber value) :=
  .edited (.new ..) rfl

theorem storable_oneNumber (value : Float) : (oneNumber value).Storable ⟨[]⟩ := by
  refine .of_no_models ?_ fun block hb => ?_
  · show ["new-0", "new-1"].Nodup
    decide
  · rw [List.mem_singleton.mp hb]
    exact ⟨nofun, rfl⟩

theorem forall_doubles_oneNumber {value : Float} {p : Float → Prop} (h : p value) :
    ∀ block ∈ (oneNumber value).blocks, ∀ x ∈ block.kind.doubles, p x := by
  intro block hb
  rw [blocks_eq] at hb
  rcases List.mem_cons.mp hb with rfl | hb
  · exact nofun
  · rw [List.mem_singleton.mp hb]
    exact List.forall_mem_singleton.mpr h

/-- A constant of 2.5 comes back. -/
theorem blocks_of_save_of_number :
    ∃ w' : Workflow Unit,
      ofText "again-" (oneNumber (Float.ofBits 0x4004000000000000)).toText ⟨[]⟩ = .ok w' ∧
      w'.blocks.map w'.recordOfBlock =
        [.block ⟨"new-0", none, some "Plan"⟩ .workflow,
         .block ⟨"new-1", some "new-0", some "FloatVariableBlock"⟩
          (.constant (.number (Float.ofBits 0x4004000000000000)))] := by
  have hback : Json.Conversion.scaled.reread? (Float.ofBits 0x4004000000000000) =
      some (Float.ofBits 0x4004000000000000) := by
    decide +kernel
  obtain ⟨hread, hblocks⟩ := (built_oneNumber (Float.ofBits 0x4004000000000000)).blocks_of_save
    (by simp) (storable_oneNumber _) .scaled "again-"
  obtain ⟨w', hload⟩ := hread.mpr (forall_doubles_oneNumber fun _ => by rw [hback, Option.isSome_some])
  exact ⟨w', hload, (hblocks w' hload).2.mpr (forall_doubles_oneNumber hback)⟩

/-- A constant of infinity does not: it is not there any more, and there is no error. -/
theorem not_blocks_kept_of_infinity :
    ∃ (events : List (Event Unit)) (w w' : Workflow Unit), Built events w ∧
      (∀ event ∈ events, ∀ id kind, event.edit ≠ .setBlockKind id kind) ∧ w.Storable ⟨[]⟩ ∧
      ofText "again-" w.toText ⟨[]⟩ = .ok w' ∧
      w.blocks.map w.recordOfBlock =
        [.block ⟨"new-0", none, some "Plan"⟩ .workflow,
         .block ⟨"new-1", some "new-0", some "FloatVariableBlock"⟩
          (.constant (.number (Float.ofBits 0x7FF0000000000000)))] ∧
      w'.blocks.map w'.recordOfBlock = [.block ⟨"new-0", none, some "Plan"⟩ .workflow] := by
  have hbuilt := built_oneNumber (Float.ofBits 0x7FF0000000000000)
  have hstorable := storable_oneNumber (Float.ofBits 0x7FF0000000000000)
  have hinfinite : (Binary64.ofFloat (Float.ofBits 0x7FF0000000000000)).isFinite = false := by
    decide +kernel
  obtain ⟨w', hload, hrecords⟩ := hstorable.exists_reread .scaled
    hbuilt.reachable.wellFormed rfl ⟨.inl rfl, trivial, trivial⟩
    (forall_doubles_oneNumber fun hfinite => absurd (hinfinite.symm.trans hfinite) Bool.false_ne_true)
    "again-"
  refine ⟨_, _, w', hbuilt, by simp, hstorable, hload, rfl, ?_⟩
  have hlost : ((oneNumber (Float.ofBits 0x7FF0000000000000)).body.toList.map
      (oneNumber (Float.ofBits 0x7FF0000000000000)).recordOfBlock).filter Record.isFinite = [] := by
    rw [List.filter_eq_nil_iff]
    refine List.forall_mem_singleton.mpr ?_
    exact ne_true_of_eq_false hinfinite
  rw [hrecords, blocks_eq, List.map_cons, List.filter_cons_of_pos rfl, hlost]
  rfl

end Workflow

end SlotFlow
