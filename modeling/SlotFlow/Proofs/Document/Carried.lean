import SlotFlow.Proofs.Document.Restorable
import SlotFlow.Proofs.Graph.Reachable
/-!
# What edits do to blocks

Whether a document brings a block back depends on how its slots came about. An edit may add a slot
after the others, it may rename or remove one, and it may give one a type or an identifier. All this
leaves the slots that a block was made with in front of the others, in the order in which they were
made, until one of them is renamed or removed.

* `Edit.changedSlot?`, `Edit.kind?`, `Edit.requests?` — what an edit says about slots and blocks;
* `Slot.Carried`, `Block.Carried` — slots and blocks before and after a step;
* `Workflow.Carries` — a step of a workflow, as far as blocks are concerned.

## Results

* `Workflow.WellFormed.carries_perform` — every edit is such a step, apart from changes of kinds;
* `Workflow.carries_assignNames` — and so is a naming pass.
-/

namespace SlotFlow

open Workflow

variable {μ : Type}

-- ---------------------------------------------------------------------------
-- What an edit says
-- ---------------------------------------------------------------------------

namespace Edit

/-- The slot that an edit renames or removes. -/
def changedSlot? : Edit μ → Option SlotId
  | renameSlot slot _ => some slot
  | removeSlot slot => some slot
  | _ => none

/-- The kind of block that an edit asks for. -/
def kind? : Edit μ → Option BlockKind
  | addBlock _ kind _ => some kind
  | addModel _ setup _ => some (.model setup)
  | _ => none

/-- The slots that a block is made with, if an edit asks for one. -/
def requests? (registry : Registry μ) : Edit μ → Option (List SlotRequest)
  | addBlock _ kind _ => some kind.defaultSlots
  | addModel _ setup _ => registry.requests? (.model setup)
  | _ => none

/-- For all but models it does not matter which classes there are. -/
theorem requests?_of_kind? {edit : Edit μ} {kind : BlockKind} (h : edit.kind? = some kind)
    (hmodel : kind.model? = none) (registry other : Registry μ) :
    edit.requests? registry = other.requests? kind := by
  rw [Registry.requests?_of_not_model _ hmodel]
  cases edit <;> cases h
  case addBlock => rfl
  case addModel => cases hmodel

end Edit

-- ---------------------------------------------------------------------------
-- Slots
-- ---------------------------------------------------------------------------

/-- The slots of a block before and after a step. Those that are `touched` may be renamed or go; the
others answer what they answered before. Slots that are `added` come after them. -/
inductive Slot.Carried (touched added : SlotId → Prop) : List Slot → List Slot → Prop where
  | nil : Carried touched added [] []
  | came {slot : Slot} (h : added slot.id) : Carried touched added [] [slot]
  | stayed {s t : Slot} {xs ys : List Slot} (hid : t.id = s.id)
      (hs : ¬touched s.id → ∀ request, s.Answers request → t.Answers request)
      (rest : Carried touched added xs ys) : Carried touched added (s :: xs) (t :: ys)
  | went {s : Slot} {xs ys : List Slot} (h : touched s.id) (rest : Carried touched added xs ys) :
      Carried touched added (s :: xs) ys

namespace Slot.Carried

variable {touched added : SlotId → Prop} {xs ys made others : List Slot}

theorem of_forall₂ (h : List.Forall₂ (fun s t : Slot => t.id = s.id ∧
    (¬touched s.id → ∀ request, s.Answers request → t.Answers request)) xs ys) :
    Carried touched added xs ys := by
  induction h with
  | nil => exact .nil
  | cons hst _ ih => exact .stayed hst.1 hst.2 ih

theorem map {g : Slot → Slot} (hid : ∀ s, (g s).id = s.id)
    (hg : ∀ s ∈ xs, ¬touched s.id → ∀ request, s.Answers request → (g s).Answers request) :
    Carried touched added xs (xs.map g) := by
  apply of_forall₂
  rw [List.forall₂_map_right_iff, List.forall₂_same]
  intro s hs
  exact ⟨hid s, hg s hs⟩

theorem refl (xs : List Slot) : Carried touched added xs xs := by
  apply of_forall₂
  rw [List.forall₂_same]
  intro s _
  exact ⟨rfl, fun _ _ h => h⟩

/-- A slot is removed. -/
theorem filter {id : SlotId} (h : touched id) (xs : List Slot) :
    Carried touched added xs (xs.filter (·.id ∉ [id])) := by
  induction xs with
  | nil => exact .nil
  | cons s xs ih =>
    by_cases hs : s.id = id
    · rw [List.filter_cons_of_neg (by simpa using hs)]
      exact .went (hs ▸ h) ih
    · rw [List.filter_cons_of_pos (by simpa using hs)]
      exact .stayed rfl (fun _ _ h => h) ih

/-- A slot is added. -/
theorem concat {slot : Slot} (h : added slot.id) (xs : List Slot) :
    Carried touched added xs (xs ++ [slot]) := by
  induction xs with
  | nil => exact .came h
  | cons s xs ih => exact .stayed rfl (fun _ _ h => h) ih

/-- A slot was there before, or it has been added. -/
theorem mem (h : Carried touched added xs ys) {t : Slot} (ht : t ∈ ys) :
    (∃ s ∈ xs, s.id = t.id) ∨ added t.id := by
  induction h with
  | nil => cases ht
  | came hadded =>
    rw [List.mem_singleton.mp ht]
    exact .inr hadded
  | stayed hid _ _ ih =>
    rcases List.mem_cons.mp ht with rfl | ht
    · exact .inl ⟨_, List.mem_cons_self, hid.symm⟩
    · refine (ih ht).imp_left ?_
      rintro ⟨s, hs, hst⟩
      exact ⟨s, List.mem_cons_of_mem _ hs, hst⟩
  | went _ _ ih =>
    refine (ih ht).imp_left ?_
    rintro ⟨s, hs, hst⟩
    exact ⟨s, List.mem_cons_of_mem _ hs, hst⟩

/-- A slot that is not touched stays. -/
theorem exists_of_mem (h : Carried touched added xs ys) {s : Slot} (hs : s ∈ xs)
    (hnot : ¬touched s.id) :
    ∃ t ∈ ys, t.id = s.id ∧ ∀ request, s.Answers request → t.Answers request := by
  induction h with
  | nil | came _ => cases hs
  | stayed hid hanswers _ ih =>
    rcases List.mem_cons.mp hs with rfl | hs
    · exact ⟨_, List.mem_cons_self, hid, hanswers hnot⟩
    · obtain ⟨t, ht, hst⟩ := ih hs
      exact ⟨t, List.mem_cons_of_mem _ ht, hst⟩
  | went hgone _ ih =>
    rcases List.mem_cons.mp hs with rfl | hs
    · exact absurd hgone hnot
    · exact ih hs

/-- Slots in front that are not touched stay there. -/
theorem split (h : Carried touched added (made ++ others) ys) (hmade : ∀ s ∈ made, ¬touched s.id) :
    ∃ made' others', ys = made' ++ others' ∧ made'.map Slot.id = made.map Slot.id ∧
      List.Forall₂ (fun s t => ∀ request, Answers request s → Answers request t) made made' ∧
      Carried touched added others others' := by
  induction made generalizing ys with
  | nil => exact ⟨[], ys, rfl, rfl, .nil, h⟩
  | cons s made ih =>
    have hrest : ∀ other ∈ made, ¬touched other.id :=
      fun other ho => hmade other (List.mem_cons_of_mem _ ho)
    cases h with
    | stayed hid hs rest =>
      obtain ⟨made', others', rfl, hids, hanswers, hothers⟩ := ih rest hrest
      refine ⟨_ :: made', others', rfl, ?_, ?_, hothers⟩
      · rw [List.map_cons, List.map_cons, hid, hids]
      · exact .cons (hs (hmade s List.mem_cons_self)) hanswers
    | went hs _ => exact absurd hs (hmade s List.mem_cons_self)

theorem answers {requests : List SlotRequest} {made' : List Slot}
    (h : List.Forall₂ (fun request slot => slot.Answers request) requests made)
    (h' : List.Forall₂ (fun s t => ∀ request, Answers request s → Answers request t) made made') :
    List.Forall₂ (fun request slot => slot.Answers request) requests made' := by
  induction h generalizing made' with
  | nil =>
    cases h'
    exact .nil
  | cons hs _ ih =>
    cases h' with
    | cons ht hrest => exact .cons (ht _ hs) (ih hrest)

end Slot.Carried

-- ---------------------------------------------------------------------------
-- Blocks
-- ---------------------------------------------------------------------------

/-- A block before and after a step. -/
structure Block.Carried (touched added : SlotId → Prop) (b c : Block) : Prop where
  id : c.id = b.id
  kind : c.kind = b.kind
  slots : Slot.Carried touched added b.slots c.slots

theorem Block.Carried.refl (touched added : SlotId → Prop) (b : Block) :
    b.Carried touched added b :=
  ⟨rfl, rfl, .refl _⟩

/-- Only containers have blocks below them, whatever happens inside blocks. -/
theorem Forest.Nested.mapState {forest : Forest Block} (h : forest.Nested) {σ : Type}
    {f : σ → Block → Block × σ} (hf : ∀ s b, (f s b).1.kind = b.kind) (s : σ) :
    (forest.mapState f s).1.Nested := by
  induction forest generalizing s with
  | nil => trivial
  | node b below after ihBelow ihAfter =>
    refine ⟨?_, ihBelow h.2.1 _, ihAfter h.2.2 _⟩
    rw [hf]
    refine h.1.imp_left ?_
    rintro rfl
    rfl

namespace Workflow

variable {w w' : Workflow μ} {touched added : SlotId → Prop} {made : Block → Prop}

/-- A workflow before and after a step. The root stays, as do all blocks that do not go; blocks that
are `made` come. -/
structure Carries (touched added : SlotId → Prop) (made : Block → Prop) (w w' : Workflow μ) :
    Prop where
  root : w.root.Carried touched added w'.root
  body : ∀ c ∈ w'.body.toList, (∃ b ∈ w.body.toList, b.Carried touched added c) ∨ made c
  nested : w.tree.Nested → w'.tree.Nested
  nextId : w.nextId ≤ w'.nextId

/-- Links, classes and numbers do not matter. -/
theorem Carries.congr {v : Workflow μ} (h : w.Carries touched added made v)
    (hroot : w'.root = v.root) (hbody : w'.body = v.body) (hnext : v.nextId ≤ w'.nextId) :
    w.Carries touched added made w' where
  root := by
    rw [hroot]
    exact h.root
  body := by
    rw [hbody]
    exact h.body
  nested := by
    have htree : w'.tree = v.tree := by rw [tree, hroot, hbody, tree]
    rw [htree]
    exact h.nested
  nextId := Nat.le_trans h.nextId hnext

/-- Nothing happens to any block. -/
theorem Carries.refl (w : Workflow μ) : w.Carries touched added made w where
  root := .refl ..
  body c hc := .inl ⟨c, hc, .refl ..⟩
  nested h := h
  nextId := Nat.le_refl _

theorem carries_mapBlocks {f : Block → Block} (hid : ∀ b, (f b).id = b.id)
    (hkind : ∀ b, (f b).kind = b.kind)
    (hslots : ∀ b ∈ w.blocks, Slot.Carried touched added b.slots (f b).slots) :
    w.Carries touched added made (w.mapBlocks f) where
  root := ⟨hid _, hkind _, hslots _ w.root_mem_blocks⟩
  body := by
    intro c hc
    rw [mapBlocks, Forest.toList_map, List.mem_map] at hc
    obtain ⟨b, hb, rfl⟩ := hc
    exact .inl ⟨b, hb, hid b, hkind b, hslots b (mem_blocks_of_mem_body hb)⟩
  nested h := h.map fun b => congrArg _ (hkind b)
  nextId := Nat.le_refl _

/-- A change of slots that keeps their numbers. -/
theorem carries_mapSlots {g : Slot → Slot} (hid : ∀ s, (g s).id = s.id)
    (hg : ∀ s ∈ w.slots, ¬touched s.id → ∀ request, s.Answers request → (g s).Answers request) :
    w.Carries touched added made (w.mapSlots g) := by
  refine carries_mapBlocks (f := fun b => { b with slots := b.slots.map g }) (fun _ => rfl)
    (fun _ => rfl) fun b hb => .map hid fun s hs => hg s ?_
  exact mem_slots.mpr ⟨b, hb, hs⟩

/-- A change of a block's name or identifier. -/
theorem carries_modifyBlock (id : BlockId) {f : Block → Block} (hid : ∀ b, (f b).id = b.id)
    (hkind : ∀ b, (f b).kind = b.kind) (hslots : ∀ b, (f b).slots = b.slots) :
    w.Carries touched added made (w.modifyBlock id f) := by
  refine carries_mapBlocks (fun b => ?_) (fun b => ?_) fun b _ => ?_ <;> split
  · exact hid b
  · rfl
  · exact hkind b
  · rfl
  · rw [hslots]
    exact .refl _
  · exact .refl _

theorem carries_mapBlocksState {σ : Type} {f : σ → Block → Block × σ}
    (hf : ∀ s (b : Block), b.Carried touched added (f s b).1) (s : σ) :
    w.Carries touched added made (w.mapBlocksState f s).1 where
  root := hf s w.root
  body := by
    intro c hc
    have hall := Forest.forall₂_mapState f (f s w.root).2 w.body
    obtain ⟨b, hb, s, rfl⟩ := exists_of_forall₂_right hall hc
    exact .inl ⟨b, hb, hf s b⟩
  nested h := h.mapState (fun s b => (hf s b).kind) s
  nextId := Nat.le_refl _

-- ---------------------------------------------------------------------------
-- Identifiers
-- ---------------------------------------------------------------------------

theorem carried_assignNames (taken : List String) (slots : List Slot) :
    Slot.Carried touched added slots (Slot.assignNames taken slots).1 := by
  induction slots generalizing taken with
  | nil => exact .nil
  | cons slot slots ih =>
    refine .stayed ?_ (fun _ request h => ?_) (ih _)
    · unfold Slot.assignName
      split <;> rfl
    · unfold Slot.assignName
      split
      · exact ⟨h.name, h.kind, h.optional, h.objectId, h.type, h.objectType⟩
      · exact h

/-- A naming pass consists of two steps, in which blocks and slots get identifiers and nothing
else. -/
theorem carries_assignNames (touched added : SlotId → Prop) (made : Block → Prop) (w : Workflow μ) :
    ∃ v, w.Carries touched added made v ∧ v.Carries touched added made w.assignNames := by
  refine ⟨_, ?_, carries_mapBlocksState (f := Block.assignSlotNames) (fun taken b => ?_) _⟩
  · exact carries_mapBlocksState (f := Block.assignName) (fun _ b => ⟨rfl, rfl, .refl _⟩) _
  · exact ⟨rfl, rfl, carried_assignNames taken b.slots⟩

-- ---------------------------------------------------------------------------
-- New blocks
-- ---------------------------------------------------------------------------

/-- An edit is answered with a block that it has made as it says. -/
structure Makes (w : Workflow μ) (edit : Edit μ) (answer : Answer) (block : Block) : Prop where
  answer : answer = .block block.id
  kind : edit.kind? = some block.kind
  slots : ∃ requests, edit.requests? w.registry = some requests ∧
    List.Forall₂ (fun request slot => slot.Answers request) requests block.slots

/-- A block that an edit is answered with has been attached to a container, with the slots of its kind in
front. -/
theorem exists_attachBlock_of_perform {edit : Edit μ} {id : BlockId}
    (he : w.perform edit = .ok (.block id, w')) :
    ∃ parent container kind name requests uid, w.getContainer parent = .ok container ∧
      kind.defaultSlots <+: requests ∧ id = ⟨w.nextId⟩ ∧
      w' = (w.attachBlock parent kind name requests uid).2 := by
  cases edit <;> simp only [Workflow.perform, map_eq_ok, Except.ok.injEq, Prod.mk.injEq,
    Answer.block.injEq, reduceCtorEq, false_and, and_false, exists_false] at he
  case addBlock =>
    obtain ⟨_, ha, rfl, rfl⟩ := he
    obtain ⟨⟨container, hget⟩, rfl⟩ := addBlock_eq_ok.mp ha
    exact ⟨_, container, _, _, _, _, hget, List.prefix_refl _, rfl, rfl⟩
  case addModel parent setup uid =>
    obtain ⟨_, ha, rfl, rfl⟩ := he
    obtain ⟨modelClass, -, -, ⟨container, hget⟩, rfl⟩ := addModelSetup_eq_ok.mp ha
    have hnone : BlockKind.defaultSlots (.model setup) <+: modelClass.declaration.slotRequests :=
      List.nil_prefix
    exact ⟨_, container, _, _, _, _, hget, hnone, rfl, rfl⟩

/-- A block that an edit is answered with has the next number. -/
theorem number_of_perform {edit : Edit μ} {id : BlockId} (he : w.perform edit = .ok (.block id, w')) :
    id.val = w.nextId ∧ w.nextId < w'.nextId := by
  obtain ⟨parent, container, kind, name, requests, uid, -, -, rfl, rfl⟩ :=
    exists_attachBlock_of_perform he
  refine ⟨rfl, ?_⟩
  show w.nextId < w.nextId + 1 + requests.length
  omega

namespace WellFormed

/-- A new block comes below a container. -/
theorem carries_attachBlock (h : w.WellFormed) {parent : BlockId} {container : Block}
    (hget : w.getContainer parent = .ok container) {kind : BlockKind} {name : String}
    {requests : List SlotRequest} {uid : Option String}
    (hmade : made (w.newBlock kind name requests uid)) :
    w.Carries touched added made (w.attachBlock parent kind name requests uid).2 where
  root := by
    have hroot : (w.attachBlock parent kind name requests uid).2.root = w.root :=
      root_modifyBelow ..
    rw [hroot]
    exact .refl ..
  body := by
    intro c hc
    have hperm := perm_body_attachBlock h.blocks.ids (h.mem_ids_of_getContainer hget) kind name
      requests uid
    rcases List.mem_append.mp (hperm.mem_iff.mp hc) with hc | hc
    · exact .inl ⟨c, hc, .refl ..⟩
    · rw [List.mem_singleton.mp hc]
      exact .inr hmade
  nested hn := h.nested_attachBlock hn hget ..
  nextId := by
    show w.nextId ≤ w.nextId + 1 + requests.length
    omega

/-- The slots of a new block answer what is asked for. -/
theorem makes_newBlock {edit : Edit μ} {kind : BlockKind} {requests : List SlotRequest}
    (hkind : edit.kind? = some kind) (hr : edit.requests? w.registry = some requests) (name : String)
    (uid : Option String) :
    w.Makes edit (.block ⟨w.nextId⟩) (w.newBlock kind name requests uid) := by
  refine ⟨rfl, hkind, requests, hr, (forall₂_makeSlots ..).imp ?_⟩
  rintro request _ ⟨id, uid, rfl⟩
  exact Slot.answers_ofRequest ..

-- ---------------------------------------------------------------------------
-- Changes of the tree
-- ---------------------------------------------------------------------------

/-- Blocks go with everything below them. -/
theorem carries_removeBlock {id : BlockId} (hw : w.removeBlock id = .ok w') :
    w.Carries touched added made w' := by
  obtain ⟨hroot, block, below, -, rfl⟩ := removeBlock_eq_ok.mp hw
  refine ⟨.refl .., fun c hc => .inl ⟨c, ?_, .refl ..⟩, fun hn => ?_, Nat.le_refl _⟩
  · exact (Forest.toList_prune_sublist ..).subset hc
  · have htree := tree_prune hroot
    show Forest.Nested { w with body := w.body.prune (·.id = id) }.tree
    rw [htree]
    exact hn.prune _

/-- A block comes below a container with everything below it. -/
theorem carries_moveBlock (h : w.WellFormed) {id parent : BlockId} {index : Nat}
    (hw : w.moveBlock id parent index = .ok w') : w.Carries touched added made w' := by
  have hperm := h.perm_blocks_moveBlock hw
  obtain ⟨hroot, block, below, hfind, ⟨container, hget⟩, -, rfl⟩ := moveBlock_eq_ok.mp hw
  let cut : Workflow μ := { w with body := w.body.prune (·.id = id) }
  have hsub : cut.blocks.Sublist w.blocks := by
    rw [blocks_eq, blocks_eq]
    exact .cons_cons _ (Forest.toList_prune_sublist ..)
  have hcut : (cut.modifyBelow parent (Forest.insertAt block below index)).root = w.root :=
    root_modifyBelow ..
  refine ⟨?_, fun c hc => .inl ⟨c, ?_, .refl ..⟩, fun hn => ?_, ?_⟩
  · rw [hcut]
    exact .refl ..
  · rw [blocks_eq, blocks_eq, hcut] at hperm
    exact hperm.cons_inv.mem_iff.mp hc
  · have hids : (cut.blocks.map Block.id).Nodup := h.blocks.ids.sublist (hsub.map _)
    have hnested : cut.tree.Nested := by
      rw [tree_prune hroot]
      exact hn.prune _
    obtain ⟨hblock, hbelow⟩ := hn.of_find? hfind
    rw [tree_modifyBelow hids]
    refine hnested.mapBelow (fun b hb => ?_) fun under hunder => .insertAt hblock hbelow hunder index
    exact h.isContainer_of_getContainer hget b (hsub.subset hb)
  · rw [nextId_modifyBelow]

-- ---------------------------------------------------------------------------
-- Edits
-- ---------------------------------------------------------------------------

/-- A connection may give a slot a type. -/
theorem carries_connect (h : w.WellFormed) {a b : SlotId} {uid : Option String}
    {linked : LinkId × Workflow μ} (hw : w.connect a b uid = .ok linked) :
    w.Carries touched added made linked.2 := by
  obtain ⟨first, second, plan, hfirst, hsecond, hplan, rfl⟩ := connect_eq_ok.mp hw
  obtain ⟨_, _, -, -, -, -, rfl⟩ := ends_of_connection hplan
  obtain ⟨hb, hs, -⟩ := mem_of_ownedSlot? (getOwnedSlot_eq_ok.mp hfirst)
  obtain ⟨hc, ht, -⟩ := mem_of_ownedSlot? (getOwnedSlot_eq_ok.mp hsecond)
  have hadopt : w.Carries touched added made (w.adopt (adoptedType? first.slot second.slot)) := by
    rw [adopt_eq_mapSlots]
    refine carries_mapSlots (Slot.id_takeOn _) fun slot hslot _ request hr => ?_
    exact h.answers_takeOn (mem_slots.mpr ⟨_, hb, hs⟩) (mem_slots.mpr ⟨_, hc, ht⟩) hslot hr
  refine hadopt.congr rfl rfl ?_
  rw [nextId_adopt]
  exact Nat.le_succ _

theorem carries_disconnect (w : Workflow μ) (id : LinkId) :
    w.Carries touched added made (w.disconnect id).2 := by
  unfold Workflow.disconnect
  split
  · exact (Carries.refl w).congr rfl rfl (Nat.le_refl _)
  · exact .refl w

/-- **What an edit does to blocks.** An edit that changes no block's kind renames or removes only the
slot that it names, adds only the slot that it is answered with, and makes only the block that it is
answered with. -/
theorem carries_perform (h : w.WellFormed) {edit : Edit μ} {answer : Answer}
    (he : w.perform edit = .ok (answer, w')) (hkind : ∀ id kind, edit ≠ .setBlockKind id kind) :
    w.Carries (fun id => edit.changedSlot? = some id) (fun id => answer = .slot id)
      (w.Makes edit answer) w' := by
  cases edit <;> simp only [Workflow.perform, map_eq_ok, Except.ok.injEq, Prod.mk.injEq] at he
  case addBlock =>
    obtain ⟨_, ha, rfl, rfl⟩ := he
    obtain ⟨⟨container, hget⟩, rfl⟩ := addBlock_eq_ok.mp ha
    exact h.carries_attachBlock hget (makes_newBlock rfl rfl ..)
  case addModel parent setup uid =>
    obtain ⟨_, ha, rfl, rfl⟩ := he
    obtain ⟨modelClass, hfind, hr, ⟨container, hget⟩, rfl⟩ := addModelSetup_eq_ok.mp ha
    have hrequests : Edit.requests? w.registry (.addModel parent setup uid) =
        some modelClass.declaration.slotRequests := by
      simp only [Edit.requests?, Registry.requests?, hfind, Option.bind_some, hr]
    exact h.carries_attachBlock hget (makes_newBlock rfl hrequests ..)
  case addSlot owner request =>
    obtain ⟨_, ha, rfl, rfl⟩ := he
    obtain ⟨block, -, -, -, rfl⟩ := addSlot_eq_ok.mp ha
    refine Carries.congr (carries_mapBlocks (fun b => ?_) (fun b => ?_) fun b _ => ?_) rfl rfl
      (Nat.le_succ _) <;> split
    · rfl
    · rfl
    · rfl
    · rfl
    · refine .concat ?_ b.slots
      rfl
    · exact .refl _
  case renameSlot id name =>
    obtain ⟨_, ha, rfl, rfl⟩ := he
    obtain ⟨owned, -, -, rfl⟩ := renameSlot_eq_ok.mp ha
    refine carries_mapSlots (fun s => ?_) fun s _ hs request hr => ?_
    · split <;> rfl
    · rw [if_neg fun hid => hs (by rw [hid]; rfl)]
      exact hr
  case removeSlot id =>
    obtain ⟨_, ha, rfl, rfl⟩ := he
    obtain ⟨-, rfl⟩ := removeSlot_eq_ok.mp ha
    refine Carries.congr (carries_mapBlocks (f := fun b =>
      { b with slots := b.slots.filter (·.id ∉ [id]) }) (fun _ => rfl) (fun _ => rfl) fun b _ => ?_)
      rfl rfl (Nat.le_refl _)
    refine .filter ?_ b.slots
    rfl
  case removeBlock =>
    obtain ⟨_, ha, rfl, rfl⟩ := he
    exact carries_removeBlock ha
  case moveBlock =>
    obtain ⟨_, ha, rfl, rfl⟩ := he
    exact h.carries_moveBlock ha
  case connect =>
    obtain ⟨_, ha, rfl, rfl⟩ := he
    exact h.carries_connect ha
  case disconnect id =>
    obtain ⟨rfl, rfl⟩ := he
    exact carries_disconnect w id
  case disconnectSlots a b =>
    obtain ⟨rfl, rfl⟩ := he
    unfold Workflow.disconnectSlots
    split
    · exact carries_disconnect w _
    · exact .refl w
  case setName name =>
    obtain ⟨rfl, rfl⟩ := he
    exact ⟨⟨rfl, rfl, .refl _⟩, fun c hc => .inl ⟨c, hc, .refl ..⟩, fun hn => hn, Nat.le_refl _⟩
  case setBlockName id name =>
    obtain ⟨rfl, rfl⟩ := he
    exact carries_modifyBlock id (fun _ => rfl) (fun _ => rfl) fun _ => rfl
  case setBlockKind id kind => exact absurd rfl (hkind id kind)
  case register modelClass =>
    obtain ⟨rfl, rfl⟩ := he
    exact (Carries.refl w).congr rfl rfl (Nat.le_refl _)

end WellFormed

end Workflow

end SlotFlow
