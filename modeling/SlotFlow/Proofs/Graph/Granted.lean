import SlotFlow.Proofs.Graph.Lookup
/-!
# Granted edits

For each edit that can be refused: when it is granted, and what the workflow is then. Everything
that is said about edits elsewhere is read off these statements.
-/

namespace SlotFlow

-- ---------------------------------------------------------------------------
-- Steps that may fail
-- ---------------------------------------------------------------------------

section Steps

variable {ε α β : Type}

/-- A sequence of two steps succeeds if both do. -/
theorem bind_eq_ok {x : Except ε α} {f : α → Except ε β} {b : β} :
    x >>= f = .ok b ↔ ∃ a, x = .ok a ∧ f a = .ok b := by
  cases x <;> simp [bind, Except.bind]

theorem map_eq_ok {x : Except ε α} {f : α → β} {b : β} :
    x.map f = .ok b ↔ ∃ a, x = .ok a ∧ f a = b := by
  cases x <;> simp [Except.map]

theorem throw_bind (error : ε) (f : α → Except ε β) :
    (throw error : Except ε α) >>= f = .error error := rfl

/-- What comes after a check happens if the check does not fail. -/
theorem check_eq_ok {c : Prop} [Decidable c] {error : ε} {x : Except ε β} {b : β} :
    (if c then .error error else x) = .ok b ↔ ¬c ∧ x = .ok b := by
  by_cases hc : c <;> simp [hc]

theorem pure_eq_ok {a b : α} : (pure a : Except ε α) = .ok b ↔ b = a := by
  simp [pure, Except.pure, eq_comm]

theorem toOption_eq_some {x : Except ε α} {a : α} : x.toOption = some a ↔ x = .ok a := by
  cases x <;> simp [Except.toOption]

end Steps

namespace Slot

/-- A slot after a connection that may give a slot a type. -/
def takeOn (adopts : Option (SlotId × SlotType)) (slot : Slot) : Slot :=
  match adopts with
  | none => slot
  | some (id, type) => if slot.id = id then { slot with type := type } else slot

variable (adopts : Option (SlotId × SlotType)) (slot : Slot)

@[simp] theorem id_takeOn : (slot.takeOn adopts).id = slot.id := by
  unfold takeOn
  split
  · rfl
  · split <;> rfl

@[simp] theorem uid_takeOn : (slot.takeOn adopts).uid = slot.uid := by
  unfold takeOn
  split
  · rfl
  · split <;> rfl

@[simp] theorem kind_takeOn : (slot.takeOn adopts).kind = slot.kind := by
  unfold takeOn
  split
  · rfl
  · split <;> rfl

@[simp] theorem name_takeOn : (slot.takeOn adopts).name = slot.name := by
  unfold takeOn
  split
  · rfl
  · split <;> rfl

@[simp] theorem external_takeOn : (slot.takeOn adopts).external = slot.external := by
  rw [external, kind_takeOn, external]

end Slot

namespace Workflow

variable {μ : Type} {w : Workflow μ}

-- ---------------------------------------------------------------------------
-- Elements that have to exist
-- ---------------------------------------------------------------------------

theorem getSubtree_eq_ok {id : BlockId} {found : Block × Forest Block} :
    w.getSubtree id = .ok found ↔ w.subtree? id = some found := by
  unfold getSubtree
  cases h : w.subtree? id <;> simp

theorem getBlock_eq_ok {id : BlockId} {block : Block} :
    w.getBlock id = .ok block ↔ w.block? id = some block := by
  unfold getBlock getSubtree block?
  cases h : w.subtree? id <;> simp [Except.map]

theorem getBlock_eq_error {id : BlockId} (h : w.block? id = none) :
    w.getBlock id = .error (.blockNotFound id) := by
  have hnone : w.subtree? id = none := Option.map_eq_none_iff.mp h
  rw [getBlock, getSubtree, hnone]
  rfl

theorem getContainer_eq_ok {id : BlockId} {block : Block} :
    w.getContainer id = .ok block ↔ w.block? id = some block ∧ block.kind.isContainer = true := by
  unfold getContainer
  rw [bind_eq_ok]
  constructor
  · rintro ⟨found, hf, h⟩
    split at h
    · rename_i hc
      cases h
      exact ⟨getBlock_eq_ok.mp hf, hc⟩
    · cases h
  · rintro ⟨hb, hc⟩
    exact ⟨block, getBlock_eq_ok.mpr hb, by simp [hc, pure, Except.pure]⟩

theorem getOwnedSlot_eq_error {id : SlotId} (h : w.ownedSlot? id = none) :
    w.getOwnedSlot id = .error (.slotNotFound id) := by
  rw [getOwnedSlot, h]

theorem getOwnedSlot_eq_ok {id : SlotId} {owned : OwnedSlot} :
    w.getOwnedSlot id = .ok owned ↔ w.ownedSlot? id = some owned := by
  unfold getOwnedSlot
  cases h : w.ownedSlot? id <;> simp

-- ---------------------------------------------------------------------------
-- New elements
-- ---------------------------------------------------------------------------

theorem addBlock_eq_ok {parent : BlockId} {kind : BlockKind} {uid : Option String}
    {added : BlockId × Workflow μ} :
    w.addBlock parent kind uid = .ok added ↔
      (∃ container, w.getContainer parent = .ok container) ∧
        added = w.attachBlock parent kind kind.recordName kind.defaultSlots uid := by
  unfold addBlock
  simp only [bind_eq_ok, pure_eq_ok, exists_and_right]

theorem addModelSetup_eq_ok {parent : BlockId} {setup : ModelSetup} {uid : Option String}
    {added : BlockId × Workflow μ} :
    w.addModelSetup parent setup uid = .ok added ↔
      ∃ modelClass, w.registry.find? setup.className = some modelClass ∧
        modelClass.declaration.repeatedSlot? = none ∧
        (∃ container, w.getContainer parent = .ok container) ∧
        added = w.attachBlock parent (.model setup) setup.className
          modelClass.declaration.slotRequests uid := by
  unfold addModelSetup
  cases hf : w.registry.find? setup.className with
  | none => simp [throw, throwThe, MonadExceptOf.throw]
  | some modelClass =>
    simp only [Option.some.injEq, exists_eq_left']
    cases hr : modelClass.declaration.repeatedSlot? with
    | some name => simp [throw_bind]
    | none => simp only [bind_eq_ok, pure_eq_ok, exists_and_right, true_and]

/-- The workflow with a slot after the others of a block. The slot takes the next number. -/
def appendSlot (w : Workflow μ) (owner : BlockId) (request : SlotRequest) : Workflow μ :=
  { w.modifyBlock owner fun block => { block with slots := block.slots ++
      [Slot.ofRequest ⟨w.nextId⟩ (freshUid w.uidStem w.nextId) request] } with
    nextId := w.nextId + 1 }

theorem blocks_appendSlot (owner : BlockId) (request : SlotRequest) :
    (w.appendSlot owner request).blocks = w.blocks.map fun block =>
      if block.id = owner then { block with slots := block.slots ++
        [Slot.ofRequest ⟨w.nextId⟩ (freshUid w.uidStem w.nextId) request] } else block := by
  rw [← blocks_mapBlocks]
  rfl

theorem addSlot_eq_ok {owner : BlockId} {request : SlotRequest} {added : SlotId × Workflow μ} :
    w.addSlot owner request = .ok added ↔
      ∃ block, w.getBlock owner = .ok block ∧
        (request.kind.external = true → owner = w.root.id) ∧
        block.slot? request.name = none ∧ added = (⟨w.nextId⟩, w.appendSlot owner request) := by
  unfold addSlot
  simp only [bind_eq_ok, throw_bind, check_eq_ok, pure_eq_ok, Bool.and_eq_true, decide_eq_true_eq,
    not_and, ne_eq, not_not, Option.not_isSome_iff_eq_none, appendSlot]

-- ---------------------------------------------------------------------------
-- Changes and removals
-- ---------------------------------------------------------------------------

theorem renameSlot_eq_ok {id : SlotId} {name : String} {renamed : Workflow μ} :
    w.renameSlot id name = .ok renamed ↔
      ∃ owned, w.getOwnedSlot id = .ok owned ∧
        (∀ present, owned.owner.slot? name = some present → present.id = id) ∧
        renamed = w.modifySlot id (·.rename name) := by
  unfold renameSlot
  rw [bind_eq_ok]
  refine exists_congr fun owned => and_congr_right fun _ => ?_
  cases owned.owner.slot? name with
  | none => simp [pure_eq_ok]
  | some present =>
    simp only [throw_bind, check_eq_ok, pure_eq_ok, ne_eq, not_not, Option.some.injEq,
      forall_eq']

/-- The workflow without some slots and the links that touch them. -/
def dropSlots (ids : List SlotId) (w : Workflow μ) : Workflow μ :=
  (w.mapBlocks fun block => { block with slots := block.slots.filter (·.id ∉ ids) }).dropLinksOf
    (ids.contains ·)

theorem blocks_dropSlots (ids : List SlotId) :
    (w.dropSlots ids).blocks =
      w.blocks.map fun block => { block with slots := block.slots.filter (·.id ∉ ids) } := by
  rw [← blocks_mapBlocks]
  rfl

theorem slots_dropSlots (ids : List SlotId) :
    (w.dropSlots ids).slots = w.slots.filter (·.id ∉ ids) := by
  rw [slots_eq, slots_eq, blocks_dropSlots, List.flatMap_map, List.filter_flatMap]

theorem dropSlots_singleton (id : SlotId) :
    w.dropSlots [id] = (w.mapBlocks fun block =>
      { block with slots := block.slots.filter (·.id ≠ id) }).dropLinksOf (· = id) := by
  simp [dropSlots, dropLinksOf]

/-- Slots may go in several steps. -/
theorem dropSlots_append (ids others : List SlotId) :
    w.dropSlots (ids ++ others) = (w.dropSlots ids).dropSlots others := by
  have hblocks : (w.mapBlocks fun block =>
      { block with slots := block.slots.filter (·.id ∉ ids ++ others) }) =
      (w.mapBlocks fun block => { block with slots := block.slots.filter (·.id ∉ ids) }).mapBlocks
        fun block => { block with slots := block.slots.filter (·.id ∉ others) } := by
    rw [mapBlocks_mapBlocks]
    congr 1
    funext block
    simp only [Function.comp_apply, List.filter_filter, List.mem_append, not_or, Bool.decide_and,
      Bool.and_comm]
  have hlinks : ∀ links : List Link,
      links.filter (fun link => !(ids ++ others).contains link.source &&
        !(ids ++ others).contains link.target) =
      (links.filter fun link => !ids.contains link.source && !ids.contains link.target).filter
        fun link => !others.contains link.source && !others.contains link.target := by
    intro links
    rw [List.filter_filter]
    refine List.filter_congr fun link _ => ?_
    simp only [List.contains_append, Bool.not_or]
    ac_rfl
  unfold dropSlots
  rw [hblocks, dropLinksOf, hlinks]
  rfl

theorem removeSlot_eq_ok {id : SlotId} {shrunk : Workflow μ} :
    w.removeSlot id = .ok shrunk ↔
      (∃ owned, w.getOwnedSlot id = .ok owned) ∧ shrunk = w.dropSlots [id] := by
  unfold removeSlot
  simp only [bind_eq_ok, pure_eq_ok, exists_and_right, dropSlots_singleton]

/-- The numbers of the slots of a block and of everything below it. -/
def slotsWithin (block : Block) (below : Forest Block) : List SlotId :=
  (Forest.tree block below).toList.flatMap fun block => block.slots.map Slot.id

theorem removeBlock_eq_ok {id : BlockId} {shrunk : Workflow μ} :
    w.removeBlock id = .ok shrunk ↔
      id ≠ w.root.id ∧ ∃ block below, w.subtree? id = some (block, below) ∧
        shrunk = { w with body := w.body.prune (·.id = id) }.dropLinksOf
          ((slotsWithin block below).contains ·) := by
  unfold removeBlock
  simp only [bind_eq_ok, throw_bind, check_eq_ok, pure_eq_ok, getSubtree_eq_ok, Prod.exists,
    slotsWithin, ne_eq]

theorem moveBlock_eq_ok {id parent : BlockId} {index : Nat} {moved : Workflow μ} :
    w.moveBlock id parent index = .ok moved ↔
      id ≠ w.root.id ∧ ∃ block below, w.subtree? id = some (block, below) ∧
        (∃ container, w.getContainer parent = .ok container) ∧
        parent ∉ (Forest.tree block below).ids ∧
        moved = { w with body := w.body.prune (·.id = id) }.modifyBelow parent
          (Forest.insertAt block below index) := by
  unfold moveBlock
  simp only [bind_eq_ok, throw_bind, check_eq_ok, pure_eq_ok, getSubtree_eq_ok, Prod.exists, ne_eq,
    List.any_eq_true, decide_eq_true_eq, Forest.ids, List.mem_map, exists_and_right]

-- ---------------------------------------------------------------------------
-- Links
-- ---------------------------------------------------------------------------

theorem connection_eq_ok {a b : Slot} {plan : Connection} :
    w.connection a b = .ok plan ↔
      a.id ≠ b.id ∧ a.direction ≠ b.direction ∧ a.compatible b = true ∧
        w.links.any (·.joins a.id b.id) = false ∧ w.isFull a = false ∧ w.isFull b = false ∧
        plan = match a.direction with
          | .output => ⟨a.id, b.id, adoptedType? a b⟩
          | .input => ⟨b.id, a.id, adoptedType? a b⟩ := by
  unfold connection
  simp only [throw_bind, check_eq_ok, ne_eq, Bool.not_eq_true, Bool.not_eq_false,
    Bool.not_eq_eq_eq_not, Bool.not_true]
  cases a.direction <;> simp only [pure_eq_ok]

/-- A granted connection leads from the one slot that is an output to the other, which has room. -/
theorem ends_of_connection {a b : Slot} {plan : Connection} (h : w.connection a b = .ok plan) :
    ∃ source target, (source = a ∧ target = b ∨ source = b ∧ target = a) ∧
      source.direction = .output ∧ target.direction = .input ∧ w.isFull target = false ∧
      plan = ⟨source.id, target.id, adoptedType? a b⟩ := by
  obtain ⟨-, hdir, -, -, hfullA, hfullB, rfl⟩ := connection_eq_ok.mp h
  cases ha : a.direction <;> cases hb : b.direction
  · exact absurd (ha.trans hb.symm) hdir
  · exact ⟨b, a, .inr ⟨rfl, rfl⟩, hb, ha, hfullA, rfl⟩
  · exact ⟨a, b, .inl ⟨rfl, rfl⟩, ha, hb, hfullB, rfl⟩
  · exact absurd (ha.trans hb.symm) hdir

/-- An input with room has no link. -/
theorem not_touches_of_isFull {slot : Slot} (hdir : slot.direction = .input)
    (h : w.isFull slot = false) : ∀ link ∈ w.links, link.touches slot.id = false := by
  have hmax : slot.maxLinks = some 1 := by rw [Slot.maxLinks, hdir]
  rw [isFull, hmax] at h
  have hlen : ¬1 ≤ (w.linksAt slot.id).length := of_decide_eq_false h
  have hnil : w.linksAt slot.id = [] := List.length_eq_zero_iff.mp (by omega)
  intro link hl
  simpa using List.filter_eq_nil_iff.mp hnil link hl

@[simp] theorem nextId_adopt (adopts : Option (SlotId × SlotType)) :
    (w.adopt adopts).nextId = w.nextId := by
  cases adopts <;> rfl

@[simp] theorem links_adopt (adopts : Option (SlotId × SlotType)) :
    (w.adopt adopts).links = w.links := by
  cases adopts <;> rfl

/-- A connection changes at most the type of a slot. -/
theorem adopt_eq_mapSlots (adopts : Option (SlotId × SlotType)) :
    w.adopt adopts = w.mapSlots (Slot.takeOn adopts) := by
  cases adopts with
  | some adopted => rfl
  | none => exact (mapSlots_eq_self fun _ _ => rfl).symm

/-- The workflow after a granted connection. The link takes the next number. -/
def addLink (w : Workflow μ) (plan : Connection) (uid : Option String) : Workflow μ :=
  { w.adopt plan.adopts with
    links := w.links ++
      [⟨⟨w.nextId⟩, uid.getD (freshUid w.uidStem w.nextId), plan.source, plan.target⟩]
    nextId := w.nextId + 1 }

theorem connect_eq_ok {a b : SlotId} {uid : Option String} {added : LinkId × Workflow μ} :
    w.connect a b uid = .ok added ↔
      ∃ first second plan, w.getOwnedSlot a = .ok first ∧ w.getOwnedSlot b = .ok second ∧
        w.connection first.slot second.slot = .ok plan ∧
        added = (⟨w.nextId⟩, w.addLink plan uid) := by
  unfold connect
  simp only [bind_eq_ok, pure_eq_ok, exists_and_left, addLink]

end Workflow

end SlotFlow
