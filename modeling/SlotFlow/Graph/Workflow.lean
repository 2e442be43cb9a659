import SlotFlow.Catalog.Registry
import SlotFlow.Graph.Block
import SlotFlow.Graph.Forest
/-!
# Workflows

A workflow is a tree of blocks whose slots are joined by links. The tree is a value of type
`Forest Block`, a slot is stored in its block, and a link names its two slots; what a block's parent
is, who owns a slot and which links a slot has is read off that.

* `Workflow.blocks`, `Workflow.ownedSlots` — the blocks and the slots in tree order;
* `Workflow.links` — the links in order of creation;
* `Workflow.block?`, `Workflow.ownedSlot?` — the elements of given numbers;
* `Workflow.linksAt`, `Workflow.partner?` — the links of a slot and where they lead.
-/

namespace SlotFlow

/-- A link from an output-direction slot to an input-direction slot. -/
structure Link where
  id : LinkId
  uid : String
  source : SlotId
  target : SlotId
  deriving DecidableEq, Repr

namespace Link

/-- Whether a slot is one of the two ends. -/
def touches (link : Link) (slot : SlotId) : Bool :=
  link.source = slot || link.target = slot

/-- The end opposite to a slot. -/
def otherEnd? (link : Link) (slot : SlotId) : Option SlotId :=
  if link.source = slot then some link.target
  else if link.target = slot then some link.source
  else none

/-- Whether a link joins two slots, in whatever direction. -/
def joins (link : Link) (a b : SlotId) : Bool :=
  (link.source = a && link.target = b) || (link.source = b && link.target = a)

end Link

/-- A workflow over native models of a type `μ`. -/
structure Workflow (μ : Type) where
  name : String
  root : Block
  /-- The blocks below the root. -/
  body : Forest Block
  /-- The links in the order in which they were made. -/
  links : List Link
  /-- The number of the next element. Blocks, slots and links are numbered together. -/
  nextId : Nat
  registry : Registry μ
  /-- What a fresh uid starts with; the number of the element follows. No uid that is given from
  outside should start with it. -/
  uidStem : String

/-- A slot together with the block it belongs to. -/
structure OwnedSlot where
  owner : Block
  slot : Slot

namespace Workflow

variable {μ : Type}

/-- The name of a workflow that is given none. -/
def defaultName : String := "MyWorkflow"

/-- The number of every root. -/
def rootId : BlockId := ⟨0⟩

/-- The uid of an element that is given none. -/
def freshUid (uidStem : String) (number : Nat) : String :=
  uidStem ++ toString number

/-- A workflow that consists of its root. -/
def new (uidStem name : String) (registry : Registry μ) (rootUid : Option String := none) :
    Workflow μ where
  name := name
  root :=
    { id := rootId
      uid := rootUid.getD (freshUid uidStem rootId.val)
      name := name
      kind := .workflow }
  body := .nil
  links := []
  nextId := 1
  registry := registry
  uidStem := uidStem

-- ---------------------------------------------------------------------------
-- Blocks
-- ---------------------------------------------------------------------------

/-- The root with everything below it. -/
def tree (w : Workflow μ) : Forest Block :=
  .tree w.root w.body

/-- All blocks in tree order: the root, and each block before those below it. -/
def blocks (w : Workflow μ) : List Block :=
  w.tree.toList

/-- A block with the forest below it. -/
def subtree? (w : Workflow μ) (id : BlockId) : Option (Block × Forest Block) :=
  w.tree.find? (·.id = id)

/-- The block of a number. -/
def block? (w : Workflow μ) (id : BlockId) : Option Block :=
  (w.subtree? id).map Prod.fst

/-- The blocks below the block of a number. -/
def below (w : Workflow μ) (id : BlockId) : Forest Block :=
  ((w.subtree? id).map Prod.snd).getD .nil

/-- The children of a block, in the order of execution. -/
def children (w : Workflow μ) (id : BlockId) : List Block :=
  (w.below id).roots

/-- The blocks below a block, in tree order. -/
def descendants (w : Workflow μ) (id : BlockId) : List Block :=
  (w.below id).toList

/-- The model blocks below a block, in tree order. -/
def modelsBelow (w : Workflow μ) (id : BlockId) : List Block :=
  (w.descendants id).filter Block.isModel

/-- All model blocks below the root, in tree order. -/
def models (w : Workflow μ) : List Block :=
  w.body.toList.filter Block.isModel

/-- The block of which a block is a child. -/
def parent? (w : Workflow μ) (id : BlockId) : Option Block :=
  (w.tree.subtrees.find? fun tree => tree.2.roots.any (·.id = id)).map Prod.fst

/-- The first block with a uid. -/
def blockWithUid? (w : Workflow μ) (uid : String) : Option Block :=
  w.blocks.find? (·.uid = uid)

-- ---------------------------------------------------------------------------
-- Slots
-- ---------------------------------------------------------------------------

/-- All slots of all blocks in tree order, each with its block. -/
def ownedSlots (w : Workflow μ) : List OwnedSlot :=
  w.blocks.flatMap fun block => block.slots.map (OwnedSlot.mk block)

/-- All slots in tree order. -/
def slots (w : Workflow μ) : List Slot :=
  w.ownedSlots.map OwnedSlot.slot

/-- The slot of a number, with its block. -/
def ownedSlot? (w : Workflow μ) (id : SlotId) : Option OwnedSlot :=
  w.ownedSlots.find? (·.slot.id = id)

/-- The slot of a number. -/
def slot? (w : Workflow μ) (id : SlotId) : Option Slot :=
  (w.ownedSlot? id).map OwnedSlot.slot

/-- The slot of a block with a name. -/
def slotNamed? (w : Workflow μ) (block : BlockId) (name : String) : Option Slot :=
  (w.block? block).bind (·.slot? name)

/-- The first slot with a uid. -/
def slotWithUid? (w : Workflow μ) (uid : String) : Option Slot :=
  w.slots.find? (·.uid = uid)

/-- The slots on the border of the workflow that have a direction. -/
def borderSlots (w : Workflow μ) (direction : Direction) : List Slot :=
  w.slots.filter fun slot => slot.external && slot.direction = direction

-- ---------------------------------------------------------------------------
-- Links
-- ---------------------------------------------------------------------------

/-- The link of a number. -/
def link? (w : Workflow μ) (id : LinkId) : Option Link :=
  w.links.find? (·.id = id)

/-- The links of a slot, in the order in which they were made. -/
def linksAt (w : Workflow μ) (slot : SlotId) : List Link :=
  w.links.filter (·.touches slot)

/-- Whether a slot has a link. -/
def isLinked (w : Workflow μ) (slot : SlotId) : Bool :=
  w.links.any (·.touches slot)

/-- The slots that a slot is linked to. -/
def partners (w : Workflow μ) (slot : SlotId) : List SlotId :=
  w.links.filterMap (·.otherEnd? slot)

/-- The slot at the other end of the first link of a slot. -/
def partner? (w : Workflow μ) (slot : SlotId) : Option SlotId :=
  w.links.findSome? (·.otherEnd? slot)

-- ---------------------------------------------------------------------------
-- Changes of elements
-- ---------------------------------------------------------------------------

/-- Changes each block's own data. -/
def mapBlocks (f : Block → Block) (w : Workflow μ) : Workflow μ :=
  { w with root := f w.root, body := w.body.map f }

@[simp] theorem blocks_mapBlocks (f : Block → Block) (w : Workflow μ) :
    (w.mapBlocks f).blocks = w.blocks.map f := by
  simp [mapBlocks, blocks, tree]

@[simp] theorem links_mapBlocks (f : Block → Block) (w : Workflow μ) :
    (w.mapBlocks f).links = w.links := rfl

/-- Changes the data of the block of a number. -/
def modifyBlock (id : BlockId) (f : Block → Block) (w : Workflow μ) : Workflow μ :=
  w.mapBlocks fun block => if block.id = id then f block else block

/-- Changes each slot. -/
def mapSlots (f : Slot → Slot) (w : Workflow μ) : Workflow μ :=
  w.mapBlocks fun block => { block with slots := block.slots.map f }

@[simp] theorem slots_mapSlots (f : Slot → Slot) (w : Workflow μ) :
    (w.mapSlots f).slots = w.slots.map f := by
  simp [slots, ownedSlots, mapSlots, List.map_flatMap, List.flatMap_map, Function.comp_def]

/-- Changes the slot of a number. -/
def modifySlot (id : SlotId) (f : Slot → Slot) (w : Workflow μ) : Workflow μ :=
  w.mapSlots fun slot => if slot.id = id then f slot else slot

/-- Changes the forest below the block of a number. -/
def modifyBelow (id : BlockId) (f : Forest Block → Forest Block) (w : Workflow μ) : Workflow μ :=
  if w.root.id = id then { w with body := f w.body }
  else { w with body := w.body.mapBelow (·.id = id) f }

end Workflow

end SlotFlow
