import SlotFlow.Graph.Workflow
/-!
# Editing workflows

Every way to change a workflow. An operation either gives the changed workflow or says in a
`EditError` why there is none, so that a refused request changes nothing.

* `Workflow.addBlock`, `Workflow.addModel`, `Workflow.addSlot` — new elements;
* `Workflow.removeBlock`, `Workflow.removeSlot`, `Workflow.moveBlock`, `Workflow.renameSlot`;
* `Workflow.connect`, `Workflow.disconnect` — links; `Workflow.connection` is the decision.
-/

namespace SlotFlow

-- ---------------------------------------------------------------------------
-- Refusals
-- ---------------------------------------------------------------------------

/-- What cannot be done to the root. -/
inductive RootChange where
  | removed
  | moved
  deriving DecidableEq, Repr

/-- Why a change of a workflow is refused. -/
inductive EditError where
  | selfConnection (slot : String)
  | sameDirection (first second : String) (direction : Direction)
  | typeMismatch (first : String) (firstType : SlotType) (second : String) (secondType : SlotType)
  | alreadyConnected (first second : String)
  | capacityExceeded (slot : String)
  | duplicateSlotName (block name : String)
  | blockNotFound (id : BlockId)
  | slotNotFound (id : SlotId)
  | notAContainer (parent : String)
  | rootBlock (change : RootChange)
  | cyclicMove (block : String)
  | externalSlotOutside (block slot : String)
  | unknownModel (name : String)
  deriving DecidableEq, Repr

/-- The wording of a refusal. -/
def EditError.message : EditError → String
  | selfConnection slot => s!"Slot '{slot}' cannot be connected to itself"
  | sameDirection first second direction =>
    s!"Slots '{first}' and '{second}' are both {direction.name} slots"
  | typeMismatch first firstType second secondType =>
    s!"Slot '{first}' of type {firstType.name} cannot be connected to " ++
      s!"slot '{second}' of type {secondType.name}"
  | alreadyConnected first second => s!"Slots '{first}' and '{second}' are already connected"
  | capacityExceeded slot => s!"Input slot '{slot}' already has a connection"
  | duplicateSlotName block name =>
    s!"Slot names must be unique, but '{name}' already exists on block '{block}'"
  | blockNotFound id => s!"Block '{id.label}' not found in the workflow"
  | slotNotFound id => s!"Slot '{id.label}' not found in the workflow"
  | notAContainer parent => s!"Block '{parent}' cannot contain child blocks"
  | rootBlock .removed => "The workflow root block cannot be removed"
  | rootBlock .moved => "The workflow root block cannot be moved"
  | cyclicMove block => s!"Block '{block}' cannot be moved into its own subtree"
  | externalSlotOutside block slot =>
    s!"External slot '{slot}' can only belong to the workflow, not to block '{block}'"
  | unknownModel name => s!"Model class '{name}' is not registered"

namespace Workflow

variable {μ : Type}

-- ---------------------------------------------------------------------------
-- Elements that have to exist
-- ---------------------------------------------------------------------------

/-- The block of a number with the forest below it, or a refusal. -/
def getSubtree (w : Workflow μ) (id : BlockId) : Except EditError (Block × Forest Block) :=
  match w.subtree? id with
  | some found => .ok found
  | none => .error (.blockNotFound id)

/-- The block of a number, or a refusal. -/
def getBlock (w : Workflow μ) (id : BlockId) : Except EditError Block :=
  (w.getSubtree id).map Prod.fst

/-- The container of a number, or a refusal. -/
def getContainer (w : Workflow μ) (id : BlockId) : Except EditError Block := do
  let block ← w.getBlock id
  if block.kind.isContainer then return block else throw (.notAContainer block.name)

/-- The slot of a number with its block, or a refusal. -/
def getOwnedSlot (w : Workflow μ) (id : SlotId) : Except EditError OwnedSlot :=
  match w.ownedSlot? id with
  | some owned => .ok owned
  | none => .error (.slotNotFound id)

-- ---------------------------------------------------------------------------
-- Names
-- ---------------------------------------------------------------------------

/-- Names the workflow, and with it its root. -/
def setName (w : Workflow μ) (name : String) : Workflow μ :=
  { w with name := name, root := { w.root with name := name } }

-- ---------------------------------------------------------------------------
-- New blocks and slots
-- ---------------------------------------------------------------------------

/-- The slots that are asked for, numbered from `first` on. -/
def makeSlots (uidStem : String) : Nat → List SlotRequest → List Slot
  | _, [] => []
  | first, request :: requests =>
    Slot.ofRequest ⟨first⟩ (freshUid uidStem first) request ::
      makeSlots uidStem (first + 1) requests

/-- Puts a new block after the children of a container. The block takes the next number, and its
slots take those after it. -/
def attachBlock (w : Workflow μ) (parent : BlockId) (kind : BlockKind) (name : String)
    (requests : List SlotRequest) (uid : Option String) : BlockId × Workflow μ :=
  let id : BlockId := ⟨w.nextId⟩
  let block : Block :=
    { id := id
      uid := uid.getD (freshUid w.uidStem w.nextId)
      name := name
      kind := kind
      slots := makeSlots w.uidStem (w.nextId + 1) requests }
  let grown := w.modifyBelow parent fun children => children.append (.tree block .nil)
  (id, { grown with nextId := w.nextId + 1 + requests.length })

/-- Adds a block of a kind to a container, with the slots such a block is made with. -/
def addBlock (w : Workflow μ) (parent : BlockId) (kind : BlockKind) (uid : Option String := none) :
    Except EditError (BlockId × Workflow μ) := do
  let _ ← w.getContainer parent
  return w.attachBlock parent kind kind.recordName kind.defaultSlots uid

/-- Adds a model block to a container, with the slots that its class declares. -/
def addModelSetup (w : Workflow μ) (parent : BlockId) (setup : ModelSetup)
    (uid : Option String := none) : Except EditError (BlockId × Workflow μ) := do
  let some modelClass := w.registry.find? setup.className
    | throw (.unknownModel setup.className)
  if let some name := modelClass.declaration.repeatedSlot? then
    throw (.duplicateSlotName setup.className name)
  let _ ← w.getContainer parent
  return w.attachBlock parent (.model setup) setup.className modelClass.declaration.slotRequests uid

/-- Adds a block of a model class to a container. -/
def addModel (w : Workflow μ) (parent : BlockId) (className : String) :
    Except EditError (BlockId × Workflow μ) :=
  w.addModelSetup parent { className := className }

/-- Adds a slot to a block. Its name has to be new there, and an external slot belongs to the
root. -/
def addSlot (w : Workflow μ) (owner : BlockId) (request : SlotRequest) :
    Except EditError (SlotId × Workflow μ) := do
  let block ← w.getBlock owner
  if request.kind.external && owner ≠ w.root.id then
    throw (.externalSlotOutside block.name request.name)
  if (block.slot? request.name).isSome then
    throw (.duplicateSlotName block.name request.name)
  let id : SlotId := ⟨w.nextId⟩
  let slot := Slot.ofRequest id (freshUid w.uidStem w.nextId) request
  let grown := w.modifyBlock owner fun block => { block with slots := block.slots ++ [slot] }
  return (id, { grown with nextId := w.nextId + 1 })

-- ---------------------------------------------------------------------------
-- Changes of blocks and slots
-- ---------------------------------------------------------------------------

/-- Renames a slot; the name may be taken by no other slot of its block. -/
def renameSlot (w : Workflow μ) (id : SlotId) (name : String) :
    Except EditError (Workflow μ) := do
  let owned ← w.getOwnedSlot id
  match owned.owner.slot? name with
  | some present =>
    if present.id ≠ id then throw (.duplicateSlotName owned.owner.name name)
  | none => pure ()
  return w.modifySlot id (·.rename name)

/-- Takes slots away, with all links that touch them. -/
def dropLinksOf (gone : SlotId → Bool) (w : Workflow μ) : Workflow μ :=
  { w with links := w.links.filter fun link => !gone link.source && !gone link.target }

/-- Removes a slot and its links. -/
def removeSlot (w : Workflow μ) (id : SlotId) : Except EditError (Workflow μ) := do
  let _ ← w.getOwnedSlot id
  let shrunk := w.mapBlocks fun block => { block with slots := block.slots.filter (·.id ≠ id) }
  return shrunk.dropLinksOf (· = id)

/-- Removes a block with everything below it, the slots there and the links of these. -/
def removeBlock (w : Workflow μ) (id : BlockId) : Except EditError (Workflow μ) := do
  if id = w.root.id then throw (.rootBlock .removed)
  let (block, below) ← w.getSubtree id
  let gone := (Forest.tree block below).toList.flatMap fun block => block.slots.map Slot.id
  return { w with body := w.body.prune (·.id = id) }.dropLinksOf (gone.contains ·)

/-- Moves a block with everything below it to a position among the children of a container, or to
the end of them if there are fewer. -/
def moveBlock (w : Workflow μ) (id parent : BlockId) (index : Nat) :
    Except EditError (Workflow μ) := do
  if id = w.root.id then throw (.rootBlock .moved)
  let (block, below) ← w.getSubtree id
  let _ ← w.getContainer parent
  if (Forest.tree block below).toList.any (·.id = parent) then throw (.cyclicMove block.name)
  let cut := { w with body := w.body.prune (·.id = id) }
  return cut.modifyBelow parent (Forest.insertAt block below index)

-- ---------------------------------------------------------------------------
-- Links
-- ---------------------------------------------------------------------------

/-- What a granted connection does: it links two slots, and one of them may take on a type. -/
structure Connection where
  source : SlotId
  target : SlotId
  adopts : Option (SlotId × SlotType)
  deriving DecidableEq, Repr

/-- Whether a slot has as many links as it takes. -/
def isFull (w : Workflow μ) (slot : Slot) : Bool :=
  match slot.maxLinks with
  | some most => decide (most ≤ (w.linksAt slot.id).length)
  | none => false

/-- The type that an untyped slot on the border takes on from the slot it is linked to. -/
def adoptedType? (a b : Slot) : Option (SlotId × SlotType) :=
  if a.external ∧ a.type = .unknown then some (a.id, b.type)
  else if b.external ∧ b.type = .unknown then some (b.id, a.type)
  else none

/-- Decides on a request to link two slots, without a change to either. -/
def connection (w : Workflow μ) (a b : Slot) : Except EditError Connection := do
  if a.id = b.id then throw (.selfConnection a.name)
  if a.direction = b.direction then throw (.sameDirection a.name b.name a.direction)
  if !a.compatible b then throw (.typeMismatch a.name a.type b.name b.type)
  if w.links.any (·.joins a.id b.id) then throw (.alreadyConnected a.name b.name)
  if w.isFull a then throw (.capacityExceeded a.name)
  if w.isFull b then throw (.capacityExceeded b.name)
  let adopts := adoptedType? a b
  match a.direction with
  | .output => return ⟨a.id, b.id, adopts⟩
  | .input => return ⟨b.id, a.id, adopts⟩

/-- Gives a slot the type that a plan says it takes on. -/
def adopt (w : Workflow μ) : Option (SlotId × SlotType) → Workflow μ
  | none => w
  | some (id, type) => w.modifySlot id fun slot => { slot with type := type }

/-- Links two slots, named in either order. -/
def connect (w : Workflow μ) (a b : SlotId) (uid : Option String := none) :
    Except EditError (LinkId × Workflow μ) := do
  let first ← w.getOwnedSlot a
  let second ← w.getOwnedSlot b
  let plan ← w.connection first.slot second.slot
  let id : LinkId := ⟨w.nextId⟩
  let link : Link :=
    { id := id
      uid := uid.getD (freshUid w.uidStem w.nextId)
      source := plan.source
      target := plan.target }
  let typed := w.adopt plan.adopts
  return (id, { typed with links := w.links ++ [link], nextId := w.nextId + 1 })

/-- Removes a link; says whether there was one. -/
def disconnect (w : Workflow μ) (id : LinkId) : Bool × Workflow μ :=
  if w.links.any (·.id = id) then (true, { w with links := w.links.filter (·.id ≠ id) })
  else (false, w)

/-- Removes the first link that joins two slots; says whether there was one. -/
def disconnectSlots (w : Workflow μ) (a b : SlotId) : Bool × Workflow μ :=
  match w.links.find? (·.joins a b) with
  | some link => w.disconnect link.id
  | none => (false, w)

end Workflow

end SlotFlow
