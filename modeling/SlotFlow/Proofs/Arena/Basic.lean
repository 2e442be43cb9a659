import SlotFlow.Proofs.Graph.Reachable
/-!
# Arenas

A workflow may be stored in three tables, one for each sort of element, whose rows refer to each
other by number and do so in both directions: a block lists its children and a child names its
parent, a block lists its slots and a slot names its owner, a link names its ends and a slot lists
its links. Edits on this form change one row after the other. One that fails halfway leaves what it
has done so far, one that follows references around a cycle has no end, and one that takes a row for
granted that is not there breaks off.

* `Arena` — the tables; `Workflow.arena` — those of a workflow;
* `Arena.Program` — what is done to tables step by step;
* `Arena.perform` — the edits as programs.
-/

namespace SlotFlow

variable {μ : Type}

-- ---------------------------------------------------------------------------
-- Tables
-- ---------------------------------------------------------------------------

/-- A row of the table of blocks. -/
structure BlockRow where
  uid : String
  name : String
  kind : BlockKind
  codeName : Option String
  parent : Option BlockId
  children : List BlockId
  slots : List SlotId

/-- A row of the table of slots. -/
structure SlotRow where
  slot : Slot
  owner : BlockId
  links : List LinkId

/-- The tables of a workflow. -/
@[ext] structure Arena (μ : Type) where
  name : String
  root : BlockId
  blocks : BlockId → Option BlockRow
  slots : SlotId → Option SlotRow
  links : LinkId → Option Link
  nextId : Nat
  registry : Registry μ
  uidStem : String

/-- The tables of a workflow. -/
def Workflow.arena (w : Workflow μ) : Arena μ where
  name := w.name
  root := w.root.id
  blocks id := (w.block? id).map fun block =>
    { uid := block.uid
      name := block.name
      kind := block.kind
      codeName := block.codeName
      parent := (w.parent? id).map Block.id
      children := (w.children id).map Block.id
      slots := block.slots.map Slot.id }
  slots id := (w.ownedSlot? id).map fun owned =>
    { slot := owned.slot
      owner := owned.owner.id
      links := (w.linksAt id).map Link.id }
  links id := w.link? id
  nextId := w.nextId
  registry := w.registry
  uidStem := w.uidStem

namespace Arena

-- ---------------------------------------------------------------------------
-- Reading
-- ---------------------------------------------------------------------------

/-- The children of a block; none if there is no such block. -/
def children (a : Arena μ) (id : BlockId) : List BlockId :=
  ((a.blocks id).map BlockRow.children).getD []

/-- The slots of a block; none if there is no such block. -/
def slotsOf (a : Arena μ) (id : BlockId) : List SlotId :=
  ((a.blocks id).map BlockRow.slots).getD []

/-- The slot of a block that has a name. -/
def slotNamed? (a : Arena μ) (owner : BlockId) (name : String) : Option SlotId :=
  (a.slotsOf owner).find? fun id => (a.slots id).any (·.slot.name = name)

/-- The blocks below a block, each before those below it. There is no answer if the walk down the
children does not end before it has come by as many blocks, one below the other, as `depth` says. -/
def descendantsWithin (a : Arena μ) : Nat → BlockId → Option (List BlockId)
  | 0, _ => none
  | depth + 1, id => do
    let lists ← (a.children id).mapM fun child => do
      return child :: (← a.descendantsWithin depth child)
    return lists.flatten

/-- The blocks below a block. A walk that comes by more blocks than there are numbers goes around a
cycle and has no end. -/
def descendants? (a : Arena μ) (id : BlockId) : Option (List BlockId) :=
  a.descendantsWithin a.nextId id

/-- All blocks in tree order. -/
def treeOrder? (a : Arena μ) : Option (List BlockId) :=
  (a.descendants? a.root).map (a.root :: ·)

-- ---------------------------------------------------------------------------
-- Changes of single rows
-- ---------------------------------------------------------------------------

/-- A table with another entry at one place. -/
def update {κ ρ : Type} [DecidableEq κ] (table : κ → Option ρ) (key : κ) (row : Option ρ) :
    κ → Option ρ :=
  fun other => if other = key then row else table other

def putBlock (id : BlockId) (row : BlockRow) (a : Arena μ) : Arena μ :=
  { a with blocks := update a.blocks id (some row) }

def modifyBlock (id : BlockId) (f : BlockRow → BlockRow) (a : Arena μ) : Arena μ :=
  { a with blocks := update a.blocks id ((a.blocks id).map f) }

def eraseBlocks (ids : List BlockId) (a : Arena μ) : Arena μ :=
  { a with blocks := fun id => if id ∈ ids then none else a.blocks id }

def putSlot (id : SlotId) (row : SlotRow) (a : Arena μ) : Arena μ :=
  { a with slots := update a.slots id (some row) }

def modifySlot (id : SlotId) (f : SlotRow → SlotRow) (a : Arena μ) : Arena μ :=
  { a with slots := update a.slots id ((a.slots id).map f) }

def eraseSlot (id : SlotId) (a : Arena μ) : Arena μ :=
  { a with slots := update a.slots id none }

def putLink (id : LinkId) (link : Link) (a : Arena μ) : Arena μ :=
  { a with links := update a.links id (some link) }

def eraseLink (id : LinkId) (a : Arena μ) : Arena μ :=
  { a with links := update a.links id none }

-- ---------------------------------------------------------------------------
-- Programs
-- ---------------------------------------------------------------------------

/-- What is done to an arena step by step. A refusal leaves the arena as it is by then; `none` stands
for a program that has no end or breaks off. -/
abbrev Program (μ α : Type) := ExceptT EditError (StateT (Arena μ) Option) α

/-- The outcome of a program, and the arena it leaves. -/
def Program.run {α : Type} (program : Program μ α) (a : Arena μ) :
    Option (Except EditError α × Arena μ) :=
  (ExceptT.run program).run a

/-- What is read in a way that may have no end or break off. -/
def expect {α : Type} (read : Arena μ → Option α) : Program μ α :=
  ExceptT.mk fun a => (read a).map fun answer => (.ok answer, a)

def requireBlock (id : BlockId) : Program μ BlockRow := do
  match (← get).blocks id with
  | some row => return row
  | none => throw (.blockNotFound id)

def requireSlot (id : SlotId) : Program μ SlotRow := do
  match (← get).slots id with
  | some row => return row
  | none => throw (.slotNotFound id)

/-- The next number, which is used up. -/
def allocate : Program μ Nat := do
  let id := (← get).nextId
  modify fun a => { a with nextId := id + 1 }
  return id

-- ---------------------------------------------------------------------------
-- New blocks and slots
-- ---------------------------------------------------------------------------

def addSlot (owner : BlockId) (request : SlotRequest) : Program μ SlotId := do
  let row ← requireBlock owner
  let a ← get
  if request.kind.external && owner ≠ a.root then
    throw (.externalSlotOutside row.name request.name)
  if (a.slotNamed? owner request.name).isSome then
    throw (.duplicateSlotName row.name request.name)
  let number ← allocate
  let slot := Slot.ofRequest ⟨number⟩ (Workflow.freshUid a.uidStem number) request
  modify (putSlot ⟨number⟩ { slot, owner, links := [] })
  modify (modifyBlock owner fun row => { row with slots := row.slots ++ [⟨number⟩] })
  return ⟨number⟩

/-- Adds slots one by one, and stops at the first that is refused. -/
def addSlots (owner : BlockId) : List SlotRequest → Program μ Unit
  | [] => return
  | request :: requests => do
    let _ ← addSlot owner request
    addSlots owner requests

/-- The first part of adding a block: its row, without slots. -/
def insertRow (parent : BlockId) (kind : BlockKind) (uid : Option String) :
    Program μ BlockId := do
  let row ← requireBlock parent
  if !row.kind.isContainer then throw (.notAContainer row.name)
  let number ← allocate
  let a ← get
  modify (putBlock ⟨number⟩
    { uid := uid.getD (Workflow.freshUid a.uidStem number)
      name := kind.recordName
      kind := kind
      codeName := none
      parent := some parent
      children := []
      slots := [] })
  modify (modifyBlock parent fun row => { row with children := row.children ++ [⟨number⟩] })
  return ⟨number⟩

def insertBlock (parent : BlockId) (kind : BlockKind) (uid : Option String) :
    Program μ BlockId := do
  let id ← insertRow parent kind uid
  addSlots id kind.defaultSlots
  return id

def insertModel (parent : BlockId) (setup : ModelSetup) (uid : Option String) :
    Program μ BlockId := do
  match (← get).registry.find? setup.className with
  | none => throw (.unknownModel setup.className)
  | some modelClass =>
    match modelClass.declaration.repeatedSlot? with
    | some name => throw (.duplicateSlotName setup.className name)
    | none =>
      let id ← insertBlock parent (.model setup) uid
      modify (modifyBlock id fun row => { row with name := setup.className })
      addSlots id modelClass.declaration.slotRequests
      return id

-- ---------------------------------------------------------------------------
-- Changes and removals
-- ---------------------------------------------------------------------------

def renameSlot (id : SlotId) (name : String) : Program μ Unit := do
  let row ← requireSlot id
  match (← get).slotNamed? row.owner name with
  | some present =>
    if present ≠ id then
      let owner ← expect (·.blocks row.owner)
      throw (.duplicateSlotName owner.name name)
  | none => pure ()
  modify (modifySlot id fun row => { row with slot := row.slot.rename name })

def disconnect (id : LinkId) : Program μ Bool := do
  match (← get).links id with
  | none => return false
  | some link =>
    modify (eraseLink id)
    modify (modifySlot link.source fun row => { row with links := row.links.filter (· ≠ id) })
    modify (modifySlot link.target fun row => { row with links := row.links.filter (· ≠ id) })
    return true

def disconnectAll : List LinkId → Program μ Unit
  | [] => return
  | id :: ids => do
    let _ ← disconnect id
    disconnectAll ids

def removeSlot (id : SlotId) : Program μ Unit := do
  let row ← requireSlot id
  disconnectAll row.links
  modify (eraseSlot id)
  modify (modifyBlock row.owner fun row => { row with slots := row.slots.filter (· ≠ id) })

/-- Removes slots one by one, and stops at the first that is refused. -/
def removeSlots : List SlotId → Program μ Unit
  | [] => return
  | id :: ids => do
    removeSlot id
    removeSlots ids

/-- Removes the slots of one block after the other. -/
def removeSlotsOf : List BlockId → Program μ Unit
  | [] => return
  | id :: ids => do
    removeSlots ((← get).slotsOf id)
    removeSlotsOf ids

/-- Takes a block off the list of its parent. -/
def dropChild (parent : Option BlockId) (id : BlockId) (a : Arena μ) : Arena μ :=
  match parent with
  | none => a
  | some parent => a.modifyBlock parent fun row =>
    { row with children := row.children.filter (· ≠ id) }

def removeBlock (id : BlockId) : Program μ Unit := do
  if id = (← get).root then throw (.rootBlock .removed)
  let row ← requireBlock id
  let below ← expect (·.descendants? id)
  removeSlotsOf (id :: below)
  modify (eraseBlocks (id :: below))
  modify (dropChild row.parent id)

def moveBlock (id parent : BlockId) (index : Nat) : Program μ Unit := do
  if id = (← get).root then throw (.rootBlock .moved)
  let row ← requireBlock id
  let container ← requireBlock parent
  if !container.kind.isContainer then throw (.notAContainer container.name)
  let below ← expect (·.descendants? id)
  if parent = id ∨ parent ∈ below then throw (.cyclicMove row.name)
  modify (dropChild row.parent id)
  modify (modifyBlock parent fun row =>
    { row with children := row.children.insertIdx (min index row.children.length) id })
  modify (modifyBlock id fun row => { row with parent := some parent })

-- ---------------------------------------------------------------------------
-- Links
-- ---------------------------------------------------------------------------

/-- Whether a slot has as many links as it takes. -/
def isFull (row : SlotRow) : Bool :=
  match row.slot.maxLinks with
  | some most => decide (most ≤ row.links.length)
  | none => false

/-- Decides on a request to link two slots. -/
def plan (x y : SlotId) : Program μ Workflow.Connection := do
  let first ← requireSlot x
  let second ← requireSlot y
  let a ← get
  if x = y then throw (.selfConnection first.slot.name)
  if first.slot.direction = second.slot.direction then
    throw (.sameDirection first.slot.name second.slot.name first.slot.direction)
  if !first.slot.compatible second.slot then
    throw (.typeMismatch first.slot.name first.slot.type second.slot.name second.slot.type)
  if (first.links.filterMap a.links).any (·.joins x y) then
    throw (.alreadyConnected first.slot.name second.slot.name)
  if isFull first then throw (.capacityExceeded first.slot.name)
  if isFull second then throw (.capacityExceeded second.slot.name)
  let adopts := Workflow.adoptedType? first.slot second.slot
  match first.slot.direction with
  | .output => return ⟨x, y, adopts⟩
  | .input => return ⟨y, x, adopts⟩

/-- Gives a slot the type that a plan says it takes on. -/
def adopt (adopts : Option (SlotId × SlotType)) (a : Arena μ) : Arena μ :=
  match adopts with
  | none => a
  | some (id, type) => a.modifySlot id fun row => { row with slot := { row.slot with type := type } }

def connect (x y : SlotId) (uid : Option String) : Program μ LinkId := do
  let granted ← plan x y
  modify (adopt granted.adopts)
  let number ← allocate
  let a ← get
  let link : Link :=
    { id := ⟨number⟩
      uid := uid.getD (Workflow.freshUid a.uidStem number)
      source := granted.source
      target := granted.target }
  modify (putLink ⟨number⟩ link)
  modify (modifySlot granted.source fun row => { row with links := row.links ++ [⟨number⟩] })
  modify (modifySlot granted.target fun row => { row with links := row.links ++ [⟨number⟩] })
  return ⟨number⟩

def disconnectSlots (x y : SlotId) : Program μ Bool := do
  let a ← get
  match (a.slots x).bind fun row => row.links.find? fun id => (a.links id).any (·.joins x y) with
  | none => return false
  | some link => disconnect link

-- ---------------------------------------------------------------------------
-- All edits
-- ---------------------------------------------------------------------------

/-- Carries out a request. -/
def perform : Edit μ → Program μ Answer
  | .addBlock parent kind uid => return .block (← insertBlock parent kind uid)
  | .addModel parent setup uid => return .block (← insertModel parent setup uid)
  | .addSlot owner request => return .slot (← addSlot owner request)
  | .renameSlot slot name => do
    renameSlot slot name
    return .done
  | .removeSlot slot => do
    removeSlot slot
    return .done
  | .removeBlock block => do
    removeBlock block
    return .done
  | .moveBlock block parent index => do
    moveBlock block parent index
    return .done
  | .connect x y uid => return .link (← connect x y uid)
  | .disconnect link => return .found (← disconnect link)
  | .disconnectSlots x y => return .found (← disconnectSlots x y)
  | .setName name => do
    modify fun a =>
      { a with name := name }.modifyBlock a.root fun row => { row with name := name }
    return .done
  | .setBlockName block name => do
    modify (modifyBlock block fun row => { row with name := name })
    return .done
  | .setBlockKind block kind => do
    modify (modifyBlock block fun row => { row with kind := kind })
    return .done
  | .register modelClass => do
    let (added, registry) := (← get).registry.register modelClass
    modify fun a => { a with registry := registry }
    return .found added

end Arena

end SlotFlow
