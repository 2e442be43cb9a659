import SlotFlow.Document.Record
import SlotFlow.Graph.Edit
/-!
# Workflows as documents

`Workflow.records` takes a workflow apart into records: blocks, slots, links.
`Workflow.ofRecords` builds one from records; it passes over those that it can make nothing of.
-/

namespace SlotFlow

/-- Why a document is no workflow. -/
inductive DocumentError where
  /-- The text does not have the form of a document. -/
  | malformed
  /-- There is no record of a root. -/
  | missingRoot
  deriving DecidableEq, Repr

/-- The wording of an error. -/
def DocumentError.message : DocumentError → String
  | malformed => "Failed to parse workflow JSON"
  | missingRoot => "The document does not contain a WorkflowBlock record"

namespace Workflow

variable {μ : Type}

-- ---------------------------------------------------------------------------
-- Taking apart
-- ---------------------------------------------------------------------------

/-- The record of a block. -/
def recordOfBlock (w : Workflow μ) (block : Block) : Record :=
  .block
    { uid := block.uid
      parent := (w.parent? block.id).map Block.uid
      name := some block.name }
    block.kind

/-- The record of a slot. -/
def recordOfSlot (owned : OwnedSlot) : Record :=
  .slot
    { uid := owned.slot.uid
      owner := some owned.owner.uid
      name := owned.slot.name
      type := owned.slot.type
      objectType := owned.slot.objectType
      objectId := owned.slot.objectId
      optional := owned.slot.optional }
    owned.slot.kind

/-- The record of a link. -/
def recordOfLink (w : Workflow μ) (link : Link) : Record :=
  let uidOf (id : SlotId) := ((w.slot? id).map Slot.uid).getD ""
  .link { uid := link.uid, source := uidOf link.source, target := uidOf link.target }

/-- The records of a workflow: its blocks in tree order, its slots in tree order, its links. -/
def records (w : Workflow μ) : List Record :=
  w.blocks.map w.recordOfBlock ++ w.ownedSlots.map recordOfSlot ++ w.links.map w.recordOfLink

/-- The text of the document of a workflow. -/
def toText (w : Workflow μ) : String :=
  Document.toText w.records

-- ---------------------------------------------------------------------------
-- Recorded blocks
-- ---------------------------------------------------------------------------

/-- The workflow with a recorded block in a container, if the container takes it. -/
def addRecordedBlock (w : Workflow μ) (parent : BlockId) (data : BlockData) (kind : BlockKind) :
    Workflow μ :=
  let added := match kind with
    | .model setup => w.addModelSetup parent setup (some data.uid)
    | kind => w.addBlock parent kind (some data.uid)
  match added with
  | .error _ => w
  | .ok (id, grown) => match data.name with
    | none => grown
    | some name => grown.modifyBlock id fun block => { block with name := name }

/-- The block that a record names as the parent: the root if it names none. -/
def recordedParent? (w : Workflow μ) (data : BlockData) : Option BlockId :=
  match data.parent with
  | none => some w.root.id
  | some uid => (w.blockWithUid? uid).map Block.id

/-- Adds each block whose parent is there when its turn comes; gives the others back. -/
def addAttachable (w : Workflow μ) :
    List (BlockData × BlockKind) → Workflow μ × List (BlockData × BlockKind)
  | [] => (w, [])
  | (data, kind) :: rest =>
    match w.recordedParent? data with
    | some parent => (w.addRecordedBlock parent data kind).addAttachable rest
    | none =>
      let (w, left) := w.addAttachable rest
      (w, (data, kind) :: left)

/-- Adds blocks in several passes, so that a child may be recorded before its parent. It ends when a
pass adds nothing, at the latest after `fuel` passes. -/
def addRecordedBlocks : Nat → Workflow μ → List (BlockData × BlockKind) → Workflow μ
  | 0, w, _ => w
  | fuel + 1, w, pending =>
    let (w, left) := w.addAttachable pending
    if left.isEmpty || left.length = pending.length then w else addRecordedBlocks fuel w left

-- ---------------------------------------------------------------------------
-- Recorded slots and links
-- ---------------------------------------------------------------------------

/-- An object type as a record gives it. The empty text and `None` stand for none. -/
def recordedObjectType? (data : SlotData) : Option String :=
  data.objectType.filter fun type => type ≠ "" && type ≠ "None"

/-- What a record says about a slot that is there already. -/
def applyRecord (data : SlotData) (slot : Slot) : Slot :=
  { slot with
    uid := data.uid
    type := if data.type = .unknown then slot.type else data.type
    objectType := (recordedObjectType? data).or slot.objectType }

/-- The slot that a record asks for. -/
def recordedRequest (data : SlotData) (kind : SlotKind) : SlotRequest where
  name := data.name
  type := data.type
  kind := kind
  optional := data.optional
  objectType := recordedObjectType? data
  objectId := data.objectId
  uid := some data.uid

/-- Adds a slot: a slot of that name takes on what is recorded, else there is a new one. -/
def addRecordedSlot (w : Workflow μ) (data : SlotData) (kind : SlotKind) : Workflow μ :=
  match data.owner.bind w.blockWithUid? with
  | none => w
  | some owner =>
    match owner.slot? data.name with
    | some slot => w.modifySlot slot.id (applyRecord data)
    | none => match w.addSlot owner.id (recordedRequest data kind) with
      | .ok (_, grown) => grown
      | .error _ => w

/-- Adds a link if both of its ends are there and may be linked. -/
def addRecordedLink (w : Workflow μ) (data : LinkData) : Workflow μ :=
  match w.slotWithUid? data.source, w.slotWithUid? data.target with
  | some a, some b => match w.connect a.id b.id (some data.uid) with
    | .ok (_, grown) => grown
    | .error _ => w
  | _, _ => w

-- ---------------------------------------------------------------------------
-- Building
-- ---------------------------------------------------------------------------

/-- The record of the root: the first one of a workflow block. -/
def recordedRoot? : List Record → Option BlockData
  | [] => none
  | .block data .workflow :: _ => some data
  | _ :: rest => recordedRoot? rest

/-- The records of the blocks below the root. -/
def recordedBlocks (records : List Record) : List (BlockData × BlockKind) :=
  records.filterMap fun record => match record with
    | .block _ .workflow => none
    | .block data kind => some (data, kind)
    | _ => none

/-- The records of the slots. -/
def recordedSlots (records : List Record) : List (SlotData × SlotKind) :=
  records.filterMap fun record => match record with
    | .slot data kind => some (data, kind)
    | _ => none

/-- The records of the links. -/
def recordedLinks (records : List Record) : List LinkData :=
  records.filterMap fun record => match record with
    | .link data => some data
    | _ => none

/-- The workflow that records describe, over the model classes of a registry. Uids that are not
recorded start with `uidStem`. -/
def ofRecords (uidStem : String) (records : List Record) (registry : Registry μ) :
    Except DocumentError (Workflow μ) :=
  match recordedRoot? records with
  | none => .error .missingRoot
  | some root =>
    let start := new uidStem (root.name.getD defaultName) registry (some root.uid)
    let pending := recordedBlocks records
    let withBlocks := addRecordedBlocks pending.length start pending
    let withSlots := (recordedSlots records).foldl
      (fun w (data, kind) => w.addRecordedSlot data kind) withBlocks
    .ok ((recordedLinks records).foldl addRecordedLink withSlots)

/-- The workflow that the text of a document describes. -/
def ofText (uidStem text : String) (registry : Registry μ)
    (conversion : Json.Conversion := .scaled) : Except DocumentError (Workflow μ) :=
  match Document.read? text conversion with
  | none => .error .malformed
  | some records => ofRecords uidStem records registry

end Workflow

end SlotFlow
