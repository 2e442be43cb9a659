import SlotFlow.Graph.Workflow
import SlotFlow.Naming.Identifier
/-!
# Giving elements their identifiers

Every block and every slot on the border gets an identifier of its own, and keeps it for as long as
it exists. A named value goes by the name its user chose whenever that name is free.

* `firstFree` — the first numbered name that is not taken;
* `Workflow.assignNames` — one pass over the workflow: blocks, then slots, in tree order.
-/

namespace SlotFlow

/-- Looks for a number from `k` on whose name is not taken, `tries` times. -/
def firstFreeFrom (stem : String) (taken : List String) : Nat → Nat → String
  | 0, k => stem ++ toString k
  | tries + 1, k =>
    let candidate := stem ++ toString k
    if candidate ∈ taken then firstFreeFrom stem taken tries (k + 1) else candidate

/-- The first of the names `stem1`, `stem2`, … that is not taken. One of the first
`taken.length + 1` of them is free. -/
def firstFree (stem : String) (taken : List String) : String :=
  firstFreeFrom stem taken taken.length 1

namespace Block

/-- The identifier that the user of a named value asks for. -/
def preferredName? (block : Block) : Option String :=
  match block.kind with
  | .named name _ => Identifier.ofName? name
  | _ => none

/-- The identifier that a block goes by from now on, and the names that are taken then. A block that
moves to the name its user asks for gives its old one free. -/
def chooseName (taken : List String) (block : Block) : String × List String :=
  let settle (name : String) (taken : List String) := (name, name :: taken)
  let otherwise := match block.codeName with
    | some current => settle current taken
    | none => settle (firstFree block.kind.codeStem taken) taken
  match block.preferredName? with
  | none => otherwise
  | some wanted =>
    if block.codeName = some wanted then settle wanted taken
    else if wanted ∈ taken then otherwise
    else match block.codeName with
      | some old => settle wanted (taken.filter (· ≠ old))
      | none => settle wanted taken

/-- A block with the identifier it goes by from now on. -/
def assignName (taken : List String) (block : Block) : Block × List String :=
  let chosen := block.chooseName taken
  ({ block with codeName := some chosen.1 }, chosen.2)

end Block

namespace Slot

/-- What the numbered identifiers of a slot start with, if it gets one. An external output slot is
an input of the workflow, seen from outside. -/
def codeStem? (slot : Slot) : Option String :=
  if slot.external then
    match slot.direction with
    | .output => some "external_input_"
    | .input => some "external_output_"
  else none

/-- A slot with the identifier it goes by from now on, and the names that are taken then. -/
def assignName (taken : List String) (slot : Slot) : Slot × List String :=
  match slot.codeName, slot.codeStem? with
  | none, some stem =>
    let name := firstFree stem taken
    ({ slot with codeName := some name }, name :: taken)
  | _, _ => (slot, taken)

/-- A list of slots with the identifiers they go by from now on. -/
def assignNames (taken : List String) : List Slot → List Slot × List String
  | [] => ([], taken)
  | slot :: slots =>
    let first := slot.assignName taken
    let others := assignNames first.2 slots
    (first.1 :: others.1, others.2)

end Slot

/-- A block whose slots have the identifiers they go by from now on. -/
def Block.assignSlotNames (taken : List String) (block : Block) : Block × List String :=
  let named := Slot.assignNames taken block.slots
  ({ block with slots := named.1 }, named.2)

namespace Workflow

variable {μ : Type}

/-- The identifiers that blocks and slots go by. -/
def codeNames (w : Workflow μ) : List String :=
  w.blocks.filterMap Block.codeName ++ w.slots.filterMap Slot.codeName

/-- Changes each block in tree order, handing a state from one to the next. -/
def mapBlocksState {σ : Type} (f : σ → Block → Block × σ) (s : σ) (w : Workflow μ) :
    Workflow μ × σ :=
  let root := f s w.root
  let body := w.body.mapState f root.2
  ({ w with root := root.1, body := body.1 }, body.2)

/-- Gives every block and every slot on the border an identifier. -/
def assignNames (w : Workflow μ) : Workflow μ :=
  let taken := w.codeNames ++ Identifier.reservedMembers
  let blocks := w.mapBlocksState Block.assignName taken
  (blocks.1.mapBlocksState Block.assignSlotNames blocks.2).1

/-- The name of the class that is generated for a workflow: its own name as an identifier, or the
default name. -/
def className (w : Workflow μ) : String :=
  (Identifier.ofName? w.name).getD defaultName

end Workflow

end SlotFlow
