import SlotFlow.Graph.Workflow
/-!
# Whether a workflow is ready

A workflow is ready for code generation if every required slot has a link and, where the program is
to stand alone, no slot on the border has one. `Workflow.issues` lists what is missing, in tree
order.
-/

namespace SlotFlow

/-- A reason why a workflow is not ready. -/
inductive Issue where
  /-- A required slot has no link. -/
  | unconnectedSlot (block : BlockId) (slot : SlotId) (name : String)
  /-- A slot on the border has a link, which has no meaning in a program of its own. -/
  | connectedExternalSlot (slot : SlotId) (name : String)
  deriving DecidableEq, Repr

/-- The wording of an issue. -/
def Issue.message : Issue → String
  | unconnectedSlot _ _ name => s!"required slot '{name}' is not connected"
  | connectedExternalSlot _ name =>
    s!"external slot '{name}' is connected, which is not allowed for execution"

namespace Workflow

variable {μ : Type}

/-- The issues of one slot. -/
def issuesAt (w : Workflow μ) (forExecution : Bool) (owned : OwnedSlot) : List Issue :=
  let slot := owned.slot
  let linked := w.isLinked slot.id
  (if !slot.optional && !linked then [.unconnectedSlot owned.owner.id slot.id slot.name] else []) ++
  (if forExecution && slot.external && linked then [.connectedExternalSlot slot.id slot.name]
   else [])

/-- All issues of a workflow, in tree order. -/
def issues (w : Workflow μ) (forExecution : Bool) : List Issue :=
  w.ownedSlots.flatMap (w.issuesAt forExecution)

/-- Whether a workflow has no issue. -/
def isReady (w : Workflow μ) (forExecution : Bool) : Bool :=
  (w.issues forExecution).isEmpty

end Workflow

end SlotFlow
