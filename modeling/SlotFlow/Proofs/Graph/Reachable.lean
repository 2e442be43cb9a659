import SlotFlow.Program.Generate
import SlotFlow.Proofs.Document.Loaded
/-!
# Reachable workflows

A workflow is reachable if it is a new one, one that was built from a document, or what an edit, a
naming pass or the generation of a program made of a reachable one. The documents are arbitrary, and
so are the arguments of the edits.

* `Edit`, `Workflow.perform` — the edits as data;
* `Workflow.Reachable` — the workflows there are.

## Results

* `Workflow.WellFormed.perform` — an edit keeps a workflow well formed;
* `Workflow.Reachable.wellFormed` — every reachable workflow is well formed.
-/

namespace SlotFlow

variable {μ : Type}

-- ---------------------------------------------------------------------------
-- Edits as data
-- ---------------------------------------------------------------------------

/-- A request to change a workflow. The uid of a new block or link, if there is one, and the files of
a model come from a document; requests from elsewhere give none. -/
inductive Edit (μ : Type) where
  | addBlock (parent : BlockId) (kind : BlockKind) (uid : Option String)
  | addModel (parent : BlockId) (setup : ModelSetup) (uid : Option String)
  | addSlot (owner : BlockId) (request : SlotRequest)
  | renameSlot (slot : SlotId) (name : String)
  | removeSlot (slot : SlotId)
  | removeBlock (block : BlockId)
  | moveBlock (block parent : BlockId) (index : Nat)
  | connect (a b : SlotId) (uid : Option String)
  | disconnect (link : LinkId)
  | disconnectSlots (a b : SlotId)
  | setName (name : String)
  | setBlockName (block : BlockId) (name : String)
  | setBlockKind (block : BlockId) (kind : BlockKind)
  | register (modelClass : ModelClass μ)

/-- What a granted request is answered with. -/
inductive Answer where
  | done
  | block (id : BlockId)
  | slot (id : SlotId)
  | link (id : LinkId)
  | found (present : Bool)
  deriving DecidableEq, Repr

namespace Workflow

variable {w w' : Workflow μ}

/-- Carries out a request, or says why not. -/
def perform (w : Workflow μ) : Edit μ → Except EditError (Answer × Workflow μ)
  | .addBlock parent kind uid =>
    (w.addBlock parent kind uid).map fun added => (.block added.1, added.2)
  | .addModel parent setup uid =>
    (w.addModelSetup parent setup uid).map fun added => (.block added.1, added.2)
  | .addSlot owner request =>
    (w.addSlot owner request).map fun added => (.slot added.1, added.2)
  | .renameSlot slot name => (w.renameSlot slot name).map (.done, ·)
  | .removeSlot slot => (w.removeSlot slot).map (.done, ·)
  | .removeBlock block => (w.removeBlock block).map (.done, ·)
  | .moveBlock block parent index => (w.moveBlock block parent index).map (.done, ·)
  | .connect a b uid => (w.connect a b uid).map fun added => (.link added.1, added.2)
  | .disconnect link => .ok (.found (w.disconnect link).1, (w.disconnect link).2)
  | .disconnectSlots a b => .ok (.found (w.disconnectSlots a b).1, (w.disconnectSlots a b).2)
  | .setName name => .ok (.done, w.setName name)
  | .setBlockName block name =>
    .ok (.done, w.modifyBlock block fun block => { block with name := name })
  | .setBlockKind block kind =>
    .ok (.done, w.modifyBlock block fun block => { block with kind := kind })
  | .register modelClass =>
    .ok (.found (w.registry.register modelClass).1,
      { w with registry := (w.registry.register modelClass).2 })

theorem perform_addSlot {owner : BlockId} {request : SlotRequest} {added : SlotId × Workflow μ}
    (h : w.addSlot owner request = .ok added) :
    w.perform (.addSlot owner request) = .ok (.slot added.1, added.2) := by
  rw [perform, h]
  rfl

theorem perform_connect {a b : SlotId} {uid : Option String} {added : LinkId × Workflow μ}
    (h : w.connect a b uid = .ok added) :
    w.perform (.connect a b uid) = .ok (.link added.1, added.2) := by
  rw [perform, h]
  rfl

/-- The workflows that there are. -/
inductive Reachable : Workflow μ → Prop where
  | new (uidStem name : String) (registry : Registry μ) : Reachable (new uidStem name registry)
  | loaded {uidStem : String} {records : List Record} {registry : Registry μ} {w : Workflow μ}
      (h : ofRecords uidStem records registry = .ok w) : Reachable w
  | edited {w w' : Workflow μ} {edit : Edit μ} {answer : Answer} (h : Reachable w)
      (he : w.perform edit = .ok (answer, w')) : Reachable w'
  | named {w : Workflow μ} (h : Reachable w) : Reachable w.assignNames
  | generated {w : Workflow μ} (h : Reachable w) (options : ProgramOptions) (form : ProgramForm) :
      Reachable (w.generate options form).2

namespace WellFormed

/-- An edit keeps a workflow well formed. -/
theorem perform (h : w.WellFormed) {edit : Edit μ} {answer : Answer}
    (he : w.perform edit = .ok (answer, w')) : w'.WellFormed := by
  cases edit <;> simp only [Workflow.perform, map_eq_ok, Except.ok.injEq, Prod.mk.injEq] at he
  case addBlock =>
    obtain ⟨added, ha, -, rfl⟩ := he
    exact h.addBlock ha
  case addModel =>
    obtain ⟨added, ha, -, rfl⟩ := he
    exact h.addModelSetup ha
  case addSlot =>
    obtain ⟨added, ha, -, rfl⟩ := he
    exact h.addSlot ha
  case renameSlot =>
    obtain ⟨renamed, hr, -, rfl⟩ := he
    exact h.renameSlot hr
  case removeSlot =>
    obtain ⟨shrunk, hs, -, rfl⟩ := he
    exact h.removeSlot hs
  case removeBlock =>
    obtain ⟨shrunk, hs, -, rfl⟩ := he
    exact h.removeBlock hs
  case moveBlock =>
    obtain ⟨moved, hm, -, rfl⟩ := he
    exact h.moveBlock hm
  case connect =>
    obtain ⟨added, ha, -, rfl⟩ := he
    exact h.connect ha
  case disconnect link =>
    obtain ⟨-, rfl⟩ := he
    exact h.disconnect link
  case disconnectSlots a b =>
    obtain ⟨-, rfl⟩ := he
    exact h.disconnectSlots a b
  case setName name =>
    obtain ⟨-, rfl⟩ := he
    exact h.setName name
  case setBlockName id name =>
    obtain ⟨-, rfl⟩ := he
    exact h.modifyBlock id (fun _ => rfl) fun _ => rfl
  case setBlockKind id kind =>
    obtain ⟨-, rfl⟩ := he
    exact h.modifyBlock id (fun _ => rfl) fun _ => rfl
  case register modelClass =>
    obtain ⟨-, rfl⟩ := he
    exact ⟨h.blocks, h.links, h.types⟩

end WellFormed

/-- The generation of a program is a naming pass, or it changes nothing. -/
theorem generate_keeps {P : Workflow μ → Prop} (hnamed : P w.assignNames) (h : P w)
    (options : ProgramOptions) (form : ProgramForm) : P (w.generate options form).2 := by
  unfold generate
  split
  · exact hnamed
  · exact h

/-- Every reachable workflow is well formed. -/
theorem Reachable.wellFormed (h : w.Reachable) : w.WellFormed := by
  induction h with
  | new uidStem name registry => exact wellFormed_new ..
  | loaded h => exact .of_ofRecords h
  | edited _ he ih => exact ih.perform he
  | named _ ih => exact ih.assignNames
  | generated _ options form ih => exact generate_keeps ih.assignNames ih options form

end Workflow

end SlotFlow
