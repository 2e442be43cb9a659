import SlotFlow.Proofs.Program.Bridged
import SlotFlow.Proofs.Simulation.Refused
/-!
# Inputs and outputs of classes and simulations

A class and a simulation of the same workflow are given values and asked for values by the names of
slots on the border. What the class answers to a name is about the slot that the simulation finds by it.

* `Simulation.Resolves` — a simulation finds the slots by their names.

## Results

* `Workflow.Reachable.bridges_and_resolves` — the parts of a class agree with each other and with every
  simulation of the workflow;
* `Workflow.not_read_of_turned_root` — an input that nothing reads, since the root is no workflow.
-/

namespace SlotFlow

namespace Simulation

variable {R μ : Type} {v w : Workflow μ} {sim : Simulation R μ}

/-- A slot on the border is found by its name in a simulation, even if the simulation was started before
the slot got its identifier. -/
theorem exists_externalSlot? (h : w.WellFormed) (hsame : sim.workflow.unnamed = w.unnamed)
    {direction : Direction} {slot : Slot} (hs : slot ∈ w.borderSlots direction) :
    ∃ found, sim.externalSlot? direction slot.name = some found ∧ found.id = slot.id := by
  have hborder := Workflow.map_unnamed_borderSlots_of_unnamed hsame direction
  have hfound := congrArg (List.find? fun slot' => slot'.objectId = .name slot.name) hborder
  rw [List.find?_map, List.find?_map] at hfound
  have hfind : (sim.externalSlot? direction slot.name).map Slot.unnamed = some slot.unnamed :=
    hfound.trans (congrArg (Option.map Slot.unnamed) (h.find?_borderSlots hs))
  obtain ⟨found, hsome, heq⟩ := Option.map_eq_some_iff.mp hfind
  exact ⟨found, hsome, Slot.id_of_unnamed heq⟩

variable [TimeNumber R] [NativeModel R μ]

/-- A simulation finds the inputs and outputs of a workflow by their names: a value that is set is kept
for the input, and an output gives what it is linked to. -/
structure Resolves (w : Workflow μ) (sim : Simulation R μ) : Prop where
  input : ∀ slot ∈ w.inputSlots, ∀ value, setInput slot.name value sim =
    (.ok (), { sim with inputs := assign slot.id value sim.inputs })
  output : ∀ slot ∈ w.outputSlots, ∀ time,
    output slot.name time sim = linked slot.id { time := some time } sim

/-- Every simulation of a workflow finds its inputs and outputs by their names. -/
theorem Over.resolves (h : Over v sim) (hw : w.WellFormed) (hsame : v.unnamed = w.unnamed) :
    Resolves w sim := by
  rw [← h.workflow_eq] at hsame
  constructor
  · intro slot hinput value
    obtain ⟨found, hfound, hid⟩ := exists_externalSlot? hw hsame (List.mem_of_mem_filter hinput)
    rw [setInput, get_bind_apply, hfound, ← hid]
    rfl
  · intro slot houtput time
    obtain ⟨found, hfound, hid⟩ := exists_externalSlot? hw hsame (List.mem_of_mem_filter houtput)
    rw [output, get_bind_apply, hfound, ← hid]

end Simulation

namespace Workflow

open Simulation

variable {μ : Type} {w : Workflow μ}

/-- **The parts of a class agree.** Take a workflow for which there is a class. Its method `set` has one
arm for each linked slot through which values enter the workflow and its method `get` has one for each
linked slot through which values leave it, and they have no others. The literals that the arms of a method
ask for are distinct. The class declares the same slots, once each and in the order of the tree. The arm for
an input sets the member that the first method gives no value. If the root is a workflow still, everything
that is linked to the input reads that member. In every simulation of the workflow, with its identifiers or
before it got them, the name of each of the slots stands for that slot. -/
theorem Reachable.bridges_and_resolves (h : w.Reachable) {options : ProgramOptions}
    {lines : List String} (hg : (w.generate options .component).1 = .ok lines) :
    ∃ program init set get, w.assignNames.programCode options .component = .ok program ∧
      lines = program.lines ∧ program.methodBody? .init = some init ∧
      program.methodBody? .set = some set ∧ program.methodBody? .get = some get ∧
      w.assignNames.Bridges program init set get ∧
      ∀ {R : Type} [TimeNumber R] [NativeModel R μ] (v : Workflow μ) (sim : Simulation R μ),
        v.unnamed = w.unnamed → Over v sim → Resolves w.assignNames sim := by
  obtain ⟨program, hprogram, hlines⟩ := generate_eq_ok hg
  obtain ⟨-, hblocks, hslots, hnames, -⟩ := h.names_told_apart
  have hwell := h.named.wellFormed
  obtain ⟨init, set, get, hinit, hset, hget, hbridges⟩ :=
    hwell.bridges hnames hblocks hslots hprogram
  refine ⟨program, init, set, get, hprogram, hlines, hinit, hset, hget, hbridges, ?_⟩
  intro R _ _ v sim hsame hover
  exact hover.resolves hwell (hsame.trans w.unnamed_assignNames.symm)

/-- Two inputs, of which the first one has the type that comes later, feed the two outputs of a workflow. -/
theorem bridges_and_resolves_of_two_inputs :
    ∃ (w : Workflow Timer) (program init set get : Code) (sim : Simulation Nat Timer),
      w.Reachable ∧ w.assignNames.programCode {} .component = .ok program ∧
      program.methodBody? .set = some set ∧ program.methodBody? .get = some get ∧
      set.arms.map Arm.objectId = [.name "it's", .name "load"] ∧
      get.arms.map Arm.objectId = [.name "end", .name "out"] ∧
      w.assignNames.Bridges program init set get ∧ w.assignNames.root.kind = .workflow ∧
      Resolves w.assignNames sim := by
  have hload := @Reachable.edited Timer _ _
    (.addSlot rootId { name := "load", type := .double, kind := ⟨.output, true⟩ }) _
    (.new "uid-" "Plan" timers) rfl
  have haim := @Reachable.edited Timer _ _
    (.addSlot rootId { name := "it's", type := .physicalQuantity, kind := ⟨.output, true⟩ }) _
    hload rfl
  have hout := @Reachable.edited Timer _ _
    (.addSlot rootId { name := "out", type := .double, kind := ⟨.input, true⟩ }) _ haim rfl
  have hend := @Reachable.edited Timer _ _
    (.addSlot rootId { name := "end", type := .physicalQuantity, kind := ⟨.input, true⟩ }) _
    hout rfl
  have hfirst := @Reachable.edited Timer _ _ (.connect ⟨1⟩ ⟨3⟩ none) _ hend rfl
  have hboth := @Reachable.edited Timer _ _ (.connect ⟨2⟩ ⟨4⟩ none) _ hfirst rfl
  have hover := over_of_reachable hboth rfl
  obtain ⟨program, init, set, get, hprogram, -, hinit, hset, hget, hbridges, hresolves⟩ :=
    @Reachable.bridges_and_resolves Timer _ hboth {} _ rfl
  cases hprogram
  cases hset
  cases hget
  exact ⟨_, _, init, _, _, _, hboth, rfl, rfl, rfl, rfl, rfl, hbridges, rfl,
    hresolves _ _ rfl hover⟩

/-- The root of a workflow with an input is no workflow any more. The method that takes in a value sets
the member for the input, but the output that is linked to the input reads nothing. -/
theorem not_read_of_turned_root :
    ∃ (w : Workflow Unit) (program set get : Code) (slot : Slot) (link : Link),
      w.Reachable ∧ w.assignNames.programCode {} .component = .ok program ∧
      program.methodBody? .set = some set ∧ program.methodBody? .get = some get ∧
      w.assignNames.inputSlots = [slot] ∧ w.assignNames.links = [link] ∧ link.source = slot.id ∧
      set.arms = [slot.arm fun _ => .assign "external_input_1" .argument] ∧
      get.arms.map Arm.body = [Code.ofLines [.returnValue link.target .none]] ∧
      w.assignNames.readSlot link.target (.named "time") = .none ∧
      ¬∀ time, w.assignNames.readSlot link.target time = .member slot.id "external_input_1" := by
  have hload := @Reachable.edited Unit _ _
    (.addSlot rootId { name := "load", type := .physicalQuantity, kind := ⟨.output, true⟩ }) _
    (.new "uid-" "Plan" .empty) rfl
  have hout := @Reachable.edited Unit _ _
    (.addSlot rootId { name := "out", type := .physicalQuantity, kind := ⟨.input, true⟩ }) _
    hload rfl
  have hlinked := @Reachable.edited Unit _ _ (.connect ⟨1⟩ ⟨2⟩ none) _ hout rfl
  have hturned := @Reachable.edited Unit _ _ (.setBlockKind rootId .sequential) _ hlinked rfl
  refine ⟨_, _, _, _, _, _, hturned, rfl, rfl, rfl, rfl, rfl, rfl, rfl, rfl, rfl, fun hall => ?_⟩
  cases hall .none

end Workflow

end SlotFlow
