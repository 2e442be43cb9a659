import SlotFlow.Proofs.Program.Constructed
import SlotFlow.Proofs.Simulation.Follows
import SlotFlow.Proofs.Simulation.Refused
/-!
# Every model once

A program and a simulation each make something of every model of a workflow, when they start and when
they end. Where no kind is edited, both do so for the same blocks in the same order.

* `Workflow.EachModelOnce` — a program constructs, terminates and imports what it should;
* `Simulation.IsInstanceOf` — what a simulation holds for a model block.

## Results

* `Workflow.KindsKept.eachModelOnce` — programs treat every model once;
* `Simulation.forall₂_isInstanceOf_of_start` — a simulation starts with an instance for each model;
* `Simulation.Over.finish_eq` — and it terminates each of them;
* `Simulation.eachModelOnce_and_instantiates` — programs and simulations agree about that.
-/

namespace SlotFlow

namespace Workflow

variable {μ : Type} {u w : Workflow μ} {options : ProgramOptions} {form : ProgramForm}

-- ---------------------------------------------------------------------------
-- Programs
-- ---------------------------------------------------------------------------

/-- What a program does once for each model below the root: it constructs it in the first method, for a
member of its own, terminates it in another method, and imports the classes of the models, each where
it is needed first. A class that is not registered is left out. -/
structure EachModelOnce (w : Workflow μ) (options : ProgramOptions) (program : Code) : Prop where
  constructed : ∃ init, program.methodBody? .init = some init ∧
    (init.toList.filterMap Line.construction?).map some = w.models.map Block.construction?
  terminated : ∃ body, program.methodBody? .terminate = some body ∧
    body.toList.filterMap Line.termination? = w.models.map Block.identifier
  members : (w.models.map Block.identifier).Nodup
  imported : ∃ classes : List String,
    classes.Pairwise (fun a b => w.neededClasses.idxOf a < w.neededClasses.idxOf b) ∧
    (∀ name, name ∈ classes ↔ name ∈ w.neededClasses) ∧
    program.toList.filterMap Line.import? = .module options.runtimeModule ::
      classes.filterMap fun name =>
        (w.registry.find? name).map fun modelClass => .statement modelClass.importStatement

theorem isSome_construction? (block : Block) : block.construction?.isSome = block.isModel :=
  Option.isSome_map

/-- Where the root is a workflow, the blocks that construct something are the models below it. -/
theorem Shaped.map_some_construction (h : w.Shaped) :
    (w.tree.reached.filterMap Block.construction?).map some = w.models.map Block.construction? := by
  have hroot : w.root.construction? = none := by
    rw [Block.construction?, h.root]
    rfl
  rw [Forest.reached_of_nested h.nested, tree, Forest.toList_tree, List.filterMap_cons_none hroot,
    models]
  induction w.body.toList with
  | nil => rfl
  | cons block blocks ih =>
    rw [List.filter_cons, List.filterMap_cons, ← isSome_construction?]
    cases hconstruction : block.construction? with
    | none => exact ih
    | some pair =>
      rw [Option.isSome_some, if_pos rfl, List.map_cons, List.map_cons, ih, hconstruction]

/-- The models below the root are among the blocks, in the same order. -/
theorem models_sublist (w : Workflow μ) : w.models.Sublist w.blocks := by
  rw [blocks_eq]
  exact List.filter_sublist.trans (List.sublist_cons_self ..)

/-- No two models have the same number. -/
theorem WellFormed.nodup_models (h : w.WellFormed) : (w.models.map Block.id).Nodup :=
  h.blocks.ids.sublist (w.models_sublist.map _)

/-- No two models have the same member. -/
theorem Reachable.nodup_identifiers_models (h : w.Reachable) :
    (w.assignNames.models.map Block.identifier).Nodup := by
  have hsub := w.assignNames.models_sublist
  have hnamed : w.assignNames.models.filterMap Block.codeName =
      w.assignNames.models.map Block.identifier := by
    rw [← List.filterMap_eq_map]
    exact List.filterMap_congr fun block hb => (h.usable_block (hsub.subset hb)).1
  have hnodup := h.named.namedApart.nodup
  rw [codeNames, List.nodup_append] at hnodup
  rw [← hnamed]
  exact hnodup.1.sublist (hsub.filterMap _)

/-- **Programs treat every model once**, where no kind is edited. -/
theorem KindsKept.eachModelOnce (h : w.KindsKept) {program : Code}
    (hprogram : w.assignNames.programCode options form = .ok program) :
    w.assignNames.EachModelOnce options program where
  constructed := by
    obtain ⟨init, hinit, hconstructed⟩ := construction_init hprogram
    exact ⟨init, hinit, hconstructed ▸ h.named.shaped.map_some_construction⟩
  terminated := termination_terminate hprogram
  members := h.reachable.nodup_identifiers_models
  imported := ⟨_, pairwise_usedClasses, fun _ => mem_usedClasses, import_programCode hprogram⟩

/-- Workflows that differ in identifiers only have the same models but for these. -/
theorem map_unnamed_models_of_unnamed (h : u.unnamed = w.unnamed) :
    u.models.map Block.unnamed = w.models.map Block.unnamed := by
  have hmodels : ∀ w : Workflow μ,
      w.models.map Block.unnamed = (w.body.toList.map Block.unnamed).filter Block.isModel := by
    intro w
    rw [List.filter_map]
    rfl
  have hblocks := map_unnamed_of_unnamed h
  rw [blocks_eq, blocks_eq, List.map_cons, List.map_cons, List.cons.injEq] at hblocks
  rw [hmodels, hmodels, hblocks.2]

end Workflow

namespace Simulation

variable {R μ : Type} {u w : Workflow μ} {sim : Simulation R μ}

-- ---------------------------------------------------------------------------
-- Instances
-- ---------------------------------------------------------------------------

/-- What a simulation that starts holds for a model block: an instance as the registry has it for the
class of the block, under the number of the block. -/
def IsInstanceOf (registry : Registry μ) (block : Block) (entry : BlockId × μ) : Prop :=
  entry.1 = block.id ∧ ∃ setup, block.kind.model? = some setup ∧
    registry.native? setup.className = some entry.2

theorem forall₂_of_instantiate {registry : Registry μ} {blocks : List Block}
    (hblocks : ∀ block ∈ blocks, block.isModel = true) {models : List (BlockId × μ)}
    (h : (instantiate registry blocks : Except (RunError R) _) = .ok models) :
    List.Forall₂ (IsInstanceOf registry) blocks models := by
  induction blocks generalizing models with
  | nil =>
    cases h
    exact .nil
  | cons block blocks ih =>
    rw [instantiate] at h
    split at h
    · rename_i hnone
      have hmodel := hblocks block List.mem_cons_self
      rw [Block.isModel, hnone] at hmodel
      cases hmodel
    · rename_i setup hsetup
      split at h
      · rename_i fresh hfresh
        obtain ⟨others, hothers, h⟩ := bind_eq_ok.mp h
        cases pure_eq_ok.mp h
        exact .cons ⟨rfl, setup, hsetup, hfresh⟩
          (ih (fun other ho => hblocks other (List.mem_cons_of_mem _ ho)) hothers)
      · cases h

theorem map_fst_of_forall₂ {registry : Registry μ} {blocks : List Block}
    {models : List (BlockId × μ)} (h : List.Forall₂ (IsInstanceOf registry) blocks models) :
    models.map Prod.fst = blocks.map Block.id := by
  induction h with
  | nil => rfl
  | cons hfirst _ ih => rw [List.map_cons, List.map_cons, hfirst.1, ih]

/-- A simulation starts with an instance for each model, in tree order, whichever identifiers there
are. -/
theorem forall₂_isInstanceOf_of_start [TimeNumber R] {registry : Registry μ}
    (h : start u registry = .ok sim) (hsame : u.unnamed = w.unnamed) :
    List.Forall₂ (IsInstanceOf registry) w.models sim.models := by
  obtain ⟨models, hmodels, h⟩ := bind_eq_ok.mp h
  cases pure_eq_ok.mp h
  have hown := forall₂_of_instantiate (fun block hb => (List.mem_filter.mp hb).2) hmodels
  -- identifiers play no part in what an instance is
  have hunnamed : List.Forall₂ (IsInstanceOf registry) (u.models.map Block.unnamed) models :=
    List.forall₂_map_left_iff.mpr hown
  rw [Workflow.map_unnamed_models_of_unnamed hsame] at hunnamed
  exact (List.forall₂_map_left_iff (f := Block.unnamed)).mp hunnamed

-- ---------------------------------------------------------------------------
-- The end
-- ---------------------------------------------------------------------------

theorem assign_append_cons {κ α : Type} [DecidableEq κ] {front : List (κ × α)} {key : κ}
    (h : key ∉ front.map Prod.fst) (old new : α) (back : List (κ × α)) :
    assign key new (front ++ (key, old) :: back) = front ++ (key, new) :: back := by
  induction front with
  | nil => rw [List.nil_append, assign, if_pos rfl, List.nil_append]
  | cons pair front ih =>
    rw [List.map_cons, List.mem_cons, not_or] at h
    rw [List.cons_append, assign, if_neg (Ne.symm h.1), ih h.2, List.cons_append]

/-- Instances under different numbers are terminated one after the other, each of them once. The
instances before them have been. -/
theorem terminateAll_eq [NativeModel R μ] (front : List (BlockId × μ)) {models : List (BlockId × μ)}
    (hids : ((front ++ models).map Prod.fst).Nodup) (hmodels : sim.models = front ++ models) :
    terminateAll models sim =
      { sim with
        models := front ++ models.map fun entry => (entry.1, NativeModel.terminate entry.2)
        calls := (models.map fun entry => (entry.1, ModelCall.terminate)).reverse ++ sim.calls } := by
  induction models generalizing front sim with
  | nil =>
    rw [terminateAll, List.map_nil, List.map_nil, ← hmodels]
    rfl
  | cons entry models ih =>
    obtain ⟨id, state⟩ := entry
    have hfresh : id ∉ front.map Prod.fst := by
      rw [List.map_append, List.map_cons] at hids
      exact fun hin => (List.nodup_append.mp hids).2.2 id hin id List.mem_cons_self rfl
    have hassign := assign_append_cons hfresh state (NativeModel.terminate state) models
    rw [terminateAll, hmodels, hassign, ih (front ++ [(id, NativeModel.terminate state)])]
    · simp [noteCall]
    · simpa using hids
    · simp

-- ---------------------------------------------------------------------------
-- All simulations
-- ---------------------------------------------------------------------------

variable [TimeNumber R] [NativeModel R μ]

/-- A simulation keeps its instances, whatever is asked of it. -/
theorem Over.map_fst_models (h : Over w sim) :
    sim.models.map Prod.fst = w.models.map Block.id := by
  induction h with
  | started h => exact map_fst_of_forall₂ (forall₂_isInstanceOf_of_start h rfl)
  | adjusted _ _ _ ih => exact ih
  | inputSet _ name value ih => exact (continues_setInput name value).blocks.trans ih
  | outputRead _ name time ih => exact (continues_output name time).blocks.trans ih
  | ran _ ih => exact presupposes_run.continues.blocks.trans ih
  | stepped _ step ih => exact (presupposes_solveStep step).continues.blocks.trans ih
  | finished _ ih => exact continues_finish.blocks.trans ih

/-- A simulation ends by terminating the instance of each model once, in tree order, and does nothing
once that has happened. -/
theorem Over.finish_eq (h : Over u sim) (hsame : u.unnamed = w.unnamed) (hw : w.WellFormed) :
    finish sim = if sim.terminated then sim else
      { sim with
        models := sim.models.map fun entry => (entry.1, NativeModel.terminate entry.2)
        calls := (w.models.map fun block => (block.id, ModelCall.terminate)).reverse ++ sim.calls
        terminated := true } := by
  have hids : sim.models.map Prod.fst = w.models.map Block.id := by
    have hblocks := congrArg (List.map Block.id) (Workflow.map_unnamed_models_of_unnamed hsame)
    rw [List.map_map, List.map_map] at hblocks
    exact h.map_fst_models.trans hblocks
  have hnodup : (sim.models.map Prod.fst).Nodup := hids ▸ hw.nodup_models
  have hcalls : (sim.models.map fun entry => (entry.1, (ModelCall.terminate : ModelCall R))) =
      w.models.map fun block => (block.id, ModelCall.terminate) := by
    have hpaired := congrArg (List.map fun id => (id, (ModelCall.terminate : ModelCall R))) hids
    rwa [List.map_map, List.map_map] at hpaired
  unfold finish
  split
  · rfl
  · rw [terminateAll_eq [] hnodup rfl, hcalls]
    rfl

/-- **Programs and simulations treat the same models once.** Take a workflow in which no kind has been
edited and for which there is a program, in either form. The first method of the program constructs the
models below the root, one after the other in tree order, each for a member of its own. Another method
terminates the same members in the same order. The runtime module is imported first and after it the
classes of the models that are registered, each of them once, in the order in which they are needed first.
A simulation that starts on the workflow, with its identifiers or before it got them, has an instance for
each of the same blocks in the same order. Whatever has been asked of the simulation since, it ends by
terminating these instances once in that order, unless that has happened already. -/
theorem eachModelOnce_and_instantiates {w : Workflow μ} (h : w.KindsKept) {options : ProgramOptions}
    {form : ProgramForm} {lines : List String} (hg : (w.generate options form).1 = .ok lines) :
    ∃ program, w.assignNames.programCode options form = .ok program ∧ lines = program.lines ∧
      w.assignNames.EachModelOnce options program ∧
      ∀ {R : Type} [TimeNumber R] [NativeModel R μ] (u : Workflow μ), u.unnamed = w.unnamed →
        (∀ (registry : Registry μ) (sim : Simulation R μ), start u registry = .ok sim →
          List.Forall₂ (IsInstanceOf registry) w.assignNames.models sim.models) ∧
        ∀ sim : Simulation R μ, Over u sim →
          finish sim = if sim.terminated then sim else
            { sim with
              models := sim.models.map fun entry => (entry.1, NativeModel.terminate entry.2)
              calls := (w.assignNames.models.map fun block =>
                (block.id, ModelCall.terminate)).reverse ++ sim.calls
              terminated := true } := by
  obtain ⟨program, hprogram, hlines⟩ := Workflow.generate_eq_ok hg
  refine ⟨program, hprogram, hlines, h.eachModelOnce hprogram, ?_⟩
  intro R _ _ u hsame
  have hnamed : u.unnamed = w.assignNames.unnamed := hsame.trans w.unnamed_assignNames.symm
  exact ⟨fun registry sim hstart => forall₂_isInstanceOf_of_start hstart hnamed,
    fun sim hover => hover.finish_eq hnamed h.reachable.named.wellFormed⟩

/-- Two timers, one of them in a time loop. Their class is imported once, and each of the timers is
constructed, started and terminated once. -/
theorem eachModelOnce_of_timers :
    ∃ (w : Workflow Timer) (program init body : Code) (sim : Simulation Nat Timer),
      w.KindsKept ∧ w.assignNames.programCode {} .component = .ok program ∧
      program.methodBody? .init = some init ∧ program.methodBody? .terminate = some body ∧
      init.toList.filterMap Line.construction? =
        [("model_1", ⟨"Timer", none, none⟩), ("model_2", ⟨"Timer", none, none⟩)] ∧
      body.toList.filterMap Line.termination? = ["model_1", "model_2"] ∧
      program.toList.filterMap Line.import? =
        [.module "mupif", .statement "from timers import Timer"] ∧
      start w w.registry = .ok sim ∧ (finish sim).calls.map Prod.fst = [⟨9⟩, ⟨1⟩] ∧
      w.assignNames.EachModelOnce {} program ∧
      List.Forall₂ (IsInstanceOf w.registry) w.assignNames.models sim.models := by
  have hfirst := @Workflow.KindsKept.edited Timer _ _
    (.addModel Workflow.rootId ⟨"Timer", none, none⟩ none) _ (.new "uid-" "Plan" timers) rfl nofun
  have hloop := @Workflow.KindsKept.edited Timer _ _
    (.addBlock Workflow.rootId .timeLoop none) _ hfirst rfl nofun
  have hsecond := @Workflow.KindsKept.edited Timer _ _
    (.addModel ⟨5⟩ ⟨"Timer", none, none⟩ none) _ hloop rfl nofun
  obtain ⟨program, hprogram, -, honce, hsimulations⟩ :=
    @eachModelOnce_and_instantiates Timer _ hsecond {} .component _ rfl
  have hinstances := (hsimulations _ rfl).1 timers _ rfl
  cases hprogram
  exact ⟨_, _, _, _, _, hsecond, rfl, rfl, rfl, rfl, rfl, rfl, rfl, rfl, honce, hinstances⟩

end Simulation

end SlotFlow
