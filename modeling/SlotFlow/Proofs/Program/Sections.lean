import SlotFlow.Proofs.Program.Members
/-!
# What stands around the code of the blocks

Besides the code that sets the blocks up and executes them, a program has parts that are a matter of form:
its imports, the start of the first method, the methods that a class is used by from outside, and the part
that runs a program by itself. What a line can be is said once for each of them.

* `Workflow.openingLines`, `Workflow.accessMethods` — two of these parts;
* `Workflow.Precedes`, `Workflow.Opens`, `Workflow.Accesses`, `Workflow.Concludes` — their lines.

## Results

* `Workflow.mem_choices` — what the lines of questions for slots are;
* `Workflow.precedes_of_mem`, `Workflow.opens_of_mem`, `Workflow.accesses_of_mem`,
  `Workflow.concludes_of_mem` —
  there are no other lines.
-/

namespace SlotFlow

namespace Workflow

variable {μ : Type} {w : Workflow μ} {options : ProgramOptions} {form : ProgramForm}

-- ---------------------------------------------------------------------------
-- Before the class
-- ---------------------------------------------------------------------------

/-- What a line is that stands before the class. -/
inductive Precedes (w : Workflow μ) (options : ProgramOptions) : Line → Prop where
  | runtime : Precedes w options (.importModule options.runtimeModule)
  | model {name : String} {modelClass : ModelClass μ} (hname : name ∈ w.usedClasses)
      (hclass : w.registry.find? name = some modelClass) :
      Precedes w options (.importClass modelClass.importStatement)
  | blank : Precedes w options .blank

theorem precedes_of_mem {line : Line} (h : line ∈ w.importLines options ++ [.blank, .blank]) :
    w.Precedes options line := by
  rw [List.mem_append, importLines, List.mem_cons, List.mem_filterMap] at h
  rcases h with (rfl | ⟨name, hname, hline⟩) | hblank
  · exact .runtime
  · obtain ⟨modelClass, hclass, rfl⟩ := Option.map_eq_some_iff.mp hline
    exact .model hname hclass
  · simp only [List.mem_cons, List.not_mem_nil, or_false, or_self] at hblank
    rw [hblank]
    exact .blank

-- ---------------------------------------------------------------------------
-- The start of the first method
-- ---------------------------------------------------------------------------

/-- The lines at the start of the first method. -/
def openingLines (w : Workflow μ) (options : ProgramOptions) (form : ProgramForm) : List Line :=
  .initBase options.runtimeModule :: match form with
    | .component => w.metadataLines options ++ w.inputSetUpLines
    | .execution => []

/-- What a line is that stands at the start of the first method. -/
inductive Opens (w : Workflow μ) : Line → Prop where
  | base (runtimeModule : String) : Opens w (.initBase runtimeModule)
  | name (className : String) : Opens w (.declareName className)
  | inputs (slots : List SlotDescription) : Opens w (.declareInputs slots)
  | outputs (slots : List SlotDescription) : Opens w (.declareOutputs slots)
  | blank : Opens w .blank
  | comment (text : String) : Opens w (.comment text)
  | input {slot : Slot} {name : String} (hs : slot ∈ w.inputSlots)
      (hname : slot.codeName = some name) : Opens w (.assign name .none)

theorem opens_of_mem {line : Line} (h : line ∈ w.openingLines options form) : w.Opens line := by
  unfold openingLines at h
  rw [List.mem_cons] at h
  rcases h with rfl | h
  · exact .base _
  · cases form with
    | execution => cases h
    | component =>
      rw [List.mem_append, metadataLines, inputSetUpLines, List.mem_flatMap] at h
      rcases h with h | ⟨slot, hs, h⟩
      · simp only [List.mem_cons, List.not_mem_nil, or_false] at h
        rcases h with rfl | rfl | rfl
        · exact .name _
        · exact .inputs _
        · exact .outputs _
      · split at h
        · cases h
        · rename_i name hname
          simp only [List.mem_cons, List.not_mem_nil, or_false] at h
          rcases h with rfl | rfl | rfl | rfl
          · exact .blank
          · exact .comment _
          · exact .input hs hname
          · exact .comment _

-- ---------------------------------------------------------------------------
-- The methods that a class is used by
-- ---------------------------------------------------------------------------

/-- The methods by which a class is used from outside. -/
def accessMethods (w : Workflow μ) : ProgramForm → List Code
  | .component => [w.criticalMethod, w.setMethod, w.getMethod]
  | .execution => []

/-- What a line of the questions which slot is meant is: the questions open parts with the answers. -/
theorem mem_choices {slots : List Slot} {answer : Slot → Line} {line : Line}
    (h : line ∈ (choices slots answer).toList) :
    line = .blank ∨ (∃ text, line = .comment text) ∨
      ∃ slot ∈ slots, line = .ifObject slot.id slot.objectId ∨ line = answer slot := by
  rw [choices, Code.toList_concat, List.mem_flatMap] at h
  obtain ⟨part, hpart, h⟩ := h
  obtain ⟨group, hgroup, rfl⟩ := List.mem_map.mp hpart
  have hsub : ∀ slot ∈ group.2, slot ∈ slots := by
    intro slot hs
    rw [groupByType, List.mem_filter, List.mem_map] at hgroup
    obtain ⟨⟨type, -, rfl⟩, -⟩ := hgroup
    exact List.mem_of_mem_filter hs
  rw [Forest.toList_append, List.mem_append, Code.toList_ofLines, Code.toList_concat,
    List.mem_flatMap] at h
  rcases h with h | ⟨choice, hchoice, h⟩
  · simp only [List.mem_cons, List.not_mem_nil, or_false] at h
    rcases h with rfl | rfl
    · exact .inl rfl
    · exact .inr (.inl ⟨_, rfl⟩)
  · obtain ⟨slot, hs, rfl⟩ := List.mem_map.mp hchoice
    rw [Code.toList_block, Code.toList_ofLines, List.mem_cons, List.mem_singleton] at h
    exact .inr (.inr ⟨slot, hsub slot hs, h⟩)

/-- What a line of the methods is that a class is used by. -/
inductive Accesses (w : Workflow μ) (form : ProgramForm) : Line → Prop where
  | blank : Accesses w form .blank
  | comment (text : String) : Accesses w form (.comment text)
  | pass : Accesses w form .pass
  | definition (method : Method) : Accesses w form (.methodDef method)
  | nothing : Accesses w form .returnNone
  | critical {models : List Block} (hm : ∀ model ∈ models, model ∈ w.models) :
      Accesses w form (.returnCritical (models.map fun model => (model.id, model.identifier)))
  | question (slot : Slot) : Accesses w form (.ifObject slot.id slot.objectId)
  | take {slot : Slot} (hform : form = .component) (hs : slot ∈ w.inputSlots) :
      Accesses w form (.assign slot.identifier .argument)
  | answer {slot : Slot} (hform : form = .component) (hs : slot ∈ w.outputSlots) :
      Accesses w form (.returnValue slot.id (w.readSlot slot.id (.named "time")))
  | terminate {model : Block} (hm : model ∈ w.models) :
      Accesses w form (.terminateModel model.id model.identifier)

theorem accesses_of_criticalMethod {line : Line} (h : line ∈ w.criticalMethod.toList) :
    w.Accesses form line := by
  rw [criticalMethod, Code.toList_block, Code.toList_ofLines, List.mem_cons] at h
  rcases h with rfl | h
  · exact .definition _
  · split at h
    · rw [List.mem_singleton.mp h]
      exact .nothing
    · rw [List.mem_singleton.mp h]
      exact .critical fun _ hm => (w.body.roots_sublist.filter _).subset hm

theorem accesses_of_setMethod {line : Line} (h : line ∈ w.setMethod.toList) :
    w.Accesses .component line := by
  rw [setMethod, Forest.toList_append, Code.toList_ofLines, Code.toList_block, List.mem_append,
    List.mem_singleton, List.mem_cons] at h
  rcases h with rfl | rfl | h
  · exact .comment _
  · exact .definition _
  · split at h
    · rw [Code.toList_ofLines, List.mem_singleton] at h
      subst h
      exact .pass
    · rcases mem_choices h with rfl | ⟨text, rfl⟩ | ⟨slot, hs, rfl | rfl⟩
      · exact .blank
      · exact .comment _
      · exact .question slot
      · exact .take rfl hs

theorem accesses_of_getMethod {line : Line} (h : line ∈ w.getMethod.toList) :
    w.Accesses .component line := by
  rw [getMethod, Forest.toList_append, Code.toList_ofLines, Code.toList_block, List.mem_append,
    List.mem_singleton, List.mem_cons, Forest.toList_append, Code.toList_ofLines,
    List.mem_append] at h
  rcases h with rfl | rfl | h | h
  · exact .comment _
  · exact .definition _
  · rcases mem_choices h with rfl | ⟨text, rfl⟩ | ⟨slot, hs, rfl | rfl⟩
    · exact .blank
    · exact .comment _
    · exact .question slot
    · exact .answer rfl hs
  · simp only [List.mem_cons, List.not_mem_nil, or_false] at h
    rcases h with rfl | rfl
    · exact .blank
    · exact .nothing

theorem accesses_of_terminateMethod {line : Line} (h : line ∈ w.terminateMethod.toList) :
    w.Accesses form line := by
  rw [terminateMethod, Code.toList_block, Code.toList_ofLines, List.mem_cons] at h
  rcases h with rfl | h
  · exact .definition _
  · split at h
    · rw [List.mem_singleton.mp h]
      exact .pass
    · obtain ⟨model, hm, rfl⟩ := List.mem_map.mp h
      exact .terminate hm

theorem accesses_of_mem {part : Code} (hpart : part ∈ w.accessMethods form ++ [w.terminateMethod])
    {line : Line} (h : line ∈ part.toList) : w.Accesses form line := by
  rw [List.mem_append, List.mem_singleton] at hpart
  rcases hpart with hpart | rfl
  · cases form with
    | execution => cases hpart
    | component =>
      simp only [accessMethods, List.mem_cons, List.not_mem_nil, or_false] at hpart
      rcases hpart with rfl | rfl | rfl
      · exact accesses_of_criticalMethod h
      · exact accesses_of_setMethod h
      · exact accesses_of_getMethod h
  · exact accesses_of_terminateMethod h

-- ---------------------------------------------------------------------------
-- After the class
-- ---------------------------------------------------------------------------

/-- What a line is that runs the program by itself. -/
inductive Concludes (options : ProgramOptions) : Line → Prop where
  | blank : Concludes options .blank
  | question : Concludes options .ifMain
  | make : Concludes options (.makeProblem options.className)
  | solve : Concludes options .solveProblem
  | terminate : Concludes options .terminateProblem
  | finished : Concludes options .printFinished

theorem concludes_of_mem {line : Line} (h : line ∈ (mainPart options form).toList) :
    Concludes options line := by
  cases form with
  | component => cases h
  | execution =>
    simp only [mainPart, Forest.toList_append, Code.toList_ofLines, Code.toList_block,
      List.mem_append, List.mem_cons, List.not_mem_nil, or_false] at h
    rcases h with (rfl | rfl) | rfl | rfl | rfl | rfl | rfl | rfl
    · exact .blank
    · exact .blank
    · exact .question
    · exact .make
    · exact .solve
    · exact .terminate
    · exact .blank
    · exact .finished

end Workflow

end SlotFlow
