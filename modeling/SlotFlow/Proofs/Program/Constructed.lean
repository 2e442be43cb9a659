import Mathlib.Data.List.Basic
import SlotFlow.Proofs.Program.Parts
/-!
# What a program does once for each model

A program imports the classes of its models, constructs the models in its first method and terminates
them in another one. The three parts stem from different walks over the tree.

* `Line.construction?`, `Line.termination?`, `Line.import?` — what these lines say;
* `Workflow.neededClasses` — the classes of the models in tree order, each as often as it is needed.

## Results

* `Workflow.construction_init` — the first method constructs the models that are reached;
* `Workflow.termination_terminate` — the models below the root are terminated;
* `Workflow.import_programCode` — the runtime module and the classes are imported, and nothing else;
* `Workflow.pairwise_usedClasses` — the classes stand in the order in which they are needed first.
-/

namespace SlotFlow

-- ---------------------------------------------------------------------------
-- Lines
-- ---------------------------------------------------------------------------

/-- The member that a line constructs a model for, and what the model is set up with. -/
def Line.construction? : Line → Option (String × ModelSetup)
  | .assign member (.newModel setup) => some (member, setup)
  | _ => none

/-- The member whose model a line terminates. -/
def Line.termination? : Line → Option String
  | .terminateModel _ member => some member
  | _ => none

/-- An import: of a module, or by the statement that is registered for a class. -/
inductive Import where
  | module (name : String)
  | statement (text : String)
  deriving DecidableEq, Repr

/-- What a line imports. -/
def Line.import? : Line → Option Import
  | .importModule name => some (.module name)
  | .importClass text => some (.statement text)
  | _ => none

/-- Whether a line imports something or defines a class. -/
def Line.isGlobal : Line → Bool
  | .importModule _ | .importClass _ | .classDef .. => true
  | _ => false

theorem Line.import?_of_isGlobal {line : Line} (h : line.isGlobal = false) :
    line.import? = none := by
  cases line <;> first | rfl | cases h

/-- The member and the set-up of a block that is a model. -/
def Block.construction? (block : Block) : Option (String × ModelSetup) :=
  block.kind.model?.map fun setup => (block.identifier, setup)

-- ---------------------------------------------------------------------------
-- First uses
-- ---------------------------------------------------------------------------

section FirstUses

variable {α : Type} [BEq α] [LawfulBEq α]

/-- Of two elements that are kept, the one that stands first among those that are kept stands first
among all. -/
theorem idxOf_lt_of_filter {keep : α → Bool} {a b : α} (ha : keep a = true)
    (hb : keep b = true) {l : List α} (h : (l.filter keep).idxOf a < (l.filter keep).idxOf b) :
    l.idxOf a < l.idxOf b := by
  induction l with
  | nil => simp at h
  | cons c l ih => grind

/-- Without its repetitions, a list has its elements in the order in which they come first. -/
theorem pairwise_idxOf_eraseDups (l : List α) :
    l.eraseDups.Pairwise fun a b => l.idxOf a < l.idxOf b := by
  induction hn : l.length using Nat.strong_induction_on generalizing l with
  | _ n ih =>
    cases l with
    | nil => exact .nil
    | cons c l =>
      have hshort : (l.filter fun b => !b == c).length < n := by
        rw [← hn, List.length_cons]
        exact Nat.lt_succ_of_le (List.length_filter_le ..)
      have hother : ∀ b ∈ (l.filter fun b => !b == c).eraseDups, b ≠ c := by
        intro b hb
        simpa using (List.mem_filter.mp (List.mem_eraseDups.mp hb)).2
      rw [List.eraseDups_cons, List.pairwise_cons]
      constructor
      · intro b hb
        rw [List.idxOf_cons_self, List.idxOf_cons_ne l (hother b hb).symm]
        exact Nat.succ_pos _
      · refine (ih _ hshort _ rfl).imp_of_mem fun {a b} ha hb hlt => ?_
        rw [List.idxOf_cons_ne l (hother a ha).symm, List.idxOf_cons_ne l (hother b hb).symm]
        exact Nat.succ_lt_succ (idxOf_lt_of_filter (by simpa using hother a ha)
          (by simpa using hother b hb) hlt)

end FirstUses

namespace Workflow

variable {μ : Type} {w : Workflow μ} {options : ProgramOptions} {form : ProgramForm}

-- ---------------------------------------------------------------------------
-- Construction
-- ---------------------------------------------------------------------------

/-- Of the set-up of a block only that of a model constructs something. -/
theorem construction_setUpLines (block : Block) :
    (w.setUpLines options block).filterMap Line.construction? = block.construction?.toList := by
  unfold setUpLines Block.construction?
  cases block.kind with
  | model setup => rfl
  | constant | named => cases w.isNamedLinked block BlockKind.valueSlot <;> rfl
  | _ => rfl

theorem construction_openingLines :
    (w.openingLines options form).filterMap Line.construction? = [] := by
  rw [List.filterMap_eq_nil_iff]
  intro line hline
  cases opens_of_mem hline <;> rfl

/-- The first method of a program constructs the models that are reached, in tree order. -/
theorem construction_init {program : Code} (h : w.programCode options form = .ok program) :
    ∃ init, program.methodBody? .init = some init ∧
      init.toList.filterMap Line.construction? = w.tree.reached.filterMap Block.construction? := by
  obtain ⟨setUp, hsetUp, hinit⟩ := methodBody?_init_eq h
  refine ⟨_, hinit, ?_⟩
  rw [Forest.toList_append, Code.toList_ofLines, List.filterMap_append, construction_openingLines,
    List.nil_append, toList_setUpCode_reached hsetUp, List.filterMap_flatMap,
    List.filterMap_eq_flatMap_toList]
  exact List.flatMap_congr fun block _ => construction_setUpLines block

-- ---------------------------------------------------------------------------
-- Termination
-- ---------------------------------------------------------------------------

theorem lacks_terminate_accessMethods (form : ProgramForm) :
    ∀ part ∈ w.accessMethods form, part.Lacks .terminate := by
  intro part hpart
  cases form with
  | execution => cases hpart
  | component =>
    simp only [accessMethods, List.mem_cons, List.not_mem_nil, or_false] at hpart
    rcases hpart with rfl | rfl | rfl
    · exact lacks_criticalMethod (by decide)
    · exact lacks_setMethod (by decide)
    · exact lacks_getMethod (by decide)

/-- The models below the root are terminated in a method of their own, in tree order. -/
theorem termination_terminate {program : Code} (h : w.programCode options form = .ok program) :
    ∃ body, program.methodBody? .terminate = some body ∧
      body.toList.filterMap Line.termination? = w.models.map Block.identifier := by
  obtain ⟨execution, -, hmethods⟩ :=
    @methodBody?_of_ne_init _ _ _ _ .terminate _ h (by decide)
  have hbody : w.terminateMethod.methodBody? .terminate = some (Code.ofLines
      (if w.models.isEmpty then [.pass]
        else w.models.map fun model => .terminateModel model.id model.identifier)) := by
    rw [terminateMethod, Code.methodBody?_block, if_pos (by decide)]
  refine ⟨_, hmethods _ (methodBody?_spaced (lacks_terminate_accessMethods form) hbody _), ?_⟩
  rw [Code.toList_ofLines]
  split
  · rename_i hnone
    rw [List.isEmpty_iff.mp hnone]
    rfl
  · rw [List.filterMap_map]
    exact List.filterMap_eq_map ▸ rfl

-- ---------------------------------------------------------------------------
-- Imports
-- ---------------------------------------------------------------------------

/-- The classes of the models below the root in tree order, each as often as it is needed. -/
def neededClasses (w : Workflow μ) : List String :=
  w.models.filterMap fun block => block.kind.model?.map ModelSetup.className

theorem mem_usedClasses {name : String} : name ∈ w.usedClasses ↔ name ∈ w.neededClasses :=
  List.mem_eraseDups

/-- The classes that are imported stand in the order in which they are needed first, and each of them
once. -/
theorem pairwise_usedClasses : w.usedClasses.Pairwise fun a b =>
    w.neededClasses.idxOf a < w.neededClasses.idxOf b :=
  pairwise_idxOf_eraseDups _

theorem import_importLines : (w.importLines options).filterMap Line.import? =
    .module options.runtimeModule :: w.usedClasses.filterMap fun name =>
      (w.registry.find? name).map fun modelClass => .statement modelClass.importStatement := by
  have hclasses : ∀ name, ((w.registry.find? name).map fun modelClass =>
      Line.importClass modelClass.importStatement).bind Line.import? =
      (w.registry.find? name).map fun modelClass => .statement modelClass.importStatement := by
    intro name
    cases w.registry.find? name <;> rfl
  rw [importLines, List.filterMap_cons, List.filterMap_filterMap]
  exact congrArg _ (List.filterMap_congr fun name _ => hclasses name)

/-- The methods of a class neither import anything nor define another class. -/
theorem isGlobal_methods {line : Line} (h : w.StandsInMethods options form line) :
    line.isGlobal = false := by
  cases h with
  | blank => rfl
  | opening hin => cases opens_of_mem hin <;> rfl
  | setUp _ hin => rcases mem_setUpLines hin with rfl | ⟨text, rfl⟩ | ⟨value, -, rfl⟩ <;> rfl
  | definition => rfl
  | access hpart hin => cases accesses_of_mem hpart hin <;> rfl
  | execution _ _ hexecutes =>
    cases hexecutes with
    | own _ hin => cases executesBlock_of_mem hin <;> rfl
    | loop _ _ hin => cases executesLoop_of_mem hin <;> rfl
  | closing hin =>
    simp only [closingLines, List.mem_cons, List.not_mem_nil, or_false] at hin
    rcases hin with rfl | rfl | rfl | rfl <;> rfl

/-- A program imports the runtime module first and then the classes that are registered, each by its
statement, and nothing else. -/
theorem import_programCode {program : Code} (h : w.programCode options form = .ok program) :
    program.toList.filterMap Line.import? = .module options.runtimeModule ::
      w.usedClasses.filterMap fun name =>
        (w.registry.find? name).map fun modelClass => .statement modelClass.importStatement := by
  obtain ⟨methods, rfl, hmethods⟩ := exists_methods h
  have hclass : (Line.classDef options.className options.runtimeModule ::
      methods.toList).filterMap Line.import? = [] :=
    List.filterMap_eq_nil_iff.mpr fun line hline =>
      (List.mem_cons.mp hline).elim (fun heq => heq ▸ rfl) fun hin =>
        Line.import?_of_isGlobal (isGlobal_methods (hmethods line hin))
  have hmain : (mainPart options form).toList.filterMap Line.import? = [] := by
    cases form <;> rfl
  rw [Code.toList_concat, List.flatMap_cons, List.flatMap_cons, List.flatMap_singleton,
    Code.toList_ofLines, Code.toList_block, List.filterMap_append, List.filterMap_append,
    List.filterMap_append, import_importLines, hclass, hmain, List.append_nil, List.append_nil]
  exact List.append_nil _

end Workflow

end SlotFlow
