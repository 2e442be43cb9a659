import SlotFlow.Proofs.Program.Defined
import SlotFlow.Proofs.Program.Plan
/-!
# The method that executes a workflow

A program has one method in which the blocks are executed: `solve` in a program that runs the workflow
once, and `solveStep` in a class. What the method has the models do is the plan of the tree.

* `ProgramForm.executing` — the method;
* `Workflow.Spells` — a line writes out what it has a model do.

## Results

* `Workflow.methodBody?_executing` — the body of the method amounts to the plan of the tree.
-/

namespace SlotFlow

/-- The method in which the blocks are executed. -/
def ProgramForm.executing : ProgramForm → Method
  | .component => .solveStep
  | .execution => .solve

-- ---------------------------------------------------------------------------
-- Finding methods
-- ---------------------------------------------------------------------------

namespace Code

/-- A part of a program defines nothing by the name of a method. -/
def Lacks (code : Code) (method : Method) : Prop :=
  ∀ line ∈ code.toList, line.defines method = false

variable {method : Method}

theorem Lacks.methodBody? {code : Code} (h : code.Lacks method) :
    code.methodBody? method = none := by
  rw [Code.methodBody?, Option.map_eq_none_iff, Forest.find?, List.find?_eq_none]
  rintro ⟨line, below⟩ hsub
  rw [h line ((Forest.toList_sublist_of_mem_subtrees hsub).subset List.mem_cons_self)]
  exact Bool.false_ne_true

theorem methodBody?_append (first second : Code) : Code.methodBody? (first.append second) method =
    (first.methodBody? method).or (second.methodBody? method) := by
  rw [Code.methodBody?, Forest.find?, Forest.subtrees_append, List.find?_append, Option.map_or]
  rfl

theorem methodBody?_block (header : Line) (body : Code) : (block header body).methodBody? method =
    if header.defines method then some body else body.methodBody? method := by
  rw [Code.methodBody?, Forest.find?, block, Forest.tree, Forest.subtrees, Forest.subtrees,
    List.append_nil, List.find?_cons]
  cases header.defines method <;> rfl

/-- The body of a method stands below the line that defines the method. -/
theorem mem_subtrees_of_methodBody? {code body : Code} (h : code.methodBody? method = some body) :
    (.methodDef method, body) ∈ code.subtrees := by
  obtain ⟨⟨header, below⟩, hfind, rfl⟩ := Option.map_eq_some_iff.mp h
  have hdefines : header.defines method = true := by simpa using List.find?_some hfind
  have hheader : header = .methodDef method := by
    unfold Line.defines at hdefines
    split at hdefines
    · rw [of_decide_eq_true hdefines]
    · cases hdefines
  exact hheader ▸ List.mem_of_find?_eq_some hfind

@[simp] theorem lacks_ofLines {lines : List Line} :
    (ofLines lines).Lacks method ↔ ∀ line ∈ lines, line.defines method = false := by
  rw [Lacks, toList_ofLines]

@[simp] theorem lacks_append {first second : Code} :
    Code.Lacks (first.append second) method ↔ first.Lacks method ∧ second.Lacks method := by
  simp only [Lacks, Forest.toList_append, List.mem_append, or_imp, forall_and]

@[simp] theorem lacks_block {header : Line} {body : Code} :
    (block header body).Lacks method ↔ header.defines method = false ∧ body.Lacks method := by
  simp only [Lacks, toList_block, List.mem_cons, forall_eq_or_imp]

@[simp] theorem lacks_concat {parts : List Code} :
    (concat parts).Lacks method ↔ ∀ part ∈ parts, part.Lacks method := by
  simp only [Lacks, toList_concat, List.mem_flatMap, forall_exists_index, and_imp]
  exact ⟨fun h part hpart line hline => h line part hpart hline,
    fun h line part hpart hline => h part hpart line hline⟩

end Code

namespace Workflow

variable {μ : Type} {w : Workflow μ} {options : ProgramOptions} {form : ProgramForm}
  {method : Method}

/-- A method is looked for in the parts of a class one after the other. -/
theorem methodBody?_spaced_cons (part : Code) (parts : List Code) :
    (spaced (part :: parts)).methodBody? method =
      (part.methodBody? method).or ((spaced parts).methodBody? method) := by
  have hblank : (Code.ofLines [.blank]).methodBody? method = none :=
    Code.Lacks.methodBody? (by simp [Line.defines])
  show Code.methodBody? (((Code.ofLines [.blank]).append part).append (spaced parts)) method = _
  rw [Code.methodBody?_append, Code.methodBody?_append, hblank, Option.none_or]

/-- A part of a class holds the first definition of a method, if those before it hold none. -/
theorem methodBody?_spaced {parts : List Code} (h : ∀ part ∈ parts, part.Lacks method)
    {next : Code} {body : Code} (hbody : next.methodBody? method = some body) (rest : List Code) :
    (spaced (parts ++ next :: rest)).methodBody? method = some body := by
  induction parts with
  | nil => rw [List.nil_append, methodBody?_spaced_cons, hbody, Option.some_or]
  | cons part parts ih =>
    rw [List.cons_append, methodBody?_spaced_cons, (h part List.mem_cons_self).methodBody?,
      Option.none_or, ih fun other ho => h other (List.mem_cons_of_mem _ ho)]

theorem lacks_choices (slots : List Slot) {answer : Slot → Line}
    (h : ∀ slot, (answer slot).defines method = false) : (choices slots answer).Lacks method := by
  rw [choices, Code.lacks_concat]
  intro part hpart
  obtain ⟨group, -, rfl⟩ := List.mem_map.mp hpart
  rw [Code.lacks_append, Code.lacks_ofLines, Code.lacks_concat]
  refine ⟨by simp [Line.defines], fun choice hchoice => ?_⟩
  obtain ⟨slot, -, rfl⟩ := List.mem_map.mp hchoice
  rw [Code.lacks_block, Code.lacks_ofLines]
  refine ⟨rfl, fun line hline => ?_⟩
  rw [List.mem_singleton.mp hline]
  exact h slot

theorem lacks_criticalMethod (h : method ≠ .criticalTimeStep) : w.criticalMethod.Lacks method := by
  rw [criticalMethod, Code.lacks_block, Code.lacks_ofLines]
  refine ⟨decide_eq_false h.symm, fun line hline => ?_⟩
  split at hline <;> rw [List.mem_singleton.mp hline] <;> rfl

theorem lacks_setMethod (h : method ≠ .set) : w.setMethod.Lacks method := by
  rw [setMethod, Code.lacks_append, Code.lacks_block, Code.lacks_ofLines]
  refine ⟨by simp [Line.defines], decide_eq_false h.symm, ?_⟩
  split
  · simp [Line.defines]
  · exact lacks_choices _ fun _ => rfl

theorem lacks_getMethod (h : method ≠ .get) : w.getMethod.Lacks method := by
  rw [getMethod, Code.lacks_append, Code.lacks_block, Code.lacks_append, Code.lacks_ofLines]
  exact ⟨by simp [Line.defines], decide_eq_false h.symm, lacks_choices _ fun _ => rfl,
    by simp [Line.defines]⟩

theorem lacks_terminateMethod (h : method ≠ .terminate) : w.terminateMethod.Lacks method := by
  rw [terminateMethod, Code.lacks_block, Code.lacks_ofLines]
  refine ⟨decide_eq_false h.symm, fun line hline => ?_⟩
  split at hline
  · rw [List.mem_singleton.mp hline]
    rfl
  · obtain ⟨model, -, rfl⟩ := List.mem_map.mp hline
    rfl

/-- The other methods come under other names. -/
theorem lacks_others (form : ProgramForm) :
    ∀ part ∈ w.accessMethods form ++ [w.terminateMethod], part.Lacks form.executing := by
  cases form with
  | execution =>
    intro part hpart
    rw [List.mem_singleton.mp hpart]
    exact lacks_terminateMethod (by decide)
  | component =>
    intro part hpart
    simp only [accessMethods, List.cons_append, List.nil_append, List.mem_cons, List.not_mem_nil,
      or_false] at hpart
    rcases hpart with rfl | rfl | rfl | rfl
    · exact lacks_criticalMethod (by decide)
    · exact lacks_setMethod (by decide)
    · exact lacks_getMethod (by decide)
    · exact lacks_terminateMethod (by decide)

theorem lacks_setUpCode {forest : Forest Block} {code : Code}
    (h : w.setUpCode options forest = .ok code) : code.Lacks method := by
  induction forest generalizing code with
  | nil =>
    cases h
    nofun
  | node block below after ihBelow ihAfter =>
    obtain ⟨own, rest, hown, hrest, rfl⟩ := setUpCode_node h
    refine Code.lacks_append.mpr ⟨?_, ihAfter hrest⟩
    cases hown with
    | container _ hbelow => exact ihBelow hbelow
    | leaf =>
      rw [Code.lacks_ofLines]
      intro line hline
      rcases mem_setUpLines hline with rfl | ⟨text, rfl⟩ | ⟨value, -, rfl⟩ <;> rfl

/-- The first method comes under another name, and defines none. -/
theorem lacks_openingLines : (Code.ofLines (w.openingLines options form)).Lacks method := by
  rw [Code.lacks_ofLines]
  intro line hline
  cases opens_of_mem hline <;> rfl

-- ---------------------------------------------------------------------------
-- The method
-- ---------------------------------------------------------------------------

/-- A line that has a model do something calls the member for the model's block, and hands it what
the slot provides. -/
def Spells (w : Workflow μ) : Line → Prop
  | .setInput model member source value _ =>
    (∃ block ∈ w.blocks, block.id = model ∧ block.identifier = member) ∧
      ∃ time, value = w.provideSlot source time
  | .solveModel model member _ => ∃ block ∈ w.blocks, block.id = model ∧ block.identifier = member
  | _ => True

theorem spells_of_executionCode {scope : CodeScope} {code : Code}
    (h : w.executionCode options w.tree scope = .ok code) : ∀ line ∈ code.toList, w.Spells line := by
  intro line hline
  cases stemsFrom_of_executionCode h line hline with
  | @block block below scope _ hsub hin =>
    have hb := (mem_of_mem_subtrees hsub).1
    cases executesBlock_of_mem hin with
    | blank | comment | verbatim | named => trivial
    | input => exact ⟨⟨block, hb, rfl, rfl⟩, scope.time, rfl⟩
    | solve => exact ⟨block, hb, rfl, rfl⟩
  | loop hsub hkind hin => cases executesLoop_of_mem hin <;> trivial

/-- The lines that may stand after the code of the blocks in the method that executes them. -/
def closingLines : List Line :=
  [.pass, .blank, .comment "terminate all models", .terminateSelf]

/-- After the code of the blocks the method has only lines that are a matter of form. -/
theorem exists_solveMethod_eq (form : ProgramForm) (execution : Code) :
    ∃ closing, solveMethod form execution =
        Code.block (.methodDef form.executing) (execution.append (Code.ofLines closing)) ∧
      closing ⊆ closingLines := by
  cases form with
  | component =>
    by_cases hstatement : execution.toList.any Line.isStatement = true
    · refine ⟨[], ?_, List.nil_subset _⟩
      rw [solveMethod, Code.orPass, if_pos hstatement]
      exact congrArg _ (Forest.append_nil _).symm
    · refine ⟨[.pass], ?_, by simp [closingLines]⟩
      rw [solveMethod, Code.orPass, if_neg hstatement]
      rfl
  | execution => exact ⟨_, rfl, by simp [closingLines]⟩

/-- A method besides the first one is looked for among the other parts of the class. -/
theorem methodBody?_of_ne_init {program : Code} (h : w.programCode options form = .ok program)
    (hmethod : method ≠ .init) : ∃ execution,
      w.executionCode options w.tree (formScope form) = .ok execution ∧
      ∀ body, (spaced (w.accessMethods form ++
          [w.terminateMethod, solveMethod form execution])).methodBody? method = some body →
        program.methodBody? method = some body := by
  obtain ⟨setUp, execution, hsetUp, hexecution, rfl⟩ := programCode_eq_ok h
  refine ⟨execution, hexecution, fun body hbody => ?_⟩
  have himports : (Code.ofLines (w.importLines options ++ [.blank, .blank])).Lacks method :=
    Code.lacks_ofLines.mpr fun line hline => (membersRead_importLines hline).2 _
  have hinit : (Code.block (.methodDef .init) ((Code.ofLines (w.openingLines options form)).append
      setUp)).Lacks method := by
    rw [Code.lacks_block, Code.lacks_append]
    exact ⟨decide_eq_false hmethod.symm, lacks_openingLines, lacks_setUpCode hsetUp⟩
  rw [Code.concat, Code.methodBody?_append, himports.methodBody?, Option.none_or, Code.concat,
    Code.methodBody?_append, Code.methodBody?_block, if_neg (by exact Bool.false_ne_true),
    Code.methodBody?_append, hinit.methodBody?, Option.none_or, hbody]
  rfl

/-- The body of the method that executes the blocks. -/
theorem methodBody?_executing_eq {program : Code} (h : w.programCode options form = .ok program) :
    ∃ execution closing, w.executionCode options w.tree (formScope form) = .ok execution ∧
      program.methodBody? form.executing = some (execution.append (Code.ofLines closing)) ∧
      closing ⊆ closingLines := by
  obtain ⟨execution, hexecution, hmethods⟩ :=
    @methodBody?_of_ne_init _ _ _ _ form.executing _ h (by cases form <;> decide)
  obtain ⟨closing, hsolve, hclosing⟩ := exists_solveMethod_eq form execution
  refine ⟨execution, closing, hexecution, hmethods _ ?_, hclosing⟩
  rw [← List.singleton_append, ← List.append_assoc]
  refine methodBody?_spaced (w.lacks_others form) ?_ []
  rw [hsolve, Code.methodBody?_block, if_pos (by simp [Line.defines])]

/-- **The method that executes the blocks has models do what the plan of the tree says.** -/
theorem methodBody?_executing {program : Code} (h : w.programCode options form = .ok program) :
    ∃ body, program.methodBody? form.executing = some body ∧ w.plan? w.tree = some body.plan ∧
      ∀ line ∈ body.toList, w.Spells line := by
  obtain ⟨execution, closing, hexecution, hbody, hclosing⟩ := methodBody?_executing_eq h
  have hform : ∀ line ∈ closing, line.isLoop = false ∧ line.act? = none ∧ w.Spells line := by
    intro line hline
    have hin := hclosing hline
    simp only [closingLines, List.mem_cons, List.not_mem_nil, or_false] at hin
    rcases hin with rfl | rfl | rfl | rfl <;> exact ⟨rfl, rfl, trivial⟩
  refine ⟨_, hbody, ?_, fun line hline => ?_⟩
  · rw [Code.plan_append, plan_eq_nil fun line hline => ⟨(hform line hline).1, (hform line hline).2.1⟩,
      Plan.append_nil]
    exact plan?_of_executionCode hexecution
  · rw [Forest.toList_append, Code.toList_ofLines, List.mem_append] at hline
    rcases hline with hin | hin
    · exact spells_of_executionCode hexecution line hin
    · exact (hform line hin).2.2

end Workflow

end SlotFlow
