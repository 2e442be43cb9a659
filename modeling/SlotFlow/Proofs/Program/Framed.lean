import SlotFlow.Proofs.Program.Executed
/-!
# The frame of a program

The lines of a program either execute blocks or belong to the frame around them. The lines of the frame
take no value from a slot, save for the answers of the method that gives the outputs.

* `Line.expressions` — the expressions of a line, and `Expr.source?` — the slot that one takes its value
  from;
* `Line.isFrame` — a line takes no value from a slot and has no part in executing a block;
* `Workflow.Surrounds` — what the lines around the code of the blocks are.

## Results

* `Workflow.surrounded_of_programCode` — where the code of the blocks stands in a program;
* `Workflow.provided_of_programCode` — every expression of a program is what some slot provides.
-/

namespace SlotFlow

-- ---------------------------------------------------------------------------
-- Lines
-- ---------------------------------------------------------------------------

/-- The slot that an expression takes its value from. -/
def Expr.source? : Expr → Option SlotId
  | .none => Option.none
  | .quantity source .. => some source
  | .member source _ => some source

/-- The expression of a limit of time steps, if it is one. -/
def StepSource.expression? : StepSource → Option Expr
  | .value expr => some expr
  | .critical .. => none

/-- The expressions by which a line takes values from slots. -/
def Line.expressions : Line → List Expr
  | .assign _ (.expr value) => [value]
  | .returnValue _ value => [value]
  | .setInput _ _ _ value _ => [value]
  | .setStart _ value => [value]
  | .setTarget _ value => [value]
  | .setLength _ sources => sources.filterMap StepSource.expression?
  | _ => []

/-- Whether a line takes no value from a slot and has no part in executing a block. -/
def Line.isFrame : Line → Bool
  | .assign _ (.expr _) => false
  | .classDef .. | .methodDef _ | .ifObject .. | .ifMain | .blank | .comment _ | .pass
  | .importModule _ | .importClass _ | .initBase _ | .declareName _ | .declareInputs _
  | .declareOutputs _ | .assign .. | .returnNone | .returnCritical _ | .terminateModel ..
  | .terminateSelf | .makeProblem _ | .solveProblem | .terminateProblem | .printFinished => true
  | _ => false

theorem Line.expressions_of_isFrame {line : Line} (h : line.isFrame = true) :
    line.expressions = [] := by
  cases line with
  | assign _ value => cases value <;> first | rfl | cases h
  | _ => first | rfl | cases h

namespace Workflow

variable {μ : Type} {w : Workflow μ} {options : ProgramOptions} {form : ProgramForm}

-- ---------------------------------------------------------------------------
-- The frame
-- ---------------------------------------------------------------------------

/-- What a line of a program is that does not execute blocks: it belongs to the frame, or it gives one
of the outputs. -/
inductive Surrounds (w : Workflow μ) : Line → Prop where
  | frame {line : Line} (h : line.isFrame = true) : Surrounds w line
  | answer {slot : Slot} (hs : slot ∈ w.outputSlots) :
      Surrounds w (.returnValue slot.id (w.readSlot slot.id (.named "time")))

theorem isFrame_importLines {line : Line} (h : line ∈ w.importLines options ++ [.blank, .blank]) :
    line.isFrame = true := by
  cases precedes_of_mem h <;> rfl

theorem isFrame_openingLines {line : Line} (h : line ∈ w.openingLines options form) :
    line.isFrame = true := by
  cases opens_of_mem h <;> rfl

/-- What sets a forest up sets up one of its blocks. -/
theorem mem_setUpCode {forest : Forest Block} {code : Code}
    (h : w.setUpCode options forest = .ok code) {line : Line} (hline : line ∈ code.toList) :
    ∃ block ∈ forest.toList, line ∈ w.setUpLines options block := by
  induction forest generalizing code with
  | nil =>
    cases h
    cases hline
  | node block below after ihBelow ihAfter =>
    obtain ⟨own, rest, hown, hrest, rfl⟩ := setUpCode_node h
    rw [Forest.toList_append, List.mem_append] at hline
    rcases hline with hline | hline
    · cases hown with
      | container _ hbelow =>
        obtain ⟨other, ho, hin⟩ := ihBelow hbelow hline
        exact ⟨other, List.mem_cons_of_mem _ (List.mem_append_left _ ho), hin⟩
      | leaf =>
        rw [Code.toList_ofLines] at hline
        exact ⟨block, List.mem_cons_self, hline⟩
    · obtain ⟨other, ho, hin⟩ := ihAfter hrest hline
      exact ⟨other, List.mem_cons_of_mem _ (List.mem_append_right _ ho), hin⟩

theorem isFrame_setUpLines {block : Block} {line : Line}
    (h : line ∈ w.setUpLines options block) : line.isFrame = true := by
  rcases mem_setUpLines h with rfl | ⟨text, rfl⟩ | ⟨value, hvalue, rfl⟩
  · rfl
  · rfl
  · cases value with
    | expr value => exact absurd rfl (hvalue value)
    | _ => rfl

theorem isFrame_closingLines {line : Line} (h : line ∈ closingLines) : line.isFrame = true := by
  simp only [closingLines, List.mem_cons, List.not_mem_nil, or_false] at h
  rcases h with rfl | rfl | rfl | rfl <;> rfl

theorem isFrame_mainPart {line : Line} (h : line ∈ (mainPart options form).toList) :
    line.isFrame = true := by
  cases concludes_of_mem h <;> rfl

theorem surrounds_accessMethods {part : Code}
    (hpart : part ∈ w.accessMethods form ++ [w.terminateMethod]) {line : Line}
    (h : line ∈ part.toList) : w.Surrounds line := by
  cases accesses_of_mem hpart h with
  | answer _ hs => exact .answer hs
  | _ => exact .frame rfl

theorem surrounds_initMethod {setUp : Code} (hsetUp : w.setUpCode options w.tree = .ok setUp)
    {line : Line} (h : line ∈ (Code.block (.methodDef .init)
      ((Code.ofLines (w.openingLines options form)).append setUp)).toList) : w.Surrounds line := by
  rw [Code.toList_block, Forest.toList_append, Code.toList_ofLines, List.mem_cons,
    List.mem_append] at h
  rcases h with rfl | h | h
  · exact .frame rfl
  · exact .frame (isFrame_openingLines h)
  · obtain ⟨block, -, hin⟩ := mem_setUpCode hsetUp h
    exact .frame (isFrame_setUpLines hin)

/-- The last one of the parts of a class stands at its end. -/
theorem toList_spaced_concat (parts : List Code) (last : Code) :
    (spaced (parts ++ [last])).toList = (spaced parts).toList ++ .blank :: last.toList := by
  rw [spaced, spaced, List.map_append, Code.toList_concat, Code.toList_concat, List.flatMap_append,
    List.map_singleton, List.flatMap_singleton, Forest.toList_append, Code.toList_ofLines]
  rfl

/-- **The lines of a program** that stand around the code of the blocks belong to the frame, save for the
answers about outputs. -/
theorem surrounded_of_programCode {program : Code}
    (h : w.programCode options form = .ok program) :
    ∃ execution front back, w.executionCode options w.tree (formScope form) = .ok execution ∧
      program.toList = front ++ (execution.toList ++ back) ∧
      (∀ line ∈ front, w.Surrounds line) ∧ ∀ line ∈ back, w.Surrounds line := by
  obtain ⟨setUp, execution, hsetUp, hexecution, rfl⟩ := programCode_eq_ok h
  obtain ⟨closing, hsolve, hclosing⟩ := exists_solveMethod_eq form execution
  have hlast : w.accessMethods form ++ [w.terminateMethod, solveMethod form execution] =
      (w.accessMethods form ++ [w.terminateMethod]) ++ [solveMethod form execution] := by
    rw [List.append_assoc]
    rfl
  refine ⟨execution, w.importLines options ++ [.blank, .blank] ++
      .classDef options.className options.runtimeModule ::
        ((Code.block (.methodDef .init)
            ((Code.ofLines (w.openingLines options form)).append setUp)).toList ++
          ((spaced (w.accessMethods form ++ [w.terminateMethod])).toList ++
            [.blank, .methodDef form.executing])),
    closing ++ (mainPart options form).toList, hexecution, ?_, fun line hline => ?_,
    fun line hline => ?_⟩
  · rw [hlast, hsolve, Code.toList_concat, List.flatMap_cons, List.flatMap_cons,
      List.flatMap_singleton, Code.toList_ofLines, Code.toList_block, Forest.toList_append,
      toList_spaced_concat]
    simp only [Code.toList_block, Forest.toList_append, Code.toList_ofLines, List.append_assoc,
      List.cons_append, List.nil_append]
  · rcases List.mem_append.mp hline with himport | hline
    · exact .frame (isFrame_importLines himport)
    rw [List.mem_cons, List.mem_append, List.mem_append] at hline
    rcases hline with rfl | hinit | haccess | hsolve
    · exact .frame rfl
    · exact surrounds_initMethod hsetUp hinit
    · rcases mem_spaced haccess with rfl | ⟨part, hpart, hin⟩
      · exact .frame rfl
      · exact surrounds_accessMethods hpart hin
    · simp only [List.mem_cons, List.not_mem_nil, or_false] at hsolve
      rcases hsolve with rfl | rfl <;> exact .frame rfl
  · rcases List.mem_append.mp hline with hin | hin
    · exact .frame (isFrame_closingLines (hclosing hin))
    · exact .frame (isFrame_mainPart hin)

-- ---------------------------------------------------------------------------
-- Expressions
-- ---------------------------------------------------------------------------

/-- An expression is what some slot provides, unless there is no value. -/
def Provided (w : Workflow μ) (expr : Expr) : Prop :=
  expr = .none ∨ ∃ source time, expr = w.provideSlot source time

theorem provided_readSlot (id : SlotId) (time : TimeExpr) : w.Provided (w.readSlot id time) := by
  unfold readSlot
  split
  · exact .inr ⟨_, _, rfl⟩
  · exact .inl rfl

theorem provided_readNamed (block : Block) (name : String) (time : TimeExpr) :
    w.Provided (w.readNamed block name time) := by
  unfold readNamed
  split
  · exact provided_readSlot _ _
  · exact .inl rfl

theorem provided_stepSources {block : Block} {models : List Block} {time : TimeExpr} {expr : Expr}
    (h : expr ∈ (w.stepSources block models time).filterMap StepSource.expression?) :
    w.Provided expr := by
  obtain ⟨source, hsource, hexpr⟩ := List.mem_filterMap.mp h
  rw [stepSources, List.mem_append] at hsource
  rcases hsource with hsource | hsource
  · split at hsource
    · rw [List.mem_singleton.mp hsource] at hexpr
      cases hexpr
      exact provided_readNamed _ _ _
    · cases hsource
  · obtain ⟨model, -, rfl⟩ := List.mem_map.mp hsource
    cases hexpr

theorem provided_of_executionCode {forest : Forest Block} {scope : CodeScope} {code : Code}
    (h : w.executionCode options forest scope = .ok code) :
    ∀ line ∈ code.toList, ∀ expr ∈ line.expressions, w.Provided expr := by
  intro line hline expr hexpr
  cases stemsFrom_of_executionCode h line hline with
  | block hb hin =>
    cases executesBlock_of_mem hin with
    | blank | comment | verbatim | solve => cases hexpr
    | input =>
      rw [List.mem_singleton.mp hexpr]
      exact .inr ⟨_, _, rfl⟩
    | named =>
      rw [List.mem_singleton.mp hexpr]
      exact provided_readNamed _ _ _
  | loop hb hkind hin =>
    cases executesLoop_of_mem hin with
    | start | target =>
      rw [List.mem_singleton.mp hexpr]
      exact provided_readNamed _ _ _
    | length => exact provided_stepSources hexpr
    | _ => cases hexpr

/-- **Every expression of a program is what some slot provides.** -/
theorem provided_of_programCode {program : Code} (h : w.programCode options form = .ok program) :
    ∀ line ∈ program.toList, ∀ expr ∈ line.expressions, w.Provided expr := by
  obtain ⟨execution, front, back, hexecution, hlines, hfront, hback⟩ := surrounded_of_programCode h
  intro line hline expr hexpr
  have hsurrounds : w.Surrounds line → w.Provided expr := by
    rintro (hframe | hs)
    · rw [Line.expressions_of_isFrame hframe] at hexpr
      cases hexpr
    · rw [List.mem_singleton.mp hexpr]
      exact provided_readSlot _ _
  rw [hlines, List.mem_append, List.mem_append] at hline
  rcases hline with hin | hin | hin
  · exact hsurrounds (hfront line hin)
  · exact provided_of_executionCode hexecution line hin expr hexpr
  · exact hsurrounds (hback line hin)

/-- The expression for a slot takes its value from that slot. -/
theorem source?_provideSlot {id source : SlotId} {time : TimeExpr}
    (h : (w.provideSlot id time).source? = some source) : source = id := by
  unfold provideSlot at h
  split at h
  · cases h
  · split at h
    · exact (Option.some.inj h).symm
    · exact (Option.some.inj h).symm
    · split at h
      · exact (Option.some.inj h).symm
      · cases h
    · cases h

end Workflow

end SlotFlow
