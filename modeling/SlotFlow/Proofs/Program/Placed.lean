import SlotFlow.Proofs.Program.Variables
/-!
# Where blocks are executed

What the code of a block refers to depends on the blocks above it: on the innermost time loop, or on the
form of the program if there is none.

* `Forest.Position`, `Forest.positions` — labels with what is below and above them;
* `Workflow.scopeBelow` — what code below blocks refers to;
* `Workflow.positionLines` — the lines for a block where it stands.

## Results

* `Workflow.toList_executionCode` — the execution is that of each block where it stands, in tree order;
* `Workflow.mem_programCode_iff` — a program has no other lines that execute blocks.
-/

namespace SlotFlow

-- ---------------------------------------------------------------------------
-- Positions
-- ---------------------------------------------------------------------------

/-- A label of a forest with what is below it, and with the labels above it from the nearest one on. -/
structure Forest.Position (α : Type) where
  label : α
  below : Forest α
  above : List α

namespace Forest

variable {α : Type}

/-- All labels in pre-order where they stand, in a forest that is itself below other labels. -/
def positions (above : List α) : Forest α → List (Position α)
  | nil => []
  | node a below after =>
    ⟨a, below, above⟩ :: (below.positions (a :: above) ++ after.positions above)

theorem map_label_positions (above : List α) (forest : Forest α) :
    (forest.positions above).map Position.label = forest.toList := by
  induction forest generalizing above with
  | nil => rfl
  | node a below after ihBelow ihAfter => simp [positions, ihBelow, ihAfter]

end Forest

namespace Workflow

variable {μ : Type} {w : Workflow μ} {options : ProgramOptions} {form : ProgramForm}
  {block : Block} {above : List Block} {position : Forest.Position Block}

/-- What code below blocks refers to: to the step of the innermost time loop, or to what the method
that executes the blocks is called with. -/
def scopeBelow (form : ProgramForm) (above : List Block) : CodeScope :=
  match above.find? (·.kind.isTimeLoop) with
  | some loop => loopScope loop.identifier
  | none => formScope form

theorem scopeBelow_timeLoop (h : block.kind = .timeLoop) :
    scopeBelow form (block :: above) = loopScope block.identifier := by
  rw [scopeBelow, List.find?_cons_of_pos (by rw [h]; rfl)]

theorem scopeBelow_cons (h : block.kind.isTimeLoop = false) :
    scopeBelow form (block :: above) = scopeBelow form above := by
  rw [scopeBelow, List.find?_cons_of_neg (by rw [h]; exact Bool.false_ne_true), scopeBelow]

/-- The blocks whose code is only that of what is below them are no time loops. -/
theorem isTimeLoop_of_sequence (h : block.kind = .workflow ∨ block.kind = .sequential) :
    block.kind.isTimeLoop = false := by
  rcases h with h | h <;> rw [h] <;> rfl

-- ---------------------------------------------------------------------------
-- Lines
-- ---------------------------------------------------------------------------

/-- What limits the steps of a time loop where it stands. -/
def positionSources (w : Workflow μ) (form : ProgramForm) (position : Forest.Position Block) :
    List StepSource :=
  w.stepSources position.label (position.below.toList.filter Block.isModel)
    (scopeBelow form position.above).time

/-- The code of a time loop where it stands, around the code of its children. -/
def positionLoop (w : Workflow μ) (options : ProgramOptions) (form : ProgramForm)
    (position : Forest.Position Block) (children : Code) : Code :=
  w.loopCode options position.label (scopeBelow form position.above).time
    (w.positionSources form position) children

theorem toList_positionLoop (children : Code) :
    (w.positionLoop options form position children).toList =
      (w.positionLoop options form position .nil).toList ++ children.toList :=
  toList_loopCode ..

/-- The lines for a block where it stands, without those for the blocks below it. -/
def positionLines (w : Workflow μ) (options : ProgramOptions) (form : ProgramForm)
    (position : Forest.Position Block) : List Line :=
  if position.label.kind.isTimeLoop then (w.positionLoop options form position .nil).toList
  else w.executionLines position.label (scopeBelow form position.above)

/-- The execution of a forest is that of each block where it stands, in tree order. -/
theorem toList_executionCode {forest : Forest Block} {code : Code}
    (h : w.executionCode options forest (scopeBelow form above) = .ok code) (hn : forest.Nested) :
    code.toList = (forest.positions above).flatMap (w.positionLines options form) := by
  induction forest generalizing above code with
  | nil =>
    cases h
    rfl
  | node block below after ihBelow ihAfter =>
    obtain ⟨hleaf, hbelow, hafter⟩ := hn
    obtain ⟨own, rest, hown, hrest, rfl⟩ := executionCode_node h
    have hfirst : own.toList = w.positionLines options form ⟨block, below, above⟩ ++
        (below.positions (block :: above)).flatMap (w.positionLines options form) := by
      cases hown with
      | sequence hkind hcode =>
        have hloop := isTimeLoop_of_sequence hkind
        have hnone : w.positionLines options form ⟨block, below, above⟩ = [] := by
          rw [positionLines, if_neg (by rw [hloop]; exact Bool.false_ne_true), executionLines]
          rcases hkind with hkind | hkind <;> rw [hkind]
        rw [← @scopeBelow_cons form _ above hloop] at hcode
        rw [hnone, ihBelow hcode hbelow, List.nil_append]
      | loop hkind _ hcode =>
        rw [← @scopeBelow_timeLoop form _ above hkind] at hcode
        rw [toList_loopCode, ihBelow hcode hbelow, positionLines,
          if_pos (BlockKind.isTimeLoop_iff.mpr hkind), positionLoop, positionSources]
      | leaf hkind =>
        have hloop : block.kind.isTimeLoop = false := by
          cases heq : block.kind <;> rw [heq] at hkind <;> first | rfl | cases hkind
        rw [hleaf.resolve_right (by rw [hkind]; exact Bool.false_ne_true), positionLines,
          if_neg (by rw [hloop]; exact Bool.false_ne_true), Code.toList_ofLines, Forest.positions,
          List.flatMap_nil, List.append_nil]
    rw [Forest.toList_append, hfirst, ihAfter hrest hafter, Forest.positions, List.flatMap_cons,
      List.flatMap_append, List.append_assoc]

/-- The lines that execute a single block run no time loop. -/
theorem loop?_of_executionLines {scope : CodeScope} {line : Line}
    (h : line ∈ w.executionLines block scope) : line.loop? = none := by
  cases executesBlock_of_mem h <;> rfl

/-- The lines that run a time loop run none but this one. -/
theorem loop?_of_loopCode {time : TimeExpr} {sources : List StepSource} {line : Line}
    (h : line ∈ (w.loopCode options block time sources .nil).toList) {loop : String}
    (hloop : line.loop? = some loop) : loop = block.identifier := by
  cases executesLoop_of_mem h with
  | blank | comment => cases hloop
  | _ => exact (Option.some.inj hloop).symm

/-- A line that runs a time loop is one of those for a block that is a time loop. -/
theorem mem_positionLines_of_loop {line : Line} (h : line.loop?.isSome = true) :
    line ∈ w.positionLines options form position ↔ position.label.kind = .timeLoop ∧
      line ∈ (w.positionLoop options form position .nil).toList := by
  rw [positionLines, ← BlockKind.isTimeLoop_iff]
  split
  · rename_i hkind
    exact (and_iff_right hkind).symm
  · rename_i hkind
    refine iff_of_false (fun hin => ?_) fun hboth => hkind hboth.1
    rw [loop?_of_executionLines hin] at h
    cases h

theorem setStart_mem_positionLines {loop : String} {value : Expr} :
    .setStart loop value ∈ w.positionLines options form position ↔
      position.label.kind = .timeLoop ∧ loop = position.label.identifier ∧
      value = w.readNamed position.label BlockKind.startTimeSlot
        (scopeBelow form position.above).time := by
  rw [mem_positionLines_of_loop rfl, positionLoop, toList_loopCode_nil]
  simp [codeHeader]

theorem setTarget_mem_positionLines {loop : String} {value : Expr} :
    .setTarget loop value ∈ w.positionLines options form position ↔
      position.label.kind = .timeLoop ∧ loop = position.label.identifier ∧
      value = w.readNamed position.label BlockKind.targetTimeSlot
        (scopeBelow form position.above).time := by
  rw [mem_positionLines_of_loop rfl, positionLoop, toList_loopCode_nil]
  simp [codeHeader]

theorem setLength_mem_positionLines {loop : String} {sources : List StepSource} :
    .setLength loop sources ∈ w.positionLines options form position ↔
      position.label.kind = .timeLoop ∧ loop = position.label.identifier ∧
      sources = w.positionSources form position := by
  rw [mem_positionLines_of_loop rfl, positionLoop, toList_loopCode_nil]
  simp [codeHeader]

/-- Only a model solves a step, and it is the one that code refers to where the model stands. -/
theorem solveModel_mem_positionLines {model : BlockId} {member : String} {held : Option String} :
    .solveModel model member held ∈ w.positionLines options form position ↔
      position.label.isModel = true ∧ model = position.label.id ∧
      member = position.label.identifier ∧ held = (scopeBelow form position.above).step := by
  rw [positionLines]
  split
  · rename_i hkind
    rw [positionLoop, toList_loopCode_nil, Block.isModel, BlockKind.isTimeLoop_iff.mp hkind]
    simp [codeHeader, BlockKind.model?]
  · constructor
    · intro hin
      cases executesBlock_of_mem hin with
      | solve hkind => exact ⟨by rw [Block.isModel, hkind]; rfl, rfl, rfl, rfl⟩
    · rintro ⟨hmodel, rfl, rfl, rfl⟩
      obtain ⟨setup, hsetup⟩ := Option.isSome_iff_exists.mp hmodel
      rw [executionLines, BlockKind.model?_eq_some.mp hsetup]
      exact List.mem_append_right _ List.mem_cons_self

-- ---------------------------------------------------------------------------
-- Programs
-- ---------------------------------------------------------------------------

/-- A line of a program that does not belong to the frame around the code of the blocks is one of those
for a block where it stands. -/
theorem mem_programCode_iff {program : Code} (h : w.programCode options form = .ok program)
    (hn : w.tree.Nested) {line : Line} (hline : ¬w.Surrounds line) :
    line ∈ program.toList ↔
      ∃ position ∈ w.tree.positions [], line ∈ w.positionLines options form position := by
  obtain ⟨execution, front, back, hexecution, hlines, hfront, hback⟩ := surrounded_of_programCode h
  rw [← List.mem_flatMap, ← toList_executionCode hexecution hn, hlines, List.mem_append,
    List.mem_append]
  constructor
  · rintro (hin | hin | hin)
    · exact absurd (hfront line hin) hline
    · exact hin
    · exact absurd (hback line hin) hline
  · exact fun hin => .inr (.inl hin)

end Workflow

end SlotFlow
