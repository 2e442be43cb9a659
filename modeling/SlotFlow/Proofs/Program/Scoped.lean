import SlotFlow.Proofs.Program.Placed
/-!
# Scopes of time loops

Time loops may stand below each other and after each other, and all of them keep their variables in one
method. The lines that run a loop read what the loop itself has assigned; what they take from around the
loop, they take at the time of the innermost loop around it.

* `Workflow.HeldAt` — a line takes a variable from a time loop that it is part of;
* `Workflow.NamesLoops` — names are told apart and say the kinds of blocks;
* `Workflow.ScopesLoops` — the variables of time loops have their scopes in a program.

## Results

* `Workflow.readsKnown_executionCode` — variables are read only where they are known;
* `Workflow.read_executionCode` — what is read is held by a time loop;
* `Workflow.NamesLoops.variable_inj` — no two variables of time loops have the same name;
* `Workflow.KindsKept.scopesLoops` — the variables of time loops are scoped in generated programs.
-/

namespace SlotFlow

namespace Workflow

variable {μ : Type} {w : Workflow μ} {options : ProgramOptions} {form : ProgramForm}
  {block : Block} {above : List Block} {position : Forest.Position Block}

-- ---------------------------------------------------------------------------
-- Reading
-- ---------------------------------------------------------------------------

/-- What a slot provides is asked for at the time that is given. -/
theorem variables_provideSlot (id : SlotId) (time : TimeExpr) :
    (w.provideSlot id time).variables ⊆ time.variables := by
  unfold provideSlot
  split
  · exact List.nil_subset _
  · split
    · exact List.Subset.refl _
    · exact List.nil_subset _
    · split <;> exact List.nil_subset _
    · exact List.nil_subset _

theorem variables_readSlot (id : SlotId) (time : TimeExpr) :
    (w.readSlot id time).variables ⊆ time.variables := by
  unfold readSlot
  split
  · exact variables_provideSlot _ _
  · exact List.nil_subset _

theorem variables_readNamed (block : Block) (name : String) (time : TimeExpr) :
    (w.readNamed block name time).variables ⊆ time.variables := by
  unfold readNamed
  split
  · exact variables_readSlot _ _
  · exact List.nil_subset _

theorem variables_stepSources (block : Block) (models : List Block) (time : TimeExpr) :
    ((w.stepSources block models time).filterMap StepSource.expression?).flatMap Expr.variables ⊆
      time.variables := by
  have hmodels : (models.map fun model => StepSource.critical model.id model.identifier).filterMap
      StepSource.expression? = [] := by
    rw [List.filterMap_map]
    exact List.filterMap_eq_nil_iff.mpr fun _ _ => rfl
  rw [stepSources, List.filterMap_append, hmodels, List.append_nil]
  split
  · simpa [StepSource.expression?] using variables_readNamed _ _ _
  · exact List.nil_subset _

/-- The lines that execute a single block read no more than code may read where the block stands. -/
theorem variablesRead_executionLines {scope : CodeScope} {line : Line}
    (h : line ∈ w.executionLines block scope) : line.variablesRead ⊆ scope.variables := by
  have htime : ∀ expr : Expr, expr.variables ⊆ scope.time.variables →
      [expr].flatMap Expr.variables ++ [] ⊆ scope.variables := by
    intro expr hexpr
    rw [List.flatMap_singleton, List.append_nil]
    exact List.subset_append_of_subset_left _ hexpr
  cases executesBlock_of_mem h with
  | blank | comment | verbatim => exact List.nil_subset _
  | input => exact htime _ (variables_provideSlot _ _)
  | named => exact htime _ (variables_readNamed _ _ _)
  | solve => exact List.subset_append_right _ _

/-- Code in a time loop may read the variable for the step, and no others. -/
theorem variables_loopScope (loop : String) :
    (loopScope loop).variables = [LoopVariable.step.name loop, LoopVariable.step.name loop] :=
  rfl

/-- A time loop assigns its variables before it reads them. -/
theorem readsKnown_loopCode {scope : CodeScope} {models : List Block} {children : Code}
    (h : children.ReadsKnown (loopScope block.identifier).variables) :
    (w.loopCode options block scope.time (w.stepSources block models scope.time)
      children).ReadsKnown scope.variables := by
  have hnamed : ∀ name, (w.readNamed block name scope.time).variables ⊆ scope.variables :=
    fun name => List.subset_append_of_subset_left _ (variables_readNamed _ _ _)
  -- Six assignments stand before the line that sets the length of a step.
  have hsources : ∀ a b c d e f : String, ((w.stepSources block models scope.time).filterMap
      StepSource.expression?).flatMap Expr.variables ⊆ a :: b :: c :: d :: e :: f :: scope.variables :=
    fun a b c d e f => List.subset_append_of_subset_right [a, b, c, d, e, f]
      (List.subset_append_of_subset_left _ (variables_stepSources _ _ _))
  have hchildren : ∀ known, LoopVariable.step.name block.identifier ∈ known →
      children.ReadsKnown known := by
    intro known hstep
    refine h.mono fun name hname => ?_
    rw [variables_loopScope, List.mem_cons, List.mem_singleton, or_self] at hname
    rw [hname]
    exact hstep
  simp [loopCode, codeHeader, Code.ReadsKnown, Code.ofLines, Code.block, Code.concat, Forest.append,
    Forest.tree, Line.variablesRead, Line.ownVariablesRead, Line.expressions, Line.variablesAssigned,
    List.subset_cons_of_subset, hnamed, hsources, hchildren]

/-- **The code of a forest reads variables only where they are known**: they may be read where the code
stands, or a line has assigned them. -/
theorem readsKnown_executionCode {forest : Forest Block} {scope : CodeScope} {code : Code}
    (h : w.executionCode options forest scope = .ok code) : code.ReadsKnown scope.variables := by
  induction forest generalizing scope code with
  | nil =>
    cases h
    trivial
  | node block below after ihBelow ihAfter =>
    obtain ⟨own, rest, hown, hrest, rfl⟩ := executionCode_node h
    refine .append ?_ (ihAfter hrest)
    cases hown with
    | sequence _ hcode => exact ihBelow hcode
    | loop _ _ hcode => exact readsKnown_loopCode (ihBelow hcode)
    | leaf _ => exact Code.readsKnown_ofLines fun _ hline => variablesRead_executionLines hline

-- ---------------------------------------------------------------------------
-- Time loops that hold variables
-- ---------------------------------------------------------------------------

/-- Lines that run a time loop where it stands, with everything below it. -/
def RunsLoop (w : Workflow μ) (options : ProgramOptions) (form : ProgramForm)
    (position : Forest.Position Block) (lines : List Line) : Prop :=
  position.label.kind = .timeLoop ∧ ∃ children,
    w.executionCode options position.below (loopScope position.label.identifier) = .ok children ∧
    lines = (w.positionLoop options form position children).toList

/-- A line between others is one of those that run a time loop, and the loop has assigned a variable on
one of its lines before. -/
def HeldAt (w : Workflow μ) (options : ProgramOptions) (form : ProgramForm)
    (position : Forest.Position Block) (name : String) (before : List Line) (line : Line)
    (after : List Line) : Prop :=
  ∃ front inside rest back, before = front ++ inside ∧ after = rest ++ back ∧
    w.RunsLoop options form position (inside ++ line :: rest) ∧
    ∃ assignment ∈ inside, assignment.loop? = some position.label.identifier ∧
      name ∈ assignment.variablesAssigned

theorem HeldAt.extend {name : String} {before after : List Line} {line : Line}
    (h : w.HeldAt options form position name before line after) (front back : List Line) :
    w.HeldAt options form position name (front ++ before) line (after ++ back) := by
  obtain ⟨outer, inside, rest, behind, rfl, rfl, hruns, hassigned⟩ := h
  exact ⟨front ++ outer, inside, rest, behind ++ back, (List.append_assoc ..).symm,
    List.append_assoc .., hruns, hassigned⟩

theorem HeldAt.extend_before {name : String} {before after : List Line} {line : Line}
    (h : w.HeldAt options form position name before line after) (front : List Line) :
    w.HeldAt options form position name (front ++ before) line after := by
  have hextended := h.extend front []
  rwa [List.append_nil] at hextended

/-- What is held is a variable of the loop that holds it. -/
theorem HeldAt.variable_of_loop {name : String} {before after : List Line} {line : Line}
    (h : w.HeldAt options form position name before line after) :
    position.label.kind = .timeLoop ∧
      ∃ var, name = LoopVariable.name position.label.identifier var := by
  obtain ⟨_, _, _, _, _, _, ⟨hkind, -⟩, assignment, -, hloop, hname⟩ := h
  obtain ⟨loop, var, hown, rfl⟩ := Line.exists_loop_of_assigned hname
  rw [hloop] at hown
  cases hown
  exact ⟨hkind, var, rfl⟩

/-- What one of the lines of a time loop assigns is a variable of this loop. -/
theorem loop?_of_assigned {time : TimeExpr} {sources : List StepSource} {line : Line}
    (h : line ∈ (w.loopCode options block time sources .nil).toList) {name : String}
    (hname : name ∈ line.variablesAssigned) : line.loop? = some block.identifier := by
  obtain ⟨loop, -, hloop, -⟩ := Line.exists_loop_of_assigned hname
  rw [hloop, loop?_of_loopCode h hloop]

/-- What a line reads between the lines of a time loop is held by the loop, or by one that is below it,
or it may be read where the loop stands. -/
theorem read_loopCode {children : Code} (hkind : position.label.kind = .timeLoop)
    (hbelow : w.executionCode options position.below (loopScope position.label.identifier) =
      .ok children) {positions : List (Forest.Position Block)} {name : String}
    (hchildren : ∀ {before line after}, children.toList = before ++ line :: after →
      name ∈ line.variablesRead → name ∈ (loopScope position.label.identifier).variables ∨
        ∃ other ∈ positions, w.HeldAt options form other name before line after)
    {before after : List Line} {line : Line}
    (hcode : (w.positionLoop options form position children).toList = before ++ line :: after)
    (hread : name ∈ line.variablesRead) :
    name ∈ (scopeBelow form position.above).variables ∨
      ∃ other ∈ position :: positions, w.HeldAt options form other name before line after := by
  have hruns : w.RunsLoop options form position (before ++ line :: after) :=
    ⟨hkind, children, hbelow, hcode.symm⟩
  have hheld : ∀ assignment ∈ before,
      assignment ∈ (w.positionLoop options form position .nil).toList →
      name ∈ assignment.variablesAssigned →
      w.HeldAt options form position name before line after := by
    intro assignment ha hown hname
    exact ⟨[], before, after, [], rfl, (List.append_nil _).symm, hruns, assignment, ha,
      loop?_of_assigned hown hname, hname⟩
  -- The line is one of the loop's own, or it belongs to a block in the loop, which may read the step.
  rw [toList_positionLoop] at hcode
  rcases occurrence_append hcode with ⟨rest, rfl, hown⟩ | ⟨front, rfl, hin⟩
  · have hknown : (w.positionLoop options form position .nil).ReadsKnown
        (scopeBelow form position.above).variables := readsKnown_loopCode trivial
    rcases hknown.exists_assignment hown hread with hscope | ⟨assignment, ha, hname⟩
    · exact .inl hscope
    · refine .inr ⟨position, List.mem_cons_self, hheld assignment ha ?_ hname⟩
      rw [hown]
      exact List.mem_append_left _ ha
  · rcases hchildren hin hread with hstep | ⟨other, ho, hother⟩
    · rw [variables_loopScope, List.mem_cons, List.mem_singleton, or_self] at hstep
      have hmake : Line.makeStep position.label.identifier options.runtimeModule ∈
          (w.positionLoop options form position .nil).toList := by
        simp [positionLoop, toList_loopCode_nil]
      refine .inr ⟨position, List.mem_cons_self,
        hheld _ (List.mem_append_left _ hmake) hmake ?_⟩
      rw [hstep]
      exact List.mem_singleton_self _
    · exact .inr ⟨other, List.mem_cons_of_mem _ ho, hother.extend_before _⟩

/-- **What the code of a forest reads is held by a time loop** of the forest, or it may be read where the
forest stands. -/
theorem read_executionCode {forest : Forest Block} {code : Code}
    (h : w.executionCode options forest (scopeBelow form above) = .ok code)
    {before after : List Line} {line : Line} {name : String}
    (hcode : code.toList = before ++ line :: after) (hread : name ∈ line.variablesRead) :
    name ∈ (scopeBelow form above).variables ∨
      ∃ position ∈ forest.positions above, w.HeldAt options form position name before line after := by
  induction forest generalizing above code before line after with
  | nil =>
    cases h
    exact absurd hcode.symm (List.append_ne_nil_of_right_ne_nil _ (List.cons_ne_nil _ _))
  | node block below follow ihBelow ihAfter =>
    obtain ⟨own, rest, hown, hrest, rfl⟩ := executionCode_node h
    rw [Forest.toList_append] at hcode
    rcases occurrence_append hcode with ⟨behind, rfl, hin⟩ | ⟨front, rfl, hin⟩
    · have hfirst : name ∈ (scopeBelow form above).variables ∨
          ∃ position ∈ (⟨block, below, above⟩ : Forest.Position Block) ::
            below.positions (block :: above),
            w.HeldAt options form position name before line behind := by
        cases hown with
        | sequence hkind hbelow =>
          rw [← @scopeBelow_cons form _ above (isTimeLoop_of_sequence hkind)] at hbelow ⊢
          refine (ihBelow hbelow hin hread).imp_right ?_
          rintro ⟨position, hp, hheld⟩
          exact ⟨position, List.mem_cons_of_mem _ hp, hheld⟩
        | loop hkind _ hbelow =>
          refine @read_loopCode _ w options form ⟨block, below, above⟩ _ hkind hbelow
            (below.positions (block :: above)) _ (fun hin hread => ?_) _ _ _ hin hread
          show name ∈ (loopScope block.identifier).variables ∨ _
          rw [← @scopeBelow_timeLoop form _ above hkind] at hbelow ⊢
          exact ihBelow hbelow hin hread
        | leaf _ =>
          rw [Code.toList_ofLines] at hin
          have hline : line ∈ w.executionLines block (scopeBelow form above) := by
            rw [hin]
            exact List.mem_append_right _ List.mem_cons_self
          exact .inl (variablesRead_executionLines hline hread)
      refine hfirst.imp_right ?_
      rintro ⟨position, hp, hheld⟩
      exact ⟨position, List.mem_append_left _ hp, hheld.extend [] rest.toList⟩
    · refine (ihAfter hrest hin hread).imp_right ?_
      rintro ⟨position, hp, hheld⟩
      exact ⟨position, List.mem_cons_of_mem _ (List.mem_append_right _ hp),
        hheld.extend_before own.toList⟩

-- ---------------------------------------------------------------------------
-- Names of time loops
-- ---------------------------------------------------------------------------

/-- Where the time loops of a workflow stand. -/
def loopPositions (w : Workflow μ) : List (Forest.Position Block) :=
  (w.tree.positions []).filter (·.label.kind.isTimeLoop)

/-- Where the models of a workflow stand. -/
def modelPositions (w : Workflow μ) : List (Forest.Position Block) :=
  (w.tree.positions []).filter (·.label.isModel)

theorem mem_loopPositions : position ∈ w.loopPositions ↔
    position ∈ w.tree.positions [] ∧ position.label.kind = .timeLoop := by
  rw [loopPositions, List.mem_filter, BlockKind.isTimeLoop_iff]

theorem mem_modelPositions : position ∈ w.modelPositions ↔
    position ∈ w.tree.positions [] ∧ position.label.isModel = true :=
  List.mem_filter

theorem label_mem_blocks (h : position ∈ w.tree.positions []) : position.label ∈ w.blocks := by
  rw [blocks, ← Forest.map_label_positions []]
  exact List.mem_map_of_mem h

/-- No two positions are for one name, where names are told apart. -/
theorem position_of_codeName (hnames : w.codeNames.Nodup) {other : Forest.Position Block}
    (hp : position ∈ w.tree.positions []) (ho : other ∈ w.tree.positions []) {name : String}
    (hname : position.label.codeName = some name) (hother : other.label.codeName = some name) :
    position = other := by
  have hblocks : (w.tree.positions []).filterMap (fun position => position.label.codeName) =
      w.blocks.filterMap Block.codeName := by
    rw [blocks, ← Forest.map_label_positions [], List.filterMap_map]
    rfl
  rw [codeNames, List.nodup_append, ← hblocks] at hnames
  exact eq_of_nodup_filterMap hnames.1 hp ho hname hother

/-- Every block has a name, no two blocks have the same, and names say the kinds of blocks. -/
structure NamesLoops (w : Workflow μ) : Prop where
  apart : w.codeNames.Nodup
  named : ∀ block ∈ w.blocks, block.codeName.isSome = true
  kinds : ∀ block ∈ w.blocks, block.NamedByKind

namespace NamesLoops

variable {var first second : LoopVariable} {other : Forest.Position Block}

/-- A time loop goes by a number. -/
theorem identifier_eq (h : w.NamesLoops) (hp : position ∈ w.loopPositions) :
    ∃ k : Nat, position.label.identifier = "timeloop_" ++ toString k ∧
      position.label.codeName = some position.label.identifier := by
  obtain ⟨hin, hkind⟩ := mem_loopPositions.mp hp
  have hb := label_mem_blocks hin
  obtain ⟨name, hname⟩ := Option.isSome_iff_exists.mp (h.named _ hb)
  obtain ⟨k, hk⟩ := (h.kinds _ hb).timeLoop hkind hname
  have hidentifier : position.label.identifier = name := by
    rw [Block.identifier, hname, Option.getD_some]
  rw [hidentifier]
  exact ⟨k, hk, hname⟩

/-- No two time loops have a variable of the same name, and no time loop has two. -/
theorem variable_inj (h : w.NamesLoops) (hp : position ∈ w.loopPositions)
    (ho : other ∈ w.loopPositions)
    (heq : first.name position.label.identifier = second.name other.label.identifier) :
    position = other ∧ first = second := by
  obtain ⟨k, hk, hname⟩ := h.identifier_eq hp
  obtain ⟨n, hn, hother⟩ := h.identifier_eq ho
  rw [hk, hn] at heq
  obtain ⟨rfl, hvariables⟩ := LoopVariable.name_inj heq
  rw [hk] at hname
  rw [hn] at hother
  exact ⟨position_of_codeName h.apart (mem_loopPositions.mp hp).1 (mem_loopPositions.mp ho).1 hname
    hother, hvariables⟩

/-- No variable of a time loop goes by the name of a parameter. -/
theorem variable_ne_parameter (h : w.NamesLoops) (hp : position ∈ w.loopPositions)
    {parameter : String} (hparameter : parameter ∈ ["tstep", "time"]) :
    var.name position.label.identifier ≠ parameter := by
  obtain ⟨k, hk, -⟩ := h.identifier_eq hp
  rw [hk]
  exact LoopVariable.name_ne_parameter hparameter

end NamesLoops

-- ---------------------------------------------------------------------------
-- Programs
-- ---------------------------------------------------------------------------

/-- The lines around the code of the blocks run no time loop. -/
theorem Surrounds.loop?_eq_none {line : Line} (h : w.Surrounds line) : line.loop? = none := by
  cases h with
  | frame hframe => exact Line.loop?_of_isFrame hframe
  | answer _ => rfl

/-- The lines around the code of the blocks read no variable but a parameter. -/
theorem Surrounds.variablesRead_subset {line : Line} (h : w.Surrounds line) :
    line.variablesRead ⊆ ["time"] := by
  cases h with
  | frame hframe =>
    rw [Line.variablesRead_of_isFrame hframe]
    exact List.nil_subset _
  | @answer slot _ =>
    have hread := @variables_readSlot _ w slot.id (.named "time")
    simpa [Line.variablesRead, Line.expressions, Line.ownVariablesRead, TimeExpr.variables] using hread

theorem variables_formScope (form : ProgramForm) : (formScope form).variables ⊆ ["tstep"] := by
  cases form with
  | component => simp [CodeScope.variables, formScope, TimeExpr.variables]
  | execution => simp [CodeScope.variables, formScope, TimeExpr.variables]

/-- **The variables of the time loops** of a workflow have their scopes in a program, and the blocks
refer to those of the innermost loop. -/
structure ScopesLoops (w : Workflow μ) (options : ProgramOptions) (form : ProgramForm)
    (program body : Code) : Prop where
  /-- No two time loops have a variable of the same name. -/
  distinct : ∀ position ∈ w.loopPositions, ∀ other ∈ w.loopPositions, ∀ first second : LoopVariable,
    first.name position.label.identifier = second.name other.label.identifier →
    position = other ∧ first = second
  /-- A variable is assigned by lines of its own loop, and by those of no other. -/
  assigned : ∀ line ∈ program.toList, ∀ position ∈ w.loopPositions, ∀ var : LoopVariable,
    var.name position.label.identifier ∈ line.variablesAssigned →
    line.loop? = some position.label.identifier ∧
      ∀ other ∈ w.loopPositions, line.loop? = some other.label.identifier → other = position
  /-- A line that reads a variable is one of those that run its loop, which has assigned it before. -/
  read : ∀ before line after, program.toList = before ++ line :: after →
    ∀ position ∈ w.loopPositions, ∀ var : LoopVariable,
    var.name position.label.identifier ∈ line.variablesRead →
    w.HeldAt options form position (var.name position.label.identifier) before line after
  /-- Whatever way the execution takes, a variable is assigned before it is read. -/
  known : body.ReadsKnown (formScope form).variables
  /-- A model solves the step of the innermost loop, or that of the method. -/
  solved : ∀ model member held, .solveModel model member held ∈ program.toList ↔
    ∃ position ∈ w.modelPositions, model = position.label.id ∧
      member = position.label.identifier ∧ held = (scopeBelow form position.above).step
  /-- A loop starts at a time that is taken at the time around the loop. -/
  start : ∀ loop value, .setStart loop value ∈ program.toList ↔
    ∃ position ∈ w.loopPositions, loop = position.label.identifier ∧
      value = w.readNamed position.label BlockKind.startTimeSlot
        (scopeBelow form position.above).time
  /-- So is the time at which it stops. -/
  target : ∀ loop value, .setTarget loop value ∈ program.toList ↔
    ∃ position ∈ w.loopPositions, loop = position.label.identifier ∧
      value = w.readNamed position.label BlockKind.targetTimeSlot
        (scopeBelow form position.above).time
  /-- So is the longest step. -/
  length : ∀ loop sources, .setLength loop sources ∈ program.toList ↔
    ∃ position ∈ w.loopPositions, loop = position.label.identifier ∧
      sources = w.stepSources position.label (position.below.toList.filter Block.isModel)
        (scopeBelow form position.above).time

section Programs

variable {program : Code}

/-- A line that runs a time loop does so for a loop of the workflow. -/
theorem exists_position_of_loop (h : w.programCode options form = .ok program)
    (hn : w.tree.Nested) {line : Line} (hline : line ∈ program.toList) {loop : String}
    (hloop : line.loop? = some loop) :
    ∃ position ∈ w.loopPositions, loop = position.label.identifier := by
  have hinside : ¬w.Surrounds line := by
    intro hs
    rw [hs.loop?_eq_none] at hloop
    cases hloop
  obtain ⟨position, hp, hin⟩ := (mem_programCode_iff h hn hinside).mp hline
  obtain ⟨hkind, hin⟩ := (mem_positionLines_of_loop (by rw [hloop]; rfl)).mp hin
  exact ⟨position, mem_loopPositions.mpr ⟨hp, hkind⟩, loop?_of_loopCode hin hloop⟩

/-- The lines of a program that neither frame it nor answer with a slot's value are those of blocks where
they stand. -/
theorem mem_iff_exists_position (h : w.programCode options form = .ok program) (hn : w.tree.Nested)
    {line : Line} (hframe : line.isFrame = false)
    (hanswer : ∀ slot value, line ≠ .returnValue slot value) :
    line ∈ program.toList ↔
      ∃ position ∈ w.tree.positions [], line ∈ w.positionLines options form position := by
  refine mem_programCode_iff h hn ?_
  rintro (hin | _)
  · rw [hframe] at hin
    cases hin
  · exact hanswer _ _ rfl

/-- The lines that set the times at which loops start. -/
theorem setStart_mem_iff (h : w.programCode options form = .ok program) (hn : w.tree.Nested)
    (loop : String) (value : Expr) : .setStart loop value ∈ program.toList ↔
      ∃ position ∈ w.loopPositions, loop = position.label.identifier ∧
        value = w.readNamed position.label BlockKind.startTimeSlot
          (scopeBelow form position.above).time := by
  rw [mem_iff_exists_position h hn rfl fun _ _ heq => by cases heq]
  simp only [setStart_mem_positionLines, mem_loopPositions, and_assoc]

/-- The lines that set the times at which they stop. -/
theorem setTarget_mem_iff (h : w.programCode options form = .ok program) (hn : w.tree.Nested)
    (loop : String) (value : Expr) : .setTarget loop value ∈ program.toList ↔
      ∃ position ∈ w.loopPositions, loop = position.label.identifier ∧
        value = w.readNamed position.label BlockKind.targetTimeSlot
          (scopeBelow form position.above).time := by
  rw [mem_iff_exists_position h hn rfl fun _ _ heq => by cases heq]
  simp only [setTarget_mem_positionLines, mem_loopPositions, and_assoc]

namespace NamesLoops

/-- The variables of a time loop are assigned by its lines alone. -/
theorem assigned (hl : w.NamesLoops) (h : w.programCode options form = .ok program)
    (hn : w.tree.Nested) {line : Line} (hline : line ∈ program.toList)
    (hp : position ∈ w.loopPositions) {var : LoopVariable}
    (hassigned : var.name position.label.identifier ∈ line.variablesAssigned) :
    line.loop? = some position.label.identifier ∧
      ∀ other ∈ w.loopPositions, line.loop? = some other.label.identifier → other = position := by
  obtain ⟨loop, second, hloop, hname⟩ := Line.exists_loop_of_assigned hassigned
  obtain ⟨runs, hruns, rfl⟩ := exists_position_of_loop h hn hline hloop
  obtain ⟨rfl, -⟩ := hl.variable_inj hp hruns hname
  refine ⟨hloop, fun other ho hother => ?_⟩
  have hsame := congrArg var.name (Option.some.inj (hother.symm.trans hloop))
  exact (hl.variable_inj ho hp hsame).1

/-- The variables of a time loop are read by the lines that run the loop, when it has assigned them. -/
theorem read (hl : w.NamesLoops) (h : w.programCode options form = .ok program)
    {before after : List Line} {line : Line} (hlines : program.toList = before ++ line :: after)
    (hp : position ∈ w.loopPositions) {var : LoopVariable}
    (hread : var.name position.label.identifier ∈ line.variablesRead) :
    w.HeldAt options form position (var.name position.label.identifier) before line after := by
  obtain ⟨execution, front, back, hexecution, hparts, hfront, hback⟩ := surrounded_of_programCode h
  have hparameter : ∀ {parameter : String}, parameter ∈ ["tstep", "time"] →
      var.name position.label.identifier ≠ parameter := hl.variable_ne_parameter hp
  have houtside : ¬w.Surrounds line := by
    intro hs
    exact hparameter (by simp) (List.mem_singleton.mp (hs.variablesRead_subset hread))
  rw [hparts] at hlines
  rcases occurrence_append hlines with ⟨rest, -, hin⟩ | ⟨inner, rfl, htail⟩
  · refine absurd (hfront line ?_) houtside
    rw [hin]
    exact List.mem_append_right _ List.mem_cons_self
  rcases occurrence_append htail with ⟨rest, rfl, hin⟩ | ⟨front, _, hin⟩
  · rcases @read_executionCode _ w options form [] _ _ hexecution _ _ _ _ hin hread with
      hscope | ⟨other, ho, hheld⟩
    · exact absurd (List.mem_singleton.mp (variables_formScope form hscope)) (hparameter (by simp))
    · have hextended := hheld.extend front back
      obtain ⟨hkind, second, heq⟩ := hheld.variable_of_loop
      have hother := mem_loopPositions.mpr ⟨ho, hkind⟩
      obtain ⟨rfl, -⟩ := hl.variable_inj hp hother heq
      exact hextended
  · refine absurd (hback line ?_) houtside
    rw [hin]
    exact List.mem_append_right _ List.mem_cons_self

/-- The variables of time loops have their scopes, where names are told apart. -/
theorem scopes_programCode (hl : w.NamesLoops) (hn : w.tree.Nested)
    (h : w.programCode options form = .ok program) :
    ∃ body, program.methodBody? form.executing = some body ∧
      w.ScopesLoops options form program body := by
  obtain ⟨execution, closing, hexecution, hbody, hclosing⟩ := methodBody?_executing_eq h
  refine ⟨_, hbody,
    { distinct := fun _ hp _ ho _ _ heq => hl.variable_inj hp ho heq
      assigned := fun _ hline _ hp _ => hl.assigned h hn hline hp
      read := fun _ _ _ hlines _ hp _ => hl.read h hlines hp
      known := (readsKnown_executionCode hexecution).append (Code.readsKnown_ofLines ?_)
      solved := fun model member held => ?_
      start := setStart_mem_iff h hn
      target := setTarget_mem_iff h hn
      length := fun loop sources => ?_ }⟩
  · intro line hline
    rw [Line.variablesRead_of_isFrame (isFrame_closingLines (hclosing hline))]
    exact List.nil_subset _
  · rw [mem_iff_exists_position h hn rfl fun _ _ heq => by cases heq]
    simp only [solveModel_mem_positionLines, mem_modelPositions, and_assoc]
  · rw [mem_iff_exists_position h hn rfl fun _ _ heq => by cases heq]
    simp only [setLength_mem_positionLines, mem_loopPositions, and_assoc, positionSources]

end NamesLoops

end Programs

/-- **The variables of time loops are scoped** in a generated program. Take a workflow in which no block's
kind has been edited, with time loops nested and in sequence in any way. If there is a program for it, no
two variables of its time loops have the same name. Each variable is assigned by lines of its own loop
alone. A line that reads a variable is one of those that run the loop, which has assigned it on an earlier
line. A model solves the step of the innermost loop around it; if there is none, this is the step that
the method is called with, or `None` if it is called with none. The times at which a loop starts and stops
and its longest step are taken at the time around the loop. -/
theorem KindsKept.scopesLoops (h : w.KindsKept) {lines : List String}
    (hg : (w.generate options form).1 = .ok lines) :
    ∃ program body, w.assignNames.programCode options form = .ok program ∧ lines = program.lines ∧
      program.methodBody? form.executing = some body ∧
      w.assignNames.ScopesLoops options form program body := by
  obtain ⟨program, hprogram, rfl⟩ := generate_eq_ok hg
  have hnames : w.assignNames.NamesLoops :=
    { apart := h.named.reachable.namedApart.nodup
      named := w.named_assignNames.1
      kinds := h.named.namedByKind }
  obtain ⟨body, hbody, hscopes⟩ := hnames.scopes_programCode h.named.shaped.nested hprogram
  exact ⟨program, body, hprogram, rfl, hbody, hscopes⟩

/-- The registry of a model that takes in what comes from another one. -/
def pipes : Registry Unit where
  classes := [
    { name := "Pipe"
      importStatement := "from pipes import Pipe"
      declaration :=
        { name := "Pipe"
          inputs := [{ name := "inflow", type := .physicalQuantity }]
          outputs := [{ name := "outflow", type := .physicalQuantity }] } }]

/-- A pipe in a time loop, and one in a time loop in that one, which takes in what comes from the first
one. Each solves the step of its own loop. -/
theorem scopesLoops_of_pipes :
    ∃ (w : Workflow Unit) (program body : Code), w.KindsKept ∧
      w.assignNames.programCode {} .execution = .ok program ∧
      "\t\t\tself.model_1.solveStep(timeloop_1_time_step)" ∈ program.lines ∧
      "\t\t\t\tself.model_2.set(self.model_1.get(None, timeloop_2_time_step.getTime(), 0), 0)" ∈
        program.lines ∧
      "\t\t\t\tself.model_2.solveStep(timeloop_2_time_step)" ∈ program.lines ∧
      w.assignNames.ScopesLoops {} .execution program body := by
  have houter := @KindsKept.edited Unit _ _ (.addBlock rootId .timeLoop none) _
    (.new "uid-" "Plan" pipes) rfl nofun
  have hfirst := @KindsKept.edited Unit _ _ (.addModel ⟨1⟩ ⟨"Pipe", none, none⟩ none) _ houter rfl
    nofun
  have hinner := @KindsKept.edited Unit _ _ (.addBlock ⟨1⟩ .timeLoop none) _ hfirst rfl nofun
  have hsecond := @KindsKept.edited Unit _ _ (.addModel ⟨8⟩ ⟨"Pipe", none, none⟩ none) _ hinner rfl
    nofun
  have hlinked := @KindsKept.edited Unit _ _ (.connect ⟨7⟩ ⟨13⟩ none) _ hsecond rfl nofun
  obtain ⟨program, body, hprogram, hlines, -, hscopes⟩ :=
    @hlinked.scopesLoops Unit _ {} .execution _ rfl
  refine ⟨_, program, body, hlinked, hprogram, ?_, ?_, ?_, hscopes⟩ <;> rw [← hlines] <;>
    decide +kernel

end Workflow

end SlotFlow
