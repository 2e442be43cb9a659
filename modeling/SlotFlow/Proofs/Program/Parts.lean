import SlotFlow.Proofs.Program.Executed
/-!
# The parts of a program

A program is put together from parts, and a line of it stands in one of them. The code of the blocks is
made by walks over the tree that go down only below containers. If the kind of a block has been edited,
there may be blocks below something else than a container, and no code is made for those.

* `Forest.reached` — the blocks that code is made for;
* `Workflow.HasScope` — what code may refer to where it stands;
* `Workflow.Executes`, `Workflow.ExecutedIn` — the lines that execute a block;
* `Workflow.StandsIn`, `Workflow.StandsInMethods` — the part of a program that a line stands in.

## Results

* `Workflow.toList_setUpCode_reached` — the set-up is that of each block that is reached;
* `Workflow.exists_executes`, `Workflow.executedIn_executionCode` — the execution is that of each block
  that is reached;
* `Workflow.exists_methods`, `Workflow.standsIn_of_programCode` — there are no other lines than those of
  the parts.
-/

namespace SlotFlow

-- ---------------------------------------------------------------------------
-- Blocks that are reached
-- ---------------------------------------------------------------------------

namespace Forest

/-- The blocks of a forest that code is made for. -/
def reached : Forest Block → List Block
  | nil => []
  | node block below after =>
    block :: ((if block.kind.isContainer then reached below else []) ++ reached after)

theorem reached_sublist (forest : Forest Block) : forest.reached.Sublist forest.toList := by
  induction forest with
  | nil => exact .slnil
  | node block below after ihBelow ihAfter =>
    rw [reached, toList_node]
    refine .cons_cons _ (.append ?_ ihAfter)
    split
    · exact ihBelow
    · exact List.nil_sublist _

/-- Where only containers have blocks below them, all blocks are reached. -/
theorem reached_of_nested {forest : Forest Block} (h : forest.Nested) :
    forest.reached = forest.toList := by
  induction forest with
  | nil => rfl
  | node block below after ihBelow ihAfter =>
    obtain ⟨hleaf, hbelow, hafter⟩ := h
    rw [reached, toList_node, ihBelow hbelow, ihAfter hafter]
    split
    · rfl
    · rename_i hno
      rw [hleaf.resolve_right hno, toList_nil]

end Forest

namespace Workflow

variable {μ : Type} {w : Workflow μ} {options : ProgramOptions} {form : ProgramForm}

-- ---------------------------------------------------------------------------
-- Identifiers
-- ---------------------------------------------------------------------------

/-- After a naming pass every block goes by a name of its own, which is usable. -/
theorem Reachable.usable_block (h : w.Reachable) {block : Block} (hb : block ∈ w.assignNames.blocks) :
    block.codeName = some block.identifier ∧ Identifier.IsUsable block.identifier := by
  obtain ⟨name, hname⟩ := Option.isSome_iff_exists.mp (w.named_assignNames.1 block hb)
  have hsame : block.identifier = name := by rw [Block.identifier, hname]; rfl
  rw [hsame]
  exact ⟨hname, h.named.namedApart.usable name
    (List.mem_append_left _ (List.mem_filterMap.mpr ⟨block, hb, hname⟩))⟩

/-- So does every slot on the border. -/
theorem Reachable.usable_slot (h : w.Reachable) {slot : Slot} (hs : slot ∈ w.assignNames.slots)
    (hext : slot.external = true) :
    slot.codeName = some slot.identifier ∧ Identifier.IsUsable slot.identifier := by
  obtain ⟨name, hname⟩ := Option.isSome_iff_exists.mp (w.named_assignNames.2 slot hs hext)
  have hsame : slot.identifier = name := by rw [Slot.identifier, hname]; rfl
  rw [hsame]
  exact ⟨hname, h.named.namedApart.usable name
    (List.mem_append_right _ (List.mem_filterMap.mpr ⟨slot, hs, hname⟩))⟩

-- ---------------------------------------------------------------------------
-- Code of blocks
-- ---------------------------------------------------------------------------

/-- The set-up of a forest is that of each block that is reached, in tree order. -/
theorem toList_setUpCode_reached {forest : Forest Block} {code : Code}
    (h : w.setUpCode options forest = .ok code) :
    code.toList = forest.reached.flatMap (w.setUpLines options) := by
  induction forest generalizing code with
  | nil =>
    cases h
    rfl
  | node block below after ihBelow ihAfter =>
    obtain ⟨own, rest, hown, hrest, rfl⟩ := setUpCode_node h
    rw [Forest.toList_append, ihAfter hrest, Forest.reached, List.flatMap_cons, List.flatMap_append,
      ← List.append_assoc]
    congr 1
    cases hown with
    | container hkind hcode =>
      rw [setUpLines_of_isContainer hkind, ihBelow hcode, if_pos hkind, List.nil_append]
    | leaf hkind =>
      rw [Code.toList_ofLines, if_neg (by rw [hkind]; exact Bool.false_ne_true), List.flatMap_nil,
        List.append_nil]

/-- What code refers to where it stands: to the step of a time loop, or to what the method that executes
the blocks is called with. -/
inductive HasScope (w : Workflow μ) (form : ProgramForm) : CodeScope → Prop where
  | outer : HasScope w form (formScope form)
  | inner {loop : Block} (hb : loop ∈ w.blocks) : HasScope w form (loopScope loop.identifier)

/-- The lines that execute a block, with what is below it, but without the lines for that. -/
inductive Executes (w : Workflow μ) (options : ProgramOptions) (form : ProgramForm) (block : Block)
    (below : Forest Block) : Line → Prop where
  | own {scope : CodeScope} {line : Line} (hscope : w.HasScope form scope)
      (h : line ∈ w.executionLines block scope) : Executes w options form block below line
  | loop {scope : CodeScope} {line : Line} (hscope : w.HasScope form scope)
      (hkind : block.kind = .timeLoop)
      (h : line ∈ (w.loopCode options block scope.time
        (w.stepSources block (below.toList.filter Block.isModel) scope.time) .nil).toList) :
      Executes w options form block below line

/-- A line of the execution of a forest executes a block that is reached. -/
theorem exists_executes {forest : Forest Block} {scope : CodeScope} {code : Code}
    (h : w.executionCode options forest scope = .ok code) (hscope : w.HasScope form scope)
    (hforest : forest.toList ⊆ w.blocks) {line : Line} (hline : line ∈ code.toList) :
    ∃ block ∈ forest.reached, ∃ below, (block, below) ∈ forest.subtrees ∧
      w.Executes options form block below line := by
  induction forest generalizing scope code with
  | nil =>
    cases h
    cases hline
  | node block below after ihBelow ihAfter =>
    obtain ⟨own, rest, hown, hrest, rfl⟩ := executionCode_node h
    rw [Forest.toList_node, List.cons_subset, List.append_subset] at hforest
    obtain ⟨hb, hbelow, hafter⟩ := hforest
    rw [Forest.reached, Forest.subtrees]
    have hinside : block.kind.isContainer = true → (∃ b ∈ below.reached, ∃ under,
          (b, under) ∈ below.subtrees ∧ w.Executes options form b under line) →
        ∃ b ∈ block :: ((if block.kind.isContainer then below.reached else []) ++ after.reached),
          ∃ under, (b, under) ∈ (block, below) :: (below.subtrees ++ after.subtrees) ∧
            w.Executes options form b under line := by
      rintro hkind ⟨b, hb, under, hsub, hexecutes⟩
      rw [if_pos hkind]
      exact ⟨b, List.mem_cons_of_mem _ (List.mem_append_left _ hb), under,
        List.mem_cons_of_mem _ (List.mem_append_left _ hsub), hexecutes⟩
    rw [Forest.toList_append, List.mem_append] at hline
    rcases hline with hline | hline
    · cases hown with
      | sequence hkind hcode =>
        exact hinside (by rcases hkind with hkind | hkind <;> rw [hkind] <;> rfl)
          (ihBelow hcode hscope hbelow hline)
      | loop hkind _ hcode =>
        rw [toList_loopCode, List.mem_append] at hline
        rcases hline with hline | hline
        · exact ⟨block, List.mem_cons_self, below, List.mem_cons_self, .loop hscope hkind hline⟩
        · exact hinside (by rw [hkind]; rfl) (ihBelow hcode (.inner hb) hbelow hline)
      | leaf _ =>
        rw [Code.toList_ofLines] at hline
        exact ⟨block, List.mem_cons_self, below, List.mem_cons_self, .own hscope hline⟩
    · obtain ⟨b, hb, under, hsub, hexecutes⟩ := ihAfter hrest hscope hafter hline
      exact ⟨b, List.mem_cons_of_mem _ (List.mem_append_right _ hb), under,
        List.mem_cons_of_mem _ (List.mem_append_right _ hsub), hexecutes⟩

/-- How lines execute a block: with its own lines, or with the code that runs a time loop. A sequence has
no code but that of the blocks below it. -/
inductive ExecutedIn (w : Workflow μ) (options : ProgramOptions) (block : Block)
    (lines : List Line) : Prop where
  | sequence (hkind : block.kind = .workflow ∨ block.kind = .sequential)
  | loop (hkind : block.kind = .timeLoop) (time : TimeExpr) (sources : List StepSource)
      (h : (w.loopCode options block time sources .nil).toList ⊆ lines)
  | leaf (hkind : block.kind.isContainer = false) (scope : CodeScope)
      (h : w.executionLines block scope ⊆ lines)

theorem ExecutedIn.mono {block : Block} {lines more : List Line}
    (h : w.ExecutedIn options block lines) (hsub : lines ⊆ more) :
    w.ExecutedIn options block more := by
  cases h with
  | sequence hkind => exact .sequence hkind
  | loop hkind time sources hin => exact .loop hkind time sources (List.Subset.trans hin hsub)
  | leaf hkind scope hin => exact .leaf hkind scope (List.Subset.trans hin hsub)

/-- Every block that is reached is executed. -/
theorem executedIn_executionCode {forest : Forest Block} {scope : CodeScope} {code : Code}
    (h : w.executionCode options forest scope = .ok code) {block : Block}
    (hb : block ∈ forest.reached) : w.ExecutedIn options block code.toList := by
  induction forest generalizing scope code with
  | nil => cases hb
  | node first under after ihUnder ihAfter =>
    obtain ⟨own, rest, hown, hrest, rfl⟩ := executionCode_node h
    rw [Forest.toList_append]
    rw [Forest.reached, List.mem_cons, List.mem_append] at hb
    rcases hb with rfl | hb | hb
    · refine ExecutedIn.mono ?_ (List.subset_append_left _ _)
      cases hown with
      | sequence hkind _ => exact .sequence hkind
      | loop hkind _ _ =>
        refine .loop hkind scope.time
          (w.stepSources block (under.toList.filter Block.isModel) scope.time) ?_
        rw [toList_loopCode]
        exact List.subset_append_left _ _
      | leaf hkind =>
        rw [Code.toList_ofLines]
        exact .leaf hkind scope (List.Subset.refl _)
    · refine ExecutedIn.mono ?_ (List.subset_append_left _ _)
      cases hown with
      | sequence hkind hcode =>
        rw [if_pos (by rcases hkind with hkind | hkind <;> rw [hkind] <;> rfl)] at hb
        exact ihUnder hcode hb
      | loop hkind _ hcode =>
        rw [if_pos (by rw [hkind]; rfl)] at hb
        rw [toList_loopCode]
        exact (ihUnder hcode hb).mono (List.subset_append_right _ _)
      | leaf hkind =>
        rw [if_neg (by rw [hkind]; exact Bool.false_ne_true)] at hb
        cases hb
    · exact (ihAfter hrest hb).mono (List.subset_append_right _ _)

-- ---------------------------------------------------------------------------
-- Parts of a program
-- ---------------------------------------------------------------------------

/-- The part of a program that a line stands in. -/
inductive StandsIn (w : Workflow μ) (options : ProgramOptions) (form : ProgramForm) :
    Line → Prop where
  | blank : StandsIn w options form .blank
  | imports {line : Line} (h : line ∈ w.importLines options) : StandsIn w options form line
  | classDef : StandsIn w options form (.classDef options.className options.runtimeModule)
  | opening {line : Line} (h : line ∈ w.openingLines options form) : StandsIn w options form line
  | setUp {block : Block} {line : Line} (hb : block ∈ w.tree.reached)
      (h : line ∈ w.setUpLines options block) : StandsIn w options form line
  | definition (method : Method) : StandsIn w options form (.methodDef method)
  | access {part : Code} {line : Line} (hpart : part ∈ w.accessMethods form ++ [w.terminateMethod])
      (h : line ∈ part.toList) : StandsIn w options form line
  | execution {block : Block} {below : Forest Block} {line : Line} (hb : block ∈ w.tree.reached)
      (hsub : (block, below) ∈ w.tree.subtrees) (h : w.Executes options form block below line) :
      StandsIn w options form line
  | closing {line : Line} (h : line ∈ closingLines) : StandsIn w options form line
  | main {line : Line} (h : line ∈ (mainPart options form).toList) : StandsIn w options form line

/-- The part of the methods of a class that a line stands in. -/
inductive StandsInMethods (w : Workflow μ) (options : ProgramOptions) (form : ProgramForm) :
    Line → Prop where
  | blank : StandsInMethods w options form .blank
  | opening {line : Line} (h : line ∈ w.openingLines options form) :
      StandsInMethods w options form line
  | setUp {block : Block} {line : Line} (hb : block ∈ w.tree.reached)
      (h : line ∈ w.setUpLines options block) : StandsInMethods w options form line
  | definition (method : Method) : StandsInMethods w options form (.methodDef method)
  | access {part : Code} {line : Line} (hpart : part ∈ w.accessMethods form ++ [w.terminateMethod])
      (h : line ∈ part.toList) : StandsInMethods w options form line
  | execution {block : Block} {below : Forest Block} {line : Line} (hb : block ∈ w.tree.reached)
      (hsub : (block, below) ∈ w.tree.subtrees) (h : w.Executes options form block below line) :
      StandsInMethods w options form line
  | closing {line : Line} (h : line ∈ closingLines) : StandsInMethods w options form line

theorem StandsInMethods.standsIn {line : Line} (h : w.StandsInMethods options form line) :
    w.StandsIn options form line := by
  cases h with
  | blank => exact .blank
  | opening h => exact .opening h
  | setUp hb h => exact .setUp hb h
  | definition method => exact .definition method
  | access hpart h => exact .access hpart h
  | execution hb hsub h => exact .execution hb hsub h
  | closing h => exact .closing h

/-- A program consists of its imports, the class with its methods, and what may come after it. -/
theorem exists_methods {program : Code} (h : w.programCode options form = .ok program) :
    ∃ methods, program = Code.concat
        [Code.ofLines (w.importLines options ++ [.blank, .blank]),
         Code.block (.classDef options.className options.runtimeModule) methods,
         mainPart options form] ∧
      ∀ line ∈ methods.toList, w.StandsInMethods options form line := by
  obtain ⟨setUp, execution, hsetUp, hexecution, hprogram⟩ := programCode_eq_ok h
  obtain ⟨closing, hsolve, hclosing⟩ := exists_solveMethod_eq form execution
  refine ⟨_, hprogram, fun line hline => ?_⟩
  rw [Forest.toList_append, Code.toList_block, Forest.toList_append, Code.toList_ofLines,
    toList_setUpCode_reached hsetUp, List.mem_append, List.mem_cons, List.mem_append,
    List.mem_flatMap] at hline
  rcases hline with (rfl | hopening | ⟨block, hb, hin⟩) | hpart
  · exact .definition _
  · exact .opening hopening
  · exact .setUp hb hin
  · rcases mem_spaced hpart with rfl | ⟨part, hpart, hin⟩
    · exact .blank
    rw [← List.singleton_append, ← List.append_assoc, List.mem_append, List.mem_singleton] at hpart
    rcases hpart with hpart | rfl
    · exact .access hpart hin
    · rw [hsolve, Code.toList_block, Forest.toList_append, Code.toList_ofLines, List.mem_cons,
        List.mem_append] at hin
      rcases hin with rfl | hin | hin
      · exact .definition _
      · obtain ⟨block, hb, below, hsub, hexecutes⟩ :=
          exists_executes hexecution .outer (List.Subset.refl _) hin
        exact .execution hb hsub hexecutes
      · exact .closing (hclosing hin)

/-- **A line of a program stands in one of its parts.** -/
theorem standsIn_of_programCode {program : Code} (h : w.programCode options form = .ok program)
    {line : Line} (hline : line ∈ program.toList) : w.StandsIn options form line := by
  obtain ⟨methods, rfl, hmethods⟩ := exists_methods h
  simp only [Code.toList_concat, List.flatMap_cons, List.flatMap_nil, List.append_nil,
    Code.toList_ofLines, Code.toList_block, List.mem_append, List.mem_cons, List.not_mem_nil,
    or_false] at hline
  rcases hline with (himport | rfl | rfl) | (rfl | hin) | hmain
  · exact .imports himport
  · exact .blank
  · exact .blank
  · exact .classDef
  · exact (hmethods line hin).standsIn
  · exact .main hmain

/-- The set-up of a block that is reached stands in the program, below the line that opens the first
method. -/
theorem setUpLines_subset_programCode {program : Code} (h : w.programCode options form = .ok program)
    {block : Block} (hb : block ∈ w.tree.reached) :
    w.setUpLines options block ⊆ program.toList := by
  obtain ⟨setUp, execution, hsetUp, -, rfl⟩ := programCode_eq_ok h
  intro line hline
  have hin : line ∈ setUp.toList := by
    rw [toList_setUpCode_reached hsetUp]
    exact List.mem_flatMap.mpr ⟨block, hb, hline⟩
  simp [hin]

/-- The lines at the start of the first method stand in the program. -/
theorem openingLines_subset_programCode {program : Code}
    (h : w.programCode options form = .ok program) :
    .methodDef .init :: w.openingLines options form ⊆ program.toList := by
  obtain ⟨setUp, execution, -, -, rfl⟩ := programCode_eq_ok h
  intro line hline
  rcases List.mem_cons.mp hline with rfl | hline
  · simp
  · simp [hline]

/-- The execution of the blocks stands in the program. -/
theorem exists_executionCode_subset {program : Code} (h : w.programCode options form = .ok program) :
    ∃ execution, w.executionCode options w.tree (formScope form) = .ok execution ∧
      execution.toList ⊆ program.toList := by
  obtain ⟨execution, closing, hexecution, hbody, -⟩ := methodBody?_executing_eq h
  refine ⟨execution, hexecution, fun line hline => ?_⟩
  refine Code.mem_of_mem_subtrees (Code.mem_subtrees_of_methodBody? hbody) ?_
  rw [Forest.toList_append]
  exact List.mem_append_left _ hline

end Workflow

end SlotFlow
