import SlotFlow.Proofs.Naming.Held
import SlotFlow.Proofs.Program.Dispatched
import SlotFlow.Proofs.Program.Indented
import SlotFlow.Proofs.Program.Scoped
/-!
# Programs are well indented

No part of a program that a line opens is left without code: where there is nothing to do, it holds a
statement that does nothing or gives no value. So the only lines that can be out of place are those that
start with a text from elsewhere: the lines that a user wrote, the statements that import classes, and the
statement that starts with the name of the runtime module.

* `ProgramOptions.Legible` — the name of the runtime module leaves the statement it starts where it is;
* `Workflow.NoVerbatim`, `Workflow.Imported`, `Workflow.Spelt` — the other texts from elsewhere.

## Results

* `Workflow.laid_programCode` — programs are laid out as their lines ask for;
* `Workflow.exists_isStatement_solveMethod` — the method that executes the blocks holds code;
* `Workflow.Reachable.wellIndented_generate` — both, for what is generated.
-/

namespace SlotFlow

-- ---------------------------------------------------------------------------
-- The name of the runtime module
-- ---------------------------------------------------------------------------

/-- The name of the runtime module neither starts with a tab nor makes a comment of what follows it. -/
structure ProgramOptions.Legible (options : ProgramOptions) : Prop where
  tab : options.runtimeModule.toList.head? ≠ some '\t'
  comment : (Text.trimStart options.runtimeModule.toList).head? ≠ some '#'

/-- The statement that sets the base class up is code, and it is not moved. -/
theorem ProgramOptions.Legible.initBase {options : ProgramOptions} (h : options.Legible) :
    (Line.initBase options.runtimeModule).isStatement = true ∧
      (Line.initBase options.runtimeModule).Inner := by
  have htext : (Line.initBase options.runtimeModule).text.toList =
      options.runtimeModule.toList ++ ".Workflow.Workflow.__init__(self)".toList :=
    String.toList_append
  obtain ⟨rest, hrest⟩ : ∃ rest, ".Workflow.Workflow.__init__(self)".toList = '.' :: rest := ⟨_, rfl⟩
  rw [hrest] at htext
  refine ⟨?_, fun _ => ?_, rfl⟩
  · have hcomment := h.comment
    rw [Line.isStatement, htext, Text.trimStart, List.dropWhile_append]
    rw [Text.trimStart] at hcomment
    cases hdrop : options.runtimeModule.toList.dropWhile Text.isBlank with
    | nil =>
      rw [List.isEmpty_nil, if_pos rfl, List.dropWhile_cons_of_neg (by decide)]
      rfl
    | cons c cs =>
      rw [hdrop] at hcomment
      simpa using hcomment
  · have htab := h.tab
    rw [Text.leadingTabs, htext]
    cases hname : options.runtimeModule.toList with
    | nil => rfl
    | cons c cs =>
      rw [hname] at htab
      have hc : c ≠ '\t' := by simpa using htab
      simp [hc]

namespace Workflow

variable {μ : Type} {w : Workflow μ} {options : ProgramOptions} {form : ProgramForm}

-- ---------------------------------------------------------------------------
-- The methods by which a class is used
-- ---------------------------------------------------------------------------

theorem laid_criticalMethod (w : Workflow μ) : w.criticalMethod.Laid := by
  rw [criticalMethod]
  split
  · exact Code.laid_block_ofLines rfl List.mem_cons_self (Line.isStatement_of_isPlain rfl)
      (Line.inner_of_all rfl)
  · exact Code.laid_block_ofLines rfl List.mem_cons_self (Line.isStatement_of_isPlain rfl)
      (Line.inner_of_all rfl)

theorem laid_terminateMethod (w : Workflow μ) : w.terminateMethod.Laid := by
  rw [terminateMethod]
  split
  · exact Code.laid_block_ofLines rfl List.mem_cons_self (Line.isStatement_of_isPlain rfl)
      (Line.inner_of_all rfl)
  · rename_i hmodels
    obtain ⟨model, hmodel⟩ := List.exists_mem_of_ne_nil _ (List.isEmpty_eq_false_iff.mp
      (Bool.not_eq_true _ ▸ hmodels))
    refine Code.laid_block_ofLines rfl (List.mem_map_of_mem hmodel) (Line.isStatement_of_isPlain rfl)
      fun line hline => ?_
    obtain ⟨other, -, rfl⟩ := List.mem_map.mp hline
    exact Line.inner_of_isInner rfl

theorem laid_choices (slots : List Slot) {answer : Slot → Line}
    (h : ∀ slot, (answer slot).isPlain = true) : (choices slots answer).Laid := by
  rw [choices]
  refine Code.laid_concat fun part hpart => ?_
  obtain ⟨group, -, rfl⟩ := List.mem_map.mp hpart
  refine .append (Code.laid_ofLines (Line.inner_of_all rfl)) (Code.laid_concat fun choice hchoice => ?_)
  obtain ⟨slot, -, rfl⟩ := List.mem_map.mp hchoice
  exact Code.laid_block_ofLines rfl List.mem_cons_self (Line.isStatement_of_isPlain (h slot))
    fun line hline => by
      rw [List.mem_singleton.mp hline]
      exact Line.inner_of_isPlain (h slot)

/-- Where there are slots, there is a question. -/
theorem exists_isStatement_choices {slots : List Slot} (hne : slots ≠ []) (answer : Slot → Line) :
    ∃ line ∈ (choices slots answer).toList, line.isStatement = true := by
  obtain ⟨slot, hs⟩ := List.exists_mem_of_ne_nil slots hne
  obtain ⟨group, hgroup, hin⟩ := List.mem_flatMap.mp ((perm_groupByType slots).mem_iff.mpr hs)
  refine ⟨.ifObject slot.id slot.objectId, ?_,
    Line.isStatement_of_begins (Line.begins_of_opens rfl)⟩
  rw [choices, Code.toList_concat, List.mem_flatMap]
  refine ⟨_, List.mem_map_of_mem hgroup, ?_⟩
  rw [Forest.toList_append, List.mem_append, Code.toList_concat, List.mem_flatMap]
  exact .inr ⟨_, List.mem_map_of_mem hin, by simp⟩

theorem laid_setMethod (w : Workflow μ) : w.setMethod.Laid := by
  rw [setMethod]
  refine .append (Code.laid_ofLines (Line.inner_of_all rfl)) ?_
  split
  · exact Code.laid_block_ofLines rfl List.mem_cons_self (Line.isStatement_of_isPlain rfl)
      (Line.inner_of_all rfl)
  · rename_i hinputs
    exact Code.laid_block rfl
      (exists_isStatement_choices (fun hnil => hinputs (List.isEmpty_iff.mpr hnil)) _)
      (laid_choices _ fun _ => rfl)

theorem laid_getMethod (w : Workflow μ) : w.getMethod.Laid := by
  rw [getMethod]
  refine .append (Code.laid_ofLines (Line.inner_of_all rfl)) (Code.laid_block rfl ?_ ?_)
  · refine ⟨.returnNone, ?_, Line.isStatement_of_isPlain rfl⟩
    rw [Forest.toList_append, Code.toList_ofLines]
    exact List.mem_append_right _ (by simp)
  · exact (laid_choices _ fun _ => rfl).append
      (Code.laid_ofLines (Line.inner_of_all rfl))

-- ---------------------------------------------------------------------------
-- The set-up
-- ---------------------------------------------------------------------------

theorem laid_setUpCode {forest : Forest Block} {code : Code}
    (h : w.setUpCode options forest = .ok code) : code.Laid := by
  induction forest generalizing code with
  | nil =>
    cases h
    trivial
  | node block below after ihBelow ihAfter =>
    obtain ⟨own, rest, hown, hrest, rfl⟩ := setUpCode_node h
    refine .append ?_ (ihAfter hrest)
    cases hown with
    | container _ hbelow => exact ihBelow hbelow
    | leaf =>
      refine Code.laid_ofLines fun line hline => Line.inner_of_isInner ?_
      rcases mem_setUpLines hline with rfl | ⟨text, rfl⟩ | ⟨value, -, rfl⟩ <;> rfl

theorem mem_openingLines {line : Line} (h : line ∈ w.openingLines options form) :
    line = .initBase options.runtimeModule ∨ line.isInner = true := by
  unfold openingLines at h
  refine (List.mem_cons.mp h).imp_right fun h => ?_
  cases form with
  | execution => cases h
  | component =>
    rw [List.mem_append, inputSetUpLines, List.mem_flatMap] at h
    rcases h with h | ⟨slot, -, h⟩
    · exact List.all_eq_true.mp (show (w.metadataLines options).all Line.isInner = true from rfl) line h
    · split at h
      · cases h
      · simp only [List.mem_cons, List.not_mem_nil, or_false] at h
        rcases h with rfl | rfl | rfl | rfl <;> rfl

/-- A part of a program holds code once a statement has been added where there is none. -/
theorem exists_isStatement_orPass (code : Code) :
    ∃ line ∈ code.orPass.toList, line.isStatement = true := by
  by_cases hcode : code.toList.any Line.isStatement = true
  · rw [Code.orPass, if_pos hcode]
    exact List.any_eq_true.mp hcode
  · rw [Code.orPass, if_neg hcode, Forest.toList_append, Code.toList_ofLines]
    exact ⟨.pass, List.mem_append_right _ List.mem_cons_self, Line.isStatement_of_isPlain rfl⟩

/-- The method that executes the blocks holds code, whatever their code is. -/
theorem exists_isStatement_solveMethod (form : ProgramForm) (execution : Code) :
    ∃ body, solveMethod form execution = Code.block (.methodDef form.executing) body ∧
      (∃ line ∈ body.toList, line.isStatement = true) ∧ (execution.Laid → body.Laid) := by
  cases form with
  | component =>
    refine ⟨_, rfl, exists_isStatement_orPass execution, fun h => ?_⟩
    unfold Code.orPass
    split
    · exact h
    · exact h.append (Code.laid_ofLines (Line.inner_of_all rfl))
  | execution =>
    refine ⟨_, rfl, ⟨.terminateSelf, ?_, Line.isStatement_of_isPlain rfl⟩, fun h =>
      h.append (Code.laid_ofLines (Line.inner_of_all rfl))⟩
    rw [Forest.toList_append, Code.toList_ofLines]
    exact List.mem_append_right _ (by simp)

-- ---------------------------------------------------------------------------
-- The execution
-- ---------------------------------------------------------------------------

/-- The identifiers of blocks make lines that start with them code. -/
def Spelt (w : Workflow μ) : Prop :=
  ∀ block ∈ w.blocks, Text.begins block.identifier = true

/-- No block holds lines that a user wrote. -/
def NoVerbatim (w : Workflow μ) : Prop :=
  ∀ block ∈ w.blocks, ∀ lines, block.kind ≠ .code lines

theorem isInner_executionLines {block : Block} (hkind : ∀ lines, block.kind ≠ .code lines)
    {scope : CodeScope} {line : Line} (h : line ∈ w.executionLines block scope) :
    line.isInner = true := by
  cases executesBlock_of_mem h with
  | blank | comment | input | solve | named => rfl
  | verbatim hcode => exact absurd hcode (hkind _)

/-- A line that starts with the identifier of a loop and opens nothing. -/
theorem inner_of_loop {loop : String} (h : Text.begins loop = true) {line : Line}
    (hstart : line.start = loop) (hopens : line.opens = false) : line.Inner :=
  ⟨Line.flush_of_begins (hstart ▸ h), hopens⟩

theorem laid_loopCode {block : Block} (h : Text.begins block.identifier = true) (time : TimeExpr)
    (sources : List StepSource) {children : Code} (hchildren : children.Laid) :
    (w.loopCode options block time sources children).Laid := by
  have hloop : ∀ line : Line, line.start = block.identifier → line.opens = false → line.Inner :=
    fun _ => inner_of_loop h
  rw [loopCode]
  refine .append (Code.laid_ofLines fun line hline => ?_) (Code.laid_block rfl ?_ ?_)
  · rw [codeHeader, List.cons_append, List.cons_append, List.nil_append] at hline
    simp only [List.mem_cons, List.not_mem_nil, or_false] at hline
    rcases hline with rfl | rfl | rfl | rfl | rfl | rfl | rfl
    · exact Line.inner_of_isInner rfl
    · exact Line.inner_of_isInner rfl
    all_goals exact hloop _ rfl rfl
  · refine ⟨.ifReached block.identifier options.timeTolerance, ?_,
      Line.isStatement_of_begins (Line.begins_of_opens rfl)⟩
    simp
  · refine Code.laid_concat fun part hpart => ?_
    simp only [List.mem_cons, List.not_mem_nil, or_false] at hpart
    rcases hpart with rfl | rfl | rfl | rfl
    · refine Code.laid_ofLines fun line hline => ?_
      simp only [List.mem_cons, List.not_mem_nil, or_false] at hline
      rcases hline with rfl | rfl | rfl | rfl | rfl
      · exact hloop _ rfl rfl
      · exact Line.inner_of_isInner rfl
      · exact hloop _ rfl rfl
      · exact hloop _ rfl rfl
      · exact Line.inner_of_isInner rfl
    · refine Code.laid_block_ofLines rfl List.mem_cons_self (Line.isStatement_of_begins h)
        fun line hline => ?_
      rw [List.mem_singleton.mp hline]
      exact hloop _ rfl rfl
    · refine Code.laid_ofLines fun line hline => ?_
      simp only [List.mem_cons, List.not_mem_nil, or_false] at hline
      rcases hline with rfl | rfl
      · exact Line.inner_of_isInner rfl
      · exact hloop _ rfl rfl
    · exact hchildren

theorem laid_executionCode (hspelt : w.Spelt) (hcode : w.NoVerbatim) {forest : Forest Block}
    (hsub : forest.toList ⊆ w.blocks) {scope : CodeScope} {code : Code}
    (h : w.executionCode options forest scope = .ok code) : code.Laid := by
  induction forest generalizing scope code with
  | nil =>
    cases h
    trivial
  | node block below after ihBelow ihAfter =>
    rw [Forest.toList_node, List.cons_subset, List.append_subset] at hsub
    obtain ⟨hblock, hbelow, hafter⟩ := hsub
    obtain ⟨own, rest, hown, hrest, rfl⟩ := executionCode_node h
    refine .append ?_ (ihAfter hafter hrest)
    cases hown with
    | sequence _ hchildren => exact ihBelow hbelow hchildren
    | loop _ _ hchildren =>
      exact laid_loopCode (hspelt block hblock) _ _ (ihBelow hbelow hchildren)
    | leaf =>
      exact Code.laid_ofLines fun line hline =>
        Line.inner_of_isInner (isInner_executionLines (hcode block hblock) hline)

-- ---------------------------------------------------------------------------
-- Programs
-- ---------------------------------------------------------------------------

/-- Every class is imported by a statement of the form that loaded classes have. -/
def Imported (w : Workflow μ) : Prop :=
  ∀ modelClass ∈ w.registry.classes, ∃ module name : String,
    modelClass.importStatement = "from " ++ module ++ " import " ++ name

theorem inner_importLines (h : w.Imported) :
    ∀ line ∈ w.importLines options ++ [.blank, .blank], line.Inner := by
  intro line hline
  cases precedes_of_mem hline with
  | runtime => exact Line.inner_of_isInner rfl
  | @model _ modelClass _ hfind =>
    obtain ⟨module, imported, hstatement⟩ := h modelClass (List.mem_of_find?_eq_some hfind)
    have hprefix : "from ".toList <+: (Line.importClass modelClass.importStatement).start.toList := by
      rw [Line.start, hstatement, String.append_assoc, String.append_assoc, String.toList_append]
      exact List.prefix_append _ _
    exact ⟨Line.flush_of_begins (Text.begins_of_prefix hprefix (by decide)), rfl⟩
  | blank => exact Line.inner_of_isInner rfl

theorem laid_mainPart (options : ProgramOptions) (form : ProgramForm) :
    (mainPart options form).Laid := by
  cases form with
  | component => trivial
  | execution =>
    exact .append (Code.laid_ofLines (Line.inner_of_all rfl)) (Code.laid_block_ofLines rfl
      List.mem_cons_self (Line.isStatement_of_isPlain rfl) (Line.inner_of_all rfl))

theorem laid_spaced {parts : List Code} (h : ∀ part ∈ parts, part.Laid) : (spaced parts).Laid := by
  refine Code.laid_concat fun part hpart => ?_
  obtain ⟨own, hown, rfl⟩ := List.mem_map.mp hpart
  exact .append (Code.laid_ofLines (Line.inner_of_all rfl)) (h own hown)

theorem laid_accessMethods (w : Workflow μ) (form : ProgramForm) :
    ∀ part ∈ w.accessMethods form, part.Laid := by
  intro part hpart
  cases form with
  | execution => cases hpart
  | component =>
    simp only [accessMethods, List.mem_cons, List.not_mem_nil, or_false] at hpart
    rcases hpart with rfl | rfl | rfl
    · exact laid_criticalMethod w
    · exact laid_setMethod w
    · exact laid_getMethod w

/-- **Programs are laid out** as their lines ask for, if no line is code by a user. -/
theorem laid_programCode (hspelt : w.Spelt) (hcode : w.NoVerbatim) (himported : w.Imported)
    (hlegible : options.Legible) {program : Code} (h : w.programCode options form = .ok program) :
    program.Laid := by
  obtain ⟨setUp, execution, hsetUp, hexecution, rfl⟩ := programCode_eq_ok h
  obtain ⟨body, hsolve, hstatement, hbody⟩ := exists_isStatement_solveMethod form execution
  have hinit : (Code.block (.methodDef .init)
      ((Code.ofLines (w.openingLines options form)).append setUp)).Laid := by
    refine Code.laid_block rfl ⟨_, ?_, hlegible.initBase.1⟩
      (.append (Code.laid_ofLines fun line hline => ?_) (laid_setUpCode hsetUp))
    · rw [Forest.toList_append, Code.toList_ofLines]
      exact List.mem_append_left _ List.mem_cons_self
    · rcases mem_openingLines hline with rfl | hinner
      · exact hlegible.initBase.2
      · exact Line.inner_of_isInner hinner
  have hmethods : (spaced (w.accessMethods form ++
      [w.terminateMethod, solveMethod form execution])).Laid := by
    refine laid_spaced fun part hpart => ?_
    rw [List.mem_append] at hpart
    rcases hpart with hpart | hpart
    · exact laid_accessMethods w form part hpart
    · simp only [List.mem_cons, List.not_mem_nil, or_false] at hpart
      rcases hpart with rfl | rfl
      · exact laid_terminateMethod w
      · rw [hsolve]
        exact Code.laid_block rfl hstatement
          (hbody (laid_executionCode hspelt hcode (List.Subset.refl _) hexecution))
  refine Code.laid_concat fun part hpart => ?_
  simp only [List.mem_cons, List.not_mem_nil, or_false] at hpart
  rcases hpart with rfl | rfl | rfl
  · exact Code.laid_ofLines (inner_importLines himported)
  · refine Code.laid_block rfl ⟨.methodDef .init, ?_,
      Line.isStatement_of_begins (Line.begins_of_opens rfl)⟩ (hinit.append hmethods)
    rw [Forest.toList_append, Code.toList_block]
    exact List.mem_append_left _ List.mem_cons_self
  · exact laid_mainPart options form

-- ---------------------------------------------------------------------------
-- What is generated
-- ---------------------------------------------------------------------------

theorem NoVerbatim.of_unnamed {v : Workflow μ} (h : w.NoVerbatim) (hsame : v.unnamed = w.unnamed) :
    v.NoVerbatim := by
  intro block hb lines hkind
  have hmem : block.unnamed ∈ w.blocks.map Block.unnamed :=
    map_unnamed_of_unnamed hsame ▸ List.mem_map_of_mem hb
  obtain ⟨other, ho, hunnamed⟩ := List.mem_map.mp hmem
  exact h other ho lines ((Block.kind_of_unnamed hunnamed).trans hkind)

/-- An identifier makes what it starts code. -/
theorem begins_of_isWord {name : String} (h : Identifier.IsWord name) :
    Text.begins name = true := by
  obtain ⟨c, cs, hname, hc, -⟩ := h
  -- letters and the underscore lie in ranges without blanks, and `#` stands before them
  have hcode : 65 ≤ c.toNat ∧ c.toNat ≤ 122 := by
    rcases hc with hc | rfl
    · have hletter := Identifier.toNat_of_isAlpha hc
      omega
    · decide
  refine Text.begins_eq_true.mpr ⟨c, cs, hname, ?_, ?_⟩
  · simp [Text.isBlank, Text.blankRanges]
    omega
  · rintro rfl
    exact absurd hcode.1 (by decide)

/-- After a naming pass, the identifiers of blocks are words. -/
theorem Reachable.spelt_assignNames (h : w.Reachable) : w.assignNames.Spelt := by
  intro block hb
  obtain ⟨name, hname⟩ := Option.isSome_iff_exists.mp (w.named_assignNames.1 block hb)
  have hheld : name ∈ w.assignNames.codeNames :=
    List.mem_append_left _ (List.mem_filterMap.mpr ⟨block, hb, hname⟩)
  rw [Block.identifier, hname, Option.getD_some]
  exact begins_of_isWord (h.named.namedApart.usable name hheld).word

/-- **What is generated is well indented**, in both forms and for all workflows that there are. If no block
holds lines of a user, classes are imported as loaded ones are, and the name of the runtime module leaves
the statement it starts where it is, then each line of code stands where the one before it asks for. And
whatever the users wrote, the method that executes the blocks holds a line of code. -/
theorem Reachable.wellIndented_generate (h : w.Reachable) {lines : List String}
    (hlines : (w.generate options form).1 = .ok lines) :
    ∃ program, w.assignNames.programCode options form = .ok program ∧ lines = program.lines ∧
      (w.NoVerbatim → w.Imported → options.Legible → program.WellIndented) ∧
      ∃ body depth, program.methodBody? form.executing = some body ∧
        (Code.block (.methodDef form.executing) body).linesAt depth <:+: lines ∧
        ∃ text ∈ body.linesAt (depth + 1), Text.isCode text = true := by
  obtain ⟨program, hprogram, rfl⟩ := generate_eq_ok hlines
  refine ⟨program, hprogram, rfl, fun hverbatim himported hlegible => ?_, ?_⟩
  · exact (laid_programCode h.spelt_assignNames
      (hverbatim.of_unnamed w.unnamed_assignNames) himported hlegible hprogram).wellIndented
  · obtain ⟨execution, hexecution, hmethods⟩ :=
      @methodBody?_of_ne_init _ _ _ _ form.executing _ hprogram (by cases form <;> decide)
    obtain ⟨body, hsolve, hstatement, -⟩ := exists_isStatement_solveMethod form execution
    have hbody : program.methodBody? form.executing = some body := by
      refine hmethods _ ?_
      rw [← List.singleton_append, ← List.append_assoc]
      refine methodBody?_spaced (w.assignNames.lacks_others form) ?_ []
      rw [hsolve, Code.methodBody?_block, if_pos (by simp [Line.defines])]
    obtain ⟨depth, hinfix⟩ :=
      Code.infix_lines_of_mem_subtrees (Code.mem_subtrees_of_methodBody? hbody) 0
    exact ⟨body, depth, hbody, hinfix, Code.exists_isCode_linesAt hstatement (depth + 1)⟩

/-- A pipe in a time loop, in a class of which the methods that take values in and give them out have
nothing to do. -/
theorem wellIndented_generate_of_pipe :
    ∃ (w : Workflow Unit) (lines : List String) (program body : Code) (depth : Nat),
      w.Reachable ∧ (w.generate {} .component).1 = .ok lines ∧ w.NoVerbatim ∧ w.Imported ∧
      ProgramOptions.Legible {} ∧ program.WellIndented ∧
      program.methodBody? .solveStep = some body ∧
      (Code.block (.methodDef .solveStep) body).linesAt depth <:+: lines ∧
      ∃ text ∈ body.linesAt (depth + 1), Text.isCode text = true := by
  have hloop := @Reachable.edited Unit _ _ (.addBlock rootId .timeLoop none) _
    (.new "uid-" "Plan" pipes) rfl
  have hpipe := @Reachable.edited Unit _ _ (.addModel ⟨1⟩ ⟨"Pipe", none, none⟩ none) _ hloop rfl
  obtain ⟨w, hreachable, hkinds, hclasses, lines, hlines⟩ :
      ∃ w : Workflow Unit, w.Reachable ∧
        w.blocks.map Block.kind = [.workflow, .timeLoop, .model ⟨"Pipe", none, none⟩] ∧
        w.registry.classes = pipes.classes ∧
        ∃ lines, (w.generate {} .component).1 = .ok lines :=
    ⟨_, hpipe, rfl, rfl, _, rfl⟩
  have hverbatim : w.NoVerbatim := by
    intro block hb lines hkind
    have hmem := hkinds ▸ List.mem_map_of_mem hb (f := Block.kind)
    rw [hkind] at hmem
    simp at hmem
  have himported : w.Imported := by
    intro modelClass hmem
    rw [hclasses] at hmem
    exact ⟨"pipes", "Pipe", List.mem_singleton.mp hmem ▸ rfl⟩
  have hlegible : ProgramOptions.Legible {} := ⟨by decide, by decide⟩
  obtain ⟨program, -, -, hindented, body, depth, hbody, hinfix, hcode⟩ :=
    hreachable.wellIndented_generate hlines
  exact ⟨w, lines, program, body, depth, hreachable, hlines, hverbatim, himported, hlegible,
    hindented hverbatim himported hlegible, hbody, hinfix, hcode⟩

/-- A runtime module whose name makes a comment of the statement that it starts: what stands after the
line that opens the first method is no code of that method. -/
theorem not_wellIndented_of_comment :
    let w := Workflow.new "uid-" "Plan" (.empty : Registry Unit)
    let options : ProgramOptions := { runtimeModule := "#mupif" }
    ∃ (lines : List String) (program : Code), w.Reachable ∧ w.NoVerbatim ∧ w.Imported ∧
      (w.generate options .execution).1 = .ok lines ∧
      w.assignNames.programCode options .execution = .ok program ∧ lines = program.lines ∧
      (∀ line ∈ lines, '\n' ∉ line.toList) ∧
      (true, "\tdef __init__(self):") ∈ program.codeLines ∧ ¬program.WellIndented := by
  intro w options
  obtain ⟨lines, hlines⟩ : ∃ lines, (w.generate options .execution).1 = .ok lines := by
    unfold w options
    exact ⟨_, rfl⟩
  have hverbatim : w.NoVerbatim := by
    intro block hb lines hkind
    rw [List.mem_singleton.mp hb] at hkind
    cases hkind
  obtain ⟨program, hprogram, rfl⟩ := generate_eq_ok hlines
  refine ⟨_, program, .new _ _ _, hverbatim, fun _ => nofun, hlines, hprogram, rfl, ?_⟩
  cases hprogram
  refine ⟨?_, ?_, fun h => ?_⟩
  · decide +kernel
  · decide +kernel
  · exact absurd h.steps (by decide +kernel)

end Workflow

end SlotFlow
