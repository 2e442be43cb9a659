import SlotFlow.Proofs.Program.Parts
import SlotFlow.Proofs.Program.Variables
import SlotFlow.Proofs.Text.Breaks
/-!
# Lines that hold line breaks

What users call things is quoted where a program shows it, or made into an identifier; quoted texts and
identifiers hold no line breaks. The names of blocks are shown in comments, where they are not quoted. So
a line break in the name of a block ends the comment, and what follows it is a line of its own.

* `Line.pieces` — the texts that a line writes as they are;
* `Workflow.CodeUnbroken` — the texts that are meant as code hold no line breaks;
* `Workflow.hasCode` — whether a program has code for a block.

## Results

* `Line.unbroken_text` — a line holds no line break if its pieces hold none;
* `Workflow.Writable.unbroken_iff` — the lines of a program hold none exactly if the names of the blocks
  that there is code for hold none;
* `Workflow.Reachable.unbroken_generate_iff` — the same for what is generated;
* `Workflow.not_unbroken_of_name` — a program in which a name goes on as code.
-/

namespace SlotFlow

open Text (Unbroken)

-- ---------------------------------------------------------------------------
-- Lines
-- ---------------------------------------------------------------------------

/-- The texts that an expression writes as they are. -/
def Expr.pieces : Expr → List String
  | .none => []
  | .quantity _ name objectType time _ => name :: (objectType.toList ++ time.variables)
  | .member _ name => [name]

/-- The texts that a limit of time steps writes as they are. -/
def StepSource.pieces : StepSource → List String
  | .value expr => expr.pieces
  | .critical _ member => [member]

/-- The texts that are written as they are for what a member is set to. -/
def MemberValue.pieces : MemberValue → List String
  | .newModel setup => [setup.className]
  | .constant runtime (.property _ propertyId valueType _) => [runtime, propertyId, valueType]
  | .constant runtime (.quantity ..) => [runtime]
  | .expr value => value.pieces
  | _ => []

/-- The texts that a line writes as they are. What it quotes is left out. -/
def Line.pieces : Line → List String
  | .classDef name runtime => [name, runtime]
  | .comment text | .verbatim text | .importClass text => [text]
  | .importModule name | .initBase name | .makeProblem name => [name]
  | .assign member value => member :: value.pieces
  | .returnValue _ value => value.pieces
  | .returnCritical models => models.map Prod.snd
  | .setInput _ member _ value _ => member :: value.pieces
  | .solveModel _ member held => member :: held.toList
  | .terminateModel _ member => [member]
  | .whileComputing loop | .ifReached loop _ | .setUnits loop _ | .setCompute loop _
  | .resetNumber loop | .countStep loop | .advanceTime loop => [loop]
  | .setStart loop value | .setTarget loop value => loop :: value.pieces
  | .setLength loop sources => loop :: sources.flatMap StepSource.pieces
  | .makeStep loop runtime => [loop, runtime]
  | _ => []

/-- The words that lines are written with hold no line break. -/
@[simp] theorem unbroken_words :
    Unbroken "None" ∧ Unbroken "True" ∧ Unbroken "False" ∧ Unbroken ".getTime()" ∧
    Unbroken "self." ∧ Unbroken ".get(" ∧ Unbroken ", " ∧ Unbroken ")" ∧ Unbroken "(" ∧
    Unbroken "()" ∧ Unbroken "[" ∧ Unbroken "]" ∧ Unbroken ".getCriticalTimeStep()" ∧
    Unbroken "file=" ∧ Unbroken "workdir=" ∧ Unbroken ".Property.ConstantProperty(" ∧
    Unbroken ", None, 0)" ∧ Unbroken ".Physics.PhysicalQuantities.PhysicalQuantity(" ∧
    Unbroken "obj" ∧ Unbroken "_time" ∧ Unbroken "_target_time" ∧ Unbroken "_time_units" ∧
    Unbroken "_compute" ∧ Unbroken "_time_step_number" ∧ Unbroken "_dt" ∧ Unbroken "_time_step" ∧
    Unbroken "__init__(self)" ∧ Unbroken "getCriticalTimeStep(self)" ∧
    Unbroken "set(self, obj, objectID=0)" ∧
    Unbroken "get(self, objectType, time=None, objectID=0)" ∧ Unbroken "terminate(self)" ∧
    Unbroken "solveStep(self, tstep, stageID=0, runInBackground=False)" ∧
    Unbroken "solve(self, runInBackground=False)" ∧ Unbroken "\x7b'name': " ∧
    Unbroken ", 'type': " ∧ Unbroken "'optional': " ∧ Unbroken ", 'description': '', " ∧
    Unbroken "'obj_type': " ∧ Unbroken ", 'obj_id': " ∧ Unbroken "\x7d" ∧
    Unbroken "self.metadata.update(\x7b'" ∧ Unbroken "': " ∧ Unbroken "\x7d)" ∧ Unbroken "name" ∧
    Unbroken "inputs" ∧ Unbroken "outputs" ∧ Unbroken "class " ∧ Unbroken ".Workflow.Workflow):" ∧
    Unbroken "def " ∧ Unbroken ":" ∧ Unbroken "while " ∧ Unbroken "if " ∧ Unbroken ".inUnitsOf(" ∧
    Unbroken ").getValue() + " ∧ Unbroken " > " ∧ Unbroken ").getValue():" ∧
    Unbroken "if objectID == " ∧ Unbroken "if __name__ == '__main__':" ∧ Unbroken "" ∧
    Unbroken "# " ∧ Unbroken "pass" ∧ Unbroken "import " ∧
    Unbroken ".Workflow.Workflow.__init__(self)" ∧ Unbroken " = " ∧ Unbroken "return " ∧
    Unbroken "return None" ∧ Unbroken "return min([" ∧ Unbroken "])" ∧ Unbroken ".set(" ∧
    Unbroken ".solveStep(" ∧ Unbroken ".terminate()" ∧ Unbroken "self.terminate()" ∧
    Unbroken " = 0" ∧ Unbroken " += 1" ∧ Unbroken " = min([" ∧ Unbroken " = min(" ∧ Unbroken "+" ∧
    Unbroken ".TimeStep.TimeStep(" ∧ Unbroken ", n=" ∧ Unbroken "problem = " ∧
    Unbroken "problem.solve()" ∧ Unbroken "problem.terminate()" ∧
    Unbroken "print('Simulation has finished.')" := by
  and_intros <;> exact Text.unbroken_of_any (by decide)

@[simp] theorem unbroken_doubleLiteral (x : Float) : Unbroken (doubleLiteral x) := by
  unfold doubleLiteral
  split
  · decide
  · split <;> decide
  · exact NumberFormat.unbroken_render (by decide) (by decide) (by decide) x

@[simp] theorem unbroken_doublesLiteral (xs : List Float) : Unbroken (doublesLiteral xs) := by
  have hcomma : Unbroken ",)" := by decide
  unfold doublesLiteral
  split <;> simp [hcomma]

@[simp] theorem unbroken_truthText (b : Bool) : Unbroken (truthText b) := by
  cases b <;> simp [truthText]

@[simp] theorem TimeExpr.unbroken_text {time : TimeExpr} :
    Unbroken time.text ↔ ∀ piece ∈ time.variables, Unbroken piece := by
  cases time <;> simp [text, TimeExpr.variables]

@[simp] theorem Expr.unbroken_text {expr : Expr} :
    Unbroken expr.text ↔ ∀ piece ∈ expr.pieces, Unbroken piece := by
  cases expr with
  | none | member => simp [text, pieces]
  | quantity source member objectType time objectId =>
    cases objectType <;> dsimp only [text, pieces, toString, id] <;> simp [and_assoc]

@[simp] theorem unbroken_criticalText {member : String} :
    Unbroken (criticalText member) ↔ Unbroken member := by
  simp [criticalText]

@[simp] theorem StepSource.unbroken_text {source : StepSource} :
    Unbroken source.text ↔ ∀ piece ∈ source.pieces, Unbroken piece := by
  cases source <;> simp [text, pieces]

@[simp] theorem MemberValue.unbroken_text {value : MemberValue} :
    Unbroken value.text ↔ ∀ piece ∈ value.pieces, Unbroken piece := by
  cases value with
  | newModel setup =>
    obtain ⟨className, file, directory⟩ := setup
    cases file <;> cases directory <;> simp [text, pieces]
  | constant runtime literal =>
    cases literal <;> dsimp only [text, pieces, toString, id] <;> simp [and_assoc]
  | _ => simp [text, pieces]

@[simp] theorem SlotDescription.unbroken_text (description : SlotDescription) :
    Unbroken description.text := by
  have htype : Unbroken ((description.objectType.map Text.quote).getD "None") := by
    cases description.objectType <;> simp
  dsimp only [text, toString, id]
  simp [htype]

@[simp] theorem LoopVariable.unbroken_name {loop : String} {var : LoopVariable} :
    Unbroken (var.name loop) ↔ Unbroken loop := by
  cases var <;> simp [name]

@[simp] theorem Method.unbroken_signature (method : Method) : Unbroken method.signature := by
  cases method <;> simp [signature]

@[simp] theorem unbroken_metadataText {key value : String} :
    Unbroken (metadataText key value) ↔ Unbroken key ∧ Unbroken value := by
  dsimp only [metadataText, toString, id]
  simp

/-- **A line holds no line break if the texts that it writes as they are hold none.** -/
theorem Line.unbroken_text {line : Line} :
    Unbroken line.text ↔ ∀ piece ∈ line.pieces, Unbroken piece := by
  have hmembers : ∀ {models : List (BlockId × String)},
      (∀ text ∈ models.map fun model => criticalText model.2, Unbroken text) ↔
        ∀ member ∈ models.map Prod.snd, Unbroken member := by
    intro models
    rw [List.forall_mem_map, List.forall_mem_map]
    exact forall₂_congr fun _ _ => unbroken_criticalText
  have hlimits : ∀ {sources : List StepSource},
      (∀ text ∈ sources.map StepSource.text, Unbroken text) ↔
        ∀ piece ∈ sources.flatMap StepSource.pieces, Unbroken piece := by
    intro sources
    rw [List.forall_mem_map, List.forall_mem_flatMap]
    exact forall₂_congr fun _ _ => StepSource.unbroken_text
  cases line <;> dsimp only [text, pieces, toString, id]
  case solveModel held => cases held <;> simp
  case returnCritical =>
    rw [Text.unbroken_append, Text.unbroken_append, Text.unbroken_intercalate, hmembers]
    simp
  case setLength =>
    simp only [Text.unbroken_append, Text.unbroken_intercalate, hlimits, List.forall_mem_cons]
    simp
  case makeStep => simp +contextual
  all_goals simp

/-- What only writes words of its own holds no line break. -/
theorem Line.unbroken_of_pieces {line : Line} (h : line.pieces = []) : Unbroken line.text := by
  rw [unbroken_text, h]
  exact List.forall_mem_nil _

namespace Workflow

variable {μ : Type} {v w : Workflow μ} {options : ProgramOptions} {form : ProgramForm}
  {block : Block}

-- ---------------------------------------------------------------------------
-- Texts from elsewhere
-- ---------------------------------------------------------------------------

/-- The texts that are meant as code hold no line breaks: what users wrote as code, the names that a
property refers to, the types of objects, the classes of models with the statements that import them,
and the runtime module. -/
structure CodeUnbroken (w : Workflow μ) (options : ProgramOptions) : Prop where
  code : ∀ block ∈ w.blocks, ∀ lines, block.kind = .code lines → ∀ text ∈ lines, Unbroken text
  property : ∀ block ∈ w.blocks, ∀ values propertyId valueType units,
    block.kind = .constant (.property values propertyId valueType units) →
      Unbroken propertyId ∧ Unbroken valueType
  objectType : ∀ slot ∈ w.slots, ∀ type, slot.objectType = some type → Unbroken type
  modelClass : ∀ block ∈ w.blocks, ∀ setup, block.kind = .model setup → Unbroken setup.className
  imports : ∀ modelClass ∈ w.registry.classes, Unbroken modelClass.importStatement
  runtime : Unbroken options.runtimeModule

/-- Besides the texts that are meant as code, all identifiers hold no line breaks. -/
structure Writable (w : Workflow μ) (options : ProgramOptions) : Prop extends
    w.CodeUnbroken options where
  className : Unbroken options.className
  blocks : ∀ block ∈ w.blocks, Unbroken block.identifier
  slots : ∀ slot ∈ w.slots, slot.external = true → Unbroken slot.identifier

/-- Whether a program has code for a block: models, lines of a user and time loops have code, and so have
a constant and a named value that are linked. -/
def hasCode (w : Workflow μ) (block : Block) : Bool :=
  match block.kind with
  | .model _ | .code _ | .timeLoop => true
  | .constant _ | .named .. => w.isNamedLinked block BlockKind.valueSlot
  | _ => false

/-- The comment before the code of a block shows its name. -/
theorem unbroken_codeHeader {what : String} (hwhat : Unbroken what)
    (hidentifier : Unbroken block.identifier) :
    (∀ line ∈ codeHeader what block, Unbroken line.text) ↔ Unbroken block.name := by
  have hwords : Unbroken " code of " ∧ Unbroken " (" := by
    and_intros <;> exact Text.unbroken_of_any (by decide)
  simp [codeHeader, Line.unbroken_text, Line.pieces, toString, hwhat, hidentifier, hwords]

namespace Writable

variable (h : w.Writable options)

include h

-- ---------------------------------------------------------------------------
-- Expressions
-- ---------------------------------------------------------------------------

theorem unbroken_scope {scope : CodeScope} (hscope : w.HasScope form scope) :
    ∀ name ∈ scope.variables, Unbroken name := by
  cases hscope with
  | outer => cases form <;> decide
  | @inner loop hb =>
    simp [CodeScope.variables, loopScope, TimeExpr.variables, h.blocks loop hb]

variable {time : TimeExpr} (htime : ∀ name ∈ time.variables, Unbroken name)

include htime

theorem pieces_provideSlot (id : SlotId) :
    ∀ piece ∈ (w.provideSlot id time).pieces, Unbroken piece := by
  unfold provideSlot
  split
  · nofun
  · rename_i owned howned
    obtain ⟨howner, hslot, -⟩ := mem_of_ownedSlot? howned
    have hin : owned.slot ∈ w.slots := mem_slots.mpr ⟨owned.owner, howner, hslot⟩
    split
    · intro piece hpiece
      rw [Expr.pieces, List.mem_cons, List.mem_append, Option.mem_toList] at hpiece
      rcases hpiece with rfl | htype | hvariable
      · exact h.blocks _ howner
      · exact h.objectType _ hin piece htype
      · exact htime piece hvariable
    · intro piece hpiece
      rw [List.mem_singleton.mp hpiece]
      exact h.blocks _ howner
    · split
      · rename_i hext
        intro piece hpiece
        rw [List.mem_singleton.mp hpiece]
        exact h.slots _ hin hext
      · nofun
    · nofun

theorem pieces_readSlot (id : SlotId) : ∀ piece ∈ (w.readSlot id time).pieces, Unbroken piece := by
  unfold readSlot
  split
  · exact h.pieces_provideSlot htime _
  · nofun

theorem pieces_readNamed (block : Block) (name : String) :
    ∀ piece ∈ (w.readNamed block name time).pieces, Unbroken piece := by
  unfold readNamed
  split
  · exact h.pieces_readSlot htime _
  · nofun

theorem pieces_stepSources (block : Block) {models : List Block} (hmodels : models ⊆ w.blocks) :
    ∀ piece ∈ (w.stepSources block models time).flatMap StepSource.pieces, Unbroken piece := by
  intro piece hpiece
  obtain ⟨source, hsource, hpiece⟩ := List.mem_flatMap.mp hpiece
  rw [stepSources, List.mem_append] at hsource
  rcases hsource with hsource | hsource
  · split at hsource
    · rw [List.mem_singleton.mp hsource] at hpiece
      exact h.pieces_readNamed htime _ _ piece hpiece
    · cases hsource
  · obtain ⟨model, hmodel, rfl⟩ := List.mem_map.mp hsource
    rw [List.mem_singleton.mp hpiece]
    exact h.blocks model (hmodels hmodel)

omit htime

-- ---------------------------------------------------------------------------
-- Code of blocks
-- ---------------------------------------------------------------------------

theorem unbroken_setUpLines (hb : block ∈ w.blocks)
    (hname : w.hasCode block = true → Unbroken block.name) :
    ∀ line ∈ w.setUpLines options block, Unbroken line.text := by
  have hlines : ∀ value : MemberValue, Unbroken block.name → (∀ piece ∈ value.pieces, Unbroken piece) →
      ∀ line ∈ codeHeader "initialization" block ++ [Line.assign block.identifier value],
        Unbroken line.text := by
    intro value hheader hvalue line hline
    rcases List.mem_append.mp hline with hline | hline
    · exact (unbroken_codeHeader (by decide) (h.blocks block hb)).mpr hheader line hline
    · rw [List.mem_singleton.mp hline, Line.unbroken_text, Line.pieces, List.forall_mem_cons]
      exact ⟨h.blocks block hb, hvalue⟩
  unfold setUpLines
  cases hkind : block.kind with
  | model setup =>
    refine hlines _ (hname (by rw [hasCode, hkind])) ?_
    rw [MemberValue.pieces, List.forall_mem_singleton]
    exact h.modelClass block hb setup hkind
  | constant literal =>
    dsimp only
    split
    · rename_i hlinked
      refine hlines _ (hname (by rw [hasCode, hkind]; exact hlinked)) ?_
      cases literal with
      | property values propertyId valueType units =>
        obtain ⟨hproperty, htype⟩ := h.property block hb _ _ _ _ hkind
        simp [MemberValue.pieces, h.runtime, hproperty, htype]
      | quantity => simp [MemberValue.pieces, h.runtime]
      | number => exact List.forall_mem_nil _
    · exact List.forall_mem_nil _
  | named name type =>
    dsimp only
    split
    · rename_i hlinked
      exact hlines _ (hname (by rw [hasCode, hkind]; exact hlinked)) (List.forall_mem_nil _)
    · exact List.forall_mem_nil _
  | _ => exact List.forall_mem_nil _

theorem unbroken_executionLines (hb : block ∈ w.blocks)
    (hname : w.hasCode block = true → Unbroken block.name) {scope : CodeScope}
    (hscope : w.HasScope form scope) :
    ∀ line ∈ w.executionLines block scope, Unbroken line.text := by
  have hknown := h.unbroken_scope hscope
  rw [CodeScope.variables, List.forall_mem_append] at hknown
  obtain ⟨htime, hstep⟩ := hknown
  have hheader : w.hasCode block = true →
      ∀ line ∈ codeHeader "execution" block, Unbroken line.text := fun hcode =>
    (unbroken_codeHeader (by decide) (h.blocks block hb)).mpr (hname hcode)
  unfold executionLines
  cases hkind : block.kind with
  | model setup =>
    rw [modelLines]
    intro line hline
    rw [List.mem_append, List.mem_append, List.mem_filterMap, List.mem_singleton] at hline
    rcases hline with (hline | ⟨slot, -, hline⟩) | rfl
    · exact hheader (by rw [hasCode, hkind]) line hline
    · unfold inputLine? at hline
      split at hline
      · obtain ⟨source, -, rfl⟩ := Option.map_eq_some_iff.mp hline
        rw [Line.unbroken_text, Line.pieces, List.forall_mem_cons]
        exact ⟨h.blocks block hb, h.pieces_provideSlot htime source⟩
      · cases hline
    · rw [Line.unbroken_text, Line.pieces, List.forall_mem_cons]
      exact ⟨h.blocks block hb, hstep⟩
  | named name type =>
    dsimp only
    split
    · rename_i hlinked
      rw [List.forall_mem_append, List.forall_mem_singleton, Line.unbroken_text, Line.pieces,
        List.forall_mem_cons]
      exact ⟨hheader (by rw [hasCode, hkind]; exact hlinked), h.blocks block hb,
        h.pieces_readNamed htime block _⟩
    · exact List.forall_mem_nil _
  | code lines =>
    rw [List.forall_mem_append, List.forall_mem_map]
    exact ⟨hheader (by rw [hasCode, hkind]), h.code block hb lines hkind⟩
  | _ => exact List.forall_mem_nil _

theorem unbroken_loopCode (hb : block ∈ w.blocks) (hname : Unbroken block.name) {scope : CodeScope}
    (hscope : w.HasScope form scope) {models : List Block} (hmodels : models ⊆ w.blocks) :
    ∀ line ∈ (w.loopCode options block scope.time (w.stepSources block models scope.time)
      .nil).toList, Unbroken line.text := by
  have hknown := h.unbroken_scope hscope
  rw [CodeScope.variables, List.forall_mem_append] at hknown
  obtain ⟨htime, -⟩ := hknown
  have hidentifier := h.blocks block hb
  have hstart := h.pieces_readNamed htime block BlockKind.startTimeSlot
  have htarget := h.pieces_readNamed htime block BlockKind.targetTimeSlot
  have hsources := h.pieces_stepSources htime block hmodels
  rw [toList_loopCode_nil, List.forall_mem_append]
  refine ⟨(unbroken_codeHeader (by decide) hidentifier).mpr hname, ?_⟩
  simp only [Line.unbroken_text, List.forall_mem_cons, Line.pieces, List.not_mem_nil, false_implies,
    implies_true, and_true, true_and]
  exact ⟨hidentifier, ⟨hidentifier, hstart⟩, ⟨hidentifier, htarget⟩, hidentifier, hidentifier,
    hidentifier, hidentifier, ⟨hidentifier, hsources⟩, hidentifier, hidentifier, hidentifier,
    hidentifier, h.runtime⟩

-- ---------------------------------------------------------------------------
-- Parts of a program
-- ---------------------------------------------------------------------------

theorem unbroken_importLines : ∀ line ∈ w.importLines options, Unbroken line.text := by
  intro line hline
  cases precedes_of_mem (List.mem_append_left [.blank, .blank] hline) with
  | runtime => exact Line.unbroken_text.mpr (List.forall_mem_singleton.mpr h.runtime)
  | @model _ modelClass _ hfind => exact h.imports modelClass (List.mem_of_find?_eq_some hfind)
  | blank => exact Line.unbroken_of_pieces rfl

theorem unbroken_openingLines : ∀ line ∈ w.openingLines options form, Unbroken line.text := by
  have hinput : ∀ line ∈ w.inputSetUpLines, Unbroken line.text := by
    rw [inputSetUpLines, List.forall_mem_flatMap]
    intro slot hs
    obtain ⟨hin, hext, -⟩ := mem_inputSlots.mp hs
    split
    · exact List.forall_mem_nil _
    · rename_i name hname
      have hidentifier : Unbroken name := by
        have hslot := h.slots slot hin hext
        rwa [Slot.identifier, hname] at hslot
      have hcomments : Unbroken "initialization code of external input" ∧
          Unbroken "It should be defined from outside using set() method." := by
        and_intros <;> exact Text.unbroken_of_any (by decide)
      simp [Line.unbroken_text, Line.pieces, MemberValue.pieces, hidentifier, hcomments]
  have hbase : Unbroken (Line.initBase options.runtimeModule).text :=
    Line.unbroken_text.mpr (List.forall_mem_singleton.mpr h.runtime)
  cases form with
  | component =>
    rw [openingLines, List.forall_mem_cons, List.forall_mem_append]
    refine ⟨hbase, ?_, hinput⟩
    simp [metadataLines, Line.unbroken_text, Line.pieces]
  | execution => exact List.forall_mem_singleton.mpr hbase

omit h in
theorem unbroken_choices {slots : List Slot} {answer : Slot → Line}
    (hanswer : ∀ slot ∈ slots, Unbroken (answer slot).text) :
    ∀ line ∈ (choices slots answer).toList, Unbroken line.text := by
  rw [choices, Code.toList_concat, List.forall_mem_flatMap]
  intro part hpart
  obtain ⟨group, hgroup, rfl⟩ := List.mem_map.mp hpart
  have hsub : ∀ slot ∈ group.2, slot ∈ slots := by
    intro slot hs
    rw [groupByType, List.mem_filter, List.mem_map] at hgroup
    obtain ⟨⟨type, -, rfl⟩, -⟩ := hgroup
    exact List.mem_of_mem_filter hs
  have hcase : Unbroken "in case of " := Text.unbroken_of_any (by decide)
  rw [Forest.toList_append, List.forall_mem_append, Code.toList_ofLines, Code.toList_concat,
    List.forall_mem_flatMap]
  refine ⟨by simp [Line.unbroken_text, Line.pieces, hcase, SlotType.unbroken_name], ?_⟩
  intro choice hchoice
  obtain ⟨slot, hs, rfl⟩ := List.mem_map.mp hchoice
  rw [Code.toList_block, Code.toList_ofLines, List.forall_mem_cons, List.forall_mem_singleton]
  exact ⟨Line.unbroken_of_pieces rfl, hanswer slot (hsub slot hs)⟩

theorem unbroken_criticalMethod : ∀ line ∈ w.criticalMethod.toList, Unbroken line.text := by
  rw [criticalMethod, Code.toList_block, Code.toList_ofLines, List.forall_mem_cons]
  refine ⟨Line.unbroken_of_pieces rfl, ?_⟩
  split
  · exact List.forall_mem_singleton.mpr (Line.unbroken_of_pieces rfl)
  · rw [List.forall_mem_singleton, Line.unbroken_text, Line.pieces, List.map_map,
      List.forall_mem_map]
    intro model hmodel
    have hin := w.body.roots_sublist.subset (List.mem_of_mem_filter hmodel)
    exact h.blocks model (mem_blocks_of_mem_body hin)

theorem unbroken_setMethod : ∀ line ∈ w.setMethod.toList, Unbroken line.text := by
  have hcomment : Unbroken "set method for all external inputs" := Text.unbroken_of_any (by decide)
  rw [setMethod, Forest.toList_append, Code.toList_ofLines, Code.toList_block,
    List.forall_mem_append, List.forall_mem_singleton, List.forall_mem_cons]
  refine ⟨Line.unbroken_text.mpr (List.forall_mem_singleton.mpr hcomment),
    Line.unbroken_of_pieces rfl, ?_⟩
  split
  · exact List.forall_mem_singleton.mpr (Line.unbroken_of_pieces rfl)
  · refine unbroken_choices fun slot hs => ?_
    obtain ⟨hin, hext, -⟩ := mem_inputSlots.mp hs
    exact Line.unbroken_text.mpr (List.forall_mem_singleton.mpr (h.slots slot hin hext))

theorem unbroken_getMethod : ∀ line ∈ w.getMethod.toList, Unbroken line.text := by
  have hcomment : Unbroken "get method for all external outputs" := Text.unbroken_of_any (by decide)
  rw [getMethod, Forest.toList_append, Code.toList_ofLines, Code.toList_block,
    List.forall_mem_append, List.forall_mem_singleton, List.forall_mem_cons, Forest.toList_append,
    Code.toList_ofLines, List.forall_mem_append]
  refine ⟨Line.unbroken_text.mpr (List.forall_mem_singleton.mpr hcomment),
    Line.unbroken_of_pieces rfl, ?_, by simp [Line.unbroken_text, Line.pieces]⟩
  refine unbroken_choices fun slot _ => Line.unbroken_text.mpr ?_
  exact h.pieces_readSlot (by decide) slot.id

theorem unbroken_terminateMethod : ∀ line ∈ w.terminateMethod.toList, Unbroken line.text := by
  rw [terminateMethod, Code.toList_block, Code.toList_ofLines, List.forall_mem_cons]
  refine ⟨Line.unbroken_of_pieces rfl, ?_⟩
  split
  · exact List.forall_mem_singleton.mpr (Line.unbroken_of_pieces rfl)
  · rw [List.forall_mem_map]
    intro model hmodel
    have hin : model ∈ w.blocks := mem_blocks_of_mem_body (List.mem_of_mem_filter hmodel)
    exact Line.unbroken_text.mpr (List.forall_mem_singleton.mpr (h.blocks model hin))

theorem unbroken_accessMethods {part : Code}
    (hpart : part ∈ w.accessMethods form ++ [w.terminateMethod]) :
    ∀ line ∈ part.toList, Unbroken line.text := by
  rw [List.mem_append, List.mem_singleton] at hpart
  rcases hpart with hpart | rfl
  · cases form with
    | execution => cases hpart
    | component =>
      simp only [accessMethods, List.mem_cons, List.not_mem_nil, or_false] at hpart
      rcases hpart with rfl | rfl | rfl
      · exact h.unbroken_criticalMethod
      · exact h.unbroken_setMethod
      · exact h.unbroken_getMethod
  · exact h.unbroken_terminateMethod

omit h in
theorem unbroken_closingLines : ∀ line ∈ closingLines, Unbroken line.text := by
  have hcomment : Unbroken "terminate all models" := Text.unbroken_of_any (by decide)
  simp [closingLines, Line.unbroken_text, Line.pieces, hcomment]

theorem unbroken_mainPart : ∀ line ∈ (mainPart options form).toList, Unbroken line.text := by
  cases form with
  | component => exact List.forall_mem_nil _
  | execution => simp [mainPart, Line.unbroken_text, Line.pieces, h.className]

-- ---------------------------------------------------------------------------
-- Programs
-- ---------------------------------------------------------------------------

omit h in
/-- The comment before the code of a block stands in the program, if there is code for the block. -/
theorem exists_codeHeader_subset {program : Code} (hprogram : w.programCode options form = .ok program)
    (hb : block ∈ w.tree.reached) (hcode : w.hasCode block = true) :
    ∃ what ∈ ["initialization", "execution"], codeHeader what block ⊆ program.toList := by
  have hsetUp := setUpLines_subset_programCode hprogram hb
  obtain ⟨execution, hexecution, hsub⟩ := exists_executionCode_subset hprogram
  have hexecuted := (executedIn_executionCode hexecution hb).mono hsub
  cases hkind : block.kind with
  | model setup =>
    rw [setUpLines, hkind] at hsetUp
    exact ⟨_, by simp, (List.append_subset.mp hsetUp).1⟩
  | constant literal =>
    rw [hasCode, hkind] at hcode
    rw [setUpLines, hkind] at hsetUp
    dsimp only at hsetUp
    rw [if_pos hcode] at hsetUp
    exact ⟨_, by simp, (List.append_subset.mp hsetUp).1⟩
  | named name type =>
    rw [hasCode, hkind] at hcode
    rw [setUpLines, hkind] at hsetUp
    dsimp only at hsetUp
    rw [if_pos hcode] at hsetUp
    exact ⟨_, by simp, (List.append_subset.mp hsetUp).1⟩
  | code lines =>
    cases hexecuted with
    | sequence hother => rw [hkind] at hother; rcases hother with hother | hother <;> cases hother
    | loop hother => rw [hkind] at hother; cases hother
    | leaf _ scope hin =>
      rw [executionLines, hkind] at hin
      exact ⟨_, by simp, (List.append_subset.mp hin).1⟩
  | timeLoop =>
    cases hexecuted with
    | sequence hother => rw [hkind] at hother; rcases hother with hother | hother <;> cases hother
    | loop _ time sources hin =>
      rw [toList_loopCode_nil] at hin
      exact ⟨_, by simp, (List.append_subset.mp hin).1⟩
    | leaf hother => rw [hkind] at hother; cases hother
  | _ =>
    rw [hasCode, hkind] at hcode
    cases hcode

/-- **When the lines of a program hold no line breaks**: exactly if the names of the blocks that there is
code for hold none. -/
theorem unbroken_iff {program : Code} (hprogram : w.programCode options form = .ok program) :
    (∀ line ∈ program.toList, Unbroken line.text) ↔
      ∀ block ∈ w.tree.reached, w.hasCode block = true → Unbroken block.name := by
  constructor
  · intro hall block hb hcode
    obtain ⟨what, hwhat, hsub⟩ := exists_codeHeader_subset hprogram hb hcode
    refine (@unbroken_codeHeader block what ?_ ?_).mp fun line hline => hall line (hsub hline)
    · simp only [List.mem_cons, List.not_mem_nil, or_false] at hwhat
      rcases hwhat with rfl | rfl <;> decide
    · exact h.blocks block ((Forest.reached_sublist _).subset hb)
  · intro hnames line hline
    have hreached : ∀ {block : Block}, block ∈ w.tree.reached → block ∈ w.blocks := fun hb =>
      (Forest.reached_sublist _).subset hb
    cases standsIn_of_programCode hprogram hline with
    | blank => exact Line.unbroken_of_pieces rfl
    | imports hin => exact h.unbroken_importLines line hin
    | classDef => simp [Line.unbroken_text, Line.pieces, h.className, h.runtime]
    | opening hin => exact h.unbroken_openingLines line hin
    | setUp hb hin => exact h.unbroken_setUpLines (hreached hb) (hnames _ hb) line hin
    | definition method => exact Line.unbroken_of_pieces rfl
    | access hpart hin => exact h.unbroken_accessMethods hpart line hin
    | execution hb hsub hexecutes =>
      cases hexecutes with
      | own hscope hin =>
        exact h.unbroken_executionLines (hreached hb) (hnames _ hb) hscope line hin
      | loop hscope hkind hin =>
        refine h.unbroken_loopCode (hreached hb) ?_ hscope ?_ line hin
        · exact hnames _ hb (by rw [hasCode, hkind])
        · exact fun model hmodel => mem_blocks_of_mem_body
            ((mem_of_mem_subtrees hsub).2 model (List.mem_of_mem_filter hmodel))
    | closing hin => exact unbroken_closingLines line hin
    | main hin => exact h.unbroken_mainPart line hin

end Writable

-- ---------------------------------------------------------------------------
-- Before and after a naming pass
-- ---------------------------------------------------------------------------

theorem CodeUnbroken.of_unnamed (hw : w.CodeUnbroken options) (h : v.unnamed = w.unnamed) :
    v.CodeUnbroken options where
  code block hb lines hkind := by
    obtain ⟨other, ho, hsame⟩ := exists_block_of_unnamed h hb
    exact hw.code other ho lines ((Block.kind_of_unnamed hsame).trans hkind)
  property block hb values propertyId valueType units hkind := by
    obtain ⟨other, ho, hsame⟩ := exists_block_of_unnamed h hb
    exact hw.property other ho _ _ _ _ ((Block.kind_of_unnamed hsame).trans hkind)
  objectType slot hs type htype := by
    obtain ⟨other, ho, hsame⟩ := exists_slot_of_unnamed h hs
    have hother : other.objectType = slot.objectType :=
      show other.unnamed.objectType = slot.unnamed.objectType from congrArg Slot.objectType hsame
    exact hw.objectType other ho type (hother.trans htype)
  modelClass block hb setup hkind := by
    obtain ⟨other, ho, hsame⟩ := exists_block_of_unnamed h hb
    exact hw.modelClass other ho setup ((Block.kind_of_unnamed hsame).trans hkind)
  imports := by
    have hregistry : v.registry = w.registry :=
      show v.unnamed.registry = w.unnamed.registry from congrArg Workflow.registry h
    rw [hregistry]
    exact hw.imports
  runtime := hw.runtime

/-- The blocks that are reached in the one correspond to those in the other. -/
theorem exists_reached_of_unnamed (h : v.unnamed = w.unnamed) (hb : block ∈ v.tree.reached) :
    ∃ other ∈ w.tree.reached, other.unnamed = block.unnamed := by
  have hmap : ∀ forest : Forest Block,
      (forest.map Block.unnamed).reached = forest.reached.map Block.unnamed := by
    intro forest
    induction forest with
    | nil => rfl
    | node b below after ihBelow ihAfter =>
      have hkind : b.unnamed.kind = b.kind := rfl
      rw [Forest.map, Forest.reached, Forest.reached, ihBelow, ihAfter, hkind, List.map_cons,
        List.map_append]
      split <;> rfl
  have htree : v.tree.map Block.unnamed = w.tree.map Block.unnamed :=
    show v.unnamed.tree = w.unnamed.tree from congrArg tree h
  have hreached : v.tree.reached.map Block.unnamed = w.tree.reached.map Block.unnamed := by
    rw [← hmap, ← hmap, htree]
  exact List.mem_map.mp (hreached ▸ List.mem_map_of_mem hb)

/-- There is code for the blocks of the one where there is code for those of the other. -/
theorem hasCode_of_unnamed (h : v.unnamed = w.unnamed) {other : Block}
    (hsame : other.unnamed = block.unnamed) : w.hasCode other = v.hasCode block := by
  have hlinked : w.isNamedLinked other BlockKind.valueSlot =
      v.isNamedLinked block BlockKind.valueSlot := by
    rw [← isNamedLinked_unnamed, ← @isNamedLinked_unnamed _ v, h, hsame]
  rw [hasCode, hasCode, Block.kind_of_unnamed hsame, hlinked]

/-- The names of blocks stay. -/
theorem namesUnbroken_of_unnamed
    (hw : ∀ block ∈ w.tree.reached, w.hasCode block = true → Unbroken block.name)
    (h : v.unnamed = w.unnamed) :
    ∀ block ∈ v.tree.reached, v.hasCode block = true → Unbroken block.name := by
  intro block hb hcode
  obtain ⟨other, ho, hsame⟩ := exists_reached_of_unnamed h hb
  have hname : other.name = block.name :=
    show other.unnamed.name = block.unnamed.name from congrArg Block.name hsame
  exact hname ▸ hw other ho ((hasCode_of_unnamed h hsame).trans hcode)

/-- Indentation breaks no line. -/
theorem unbroken_indent {level : Nat} {text : String} :
    Unbroken (Code.indent level text) ↔ Unbroken text := by
  unfold Code.indent
  split
  · rename_i hempty
    rw [String.isEmpty_iff.mp hempty]
  · have htabs : Unbroken (String.ofList (List.replicate level '\t')) := by
      rw [Text.unbroken_ofList]
      intro c hc
      rw [(List.mem_replicate.mp hc).2]
      rfl
    rw [Text.unbroken_append, and_iff_right htabs]

/-- The lines of a program hold no line breaks where those of its forest hold none. -/
theorem unbroken_lines {program : Code} :
    (∀ text ∈ program.lines, Unbroken text) ↔ ∀ line ∈ program.toList, Unbroken line.text := by
  rw [Code.lines, List.forall_mem_map, ← Code.map_snd_leveled 0 program, List.forall_mem_map]
  exact forall₂_congr fun _ _ => unbroken_indent

/-- **When the lines of what is generated hold no line breaks.** If the texts that are meant as code hold
none, then the lines hold none exactly if the names of the blocks that there is code for hold none. What
the workflow, its slots, its objects, its units and its files are called does not matter. -/
theorem Reachable.unbroken_generate_iff (h : w.Reachable) (hcode : w.CodeUnbroken options)
    {lines : List String} (hg : (w.generate options form).1 = .ok lines) :
    (∀ text ∈ lines, Unbroken text) ↔
      ∀ block ∈ w.tree.reached, w.hasCode block = true → Unbroken block.name := by
  have hclass : Unbroken options.className := by
    unfold generate at hg
    split at hg
    · rename_i hname
      exact Text.unbroken_of_isWord (Identifier.isWord_of_ofName? hname).1
    · cases hg
  obtain ⟨program, hprogram, rfl⟩ := generate_eq_ok hg
  have hwritable : w.assignNames.Writable options :=
    { toCodeUnbroken := hcode.of_unnamed w.unnamed_assignNames
      className := hclass
      blocks := fun block hb => Text.unbroken_of_isWord (h.usable_block hb).2.word
      slots := fun slot hs hext => Text.unbroken_of_isWord (h.usable_slot hs hext).2.word }
  rw [unbroken_lines, hwritable.unbroken_iff hprogram]
  exact ⟨fun hnames => namesUnbroken_of_unnamed hnames w.unnamed_assignNames.symm,
    fun hnames => namesUnbroken_of_unnamed hnames w.unnamed_assignNames⟩

/-- A workflow without slots that only executes a line that does nothing. -/
theorem codeUnbroken_of_pass {w : Workflow Unit}
    (hkinds : w.blocks.map Block.kind = [.workflow, .code ["pass"]]) (hslots : w.slots = [])
    (hclasses : w.registry.classes = []) : w.CodeUnbroken {} := by
  have hkind : ∀ block ∈ w.blocks, block.kind = .workflow ∨ block.kind = .code ["pass"] := by
    intro block hb
    have hmem := hkinds ▸ List.mem_map_of_mem hb (f := Block.kind)
    simpa using hmem
  refine ⟨fun block hb lines hcode => ?_, fun block hb _ _ _ _ hconstant => ?_, fun slot hs => ?_,
    fun block hb _ hmodel => ?_, fun modelClass hmem => ?_, by decide⟩
  · rcases hkind block hb with heq | heq <;> rw [heq] at hcode <;> cases hcode
    decide
  · rcases hkind block hb with heq | heq <;> rw [heq] at hconstant <;> cases hconstant
  · rw [hslots] at hs
    cases hs
  · rcases hkind block hb with heq | heq <;> rw [heq] at hmodel <;> cases hmodel
  · rw [hclasses] at hmem
    cases hmem

/-- A program for a line of code in a workflow whose name breaks a line. -/
theorem unbroken_generate_of_pass :
    ∃ (w : Workflow Unit) (lines : List String), w.Reachable ∧ w.CodeUnbroken {} ∧
      w.name = "Plan\nimport os" ∧ (w.generate {} .component).1 = .ok lines ∧
      ∀ text ∈ lines, Unbroken text := by
  have hpass := @Reachable.edited Unit _ _ (.addBlock rootId (.code ["pass"]) none) _
    (.new "uid-" "Plan\nimport os" .empty) rfl
  obtain ⟨w, lines, hreachable, hcode, hname, hlines, hnames⟩ :
      ∃ (w : Workflow Unit) (lines : List String), w.Reachable ∧ w.CodeUnbroken {} ∧
        w.name = "Plan\nimport os" ∧ (w.generate {} .component).1 = .ok lines ∧
        ∀ block ∈ w.tree.reached, w.hasCode block = true → Unbroken block.name :=
    ⟨_, _, hpass, codeUnbroken_of_pass rfl rfl rfl, rfl, rfl, by decide +kernel⟩
  exact ⟨w, lines, hreachable, hcode, hname, hlines,
    (hreachable.unbroken_generate_iff hcode hlines).mpr hnames⟩

/-- A program in which the name of a block goes on as a line of code. -/
theorem not_unbroken_of_name :
    ∃ (w : Workflow Unit) (lines : List String), w.Reachable ∧ w.CodeUnbroken {} ∧
      (w.generate {} .component).1 = .ok lines ∧
      "\t\t# execution code of custom_code_1 (Step\nimport os #)" ∈ lines ∧
      ¬∀ text ∈ lines, Unbroken text := by
  have hpass := @Reachable.edited Unit _ _ (.addBlock rootId (.code ["pass"]) none) _
    (.new "uid-" "Plan" .empty) rfl
  have hnamed := @Reachable.edited Unit _ _ (.setBlockName ⟨1⟩ "Step\nimport os #") _ hpass rfl
  obtain ⟨w, lines, hreachable, hcode, hlines, hmem⟩ :
      ∃ (w : Workflow Unit) (lines : List String), w.Reachable ∧ w.CodeUnbroken {} ∧
        (w.generate {} .component).1 = .ok lines ∧
        "\t\t# execution code of custom_code_1 (Step\nimport os #)" ∈ lines :=
    ⟨_, _, hnamed, codeUnbroken_of_pass rfl rfl rfl, rfl, by decide +kernel⟩
  exact ⟨w, lines, hreachable, hcode, hlines, hmem, fun hall => absurd (hall _ hmem) (by decide)⟩

end Workflow

end SlotFlow
