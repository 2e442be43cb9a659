import SlotFlow.Program.Generate
import SlotFlow.Proofs.Document.Restorable
/-!
# Members of a generated class

Which members of the generated class its lines read and assign. A model, a constant, a named value
and an input of the workflow each have a member of their own; the variables of a time loop are local
to the method that executes the loop.

* `Expr.members`, `Line.membersRead` — the members that an expression and a line read;
* `Line.Assigns` — the member that a line assigns;
* `Workflow.ExecutesBlock`, `Workflow.ExecutesLoop` — what the lines are that execute a block, and that
  run a time loop.

## Results

* `Workflow.setUpCode_node`, `Workflow.executionCode_node` — what the code of a tree consists of;
* `Workflow.toList_setUpCode` — the set-up is that of each block, in tree order;
* `Workflow.stemsFrom_of_executionCode` — where the lines of the execution stem from;
* `Workflow.loopCode_subset_executionCode` — every time loop is run.
-/

namespace SlotFlow

-- ---------------------------------------------------------------------------
-- Reading and assigning
-- ---------------------------------------------------------------------------

/-- The members that an expression reads or calls. -/
def Expr.members : Expr → List String
  | .none => []
  | .quantity _ name _ _ _ => [name]
  | .member _ name => [name]

/-- The members that a limit of time steps reads or calls. -/
def StepSource.members : StepSource → List String
  | .value expr => expr.members
  | .critical _ member => [member]

/-- The members that are read for the value that a member is set to. -/
def MemberValue.members : MemberValue → List String
  | .expr value => value.members
  | _ => []

/-- The members that a line reads or calls. What a user wrote is left out, as are the members that the
class has from the class it extends. -/
def Line.membersRead : Line → List String
  | .assign _ value => value.members
  | .returnValue _ value => value.members
  | .returnCritical models => models.map Prod.snd
  | .setInput _ member _ value _ => member :: value.members
  | .solveModel _ member _ => [member]
  | .terminateModel _ member => [member]
  | .setStart _ value => value.members
  | .setTarget _ value => value.members
  | .setLength _ sources => sources.flatMap StepSource.members
  | _ => []

/-- A line assigns a member. -/
def Line.Assigns (line : Line) (member : String) : Prop :=
  ∃ value, line = .assign member value

-- ---------------------------------------------------------------------------
-- Parts of programs
-- ---------------------------------------------------------------------------

theorem Forest.subtrees_append {α : Type} (forest other : Forest α) :
    (forest.append other).subtrees = forest.subtrees ++ other.subtrees := by
  induction forest with
  | nil => rfl
  | node a below after _ ihAfter =>
    simp only [append, subtrees, ihAfter, List.cons_append, List.append_assoc]

namespace Code

@[simp] theorem toList_ofLines (lines : List Line) : (ofLines lines).toList = lines := by
  rw [← map_snd_leveled 0, leveled_ofLines, List.map_map]
  exact List.map_id lines

@[simp] theorem toList_block (header : Line) (body : Code) :
    (block header body).toList = header :: body.toList := by
  rw [block, Forest.toList_tree]

@[simp] theorem toList_concat (parts : List Code) :
    (concat parts).toList = parts.flatMap Forest.toList := by
  induction parts with
  | nil => rfl
  | cons part rest ih => simp [concat, ih]

theorem subtrees_concat (parts : List Code) :
    (concat parts).subtrees = parts.flatMap Forest.subtrees := by
  induction parts with
  | nil => rfl
  | cons part rest ih => rw [concat, Forest.subtrees_append, ih, List.flatMap_cons]

/-- A line of a part of a program is one of the program. -/
theorem mem_of_mem_subtrees {program body : Code} {header line : Line}
    (h : (header, body) ∈ program.subtrees) (hline : line ∈ body.toList) :
    line ∈ program.toList :=
  (Forest.toList_sublist_of_mem_subtrees h).subset (List.mem_cons_of_mem _ hline)

end Code

namespace Workflow

variable {μ : Type} {w : Workflow μ} {options : ProgramOptions}

-- ---------------------------------------------------------------------------
-- Set-up
-- ---------------------------------------------------------------------------

/-- Containers have no set-up of their own. -/
theorem setUpLines_of_isContainer {block : Block} (h : block.kind.isContainer = true) :
    w.setUpLines options block = [] := by
  unfold setUpLines
  cases hkind : block.kind <;> rw [hkind] at h <;> first | rfl | cases h

/-- How the set-up of a block with what is below it comes about. -/
inductive SetUpOf (w : Workflow μ) (options : ProgramOptions) (block : Block)
    (below : Forest Block) : Code → Prop where
  | container {code : Code} (hkind : block.kind.isContainer = true)
      (hbelow : w.setUpCode options below = .ok code) : SetUpOf w options block below code
  | leaf (hkind : block.kind.isContainer = false) :
      SetUpOf w options block below (Code.ofLines (w.setUpLines options block))

/-- The set-up of a forest consists of that of its first tree and that of the others. -/
theorem setUpCode_node {block : Block} {below after : Forest Block} {code : Code}
    (h : w.setUpCode options (.node block below after) = .ok code) :
    ∃ own rest, w.SetUpOf options block below own ∧ w.setUpCode options after = .ok rest ∧
      code = own.append rest := by
  have hown : ∀ {x : Except GenerationError Code},
      (x >>= fun own => do return own.append (← w.setUpCode options after)) = .ok code →
      ∃ own rest, x = .ok own ∧ w.setUpCode options after = .ok rest ∧ code = own.append rest := by
    intro x hx
    obtain ⟨own, ho, hx⟩ := bind_eq_ok.mp hx
    obtain ⟨rest, hr, hx⟩ := bind_eq_ok.mp hx
    exact ⟨own, rest, ho, hr, pure_eq_ok.mp hx⟩
  rw [setUpCode] at h
  cases hkind : block.kind <;> rw [hkind] at h <;> obtain ⟨own, rest, ho, hr, rfl⟩ := hown h
  case ifElse => cases ho
  case workflow | sequential | timeLoop =>
    exact ⟨own, rest, .container (by rw [hkind]; rfl) ho, hr, rfl⟩
  all_goals
    cases ho
    exact ⟨_, rest, .leaf (by rw [hkind]; rfl), hr, rfl⟩

/-- The set-up of a forest is that of each block, in tree order. -/
theorem toList_setUpCode {forest : Forest Block} {code : Code}
    (h : w.setUpCode options forest = .ok code) (hn : forest.Nested) :
    code.toList = forest.toList.flatMap (w.setUpLines options) := by
  induction forest generalizing code with
  | nil =>
    cases h
    rfl
  | node block below after ihBelow ihAfter =>
    obtain ⟨hleaf, hbelow, hafter⟩ := hn
    obtain ⟨own, rest, hown, hrest, rfl⟩ := setUpCode_node h
    have hfirst : own.toList =
        w.setUpLines options block ++ below.toList.flatMap (w.setUpLines options) := by
      cases hown with
      | container hkind hcode =>
        rw [setUpLines_of_isContainer hkind, ihBelow hcode hbelow, List.nil_append]
      | leaf hkind =>
        rw [hleaf.resolve_right (by rw [hkind]; nofun), Code.toList_ofLines, Forest.toList_nil,
          List.flatMap_nil, List.append_nil]
    rw [Forest.toList_append, hfirst, ihAfter hrest hafter, Forest.toList_node, List.flatMap_cons,
      List.flatMap_append, List.append_assoc]

/-- Of the set-up of a block only one line does something: it assigns the member for the block, and
takes no value from a slot for that. -/
theorem mem_setUpLines {block : Block} {line : Line} (h : line ∈ w.setUpLines options block) :
    line = .blank ∨ (∃ text, line = .comment text) ∨
      ∃ value : MemberValue, (∀ expr, value ≠ .expr expr) ∧ line = .assign block.identifier value := by
  have hheader : ∀ value : MemberValue, (∀ expr, value ≠ .expr expr) →
      line ∈ codeHeader "initialization" block ++ [Line.assign block.identifier value] →
      line = .blank ∨ (∃ text, line = .comment text) ∨
        ∃ value : MemberValue, (∀ expr, value ≠ .expr expr) ∧
          line = .assign block.identifier value := by
    intro value hvalue hline
    simp only [codeHeader, List.cons_append, List.nil_append, List.mem_cons, List.not_mem_nil,
      or_false] at hline
    rcases hline with rfl | rfl | rfl
    · exact .inl rfl
    · exact .inr (.inl ⟨_, rfl⟩)
    · exact .inr (.inr ⟨value, hvalue, rfl⟩)
  unfold setUpLines at h
  dsimp only at h
  split at h
  · exact hheader _ (fun _ heq => by cases heq) h
  · split at h
    · exact hheader _ (fun _ heq => by cases heq) h
    · cases h
  · split at h
    · exact hheader _ (fun _ heq => by cases heq) h
    · cases h
  · cases h

theorem membersRead_setUpLines {block : Block} {line : Line}
    (h : line ∈ w.setUpLines options block) : line.membersRead = [] := by
  rcases mem_setUpLines h with rfl | ⟨text, rfl⟩ | ⟨value, hvalue, rfl⟩
  · rfl
  · rfl
  · cases value with
    | expr value => exact absurd rfl (hvalue value)
    | _ => rfl

-- ---------------------------------------------------------------------------
-- Execution
-- ---------------------------------------------------------------------------

/-- How the execution of a block with what is below it comes about. -/
inductive ExecutionOf (w : Workflow μ) (options : ProgramOptions) (scope : CodeScope)
    (block : Block) (below : Forest Block) : Code → Prop where
  | sequence {code : Code} (hkind : block.kind = .workflow ∨ block.kind = .sequential)
      (hbelow : w.executionCode options below scope = .ok code) :
      ExecutionOf w options scope block below code
  | loop {children : Code} (hkind : block.kind = .timeLoop)
      (hsources : w.stepSources block (below.toList.filter Block.isModel) scope.time ≠ [])
      (hbelow : w.executionCode options below (loopScope block.identifier) = .ok children) :
      ExecutionOf w options scope block below (w.loopCode options block scope.time
        (w.stepSources block (below.toList.filter Block.isModel) scope.time) children)
  | leaf (hkind : block.kind.isContainer = false) :
      ExecutionOf w options scope block below (Code.ofLines (w.executionLines block scope))

/-- The execution of a forest consists of that of its first tree and that of the others. -/
theorem executionCode_node {block : Block} {below after : Forest Block} {scope : CodeScope}
    {code : Code} (h : w.executionCode options (.node block below after) scope = .ok code) :
    ∃ own rest, w.ExecutionOf options scope block below own ∧
      w.executionCode options after scope = .ok rest ∧ code = own.append rest := by
  have hown : ∀ {x : Except GenerationError Code},
      (x >>= fun own => do return own.append (← w.executionCode options after scope)) = .ok code →
      ∃ own rest, x = .ok own ∧ w.executionCode options after scope = .ok rest ∧
        code = own.append rest := by
    intro x hx
    obtain ⟨own, ho, hx⟩ := bind_eq_ok.mp hx
    obtain ⟨rest, hr, hx⟩ := bind_eq_ok.mp hx
    exact ⟨own, rest, ho, hr, pure_eq_ok.mp hx⟩
  rw [executionCode] at h
  cases hkind : block.kind <;> rw [hkind] at h
  case ifElse => cases h
  case timeLoop =>
    dsimp only at h
    split at h
    · cases h
    · rename_i hsources
      obtain ⟨children, hbelow, h⟩ := bind_eq_ok.mp h
      obtain ⟨own, rest, ho, hr, rfl⟩ := hown h
      cases ho
      refine ⟨_, rest, .loop hkind ?_ hbelow, hr, rfl⟩
      rwa [List.isEmpty_iff] at hsources
  case workflow =>
    obtain ⟨own, rest, ho, hr, rfl⟩ := hown h
    exact ⟨own, rest, .sequence (.inl hkind) ho, hr, rfl⟩
  case sequential =>
    obtain ⟨own, rest, ho, hr, rfl⟩ := hown h
    exact ⟨own, rest, .sequence (.inr hkind) ho, hr, rfl⟩
  all_goals
    obtain ⟨own, rest, ho, hr, rfl⟩ := hown h
    cases ho
    exact ⟨_, rest, .leaf (by rw [hkind]; rfl), hr, rfl⟩

/-- What a line is that executes a single block. -/
inductive ExecutesBlock (w : Workflow μ) (block : Block) (scope : CodeScope) : Line → Prop where
  | blank : ExecutesBlock w block scope .blank
  | comment (text : String) : ExecutesBlock w block scope (.comment text)
  | verbatim {lines : List String} (hkind : block.kind = .code lines) (text : String) :
      ExecutesBlock w block scope (.verbatim text)
  | input {setup : ModelSetup} {slot : Slot} {source : SlotId} (hkind : block.kind = .model setup)
      (hslot : slot ∈ block.slots) (hdir : slot.direction = .input)
      (hsource : w.partner? slot.id = some source) :
      ExecutesBlock w block scope (.setInput block.id block.identifier source
        (w.provideSlot source scope.time) slot.objectId)
  | solve {setup : ModelSetup} (hkind : block.kind = .model setup) :
      ExecutesBlock w block scope (.solveModel block.id block.identifier scope.step)
  | named {name : String} {type : SlotType} (hkind : block.kind = .named name type) :
      ExecutesBlock w block scope
        (.assign block.identifier (.expr (w.readNamed block BlockKind.valueSlot scope.time)))

theorem executesBlock_of_mem {block : Block} {scope : CodeScope} {line : Line}
    (h : line ∈ w.executionLines block scope) : w.ExecutesBlock block scope line := by
  have hheader : line ∈ codeHeader "execution" block → w.ExecutesBlock block scope line := by
    intro hin
    simp only [codeHeader, List.mem_cons, List.not_mem_nil, or_false] at hin
    rcases hin with rfl | rfl
    · exact .blank
    · exact .comment _
  unfold executionLines at h
  split at h
  · rename_i setup hkind
    rw [modelLines, List.mem_append, List.mem_append, List.mem_singleton] at h
    rcases h with (h | h) | rfl
    · exact hheader h
    · obtain ⟨slot, hslot, hinput⟩ := List.mem_filterMap.mp h
      unfold inputLine? at hinput
      split at hinput
      · rename_i hdir
        obtain ⟨source, hsource, rfl⟩ := Option.map_eq_some_iff.mp hinput
        exact .input hkind hslot hdir hsource
      · cases hinput
    · exact .solve hkind
  · rename_i name type hkind
    split at h
    · rw [List.mem_append, List.mem_singleton] at h
      rcases h with h | rfl
      · exact hheader h
      · exact .named hkind
    · cases h
  · rename_i lines hkind
    rw [List.mem_append] at h
    rcases h with h | h
    · exact hheader h
    · obtain ⟨text, -, rfl⟩ := List.mem_map.mp h
      exact .verbatim hkind text
  · cases h

/-- The lines that run a time loop without children. -/
theorem toList_loopCode_nil (block : Block) (time : TimeExpr) (sources : List StepSource) :
    (w.loopCode options block time sources .nil).toList =
      codeHeader "execution" block ++
      [.setUnits block.identifier options.timeUnits,
       .setStart block.identifier (w.readNamed block BlockKind.startTimeSlot time),
       .setTarget block.identifier (w.readNamed block BlockKind.targetTimeSlot time),
       .setCompute block.identifier true, .resetNumber block.identifier,
       .whileComputing block.identifier, .countStep block.identifier, .blank,
       .setLength block.identifier sources, .advanceTime block.identifier, .blank,
       .ifReached block.identifier options.timeTolerance, .setCompute block.identifier false,
       .blank, .makeStep block.identifier options.runtimeModule] := by
  simp [loopCode]

/-- What a line is that runs a time loop: some take values from slots, the others keep the variables of
the loop. -/
inductive ExecutesLoop (w : Workflow μ) (block : Block) (time : TimeExpr)
    (sources : List StepSource) : Line → Prop where
  | blank : ExecutesLoop w block time sources .blank
  | comment (text : String) : ExecutesLoop w block time sources (.comment text)
  | start : ExecutesLoop w block time sources
      (.setStart block.identifier (w.readNamed block BlockKind.startTimeSlot time))
  | target : ExecutesLoop w block time sources
      (.setTarget block.identifier (w.readNamed block BlockKind.targetTimeSlot time))
  | length : ExecutesLoop w block time sources (.setLength block.identifier sources)
  | units (units : String) : ExecutesLoop w block time sources (.setUnits block.identifier units)
  | compute (value : Bool) : ExecutesLoop w block time sources (.setCompute block.identifier value)
  | reset : ExecutesLoop w block time sources (.resetNumber block.identifier)
  | computing : ExecutesLoop w block time sources (.whileComputing block.identifier)
  | count : ExecutesLoop w block time sources (.countStep block.identifier)
  | advance : ExecutesLoop w block time sources (.advanceTime block.identifier)
  | reached (tolerance : Float) :
      ExecutesLoop w block time sources (.ifReached block.identifier tolerance)
  | make (runtimeModule : String) :
      ExecutesLoop w block time sources (.makeStep block.identifier runtimeModule)

theorem executesLoop_of_mem {block : Block} {time : TimeExpr} {sources : List StepSource} {line : Line}
    (h : line ∈ (w.loopCode options block time sources .nil).toList) :
    w.ExecutesLoop block time sources line := by
  simp only [toList_loopCode_nil, codeHeader, List.cons_append, List.nil_append, List.mem_cons,
    List.not_mem_nil, or_false] at h
  rcases h with rfl | rfl | rfl | rfl | rfl | rfl | rfl | rfl | rfl | rfl | rfl | rfl | rfl | rfl |
    rfl | rfl | rfl <;> constructor

/-- The code of a time loop ends with that of its children. -/
theorem toList_loopCode (block : Block) (time : TimeExpr) (sources : List StepSource)
    (children : Code) : (w.loopCode options block time sources children).toList =
      (w.loopCode options block time sources .nil).toList ++ children.toList := by
  simp [loopCode]

/-- Where a line of the execution of a forest stems from: it is a line of a block, or it opens or runs
a time loop. -/
inductive StemsFrom (w : Workflow μ) (options : ProgramOptions) (forest : Forest Block) :
    Line → Prop where
  | block {block : Block} {below : Forest Block} {scope : CodeScope} {line : Line}
      (hb : (block, below) ∈ forest.subtrees) (hline : line ∈ w.executionLines block scope) :
      StemsFrom w options forest line
  | loop {block : Block} {below : Forest Block} {time : TimeExpr} {line : Line}
      (hb : (block, below) ∈ forest.subtrees) (hkind : block.kind = .timeLoop)
      (hline : line ∈ (w.loopCode options block time
        (w.stepSources block (below.toList.filter Block.isModel) time) .nil).toList) :
      StemsFrom w options forest line

theorem StemsFrom.mono {forest other : Forest Block} {line : Line}
    (h : w.StemsFrom options forest line) (hsub : forest.subtrees ⊆ other.subtrees) :
    w.StemsFrom options other line := by
  cases h with
  | block hb hline => exact .block (hsub hb) hline
  | loop hb hkind hline => exact .loop (hsub hb) hkind hline

/-- Every line of the execution of a forest stems from it. -/
theorem stemsFrom_of_executionCode {forest : Forest Block} {scope : CodeScope} {code : Code}
    (h : w.executionCode options forest scope = .ok code) :
    ∀ line ∈ code.toList, w.StemsFrom options forest line := by
  induction forest generalizing scope code with
  | nil =>
    cases h
    nofun
  | node block below after ihBelow ihAfter =>
    have hbelow : below.subtrees ⊆ (Forest.node block below after).subtrees := fun _ ht =>
      List.mem_cons_of_mem _ (List.mem_append_left _ ht)
    have hafter : after.subtrees ⊆ (Forest.node block below after).subtrees := fun _ ht =>
      List.mem_cons_of_mem _ (List.mem_append_right _ ht)
    obtain ⟨own, rest, hown, hrest, rfl⟩ := executionCode_node h
    intro line hline
    rw [Forest.toList_append, List.mem_append] at hline
    rcases hline with hline | hline
    · cases hown with
      | sequence _ hcode => exact (ihBelow hcode line hline).mono hbelow
      | loop hkind _ hcode =>
        rw [toList_loopCode, List.mem_append] at hline
        rcases hline with hline | hline
        · exact .loop List.mem_cons_self hkind hline
        · exact (ihBelow hcode line hline).mono hbelow
      | leaf _ =>
        rw [Code.toList_ofLines] at hline
        exact .block List.mem_cons_self hline
    · exact (ihAfter hrest line hline).mono hafter

/-- Every time loop of a forest is run, where only containers have blocks below them. -/
theorem loopCode_subset_executionCode {forest : Forest Block} {scope : CodeScope} {code : Code}
    (h : w.executionCode options forest scope = .ok code) (hn : forest.Nested) {block : Block}
    {below : Forest Block} (hsub : (block, below) ∈ forest.subtrees)
    (hkind : block.kind = .timeLoop) :
    ∃ time, (w.loopCode options block time
      (w.stepSources block (below.toList.filter Block.isModel) time) .nil).toList ⊆ code.toList := by
  induction forest generalizing scope code with
  | nil => cases hsub
  | node first under after ihUnder ihAfter =>
    obtain ⟨hleaf, hunder, hafter⟩ := hn
    obtain ⟨own, rest, hown, hrest, rfl⟩ := executionCode_node h
    have hfirst : ∀ {lines : List Line}, lines ⊆ own.toList →
        lines ⊆ (Forest.append own rest).toList := by
      intro lines hin
      rw [Forest.toList_append]
      exact List.subset_append_of_subset_left _ hin
    have hbelow : (block, below) ∈ under.subtrees → ∀ {scope children},
        w.executionCode options under scope = .ok children → children.toList ⊆ own.toList →
        ∃ time, (w.loopCode options block time (w.stepSources block
          (below.toList.filter Block.isModel) time) .nil).toList ⊆
            (Forest.append own rest).toList := by
      intro hin scope children hchildren hlines
      obtain ⟨time, htime⟩ := ihUnder hchildren hunder hin
      exact ⟨time, hfirst (List.Subset.trans htime hlines)⟩
    rw [Forest.subtrees, List.mem_cons, List.mem_append] at hsub
    rcases hsub with heq | hin | hin
    · cases heq
      cases hown with
      | sequence hsequence =>
        rw [hkind] at hsequence
        rcases hsequence with hno | hno <;> cases hno
      | loop _ _ _ =>
        refine ⟨scope.time, hfirst fun line hline => ?_⟩
        rw [toList_loopCode]
        exact List.mem_append_left _ hline
      | leaf hno =>
        rw [hkind] at hno
        cases hno
    · cases hown with
      | sequence _ hcode => exact hbelow hin hcode (List.Subset.refl _)
      | loop _ _ hcode =>
        refine hbelow hin hcode ?_
        rw [toList_loopCode]
        exact List.subset_append_right ..
      | leaf hno =>
        rw [hleaf.resolve_right (by rw [hno]; exact Bool.false_ne_true)] at hin
        cases hin
    · obtain ⟨time, htime⟩ := ihAfter hrest hafter hin
      refine ⟨time, ?_⟩
      rw [Forest.toList_append]
      exact List.subset_append_of_subset_right _ htime

end Workflow

end SlotFlow
