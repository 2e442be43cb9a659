import SlotFlow.Proofs.Graph.History
import SlotFlow.Proofs.Graph.Kinds
import SlotFlow.Proofs.Naming.Identifier
import SlotFlow.Proofs.Program.Planned
/-!
# Why there is no program

There are three reasons why no program is made of a workflow: its class has no legal name, there is a block
for conditional execution, or nothing says how long the steps of a time loop are. They are looked for in
this order, and of several blocks the first one in tree order is reported. The set-up of the blocks is
written before their execution, so a loop is reported only where the whole set-up could be written.

* `fault?` — the error that a computation ends with;
* `Block.isConditional`, `Workflow.isUnpaced` — the blocks that are reported;
* `Workflow.GenerationOutcome` — what comes of a request for a program.

## Results

* `Workflow.fault?_setUpCode`, `Workflow.fault?_executionCode` — the errors of the two passes over the tree;
* `Workflow.fault?_programCode` — the error of a program;
* `Workflow.KindsKept.generationOutcome` — what comes of a request where no kind is edited.
-/

namespace SlotFlow

-- ---------------------------------------------------------------------------
-- Errors of computations
-- ---------------------------------------------------------------------------

section Faults

variable {ε α β γ : Type}

/-- The error that a computation ends with, if it does. -/
def fault? : Except ε α → Option ε
  | .ok _ => none
  | .error fault => some fault

theorem fault?_eq_none {x : Except ε α} : fault? x = none ↔ ∃ a, x = .ok a := by
  cases x <;> simp [fault?]

theorem fault?_eq_some {x : Except ε α} {fault : ε} : fault? x = some fault ↔ x = .error fault := by
  cases x <;> simp [fault?]

theorem fault?_map (f : α → β) (x : Except ε α) : fault? (x.map f) = fault? x := by
  cases x <;> rfl

/-- Of two computations one after the other the first error counts. -/
theorem fault?_seq (f : α → β → γ) (x : Except ε α) (y : Except ε β) :
    fault? (do return f (← x) (← y)) = (fault? x).or (fault? y) := by
  cases x <;> cases y <;> rfl

theorem seq_ne_error {f : α → β → γ} {x : Except ε α} {y : Except ε β} {fault : ε}
    (hx : x ≠ .error fault) (hy : y ≠ .error fault) :
    (do return f (← x) (← y)) ≠ Except.error fault := by
  intro herror
  rw [← fault?_eq_some, fault?_seq, Option.or_eq_some_iff, fault?_eq_some, fault?_eq_some] at herror
  exact herror.elim hx fun h => hy h.2

end Faults

theorem Forest.subtrees_map {α β : Type} (f : α → β) (forest : Forest α) :
    (forest.map f).subtrees = forest.subtrees.map fun tree => (f tree.1, tree.2.map f) := by
  induction forest with
  | nil => rfl
  | node a below after ihBelow ihAfter =>
    rw [map, subtrees, subtrees, ihBelow, ihAfter, List.map_cons, List.map_append]

-- ---------------------------------------------------------------------------
-- Blocks that are reported
-- ---------------------------------------------------------------------------

namespace Block

/-- Whether a block is for conditional execution. -/
def isConditional (block : Block) : Bool :=
  match block.kind with
  | .ifElse => true
  | _ => false

/-- The error that says that there is no code for a block. -/
def unsupported (block : Block) : GenerationError :=
  .unsupportedBlock block.name block.kind.recordName

end Block

namespace Workflow

variable {μ : Type} {v w : Workflow μ} {options : ProgramOptions}

/-- Whether a block is a time loop, and neither its slot for the longest step is linked nor is there a
model below it. -/
def isUnpaced (w : Workflow μ) (tree : Block × Forest Block) : Bool :=
  match tree.1.kind with
  | .timeLoop => !w.hasStepSource tree.1 tree.2
  | _ => false

/-- The error with which the execution of a block ends before anything below it is reached. -/
def executionFault? (w : Workflow μ) (tree : Block × Forest Block) : Option GenerationError :=
  if tree.1.isConditional then some tree.1.unsupported
  else if w.isUnpaced tree then some (.missingStepSource tree.1.identifier)
  else none

-- ---------------------------------------------------------------------------
-- The passes over the tree
-- ---------------------------------------------------------------------------

/-- The set-up of a tree fails at its first block for conditional execution. -/
theorem fault?_setUpCode {forest : Forest Block} (hn : forest.Nested) :
    fault? (w.setUpCode options forest) =
      (forest.toList.find? Block.isConditional).map Block.unsupported := by
  induction forest with
  | nil => rfl
  | node block below after ihBelow ihAfter =>
    obtain ⟨hleaf, hbelow, hafter⟩ := hn
    have hrest : ∀ {own : Except GenerationError Code}, block.isConditional = false →
        fault? own = (below.toList.find? Block.isConditional).map Block.unsupported →
        fault? (do return (← own).append (← w.setUpCode options after)) =
          ((Forest.node block below after).toList.find? Block.isConditional).map
            Block.unsupported := by
      intro own hblock hown
      rw [fault?_seq, hown, ihAfter hafter, Forest.toList_node, List.find?_cons, hblock,
        List.find?_append, Option.map_or]
    rw [setUpCode]
    cases hkind : block.kind
    case ifElse =>
      have hblock : block.isConditional = true := by rw [Block.isConditional, hkind]
      rw [Forest.toList_node, List.find?_cons, hblock, Option.map_some, Block.unsupported, hkind]
      rfl
    case workflow | sequential | timeLoop =>
      exact hrest (by rw [Block.isConditional, hkind]) (ihBelow hbelow)
    all_goals
      rw [hleaf.resolve_right (by rw [hkind]; exact Bool.false_ne_true)] at hrest ⊢
      exact hrest (by rw [Block.isConditional, hkind]) rfl

/-- The execution of a tree fails at the first block for conditional execution or time loop without a source
of steps. -/
theorem fault?_executionCode {forest : Forest Block} (hn : forest.Nested) (scope : CodeScope) :
    fault? (w.executionCode options forest scope) = forest.subtrees.findSome? w.executionFault? := by
  induction forest generalizing scope with
  | nil => rfl
  | node block below after ihBelow ihAfter =>
    obtain ⟨hleaf, hbelow, hafter⟩ := hn
    have hrest : ∀ own : Except GenerationError Code,
        fault? own = (w.executionFault? (block, below)).or (below.subtrees.findSome? w.executionFault?) →
        fault? (do return (← own).append (← w.executionCode options after scope)) =
          (Forest.node block below after).subtrees.findSome? w.executionFault? := by
      intro own hown
      rw [fault?_seq, hown, ihAfter hafter, Forest.subtrees, List.findSome?_cons, List.findSome?_append]
      cases w.executionFault? (block, below) <;> rfl
    rw [executionCode]
    cases hkind : block.kind
    case ifElse =>
      have hfault : w.executionFault? (block, below) = some block.unsupported := by
        rw [executionFault?, Block.isConditional, hkind]
        rfl
      refine hrest _ ?_
      rw [hfault, Block.unsupported, hkind]
      rfl
    case workflow | sequential =>
      have hfault : w.executionFault? (block, below) = none := by
        simp only [executionFault?, Block.isConditional, isUnpaced, hkind]
        rfl
      refine hrest _ ?_
      rw [hfault, Option.none_or]
      exact ihBelow hbelow scope
    case timeLoop =>
      have hfault : w.executionFault? (block, below) =
          if w.hasStepSource block below then none else some (.missingStepSource block.identifier) := by
        simp only [executionFault?, Block.isConditional, isUnpaced, hkind]
        cases w.hasStepSource block below <;> rfl
      dsimp only
      by_cases hsource : w.hasStepSource block below = true
      · have hloop := hrest ((w.executionCode options below (loopScope block.identifier)).map
          (w.loopCode options block scope.time
            (w.stepSources block (below.toList.filter Block.isModel) scope.time)))
        rw [fault?_map, ihBelow hbelow, hfault, if_pos hsource, Option.none_or] at hloop
        rw [if_neg (List.isEmpty_iff.not.mpr (stepSources_ne_nil_iff.mpr hsource)), ← hloop rfl]
        cases w.executionCode options below (loopScope block.identifier) <;> rfl
      · rw [if_pos (List.isEmpty_iff.mpr (not_not.mp (stepSources_ne_nil_iff.not.mpr hsource))),
          Forest.subtrees, List.findSome?_cons, hfault, if_neg hsource]
        rfl
    all_goals
      rw [hleaf.resolve_right (by rw [hkind]; exact Bool.false_ne_true)] at hrest ⊢
      refine hrest _ ?_
      simp only [executionFault?, Block.isConditional, isUnpaced, hkind]
      rfl

/-- Where there is no block for conditional execution, only time loops are reported. -/
theorem findSome?_executionFault? {forest : Forest Block}
    (h : forest.toList.find? Block.isConditional = none) :
    forest.subtrees.findSome? w.executionFault? =
      (forest.subtrees.find? w.isUnpaced).map fun tree => .missingStepSource tree.1.identifier := by
  rw [← Forest.map_fst_subtrees, List.find?_map, Option.map_eq_none_iff, List.find?_eq_none] at h
  generalize forest.subtrees = trees at h ⊢
  induction trees with
  | nil => rfl
  | cons tree trees ih =>
    obtain ⟨hfirst, hrest⟩ := List.forall_mem_cons.mp h
    have hblock : ¬tree.1.isConditional = true := hfirst
    rw [List.findSome?_cons, List.find?_cons, ih hrest, executionFault?, if_neg hblock]
    cases w.isUnpaced tree <;> rfl

/-- There is no program for a tree with a block for conditional execution, or else with a time loop without
a source of steps. -/
theorem fault?_programCode (hn : w.tree.Nested) (form : ProgramForm) :
    fault? (w.programCode options form) =
      ((w.blocks.find? Block.isConditional).map Block.unsupported).or
        ((w.tree.subtrees.find? w.isUnpaced).map fun tree =>
          .missingStepSource tree.1.identifier) := by
  have hpasses : fault? (w.programCode options form) =
      (fault? (w.setUpCode options w.tree)).or
        (fault? (w.executionCode options w.tree (formScope form))) := fault?_seq ..
  rw [hpasses, fault?_setUpCode hn, fault?_executionCode hn, blocks]
  cases hfind : w.tree.toList.find? Block.isConditional with
  | some block => rfl
  | none => rw [findSome?_executionFault? hfind]

-- ---------------------------------------------------------------------------
-- What is not reported
-- ---------------------------------------------------------------------------

/-- The set-up does not look at the name of the class, … -/
theorem setUpCode_ne_invalidClassName (forest : Forest Block) (name : String) :
    w.setUpCode options forest ≠ .error (.invalidClassName name) := by
  induction forest with
  | nil =>
    intro h
    cases h
  | node block below after ihBelow ihAfter =>
    rw [setUpCode]
    cases block.kind
    case ifElse =>
      intro h
      cases h
    case workflow | sequential | timeLoop => exact seq_ne_error ihBelow ihAfter
    all_goals
      refine seq_ne_error ?_ ihAfter
      intro h
      cases h

/-- … nor does the execution. -/
theorem executionCode_ne_invalidClassName (forest : Forest Block) (scope : CodeScope) (name : String) :
    w.executionCode options forest scope ≠ .error (.invalidClassName name) := by
  induction forest generalizing scope with
  | nil =>
    intro h
    cases h
  | node block below after ihBelow ihAfter =>
    rw [executionCode]
    cases block.kind
    case ifElse =>
      intro h
      cases h
    case workflow | sequential => exact seq_ne_error (ihBelow scope) (ihAfter scope)
    case timeLoop =>
      dsimp only
      split
      · intro h
        cases h
      · have hbelow := ihBelow (loopScope block.identifier)
        have hrest := ihAfter scope
        cases hcode : w.executionCode options below (loopScope block.identifier) with
        | error fault =>
          rw [hcode] at hbelow
          exact hbelow
        | ok children =>
          refine seq_ne_error ?_ hrest
          intro h
          cases h
    all_goals
      refine seq_ne_error ?_ (ihAfter scope)
      intro h
      cases h

theorem generate_ne_invalidClassName
    (hname : Identifier.ofName? options.className = some options.className) (form : ProgramForm)
    (name : String) : (w.generate options form).1 ≠ .error (.invalidClassName name) := by
  have hprogram : w.assignNames.programCode options form ≠ .error (.invalidClassName name) :=
    seq_ne_error (setUpCode_ne_invalidClassName _ name) (executionCode_ne_invalidClassName _ _ name)
  rw [generate, if_pos hname]
  intro herror
  rw [← fault?_eq_some, fault?_map, fault?_eq_some] at herror
  exact hprogram herror

-- ---------------------------------------------------------------------------
-- Names
-- ---------------------------------------------------------------------------

theorem find?_isConditional_of_unnamed (h : v.unnamed = w.unnamed) :
    (v.blocks.find? Block.isConditional).map Block.unsupported =
      (w.blocks.find? Block.isConditional).map Block.unsupported := by
  have hblocks := congrArg (fun blocks => (blocks.find? Block.isConditional).map Block.unsupported)
    (map_unnamed_of_unnamed h)
  simp only [List.find?_map, Option.map_map] at hblocks
  exact hblocks

theorem isUnpaced_unnamed (tree : Block × Forest Block) :
    w.unnamed.isUnpaced (tree.1.unnamed, tree.2.map Block.unnamed) = w.isUnpaced tree := by
  rw [isUnpaced, isUnpaced, hasStepSource_unnamed]
  rfl

/-- The same loop is found where elements have other names. -/
theorem find?_isUnpaced_of_unnamed (h : v.unnamed = w.unnamed) :
    (v.tree.subtrees.find? v.isUnpaced).map (·.1.unnamed) =
      (w.tree.subtrees.find? w.isUnpaced).map (·.1.unnamed) := by
  have hunnamed : ∀ w : Workflow μ, (w.tree.subtrees.find? w.isUnpaced).map (·.1.unnamed) =
      (w.unnamed.tree.subtrees.find? w.unnamed.isUnpaced).map Prod.fst := by
    intro w
    have htrees : w.unnamed.tree.subtrees =
        w.tree.subtrees.map fun tree => (tree.1.unnamed, tree.2.map Block.unnamed) :=
      Forest.subtrees_map Block.unnamed w.tree
    rw [htrees, List.find?_map, Option.map_map]
    congr 2
    funext tree
    exact (isUnpaced_unnamed tree).symm
  rw [hunnamed, hunnamed, h]

-- ---------------------------------------------------------------------------
-- Main result
-- ---------------------------------------------------------------------------

/-- What comes of a request for a program. -/
structure GenerationOutcome (w : Workflow μ) (options : ProgramOptions) (form : ProgramForm) :
    Prop where
  /-- The name of the class is refused exactly if something else would be made of it, … -/
  className : (∃ name, (w.generate options form).1 = .error (.invalidClassName name)) ↔
    Identifier.ofName? options.className ≠ some options.className
  /-- … and then nothing has changed. -/
  refused : Identifier.ofName? options.className ≠ some options.className →
    w.generate options form = (.error (.invalidClassName options.className), w)
  /-- Otherwise the first block for conditional execution is reported. -/
  unsupported : Identifier.ofName? options.className = some options.className →
    ∀ block, w.blocks.find? Block.isConditional = some block →
      (w.generate options form).1 = .error (.unsupportedBlock block.name block.kind.recordName)
  /-- If there is none, the first time loop without a source of steps is reported by its identifier. -/
  unpaced : Identifier.ofName? options.className = some options.className →
    w.blocks.find? Block.isConditional = none →
    ∀ loop below, w.tree.subtrees.find? w.isUnpaced = some (loop, below) →
      ∃ name, ((w.generate options form).2.block? loop.id).bind Block.codeName = some name ∧
        (w.generate options form).1 = .error (.missingStepSource name)
  /-- If there is none either, there is a program. -/
  granted : Identifier.ofName? options.className = some options.className →
    w.blocks.find? Block.isConditional = none → w.tree.subtrees.find? w.isUnpaced = none →
    ∃ lines, (w.generate options form).1 = .ok lines
  /-- In any case nothing but identifiers has changed. -/
  rest : (w.generate options form).2.unnamed = w.unnamed

/-- A workflow always has a legal name for its class. -/
theorem ofName?_className (w : Workflow μ) :
    Identifier.ofName? w.className = some w.className := by
  rw [className]
  cases h : Identifier.ofName? w.name with
  | some identifier => exact Identifier.ofName?_of_ofName? h
  | none => decide

theorem generate_of_className (h : Identifier.ofName? options.className = some options.className)
    (form : ProgramForm) : w.generate options form =
      ((w.assignNames.programCode options form).map Code.lines, w.assignNames) :=
  if_pos h

/-- The error of a request under a legal name is that of the program. -/
theorem KindsKept.fault?_generate (h : w.KindsKept)
    (hname : Identifier.ofName? options.className = some options.className) (form : ProgramForm) :
    fault? (w.generate options form).1 =
      ((w.blocks.find? Block.isConditional).map Block.unsupported).or
        ((w.assignNames.tree.subtrees.find? w.assignNames.isUnpaced).map fun tree =>
          .missingStepSource tree.1.identifier) := by
  rw [generate_of_className hname, fault?_map, fault?_programCode h.named.shaped.nested,
    find?_isConditional_of_unnamed w.unnamed_assignNames]

/-- The loop that is reported is the first one in the workflow as it was. -/
theorem KindsKept.exists_unpaced (h : w.KindsKept) {loop : Block} {below : Forest Block}
    (hloop : w.tree.subtrees.find? w.isUnpaced = some (loop, below)) :
    ∃ name, (w.assignNames.block? loop.id).bind Block.codeName = some name ∧
      (w.assignNames.tree.subtrees.find? w.assignNames.isUnpaced).map (·.1.identifier) = some name := by
  have hsame := find?_isUnpaced_of_unnamed w.unnamed_assignNames
  rw [hloop, Option.map_some] at hsame
  obtain ⟨⟨named, under⟩, hfind, heq⟩ := Option.map_eq_some_iff.mp hsame
  have hmem : named ∈ w.assignNames.blocks := by
    rw [blocks, ← Forest.map_fst_subtrees]
    exact List.mem_map_of_mem (List.mem_of_find?_eq_some hfind)
  obtain ⟨name, hname⟩ := Option.isSome_iff_exists.mp (w.named_assignNames.1 named hmem)
  have hblock : w.assignNames.block? loop.id = some named :=
    h.named.reachable.wellFormed.block?_eq_some.mpr ⟨hmem, Block.id_of_unnamed heq⟩
  refine ⟨name, ?_, ?_⟩
  · rw [hblock]
    exact hname
  · rw [hfind, Option.map_some, Block.identifier, hname]
    rfl

theorem KindsKept.generationOutcome (h : w.KindsKept) (options : ProgramOptions) (form : ProgramForm) :
    w.GenerationOutcome options form where
  className := by
    by_cases hname : Identifier.ofName? options.className = some options.className
    · refine ⟨fun ⟨name, herror⟩ => ?_, fun hne => absurd hname hne⟩
      exact absurd herror (generate_ne_invalidClassName hname form name)
    · exact ⟨fun _ => hname, fun _ => ⟨_, congrArg Prod.fst (if_neg hname)⟩⟩
  refused hname := if_neg hname
  unsupported hname block hfind := by
    rw [← fault?_eq_some, h.fault?_generate hname, hfind]
    rfl
  unpaced hname hfind loop below hloop := by
    obtain ⟨name, hcode, hreport⟩ := h.exists_unpaced hloop
    refine ⟨name, by rwa [generate_of_className hname], ?_⟩
    rw [← fault?_eq_some, h.fault?_generate hname, hfind, Option.map_none, Option.none_or]
    exact (Option.map_map ..).symm.trans (congrArg (Option.map GenerationError.missingStepSource) hreport)
  granted hname hfind hloop := by
    have hsame := find?_isUnpaced_of_unnamed w.unnamed_assignNames
    rw [hloop, Option.map_none, Option.map_eq_none_iff] at hsame
    rw [← fault?_eq_none, h.fault?_generate hname, hfind, hsame]
    rfl
  rest := by
    unfold generate
    split
    · exact w.unnamed_assignNames
    · rfl

/-- **Why there is no program.** Where no kind is edited, these are the reasons and the order in which they
are looked for. A program that is named after its workflow always has a legal name. -/
theorem KindsKept.generationOutcomes (h : w.KindsKept) :
    (∀ options form, w.GenerationOutcome options form) ∧
      ∀ (v : Workflow μ) (form : ProgramForm) (name : String),
        (v.generate v.ownOptions form).1 ≠ .error (.invalidClassName name) := by
  refine ⟨h.generationOutcome, fun v form name => ?_⟩
  have hname : Identifier.ofName? v.ownOptions.className = some v.ownOptions.className :=
    v.ofName?_className
  exact generate_ne_invalidClassName hname form name

/-- Two time loops, of which the first one is told how long its steps may be. -/
def pacedLoop : Workflow Unit :=
  (new "uid-" "while" .empty).after
    [.edit (.addBlock rootId (.constant (.quantity 1 "s")) none),
      .edit (.addBlock rootId .timeLoop none),
      .edit (.connect ⟨2⟩ ⟨6⟩ none),
      .edit (.addBlock rootId .timeLoop none)]

/-- The second loop is reported. The class that is named after the workflow goes by the default name, since
the name of the workflow is a keyword. -/
theorem generationOutcomes_of_pacedLoop :
    pacedLoop.KindsKept ∧
      (pacedLoop.generate pacedLoop.ownOptions .execution).1 =
        .error (.missingStepSource "timeloop_2") ∧
      pacedLoop.generate { className := "while" } .component =
        (.error (.invalidClassName "while"), pacedLoop) := by
  have hkept : pacedLoop.KindsKept := by
    have hlength := @KindsKept.edited Unit _ _ (.addBlock rootId (.constant (.quantity 1 "s")) none) _
      (.new "uid-" "while" .empty) rfl nofun
    have hfirst := @KindsKept.edited Unit _ _ (.addBlock rootId .timeLoop none) _ hlength rfl nofun
    have hpaced := @KindsKept.edited Unit _ _ (.connect ⟨2⟩ ⟨6⟩ none) _ hfirst rfl nofun
    exact @KindsKept.edited Unit _ _ (.addBlock rootId .timeLoop none) _ hpaced rfl nofun
  obtain ⟨houtcome, -⟩ := hkept.generationOutcomes
  refine ⟨hkept, ?_, (houtcome { className := "while" } .component).refused (by decide)⟩
  obtain ⟨name, hname, herror⟩ :=
    (houtcome pacedLoop.ownOptions .execution).unpaced pacedLoop.ofName?_className rfl _ _ rfl
  have hcode : ((pacedLoop.generate pacedLoop.ownOptions .execution).2.block? ⟨8⟩).bind
      Block.codeName = some "timeloop_2" := by
    decide +kernel
  obtain rfl := Option.some.inj (hname.symm.trans hcode)
  exact herror

end Workflow

end SlotFlow
