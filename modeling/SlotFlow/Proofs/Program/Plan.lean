import SlotFlow.Proofs.Naming.Unnamed
import SlotFlow.Proofs.Program.Members
/-!
# What a program has its models do

Of the lines of a program those count here that hand a model an input or have it solve a step, and
the loops around them. They make up a plan: a list of such acts and of loops over plans. How often a
loop goes round is not part of the plan; given these numbers, a plan unrolls to a list of acts.

* `ModelAct`, `Plan` — acts of models, and plans of them;
* `Plan.unroll` — the acts of a plan, given how often each activation of a loop goes round;
* `Code.plan` — the plan that lines of a program amount to;
* `Workflow.plan?` — the plan of a tree of blocks, if there is code for it.

## Results

* `Plan.Unrolls.append`, `Plan.Unrolls.loop` — plans unroll part by part;
* `Workflow.plan?_of_executionCode` — the code of a tree amounts to the plan of the tree;
* `Workflow.plan?_of_unnamed` — names do not matter for it.
-/

namespace SlotFlow

-- ---------------------------------------------------------------------------
-- Acts and plans
-- ---------------------------------------------------------------------------

/-- What a model is made to do: take in the value that a slot provides, or solve a step. -/
inductive ModelAct where
  | set (model : BlockId) (source : SlotId) (objectId : ObjectId)
  | solve (model : BlockId)
  deriving DecidableEq, Repr

/-- Acts one after the other, with loops between them. -/
inductive Plan where
  | nil
  | act (first : ModelAct) (rest : Plan)
  | loop (body rest : Plan)
  deriving DecidableEq, Repr

namespace Plan

/-- One plan after the other. -/
def append : Plan → Plan → Plan
  | nil, other => other
  | act first rest, other => act first (rest.append other)
  | loop body rest, other => loop body (rest.append other)

@[simp] theorem nil_append (plan : Plan) : nil.append plan = plan := rfl

@[simp] theorem append_nil (plan : Plan) : plan.append nil = plan := by
  induction plan with
  | nil => rfl
  | act first rest ih => rw [append, ih]
  | loop body rest _ ih => rw [append, ih]

theorem append_assoc (first second third : Plan) :
    (first.append second).append third = first.append (second.append third) := by
  induction first with
  | nil => rfl
  | act a rest ih => rw [append, append, append, ih]
  | loop body rest _ ih => rw [append, append, append, ih]

/-- A plan without loops. -/
def ofActs : List ModelAct → Plan
  | [] => nil
  | first :: rest => act first (ofActs rest)

theorem ofActs_append (first second : List ModelAct) :
    ofActs (first ++ second) = (ofActs first).append (ofActs second) := by
  induction first with
  | nil => rfl
  | cons a rest ih => rw [List.cons_append, ofActs, ofActs, append, ih]

/-- Goes round a loop a number of times, given what happens when it goes round once. -/
def unrollTimes (once : List Nat → Option (List ModelAct × List Nat)) :
    Nat → List Nat → Option (List ModelAct × List Nat)
  | 0, counts => some ([], counts)
  | n + 1, counts => do
    let (first, counts) ← once counts
    let (others, counts) ← unrollTimes once n counts
    return (first ++ others, counts)

/-- The acts of a plan. Whenever a loop begins, the next of the numbers says how often it goes
round; the numbers that are left over are given back. -/
def unroll : Plan → List Nat → Option (List ModelAct × List Nat)
  | nil, counts => some ([], counts)
  | act first rest, counts => do
    let (others, counts) ← rest.unroll counts
    return (first :: others, counts)
  | loop _ _, [] => none
  | loop body rest, n :: counts => do
    let (inner, counts) ← unrollTimes body.unroll n counts
    let (others, counts) ← rest.unroll counts
    return (inner ++ others, counts)

/-- Numbers that are exactly what a plan needs, with the acts that it unrolls to. -/
def Unrolls (plan : Plan) (counts : List Nat) (acts : List ModelAct) : Prop :=
  ∀ rest, plan.unroll (counts ++ rest) = some (acts, rest)

/-- The same for a plan that is gone through a number of times. -/
def UnrollsTimes (plan : Plan) (n : Nat) (counts : List Nat) (acts : List ModelAct) : Prop :=
  ∀ rest, unrollTimes plan.unroll n (counts ++ rest) = some (acts, rest)

theorem Unrolls.unroll {plan : Plan} {counts : List Nat} {acts : List ModelAct}
    (h : plan.Unrolls counts acts) : plan.unroll counts = some (acts, []) := by
  have hall := h []
  rwa [List.append_nil] at hall

theorem unrolls_ofActs (acts : List ModelAct) : (ofActs acts).Unrolls [] acts := by
  intro rest
  induction acts with
  | nil => rfl
  | cons a acts ih =>
    rw [List.nil_append] at ih ⊢
    rw [ofActs, Plan.unroll, ih]
    rfl

/-- A plan unrolls part by part. -/
theorem unroll_append (first second : Plan) (counts : List Nat) :
    (first.append second).unroll counts = (do
      let (acts, counts) ← first.unroll counts
      let (others, counts) ← second.unroll counts
      return (acts ++ others, counts)) := by
  induction first generalizing counts with
  | nil =>
    rw [nil_append, Plan.unroll]
    cases hsecond : second.unroll counts <;> simp [hsecond]
  | act a rest ih =>
    rw [append, Plan.unroll, ih, Plan.unroll]
    cases rest.unroll counts with
    | none => rfl
    | some acts =>
      dsimp only [Option.bind_eq_bind, Option.bind_some, pure]
      cases second.unroll acts.2 <;> rfl
  | loop body rest _ ih =>
    cases counts with
    | nil => rfl
    | cons n counts =>
      rw [append, Plan.unroll, Plan.unroll]
      cases unrollTimes body.unroll n counts with
      | none => rfl
      | some inner =>
        dsimp only [Option.bind_eq_bind, Option.bind_some]
        rw [ih]
        cases rest.unroll inner.2 with
        | none => rfl
        | some acts =>
          dsimp only [Option.bind_eq_bind, Option.bind_some, pure]
          cases second.unroll acts.2 with
          | none => rfl
          | some others =>
            dsimp only [Option.bind_some]
            rw [List.append_assoc]

theorem Unrolls.append {first second : Plan} {counts others : List Nat}
    {acts moreActs : List ModelAct} (h : first.Unrolls counts acts)
    (h' : second.Unrolls others moreActs) :
    (first.append second).Unrolls (counts ++ others) (acts ++ moreActs) := by
  intro rest
  rw [unroll_append, List.append_assoc, h (others ++ rest)]
  dsimp only [Option.bind_eq_bind, Option.bind_some]
  rw [h' rest]
  rfl

theorem unrollsTimes_zero (plan : Plan) : plan.UnrollsTimes 0 [] [] :=
  fun _ => rfl

theorem Unrolls.succ {plan : Plan} {n : Nat} {counts others : List Nat}
    {acts moreActs : List ModelAct} (h : plan.Unrolls counts acts)
    (h' : plan.UnrollsTimes n others moreActs) :
    plan.UnrollsTimes (n + 1) (counts ++ others) (acts ++ moreActs) := by
  intro rest
  rw [unrollTimes, List.append_assoc, h (others ++ rest)]
  dsimp only [Option.bind_eq_bind, Option.bind_some]
  rw [h' rest]
  rfl

/-- A loop needs the number of times that it goes round, and then those of the loops in it. -/
theorem UnrollsTimes.loop {plan : Plan} {n : Nat} {counts : List Nat} {acts : List ModelAct}
    (h : plan.UnrollsTimes n counts acts) : (loop plan nil).Unrolls (n :: counts) acts := by
  intro rest
  rw [List.cons_append, Plan.unroll, h rest]
  dsimp only [Option.bind_eq_bind, Option.bind_some, Plan.unroll]
  rw [List.append_nil]
  rfl

end Plan

-- ---------------------------------------------------------------------------
-- Plans of programs
-- ---------------------------------------------------------------------------

/-- What a line has a model do. -/
def Line.act? : Line → Option ModelAct
  | .setInput model _ source _ objectId => some (.set model source objectId)
  | .solveModel model _ _ => some (.solve model)
  | _ => none

/-- Whether a line opens the body of a loop. -/
def Line.isLoop : Line → Bool
  | .whileComputing _ => true
  | _ => false

namespace Code

/-- The plan that lines of a program amount to. -/
def plan : Code → Plan
  | .nil => .nil
  | .node line below after =>
    (if line.isLoop then .loop (plan below) .nil
      else (Plan.ofActs line.act?.toList).append (plan below)).append (plan after)

theorem plan_append (first second : Code) :
    Code.plan (first.append second) = first.plan.append second.plan := by
  induction first with
  | nil => rfl
  | node line below after _ ih => rw [Forest.append, plan, ih, plan, Plan.append_assoc]

/-- Lines that open no loop are a list of acts. -/
theorem plan_ofLines {lines : List Line} (h : ∀ line ∈ lines, line.isLoop = false) :
    (ofLines lines).plan = .ofActs (lines.filterMap Line.act?) := by
  induction lines with
  | nil => rfl
  | cons line lines ih =>
    rw [ofLines, plan, h line List.mem_cons_self, plan,
      ih fun other ho => h other (List.mem_cons_of_mem _ ho), filterMap_cons_toList,
      Plan.ofActs_append, Plan.append_nil]
    rfl

end Code

namespace Workflow

variable {μ : Type} {v w : Workflow μ} {options : ProgramOptions}

-- ---------------------------------------------------------------------------
-- Plans of blocks
-- ---------------------------------------------------------------------------

/-- What a model is made to do for one of its slots, if this is a linked input. -/
def setAct? (w : Workflow μ) (block : Block) (slot : Slot) : Option ModelAct :=
  if slot.direction = .input then
    (w.partner? slot.id).map fun source => .set block.id source slot.objectId
  else none

/-- What a model is made to do when it is executed. -/
def modelActs (w : Workflow μ) (block : Block) : List ModelAct :=
  block.slots.filterMap (w.setAct? block) ++ [.solve block.id]

/-- Whether something says how long the steps of a time loop are. -/
def hasStepSource (w : Workflow μ) (block : Block) (below : Forest Block) : Bool :=
  w.isNamedLinked block BlockKind.maxStepSlot || !(below.toList.filter Block.isModel).isEmpty

/-- The plan of a forest of blocks, if it can be executed. -/
def plan? (w : Workflow μ) : Forest Block → Option Plan
  | .nil => some .nil
  | .node block below after => do
    let own ← match block.kind with
      | .ifElse => none
      | .workflow | .sequential => w.plan? below
      | .timeLoop =>
        if w.hasStepSource block below then (w.plan? below).map (.loop · .nil) else none
      | .model _ => some (.ofActs (w.modelActs block))
      | _ => some .nil
    let rest ← w.plan? after
    return own.append rest

theorem stepSources_ne_nil_iff {block : Block} {below : Forest Block} {time : TimeExpr} :
    w.stepSources block (below.toList.filter Block.isModel) time ≠ [] ↔
      w.hasStepSource block below = true := by
  rw [stepSources, hasStepSource]
  cases w.isNamedLinked block BlockKind.maxStepSlot <;>
    cases below.toList.filter Block.isModel <;> simp

-- ---------------------------------------------------------------------------
-- From code to plans
-- ---------------------------------------------------------------------------

theorem plan_modelLines (block : Block) (scope : CodeScope) :
    (Code.ofLines (w.modelLines block scope)).plan = .ofActs (w.modelActs block) := by
  have hinput : ∀ slot line, w.inputLine? block scope slot = some line →
      line.isLoop = false ∧ line.act? = w.setAct? block slot := by
    intro slot line hline
    unfold inputLine? at hline
    unfold setAct?
    split at hline
    · rename_i hdir
      obtain ⟨source, hsource, rfl⟩ := Option.map_eq_some_iff.mp hline
      rw [if_pos hdir, hsource]
      exact ⟨rfl, rfl⟩
    · cases hline
  have hnone : ∀ slot, w.inputLine? block scope slot = none → w.setAct? block slot = none := by
    intro slot hline
    unfold inputLine? at hline
    unfold setAct?
    split at hline
    · rw [Option.map_eq_none_iff] at hline
      rw [hline]
      split <;> rfl
    · rename_i hdir
      rw [if_neg hdir]
  rw [Code.plan_ofLines, modelActs, modelLines, List.filterMap_append, List.filterMap_append,
    List.filterMap_filterMap]
  · have hslots :
        block.slots.filterMap (fun slot => (w.inputLine? block scope slot).bind Line.act?) =
          block.slots.filterMap (w.setAct? block) := by
      refine List.filterMap_congr fun slot _ => ?_
      cases hline : w.inputLine? block scope slot with
      | none => exact (hnone slot hline).symm
      | some line => exact (hinput slot line hline).2
    rw [hslots]
    rfl
  · intro line hline
    rw [modelLines, List.mem_append, List.mem_append, List.mem_singleton,
      List.mem_filterMap] at hline
    rcases hline with (hline | ⟨slot, -, hline⟩) | rfl
    · simp only [codeHeader, List.mem_cons, List.not_mem_nil, or_false] at hline
      rcases hline with rfl | rfl <;> rfl
    · exact (hinput slot line hline).1
    · rfl

/-- Lines that neither call a model nor open a loop amount to nothing. -/
theorem plan_eq_nil {lines : List Line}
    (h : ∀ line ∈ lines, line.isLoop = false ∧ line.act? = none) :
    (Code.ofLines lines).plan = .nil := by
  rw [Code.plan_ofLines fun line hline => (h line hline).1,
    List.filterMap_eq_nil_iff.mpr fun line hline => (h line hline).2]
  rfl

/-- The code of a time loop amounts to a loop over the plan of its children. -/
theorem plan_loopCode (block : Block) (time : TimeExpr) (sources : List StepSource)
    (children : Code) :
    (w.loopCode options block time sources children).plan = .loop children.plan .nil := by
  simp only [loopCode, codeHeader, Code.concat, Code.block, Forest.tree, Code.ofLines,
    Forest.append, Forest.append_nil, List.cons_append, List.nil_append, Code.plan, Line.isLoop,
    Line.act?, Option.toList_none, Plan.ofActs, Plan.nil_append, Plan.append, if_true,
    Bool.false_eq_true, if_false]

/-- The code of a block that is no container amounts to what it has a model do. -/
theorem plan_executionLines {block : Block} (hkind : block.kind.isContainer = false)
    (scope : CodeScope) : (Code.ofLines (w.executionLines block scope)).plan =
      match block.kind with
      | .model _ => .ofActs (w.modelActs block)
      | _ => .nil := by
  have hheader : ∀ lines : List Line, (∀ line ∈ lines, line.isLoop = false ∧ line.act? = none) →
      (Code.ofLines (codeHeader "execution" block ++ lines)).plan = .nil := by
    intro lines hlines
    refine plan_eq_nil fun line hline => ?_
    simp only [codeHeader, List.cons_append, List.nil_append, List.mem_cons] at hline
    rcases hline with rfl | rfl | hline
    · exact ⟨rfl, rfl⟩
    · exact ⟨rfl, rfl⟩
    · exact hlines line hline
  unfold executionLines
  cases h : block.kind with
  | model setup => exact plan_modelLines block scope
  | named name type =>
    dsimp only
    split
    · refine hheader _ fun line hline => ?_
      rw [List.mem_singleton.mp hline]
      exact ⟨rfl, rfl⟩
    · rfl
  | code lines =>
    refine hheader _ fun line hline => ?_
    obtain ⟨text, -, rfl⟩ := List.mem_map.mp hline
    exact ⟨rfl, rfl⟩
  | constant value => rfl
  | workflow | sequential | timeLoop | ifElse =>
    rw [h] at hkind
    cases hkind

/-- **The code of a tree amounts to the plan of the tree.** -/
theorem plan?_of_executionCode {forest : Forest Block} {scope : CodeScope} {code : Code}
    (h : w.executionCode options forest scope = .ok code) : w.plan? forest = some code.plan := by
  induction forest generalizing scope code with
  | nil =>
    cases h
    rfl
  | node block below after ihBelow ihAfter =>
    obtain ⟨own, rest, hown, hrest, rfl⟩ := executionCode_node h
    rw [plan?, ihAfter hrest, Code.plan_append]
    cases hown with
    | sequence hkind hcode =>
      rcases hkind with hkind | hkind <;> rw [hkind, ihBelow hcode] <;> rfl
    | loop hkind hsources hcode =>
      rw [hkind]
      dsimp only
      rw [if_pos (stepSources_ne_nil_iff.mp hsources), ihBelow hcode, plan_loopCode]
      rfl
    | leaf hkind =>
      rw [plan_executionLines hkind]
      cases h : block.kind with
      | model | constant | named | code => rfl
      | workflow | sequential | timeLoop | ifElse =>
        rw [h] at hkind
        cases hkind

-- ---------------------------------------------------------------------------
-- Names
-- ---------------------------------------------------------------------------

theorem isNamedLinked_unnamed (block : Block) (name : String) :
    w.unnamed.isNamedLinked block.unnamed name = w.isNamedLinked block name := by
  have hslot : block.unnamed.slot? name = (block.slot? name).map Slot.unnamed := by
    rw [Block.slot?, Block.unnamed, List.find?_map]
    rfl
  rw [isNamedLinked, hslot, isNamedLinked]
  cases block.slot? name <;> rfl

theorem modelActs_unnamed (block : Block) :
    w.unnamed.modelActs block.unnamed = w.modelActs block := by
  rw [modelActs, modelActs, Block.unnamed, List.filterMap_map]
  rfl

theorem hasStepSource_unnamed (block : Block) (below : Forest Block) :
    w.unnamed.hasStepSource block.unnamed (below.map Block.unnamed) =
      w.hasStepSource block below := by
  have hmodels : ((below.map Block.unnamed).toList.filter Block.isModel).isEmpty =
      (below.toList.filter Block.isModel).isEmpty := by
    rw [Forest.toList_map, List.filter_map, List.isEmpty_map]
    rfl
  rw [hasStepSource, hasStepSource, isNamedLinked_unnamed, hmodels]

/-- The plan of a forest does not depend on names. -/
theorem plan?_unnamed (forest : Forest Block) :
    w.unnamed.plan? (forest.map Block.unnamed) = w.plan? forest := by
  induction forest with
  | nil => rfl
  | node block below after ihBelow ihAfter =>
    rw [Forest.map, plan?, plan?, ihBelow, ihAfter, hasStepSource_unnamed, modelActs_unnamed]
    rfl

/-- Workflows that differ in identifiers only have the same plan. -/
theorem plan?_of_unnamed (h : v.unnamed = w.unnamed) : v.plan? v.tree = w.plan? w.tree := by
  rw [← plan?_unnamed v.tree, ← plan?_unnamed w.tree, h]
  exact congrArg _ (congrArg tree h)

end Workflow

end SlotFlow
