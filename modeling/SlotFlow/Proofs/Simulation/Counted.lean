import Mathlib.Algebra.Ring.Nat
import SlotFlow.Proofs.Simulation.Performed
/-!
# Counting what time loops do

An execution that also says how many steps each time loop has made, in the order in which the loops
have begun: a loop within a loop counts anew whenever it begins. Without the numbers it is the
execution itself.

* `Simulation.repeatCounted`, `Simulation.countedLoop`, `Simulation.counted` — the execution with
  the numbers;
* `Simulation.GoesBy` — an execution goes by a plan.

## Results

* `Simulation.execute_eq_forget` — without the numbers nothing is different;
* `Simulation.performs_counted` — an execution goes by the plan of the tree.
-/

namespace SlotFlow.Simulation

variable {R μ α β : Type}

/-- An action without its answer. -/
def forget (action : Action R μ α) : Action R μ Unit := do
  let _ ← action
  return ()

theorem forget_bind (action : Action R μ α) (next : α → Action R μ β) :
    forget (action >>= next) = action >>= fun a => forget (next a) :=
  bind_assoc ..

theorem forget_then (action : Action R μ α) (next : Action R μ β) :
    (forget action >>= fun _ => next) = action >>= fun _ => next :=
  (bind_assoc ..).trans (bind_congr fun _ => pure_bind ..)

theorem isNone_maxStepSlot? (w : Workflow μ) (loop : Block) :
    (maxStepSlot? w loop).isNone = !w.isNamedLinked loop BlockKind.maxStepSlot := by
  rw [maxStepSlot?, Workflow.isNamedLinked]
  cases loop.slot? BlockKind.maxStepSlot with
  | none => rfl
  | some slot => cases h : w.isLinked slot.id <;> simp [h]

-- ---------------------------------------------------------------------------
-- Executions with numbers
-- ---------------------------------------------------------------------------

section Counting

variable [TimeNumber R]

/-- Makes steps until a time loop stops; gives their number, and the numbers from within them. -/
def repeatCounted (name : String) (next : Action R μ R)
    (body : TimeStep R → Action R μ (List Nat)) : Nat → TimeLoop R → Action R μ (Nat × List Nat)
  | fuel, loop =>
    if loop.running then
      match fuel with
      | 0 => throw (.stepLimit name)
      | fuel + 1 => do
        let dt ← next
        modify fun sim => { sim with timeSteps := sim.timeSteps + 1 }
        let counts ← body (loop.advance dt).1
        let (number, others) ← repeatCounted name next body fuel (loop.advance dt).2
        return (number + 1, counts ++ others)
    else return (0, [])

/-- One step of a time loop, and then the others. -/
theorem repeatSteps_succ (name : String) (next : Action R μ R) (body : TimeStep R → Action R μ Unit)
    (fuel : Nat) {loop : TimeLoop R} (h : loop.running = true) :
    repeatSteps name next body (fuel + 1) loop = (do
      let dt ← next
      modify fun sim => { sim with timeSteps := sim.timeSteps + 1 }
      body (loop.advance dt).1
      repeatSteps name next body fuel (loop.advance dt).2) := by
  funext sim
  rw [repeatSteps, bind_apply]
  dsimp only
  rw [if_pos h]
  rcases next sim with ⟨_ | dt, middle⟩
  · rfl
  · dsimp only
    rw [bind_apply]
    show _ = (body (loop.advance dt).1 >>= fun _ => repeatSteps name next body fuel
      (loop.advance dt).2) { middle with timeSteps := middle.timeSteps + 1 }
    rw [bind_apply]
    rcases body (loop.advance dt).1 { middle with timeSteps := middle.timeSteps + 1 } with
      ⟨_ | _, _⟩ <;> rfl

theorem repeatSteps_eq_forget (name : String) (next : Action R μ R)
    (body : TimeStep R → Action R μ (List Nat)) (fuel : Nat) (loop : TimeLoop R) :
    repeatSteps name next (fun step => forget (body step)) fuel loop =
      forget (repeatCounted name next body fuel loop) := by
  induction fuel generalizing loop with
  | zero =>
    funext sim
    rw [repeatSteps, repeatCounted]
    split <;> rfl
  | succ fuel ih =>
    by_cases hrunning : loop.running = true
    · rw [repeatSteps_succ _ _ _ _ hrunning, repeatCounted, if_pos hrunning]
      simp only [forget_bind, forget_then, ih]
      rfl
    · funext sim
      rw [repeatSteps, repeatCounted, if_neg hrunning]
      dsimp only
      rw [if_neg hrunning]
      rfl

variable [NativeModel R μ]

/-- Executes a time loop; gives the number of its steps, and then the numbers from within them. -/
def countedLoop (block : Block) (models : List Block) (moment : Moment R)
    (body : Moment R → Action R μ (List Nat)) : Action R μ (List Nat) := do
  let sim ← get
  let maxStep := maxStepSlot? sim.workflow block
  if maxStep.isNone && models.isEmpty then
    throw (.generation (.missingStepSource block.name))
  let time ← readTime block BlockKind.startTimeSlot moment
  let target ← readTime block BlockKind.targetTimeSlot moment
  let (number, counts) ← repeatCounted block.name (nextStep block maxStep models moment)
    (fun step => body { time := some step.time, step := some step })
    sim.stepLimit (.start time target sim.tolerance)
  return number :: counts

/-- Executes the trees of a forest; gives the numbers of steps of the time loops in it. -/
def counted : Forest Block → Moment R → Action R μ (List Nat)
  | .nil, _ => return []
  | .node block below after, moment => do
    let counts ← match block.kind with
      | .ifElse => throw (.generation (.unsupportedBlock block.name block.kind.recordName))
      | .workflow | .sequential => counted below moment
      | .timeLoop =>
        countedLoop block (below.toList.filter Block.isModel) moment (counted below)
      | .model setup => do
        executeModel block setup moment
        pure []
      | .named .. => do
        executeNamed block moment
        pure []
      | .constant _ | .code _ => pure []
    let others ← counted after moment
    return counts ++ others

-- ---------------------------------------------------------------------------
-- Without the numbers
-- ---------------------------------------------------------------------------

theorem executeLoop_eq_forget (block : Block) (models : List Block) (moment : Moment R)
    (body : Moment R → Action R μ (List Nat)) :
    executeLoop block models moment (fun moment => forget (body moment)) =
      forget (countedLoop block models moment body) := by
  unfold executeLoop countedLoop
  simp only [forget_bind, repeatSteps_eq_forget]
  refine bind_congr fun sim => ?_
  split
  · rfl
  · simp only [forget_bind]
    rfl

/-- **Without the numbers nothing is different.** -/
theorem execute_eq_forget (forest : Forest Block) (moment : Moment R) :
    execute forest moment = forget (counted forest moment : Action R μ (List Nat)) := by
  induction forest generalizing moment with
  | nil => rfl
  | node block below after ihBelow ihAfter =>
    have hloop := executeLoop_eq_forget block (below.toList.filter Block.isModel) moment
      (counted below : Moment R → Action R μ (List Nat))
    rw [← funext ihBelow] at hloop
    rw [execute, counted, ihAfter]
    cases block.kind with
    | ifElse => rfl
    | workflow | sequential =>
      simp only [ihBelow, forget_bind, forget_then]
      rfl
    | timeLoop =>
      simp only [hloop, forget_bind, forget_then]
      rfl
    | model | named | constant | code =>
      simp only [pure_bind, forget_bind]
      rfl

end Counting

-- ---------------------------------------------------------------------------
-- What models do
-- ---------------------------------------------------------------------------

variable {sim : Simulation R μ} {plan : Plan}

/-- There are instances for the models of a forest. -/
def HasModels (sim : Simulation R μ) (forest : Forest Block) : Prop :=
  ∀ block ∈ forest.toList, block.isModel = true → sim.HasModel block.id

theorem Continues.hasModels {after : Simulation R μ} (h : sim.Continues after)
    {forest : Forest Block} (hmodels : sim.HasModels forest) : after.HasModels forest :=
  fun block hb hmodel => h.hasModel (hmodels block hb hmodel)

/-- An execution goes by a plan: given its numbers, the plan unrolls to what the models do, and as many
steps are made as the numbers are all together. -/
structure GoesBy (plan : Plan) (counts : List Nat) (acts : List ModelAct) (steps : Nat) : Prop where
  unrolls : plan.Unrolls counts acts
  steps : steps = counts.sum

theorem goesBy_nil : GoesBy .nil [] [] 0 :=
  ⟨fun _ => rfl, rfl⟩

theorem goesBy_ofActs (acts : List ModelAct) : GoesBy (.ofActs acts) [] acts 0 :=
  ⟨Plan.unrolls_ofActs acts, rfl⟩

theorem GoesBy.append {first second : Plan} {counts others : List Nat}
    {acts moreActs : List ModelAct} {steps more : Nat} (h : GoesBy first counts acts steps)
    (h' : GoesBy second others moreActs more) :
    GoesBy (first.append second) (counts ++ others) (acts ++ moreActs) (steps + more) :=
  ⟨h.unrolls.append h'.unrolls, by rw [List.sum_append, h.steps, h'.steps]⟩

/-- Executions one after the other go by one plan after the other. -/
theorem performs_append {own rest : Plan} {first second : Action R μ (List Nat)}
    (h : Performs first sim (GoesBy own))
    (h' : ∀ after, sim.Continues after → Performs second after (GoesBy rest)) :
    Performs (do
      let counts ← first
      let others ← second
      return counts ++ others) sim (GoesBy (own.append rest)) := by
  refine h.bind fun counts acts steps middle hown hmiddle => ?_
  refine (h' middle hmiddle).bind fun others more steps' final hrest _ => ?_
  refine performs_pure ?_
  rw [List.append_nil]
  exact hown.append hrest

/-- Going round a time loop has models do what its plan says, as often as it is gone round. -/
theorem performs_repeatCounted [TimeNumber R] (name : String) {next : Action R μ R}
    {body : TimeStep R → Action R μ (List Nat)}
    (hnext : ∀ after, sim.Continues after → Quiet next after)
    (hbody : ∀ step after, sim.Continues after → Performs (body step) after (GoesBy plan))
    (fuel : Nat) (loop : TimeLoop R) :
    Performs (repeatCounted name next body fuel loop) sim fun made acts steps =>
      plan.UnrollsTimes made.1 made.2 acts ∧ steps = made.1 + made.2.sum := by
  induction fuel generalizing loop sim with
  | zero =>
    rw [repeatCounted]
    split
    · exact performs_throw rfl
    · exact performs_pure ⟨plan.unrollsTimes_zero, rfl⟩
  | succ fuel ih =>
    rw [repeatCounted]
    split
    · refine (hnext sim (.refl sim)).bind fun dt middle hmiddle => ?_
      -- the step is counted, the body is executed, and then the other steps follow
      have hcount : Performs (modify fun sim => { sim with timeSteps := sim.timeSteps + 1 } :
          Action R μ PUnit) middle fun _ acts steps => acts = [] ∧ steps = 1 :=
        .ok [] ⟨rfl, rfl⟩ rfl rfl ⟨rfl, rfl⟩
      refine hcount.bind fun _ acts steps start hone hstart => ?_
      obtain ⟨rfl, rfl⟩ := hone
      have hgoes := hmiddle.trans hstart
      refine (hbody _ start hgoes).bind fun counts inner steps done hinner hdone => ?_
      obtain ⟨hunrolls, rfl⟩ := hinner
      have hcontinues := hgoes.trans hdone
      have hrest := ih (fun after h => hnext after (hcontinues.trans h))
        (fun step after h => hbody step after (hcontinues.trans h)) (loop.advance dt).2
      refine hrest.bind fun made more others final hmore _ => ?_
      obtain ⟨htimes, rfl⟩ := hmore
      refine performs_pure ⟨?_, ?_⟩
      · rw [List.nil_append, List.append_nil]
        exact hunrolls.succ htimes
      · rw [List.sum_append]
        omega
    · exact performs_pure ⟨plan.unrollsTimes_zero, rfl⟩

variable [TimeNumber R] [NativeModel R μ]

/-- A time loop has models do what its plan says, if something says how long its steps are. -/
theorem performs_countedLoop {block : Block} {below : Forest Block}
    (hsource : sim.workflow.hasStepSource block below = true) (moment : Moment R)
    {body : Moment R → Action R μ (List Nat)}
    (hbody : ∀ moment after, sim.Continues after → Performs (body moment) after (GoesBy plan)) :
    Performs (countedLoop block (below.toList.filter Block.isModel) moment body) sim
      (GoesBy (.loop plan .nil)) := by
  have hsome : ¬((maxStepSlot? sim.workflow block).isNone &&
      (below.toList.filter Block.isModel).isEmpty) = true := by
    rw [Workflow.hasStepSource, Bool.or_eq_true, Bool.not_eq_true'] at hsource
    rw [isNone_maxStepSlot?, Bool.and_eq_true, Bool.not_eq_true']
    rintro ⟨hlinked, hmodels⟩
    rcases hsource with h | h
    · rw [h] at hlinked
      cases hlinked
    · rw [h] at hmodels
      cases hmodels
  unfold countedLoop
  refine performs_get ?_
  dsimp only
  rw [if_neg hsome]
  refine (quiet_readTime ..).bind fun time middle hmiddle => ?_
  refine (quiet_readTime ..).bind fun target start hstart => ?_
  have hgoes := hmiddle.trans hstart
  refine Performs.bind (performs_repeatCounted block.name (fun after _ => quiet_nextStep ..)
    (fun step after h => hbody _ after (hgoes.trans h)) ..) fun made acts steps after hmade _ => ?_
  obtain ⟨htimes, rfl⟩ := hmade
  refine performs_pure ⟨?_, ?_⟩
  · rw [List.append_nil]
    exact htimes.loop
  · rw [List.sum_cons]
    rfl

/-- A model goes by the list of what it does when it is executed. -/
theorem performs_model {block : Block} (h : sim.HasModel block.id) (setup : ModelSetup)
    (moment : Moment R) : Performs (do executeModel block setup moment; pure []) sim
      (GoesBy (.ofActs (sim.workflow.modelActs block))) := by
  refine (performs_executeModel h setup moment).bind fun _ acts steps final hacts _ => ?_
  obtain ⟨rfl, rfl⟩ := hacts
  refine performs_pure ?_
  rw [List.append_nil]
  exact goesBy_ofActs _

/-- **An execution goes by the plan of the tree.** -/
theorem performs_counted {forest : Forest Block} (hmodels : sim.HasModels forest)
    (hplan : sim.workflow.plan? forest = some plan) (moment : Moment R) :
    Performs (counted forest moment) sim (GoesBy plan) := by
  induction forest generalizing sim moment plan with
  | nil =>
    cases hplan
    exact performs_pure goesBy_nil
  | node block below after ihBelow ihAfter =>
    have hunder : sim.HasModels below := fun b hb =>
      hmodels b (List.mem_cons_of_mem _ (List.mem_append_left _ hb))
    have hlater : sim.HasModels after := fun b hb =>
      hmodels b (List.mem_cons_of_mem _ (List.mem_append_right _ hb))
    -- after what the first block does follows what the others do
    have hthen : ∀ {own : Plan} {action : Action R μ (List Nat)},
        (do let rest ← sim.workflow.plan? after; return own.append rest) = some plan →
        Performs action sim (GoesBy own) →
        Performs (do
          let counts ← action
          let others ← counted after moment
          return counts ++ others) sim (GoesBy plan) := by
      intro own action hlast haction
      obtain ⟨rest, hrest, heq⟩ := Option.bind_eq_some_iff.mp hlast
      obtain rfl : own.append rest = plan := Option.some.inj heq
      exact performs_append haction fun middle hmiddle =>
        ihAfter (hmiddle.hasModels hlater) (by rw [hmiddle.workflow]; exact hrest) moment
    rw [Workflow.plan?] at hplan
    rw [counted]
    cases hkind : block.kind with
    | ifElse =>
      rw [hkind] at hplan
      cases hplan
    | workflow | sequential =>
      rw [hkind] at hplan
      obtain ⟨own, hown, hrest⟩ := Option.bind_eq_some_iff.mp hplan
      exact hthen hrest (ihBelow hunder hown moment)
    | timeLoop =>
      rw [hkind] at hplan
      dsimp only at hplan
      split at hplan
      · rename_i hsource
        obtain ⟨own, hown, hrest⟩ := Option.bind_eq_some_iff.mp hplan
        obtain ⟨body, hbody, rfl⟩ := Option.map_eq_some_iff.mp hown
        refine hthen hrest (performs_countedLoop hsource moment fun inner start hstart => ?_)
        exact ihBelow (hstart.hasModels hunder) (by rw [hstart.workflow]; exact hbody) inner
      · cases hplan
    | model setup =>
      rw [hkind] at hplan
      have hblock := hmodels block List.mem_cons_self (by rw [Block.isModel, hkind]; rfl)
      have hboth := hthen hplan (performs_model hblock setup moment)
      rwa [bind_assoc] at hboth
    | named =>
      rw [hkind] at hplan
      have hboth := hthen hplan ((quiet_executeNamed block moment).bind fun _ _ _ =>
        performs_pure goesBy_nil)
      rwa [bind_assoc] at hboth
    | constant | code =>
      rw [hkind] at hplan
      exact hthen hplan (performs_pure goesBy_nil)

end SlotFlow.Simulation
