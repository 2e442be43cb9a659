import SlotFlow.Proofs.Program.Planned
import SlotFlow.Proofs.Simulation.Follows
/-!
# A simulation refuses what there is no program for

There is no program for a workflow with a place for conditional execution, or with a time loop of
whose steps nothing says how long they are. Code is not made for such a workflow at all; a simulation
of it comes to nothing once it gets there. A run that succeeds has been everywhere: each time loop
goes round at least once.

* `Simulation.Presupposes` — an action succeeds only under a condition, and under the condition
  nothing but a mishap keeps it from succeeding.

## Results

* `Simulation.presupposes_counted` — an execution presupposes a plan of the tree;
* `Simulation.Over.workflow_eq` — a simulation stays with its workflow;
* `Simulation.Over.refuses_alike` — programs and simulations refuse the same workflows.
-/

namespace SlotFlow.Simulation

variable {R μ α β : Type}

/-- An action succeeds only if `p` holds; if `p` holds, an error is a mishap. In any case the
simulation goes on. -/
structure Presupposes (p : Prop) (action : Action R μ α) (sim : Simulation R μ) : Prop where
  continues : sim.Continues (action sim).2
  holds : ∀ a, (action sim).1 = .ok a → p
  mishap : p → ∀ error, (action sim).1 = .error error → error.isMishap = true

variable {sim after : Simulation R μ} {p q : Prop} {action : Action R μ α} {next : α → Action R μ β}
  {post : α → List ModelAct → Nat → Prop}

theorem Presupposes.congr (h : Presupposes p action sim) (hpq : p ↔ q) :
    Presupposes q action sim :=
  ⟨h.continues, fun a ha => hpq.mp (h.holds a ha), fun hq => h.mishap (hpq.mpr hq)⟩

/-- The answer does not matter for what an action presupposes. -/
theorem Presupposes.of_map {answered : Action R μ β} {f : α → β}
    (hmap : answered sim = ((action sim).1.map f, (action sim).2)) (h : Presupposes p action sim) :
    Presupposes p answered sim := by
  obtain ⟨hcontinues, hholds, hmishap⟩ := h
  refine ⟨?_, fun b hb => ?_, fun hp error herror => ?_⟩
  · rw [hmap]
    exact hcontinues
  · rw [hmap] at hb
    obtain ⟨a, ha, -⟩ := map_eq_ok.mp hb
    exact hholds a ha
  · rw [hmap] at herror
    refine hmishap hp error ?_
    cases hresult : (action sim).1 with
    | ok a =>
      rw [hresult] at herror
      cases herror
    | error other =>
      rw [hresult] at herror
      cases herror
      rfl

/-- Nothing is presupposed by an action that only a mishap can stop. -/
theorem Performs.presupposes (h : Performs action sim post) : Presupposes True action sim :=
  ⟨h.continues, fun _ _ => trivial, fun _ => h.mishap⟩

theorem presupposes_pure {a : α} (h : p) : Presupposes p (pure a) sim :=
  ⟨.refl sim, fun _ _ => h, nofun⟩

theorem presupposes_throw {error : RunError R} (h : p → error.isMishap = true) :
    Presupposes p (throw error : Action R μ α) sim where
  continues := .refl sim
  holds := nofun
  mishap := by
    rintro hp _ ⟨⟩
    exact h hp

/-- Actions one after the other presuppose what each of them presupposes. -/
theorem Presupposes.bind (h : Presupposes p action sim)
    (hnext : ∀ a after, sim.Continues after → Presupposes q (next a) after) :
    Presupposes (p ∧ q) (action >>= next) sim := by
  obtain ⟨hcontinues, hholds, hmishap⟩ := h
  rcases houtcome : action sim with ⟨result, middle⟩
  rw [houtcome] at hcontinues hholds hmishap
  cases result with
  | error error =>
    have hstop : (action >>= next) sim = (.error error, middle) := by rw [bind_apply, houtcome]
    refine ⟨?_, fun b hb => ?_, fun hboth other hother => ?_⟩
    · rw [hstop]
      exact hcontinues
    · rw [hstop] at hb
      cases hb
    · rw [hstop] at hother
      cases hother
      exact hmishap hboth.1 error rfl
  | ok a =>
    have hgo : (action >>= next) sim = next a middle := by rw [bind_apply, houtcome]
    obtain ⟨hlast, hthen, herror⟩ := hnext a middle hcontinues
    refine ⟨?_, fun b hb => ?_, fun hboth => ?_⟩
    · rw [hgo]
      exact hcontinues.trans hlast
    · rw [hgo] at hb
      exact ⟨hholds a rfl, hthen b hb⟩
    · rw [hgo]
      exact herror hboth.2

/-- What comes after an action that only a mishap can stop. -/
theorem Performs.then (h : Performs action sim post)
    (hnext : ∀ a after, sim.Continues after → Presupposes q (next a) after) :
    Presupposes q (action >>= next) sim :=
  (h.presupposes.bind hnext).congr (and_iff_right trivial)

theorem presupposes_get {next : Simulation R μ → Action R μ β} (h : Presupposes p (next sim) sim) :
    Presupposes p (get >>= next) sim :=
  ⟨h.continues, h.holds, h.mishap⟩

/-- A time loop that is running presupposes what its body does: it goes round at least once. -/
theorem presupposes_repeatCounted [TimeNumber R] (name : String) {next : Action R μ R}
    {body : TimeStep R → Action R μ (List Nat)}
    (hnext : ∀ after, sim.Continues after → Quiet next after)
    (hbody : ∀ step after, sim.Continues after → Presupposes p (body step) after)
    (fuel : Nat) (loop : TimeLoop R) :
    Presupposes (loop.running = true → p) (repeatCounted name next body fuel loop) sim := by
  induction fuel generalizing loop sim with
  | zero =>
    rw [repeatCounted]
    split
    · exact presupposes_throw fun _ => rfl
    · rename_i hstopped
      exact presupposes_pure fun hrunning => absurd hrunning hstopped
  | succ fuel ih =>
    rw [repeatCounted]
    split
    · rename_i hrunning
      have hcount : ∀ start : Simulation R μ, Performs
          (modify fun sim => { sim with timeSteps := sim.timeSteps + 1 } : Action R μ PUnit) start
          fun _ _ _ => True :=
        fun start => .ok [] ⟨rfl, rfl⟩ rfl rfl trivial
      refine Presupposes.congr ((hnext sim (.refl sim)).then fun dt middle hmiddle =>
        (hcount middle).then fun _ start hstart => ?_) (forall_prop_of_true hrunning).symm
      have hgoes := hmiddle.trans hstart
      -- the first time round is enough, and the others presuppose nothing else
      refine Presupposes.congr ((hbody _ start hgoes).bind fun counts done hdone =>
        (ih (fun after h => hnext after ((hgoes.trans hdone).trans h))
          (fun step after h => hbody step after ((hgoes.trans hdone).trans h)) _).bind
        fun made final _ => presupposes_pure trivial) ⟨And.left, fun hp => ⟨hp, fun _ => hp, trivial⟩⟩
    · rename_i hstopped
      exact presupposes_pure fun hrunning => absurd hrunning hstopped

-- ---------------------------------------------------------------------------
-- Models
-- ---------------------------------------------------------------------------

/-- A call of a model that may not be there. -/
theorem presupposes_callModel (id : BlockId) (className : String) (call : ModelCall R)
    (act : μ → Except String Unit × μ) :
    Presupposes True (callModel id className call act) sim := by
  by_cases h : sim.HasModel id
  · exact (performs_callModel h className call act).presupposes
  · have hnothing : callModel id className call act sim = (.ok (), sim) := by
      rw [callModel, model?_eq_none h]
    refine ⟨?_, fun _ _ => trivial, fun _ error herror => ?_⟩
    · rw [hnothing]
      exact .refl sim
    · rw [hnothing] at herror
      cases herror

variable [TimeNumber R] [NativeModel R μ]

theorem presupposes_takeInput (block : Block) (className : String) (moment : Moment R)
    (slot : Slot) : Presupposes True (takeInput block className moment slot) sim := by
  unfold takeInput
  split
  · refine presupposes_get ?_
    split
    · exact presupposes_pure trivial
    · exact (quiet_provided ..).then fun value after _ => presupposes_callModel ..
  · exact presupposes_pure trivial

theorem presupposes_takeInputs (block : Block) (className : String) (moment : Moment R)
    (slots : List Slot) : Presupposes True (takeInputs block className moment slots) sim := by
  induction slots generalizing sim with
  | nil => exact presupposes_pure trivial
  | cons slot slots ih =>
    rw [takeInputs]
    exact ((presupposes_takeInput ..).bind fun _ _ _ => ih).congr (and_iff_right trivial)

theorem presupposes_executeModel (block : Block) (setup : ModelSetup) (moment : Moment R) :
    Presupposes True (executeModel block setup moment) sim := by
  unfold executeModel
  exact ((presupposes_takeInputs ..).bind fun _ _ _ => presupposes_callModel ..).congr
    (and_iff_right trivial)

-- ---------------------------------------------------------------------------
-- Trees
-- ---------------------------------------------------------------------------

/-- A time loop presupposes that something says how long its steps are, and what its body does. -/
theorem presupposes_countedLoop {block : Block} {below : Forest Block} (moment : Moment R)
    {body : Moment R → Action R μ (List Nat)}
    (hbody : ∀ moment after, sim.Continues after → Presupposes p (body moment) after) :
    Presupposes (sim.workflow.hasStepSource block below = true ∧ p)
      (countedLoop block (below.toList.filter Block.isModel) moment body) sim := by
  have hmissing : ((maxStepSlot? sim.workflow block).isNone &&
      (below.toList.filter Block.isModel).isEmpty) = !sim.workflow.hasStepSource block below := by
    rw [isNone_maxStepSlot?, Workflow.hasStepSource, Bool.not_or, Bool.not_not]
  unfold countedLoop
  refine presupposes_get ?_
  dsimp only
  rw [hmissing]
  split
  · rename_i hnone
    refine presupposes_throw fun hboth => ?_
    rw [hboth.1] at hnone
    cases hnone
  · rename_i hsource
    have hsource : sim.workflow.hasStepSource block below = true := by simpa using hsource
    refine Presupposes.congr ((quiet_readTime ..).then fun time middle hmiddle =>
      (quiet_readTime ..).then fun target start hstart => ?_) (and_iff_right hsource).symm
    refine Presupposes.congr ((presupposes_repeatCounted block.name
      (fun after _ => quiet_nextStep ..)
      (fun step after h => hbody _ after ((hmiddle.trans hstart).trans h)) _ _).bind
      fun made after _ => presupposes_pure trivial) ?_
    exact ⟨fun h => h.1 rfl, fun hp => ⟨fun _ => hp, trivial⟩⟩

/-- **An execution presupposes a plan of the tree.** -/
theorem presupposes_counted (forest : Forest Block) (moment : Moment R) :
    Presupposes ((sim.workflow.plan? forest).isSome = true) (counted forest moment) sim := by
  induction forest generalizing sim moment with
  | nil => exact presupposes_pure rfl
  | node block below after ihBelow ihAfter =>
    -- after what the first block does follows what the others do
    have hthen : ∀ {p : Prop} {action : Action R μ (List Nat)}, Presupposes p action sim →
        Presupposes (p ∧ (sim.workflow.plan? after).isSome = true) (do
          let counts ← action
          let others ← counted after moment
          return counts ++ others) sim := by
      intro p action haction
      refine haction.bind fun counts middle hmiddle => ?_
      rw [← hmiddle.workflow]
      exact ((ihAfter moment).bind fun others final _ => presupposes_pure trivial).congr
        (and_iff_left trivial)
    rw [Workflow.isSome_plan?_node, Bool.and_eq_true, counted]
    cases hkind : block.kind with
    | ifElse => exact presupposes_throw fun hboth => absurd hboth.1 Bool.false_ne_true
    | workflow | sequential => exact hthen (ihBelow moment)
    | timeLoop =>
      refine (hthen (presupposes_countedLoop moment fun inner start hstart => ?_)).congr
        (and_congr_left' (Bool.and_eq_true_iff).symm)
      rw [← hstart.workflow]
      exact ihBelow inner
    | model setup =>
      have hboth := hthen ((presupposes_executeModel block setup moment).bind fun _ _ _ =>
        presupposes_pure (a := []) trivial)
      rw [bind_assoc] at hboth
      exact hboth.congr (by simp)
    | named =>
      have hboth := hthen ((quiet_executeNamed block moment).then fun _ _ _ =>
        presupposes_pure (a := []) trivial)
      rw [bind_assoc] at hboth
      exact hboth.congr (by simp)
    | constant | code => exact (hthen (presupposes_pure (a := []) trivial)).congr (by simp)

-- ---------------------------------------------------------------------------
-- Simulations of a workflow
-- ---------------------------------------------------------------------------

/-- A run presupposes a plan of the workflow. -/
theorem presupposes_run :
    Presupposes ((sim.workflow.plan? sim.workflow.tree).isSome = true) run sim := by
  have hreset : sim.Continues { sim with timeSteps := 0 } := ⟨rfl, rfl⟩
  have hcounted : Presupposes _ (counted sim.workflow.tree {}) { sim with timeSteps := 0 } :=
    presupposes_counted ..
  obtain ⟨hcontinues, hholds, hmishap⟩ := hcounted
  exact Presupposes.of_map (run_apply sim) ⟨hreset.trans hcontinues, hholds, hmishap⟩

/-- A step that is given from outside presupposes a plan of the workflow. -/
theorem presupposes_solveStep (step : TimeStep R) :
    Presupposes ((sim.workflow.plan? sim.workflow.tree).isSome = true) (solveStep step) sim := by
  have hcounted : Presupposes _
      (counted sim.workflow.tree { time := some step.time, step := some step }) sim :=
    presupposes_counted ..
  obtain ⟨hcontinues, hholds, hmishap⟩ := hcounted
  exact Presupposes.of_map (solveStep_apply step sim) ⟨hcontinues, hholds, hmishap⟩

variable {v w : Workflow μ}

/-- **A simulation stays with its workflow**, whatever is asked of it. -/
theorem Over.workflow_eq (h : Over w sim) : sim.workflow = w := by
  induction h with
  | started h =>
    obtain ⟨models, -, h⟩ := bind_eq_ok.mp h
    cases pure_eq_ok.mp h
    rfl
  | adjusted _ _ _ ih => exact ih
  | inputSet _ name value ih => exact (continues_setInput name value).workflow.trans ih
  | outputRead _ name time ih => exact (continues_output name time).workflow.trans ih
  | ran _ ih => exact presupposes_run.continues.workflow.trans ih
  | stepped _ step ih => exact (presupposes_solveStep step).continues.workflow.trans ih
  | finished _ ih => exact continues_finish.workflow.trans ih

/-- **Programs and simulations refuse the same workflows.** Take a workflow, whichever kinds its
blocks have been given, settings with a legal name for the class, and a simulation of the workflow,
which may have been started before its elements got their names. If there is a program in one form,
there is one in the other form, and neither a run nor a step that is given from outside ever fails
for a reason for which there would be no program, whatever the models do. The other way round, there
are programs in both forms if a run succeeds. -/
theorem Over.refuses_alike (h : Over v sim) (hsame : v.unnamed = w.unnamed)
    (options : ProgramOptions)
    (hname : Identifier.ofName? options.className = some options.className) :
    (∀ form, (∃ lines, (w.generate options form).1 = .ok lines) →
      (∀ other, ∃ lines, (w.generate options other).1 = .ok lines) ∧
      (∀ error, (run sim).1 ≠ .error (.generation error)) ∧
      ∀ step error, (solveStep step sim).1 ≠ .error (.generation error)) ∧
    ((∃ number, (run sim).1 = .ok number) →
      ∀ form, ∃ lines, (w.generate options form).1 = .ok lines) := by
  have hplan : (sim.workflow.plan? sim.workflow.tree).isSome = (w.plan? w.tree).isSome := by
    rw [h.workflow_eq, Workflow.plan?_of_unnamed hsame]
  constructor
  · intro form hform
    rw [Workflow.exists_lines_iff hname, ← hplan] at hform
    refine ⟨fun other => ?_, fun error hrun => ?_, fun step error hstep => ?_⟩
    · rwa [Workflow.exists_lines_iff hname, ← hplan]
    · exact Bool.false_ne_true (presupposes_run.mishap hform _ hrun)
    · exact Bool.false_ne_true ((presupposes_solveStep step).mishap hform _ hstep)
  · rintro ⟨number, hrun⟩ form
    rw [Workflow.exists_lines_iff hname, ← hplan]
    exact presupposes_run.holds number hrun

/-- A timer sets the times of a loop around another one. There are programs in both forms, and a run
succeeds with two steps. Once the loop is made a place for conditional execution a run is refused, and
there is no program any more. -/
theorem refuses_alike_of_timers :
    ∃ (w turned : Workflow Timer) (sim refused : Simulation Nat Timer),
      (w.Reachable ∧ Over w sim ∧ (run sim).1 = .ok 2 ∧
        (∀ form, ∃ lines, (w.generate {} form).1 = .ok lines) ∧
        ∀ step error, (solveStep step sim).1 ≠ .error (.generation error)) ∧
      turned.Reachable ∧ Over turned refused ∧
        (run refused).1 = .error (.generation (.unsupportedBlock "TimeLoopBlock" "IfElseBlock")) ∧
        ∀ form lines, (turned.generate {} form).1 ≠ .ok lines := by
  have hmaster := @Workflow.Reachable.edited Timer _ _
    (.addModel Workflow.rootId ⟨"Timer", none, none⟩ none) _ (.new "uid-" "Plan" timers) rfl
  have hloop := @Workflow.Reachable.edited Timer _ _
    (.addBlock Workflow.rootId .timeLoop none) _ hmaster rfl
  have hinner := @Workflow.Reachable.edited Timer _ _
    (.addModel ⟨5⟩ ⟨"Timer", none, none⟩ none) _ hloop rfl
  have hstart := @Workflow.Reachable.edited Timer _ _ (.connect ⟨3⟩ ⟨6⟩ none) _ hinner rfl
  have hstop := @Workflow.Reachable.edited Timer _ _ (.connect ⟨4⟩ ⟨7⟩ none) _ hstart rfl
  have hturned := @Workflow.Reachable.edited Timer _ _ (.setBlockKind ⟨5⟩ .ifElse) _ hstop rfl
  have hover := (over_of_reachable hstop rfl).adjusted 1 10
  have hrefused := over_of_reachable hturned rfl
  obtain ⟨hforth, hback⟩ := hover.refuses_alike rfl {} (by decide +kernel)
  have hall := hback ⟨2, toOption_eq_some.mp (by decide +kernel)⟩
  have hno := (hrefused.refuses_alike rfl {} (by decide +kernel)).1
  refine ⟨_, _, _, _, ⟨hstop, hover, toOption_eq_some.mp (by decide +kernel), hall,
    (hforth .component (hall .component)).2.2⟩, hturned, hrefused, rfl, fun form lines hlines => ?_⟩
  exact (hno form ⟨lines, hlines⟩).2.1 _ rfl

end SlotFlow.Simulation
