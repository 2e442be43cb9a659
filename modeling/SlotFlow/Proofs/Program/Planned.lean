import SlotFlow.Proofs.Naming.Unnamed
import SlotFlow.Proofs.Program.Defined
import SlotFlow.Proofs.Program.Plan
/-!
# Which workflows there are programs for

There is a program for a workflow exactly if there is a plan for its tree: if it has no place for
conditional execution, and something says how long the steps of each time loop are. The form of the
program and its settings do not matter for this, except that its class needs a legal name.

## Results

* `Workflow.exists_executionCode`, `Workflow.exists_setUpCode` — there is code for a tree with a plan;
* `Workflow.exists_lines_iff` — there is a program exactly if there is a plan.
-/

namespace SlotFlow.Workflow

variable {μ : Type} {w : Workflow μ} {forest : Forest Block}

/-- There is a plan for a forest if its first block can be executed, with what is below it if that
belongs to its execution, and if there is a plan for the others. -/
theorem isSome_plan?_node {block : Block} {below after : Forest Block} :
    (w.plan? (.node block below after)).isSome =
      ((match block.kind with
        | .ifElse => false
        | .workflow | .sequential => (w.plan? below).isSome
        | .timeLoop => w.hasStepSource block below && (w.plan? below).isSome
        | _ => true) && (w.plan? after).isSome) := by
  rw [plan?]
  cases block.kind with
  | timeLoop =>
    cases w.hasStepSource block below <;> cases w.plan? below <;> cases w.plan? after <;> rfl
  | workflow | sequential => cases w.plan? below <;> cases w.plan? after <;> rfl
  | ifElse => rfl
  | model | constant | named | code => cases w.plan? after <;> rfl

/-- There is code that executes a tree with a plan, wherever it stands. -/
theorem exists_executionCode (options : ProgramOptions) (h : (w.plan? forest).isSome = true)
    (scope : CodeScope) :
    ∃ code, w.executionCode options forest scope = .ok code := by
  induction forest generalizing scope with
  | nil => exact ⟨.nil, rfl⟩
  | node block below after ihBelow ihAfter =>
    rw [isSome_plan?_node, Bool.and_eq_true] at h
    obtain ⟨hown, hrest⟩ := h
    obtain ⟨rest, hrest⟩ := ihAfter hrest scope
    have hthen : ∀ {own : Code} {first : Except GenerationError Code}, first = .ok own →
        ∃ code, (do return (← first).append (← w.executionCode options after scope)) =
          (.ok code : Except GenerationError Code) :=
      fun hfirst => ⟨_, bind_eq_ok.mpr ⟨_, hfirst, bind_eq_ok.mpr ⟨rest, hrest, rfl⟩⟩⟩
    rw [executionCode]
    cases hkind : block.kind <;> rw [hkind] at hown
    case ifElse => cases hown
    case workflow | sequential =>
      obtain ⟨own, hbelow⟩ := ihBelow hown scope
      exact hthen hbelow
    case timeLoop =>
      obtain ⟨hsource, hown⟩ := Bool.and_eq_true_iff.mp hown
      obtain ⟨children, hbelow⟩ := ihBelow hown (loopScope block.identifier)
      dsimp only
      rw [if_neg (List.isEmpty_iff.not.mpr (stepSources_ne_nil_iff.mpr hsource)), hbelow]
      exact hthen rfl
    all_goals exact hthen rfl

/-- There is code that sets up a tree with a plan. -/
theorem exists_setUpCode (options : ProgramOptions) (h : (w.plan? forest).isSome = true) :
    ∃ code, w.setUpCode options forest = .ok code := by
  induction forest with
  | nil => exact ⟨.nil, rfl⟩
  | node block below after ihBelow ihAfter =>
    rw [isSome_plan?_node, Bool.and_eq_true] at h
    obtain ⟨hown, hrest⟩ := h
    obtain ⟨rest, hrest⟩ := ihAfter hrest
    have hthen : ∀ {own : Code} {first : Except GenerationError Code}, first = .ok own →
        ∃ code, (do return (← first).append (← w.setUpCode options after)) =
          (.ok code : Except GenerationError Code) :=
      fun hfirst => ⟨_, bind_eq_ok.mpr ⟨_, hfirst, bind_eq_ok.mpr ⟨rest, hrest, rfl⟩⟩⟩
    rw [setUpCode]
    cases hkind : block.kind <;> rw [hkind] at hown
    case ifElse => cases hown
    case workflow | sequential =>
      obtain ⟨own, hbelow⟩ := ihBelow hown
      exact hthen hbelow
    case timeLoop =>
      obtain ⟨-, hown⟩ := Bool.and_eq_true_iff.mp hown
      obtain ⟨own, hbelow⟩ := ihBelow hown
      exact hthen hbelow
    all_goals exact hthen rfl

/-- **There is a program exactly if there is a plan**, whatever its form is and whatever its settings
are, as long as they give a legal name for its class. -/
theorem exists_lines_iff {options : ProgramOptions} {form : ProgramForm}
    (hname : Identifier.ofName? options.className = some options.className) :
    (∃ lines, (w.generate options form).1 = .ok lines) ↔ (w.plan? w.tree).isSome = true := by
  rw [← plan?_of_unnamed w.unnamed_assignNames]
  constructor
  · rintro ⟨lines, hlines⟩
    obtain ⟨program, hprogram, -⟩ := generate_eq_ok hlines
    obtain ⟨setUp, execution, -, hexecution, -⟩ := programCode_eq_ok hprogram
    rw [plan?_of_executionCode hexecution]
    rfl
  · intro hplan
    obtain ⟨setUp, hsetUp⟩ := exists_setUpCode options hplan
    obtain ⟨execution, hexecution⟩ := exists_executionCode options hplan (formScope form)
    have hprogram : ∃ program, w.assignNames.programCode options form = .ok program :=
      ⟨_, bind_eq_ok.mpr ⟨setUp, hsetUp, bind_eq_ok.mpr ⟨execution, hexecution, rfl⟩⟩⟩
    obtain ⟨program, hprogram⟩ := hprogram
    rw [generate, if_pos hname]
    exact ⟨program.lines, map_eq_ok.mpr ⟨program, hprogram, rfl⟩⟩

end SlotFlow.Workflow
