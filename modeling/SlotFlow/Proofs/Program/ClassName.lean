import SlotFlow.Proofs.Program.Faults
/-!
# The name of the class

A program is generated for a class if nothing else would be made of the class's name than the name itself.
What is made of any name passes that check, and so does the name that a workflow gives its class.

## Results

* `Workflow.generate_className` — a class that is named after its workflow is never refused;
* `Workflow.ofName?_projects` — making identifiers of names is a projection onto the legal ones.
-/

namespace SlotFlow.Workflow

open Identifier

variable {μ : Type}

/-- A class that is named after its workflow is never refused: the elements get their identifiers, and if
there is no program then that is for another reason. -/
theorem generate_className (w : Workflow μ) (options : ProgramOptions) (form : ProgramForm) :
    w.generate { options with className := w.className } form =
        ((w.assignNames.programCode { options with className := w.className } form).map Code.lines,
          w.assignNames) ∧
      ∀ name, (w.generate { options with className := w.className } form).1 ≠
        .error (.invalidClassName name) := by
  let own : ProgramOptions := { options with className := w.className }
  have hname : ofName? own.className = some own.className := w.ofName?_className
  exact ⟨generate_of_className hname form, generate_ne_invalidClassName hname form⟩

/-- **Making identifiers of names is a projection onto the legal ones.** What is made of a text is an
identifier of more than underscores and no keyword, and is made of itself; nothing else than itself is made
of a text exactly if it is such an identifier already. So the name that a workflow gives its class always
passes the check. -/
theorem ofName?_projects :
    (∀ text name : String, ofName? text = some name → IsLegal name ∧ ofName? name = some name) ∧
    (∀ text : String, ofName? text = some text ↔ IsLegal text) ∧
    ∀ (w : Workflow μ) (options : ProgramOptions) (form : ProgramForm),
      ofName? w.className = some w.className ∧
      w.generate { options with className := w.className } form =
        ((w.assignNames.programCode { options with className := w.className } form).map Code.lines,
          w.assignNames) ∧
      ∀ name, (w.generate { options with className := w.className } form).1 ≠
        .error (.invalidClassName name) :=
  ⟨fun _ _ h => ⟨isLegal_of_ofName? h, ofName?_of_ofName? h⟩, fun _ => ofName?_eq_self_iff,
    fun w options form => ⟨w.ofName?_className, w.generate_className options form⟩⟩

/-- Blanks of all sorts go, a letter that is not ASCII becomes an underscore, and a digit does not come
first. -/
theorem ofName?_projects_of_umlaut :
    ofName? "\u00a0 2nd größe\u2028" = some "_2nd_gr__e" ∧ IsLegal "_2nd_gr__e" ∧
      ofName? "_2nd_gr__e" = some "_2nd_gr__e" := by
  have hname : ofName? "\u00a0 2nd größe\u2028" = some "_2nd_gr__e" := by decide +kernel
  obtain ⟨hproject, -, -⟩ := @ofName?_projects Unit
  exact ⟨hname, hproject _ _ hname⟩

end SlotFlow.Workflow
