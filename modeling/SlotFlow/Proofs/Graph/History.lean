import Mathlib.Data.List.Induction
import SlotFlow.Proofs.Graph.Altered
/-!
# Histories

What happens to a workflow: edits, naming passes and generations of programs, one event after the other.
An edit that is refused and a program that is not generated change nothing.

* `Happening`, `Workflow.happen` — one event, and the workflow after it;
* `Workflow.after` — the workflow after a list of events.

## Results

* `Workflow.happen_cases` — what an event can do;
* `Workflow.Reachable.after` — events lead from reachable workflows to reachable ones;
* `Workflow.Reachable.nextId_after` — numbers are not handed out twice.
-/

namespace SlotFlow

open Identifier

/-- What may happen to a workflow. -/
inductive Happening (μ : Type) where
  | edit (edit : Edit μ)
  | pass
  | generation (options : ProgramOptions) (form : ProgramForm)

/-- A naming pass happens by itself, or before a program is generated under a valid name. -/
def Happening.IsPass {μ : Type} : Happening μ → Prop
  | edit _ => False
  | pass => True
  | generation options _ => ofName? options.className = some options.className

namespace Workflow

variable {μ : Type} {w : Workflow μ}

/-- A workflow after an event. An edit that is refused changes nothing. -/
def happen (w : Workflow μ) : Happening μ → Workflow μ
  | .edit edit =>
    match w.perform edit with
    | .ok done => done.2
    | .error _ => w
  | .pass => w.assignNames
  | .generation options form => (w.generate options form).2

/-- A workflow after events, one after the other. -/
def after (w : Workflow μ) (events : List (Happening μ)) : Workflow μ :=
  events.foldl happen w

@[simp] theorem after_nil (w : Workflow μ) : w.after [] = w := rfl

@[simp] theorem after_concat (w : Workflow μ) (events : List (Happening μ)) (event : Happening μ) :
    w.after (events ++ [event]) = (w.after events).happen event :=
  List.foldl_concat ..

theorem after_cons (w : Workflow μ) (event : Happening μ) (events : List (Happening μ)) :
    w.after (event :: events) = (w.happen event).after events := rfl

theorem after_append (w : Workflow μ) (events more : List (Happening μ)) :
    w.after (events ++ more) = (w.after events).after more :=
  List.foldl_append ..

/-- An event is an edit that is granted, or a naming pass, or it changes nothing. -/
theorem happen_cases (w : Workflow μ) (event : Happening μ) :
    (∃ edit answer, event = .edit edit ∧ w.perform edit = .ok (answer, w.happen event)) ∨
      event.IsPass ∧ w.happen event = w.assignNames ∨ w.happen event = w := by
  cases event with
  | edit edit =>
    unfold happen
    dsimp only
    split
    · rename_i done hdone
      exact .inl ⟨edit, done.1, rfl, hdone⟩
    · exact .inr (.inr rfl)
  | pass => exact .inr (.inl ⟨trivial, rfl⟩)
  | generation options form =>
    unfold happen generate Happening.IsPass
    dsimp only
    split
    · rename_i hname
      exact .inr (.inl ⟨hname, rfl⟩)
    · exact .inr (.inr rfl)

theorem Reachable.happen (h : w.Reachable) (event : Happening μ) : (w.happen event).Reachable := by
  rcases w.happen_cases event with ⟨edit, answer, -, he⟩ | ⟨-, heq⟩ | heq
  · exact h.edited he
  · exact heq ▸ h.named
  · exact heq.symm ▸ h

theorem Reachable.after (h : w.Reachable) (events : List (Happening μ)) : (w.after events).Reachable := by
  induction events using List.reverseRecOn with
  | nil => exact h
  | append_singleton events event ih =>
    rw [after_concat]
    exact ih.happen event

/-- Numbers are not handed out twice. -/
theorem Reachable.nextId_happen (h : w.Reachable) (event : Happening μ) :
    w.nextId ≤ (w.happen event).nextId := by
  rcases w.happen_cases event with ⟨edit, answer, -, he⟩ | ⟨-, heq⟩ | heq
  · exact (h.wellFormed.alters_perform he).nextId
  · rw [heq]
    exact Nat.le_refl w.nextId
  · exact Nat.le_of_eq (congrArg nextId heq.symm)

theorem Reachable.nextId_after (h : w.Reachable) (events : List (Happening μ)) :
    w.nextId ≤ (w.after events).nextId := by
  induction events using List.reverseRecOn with
  | nil => exact Nat.le_refl _
  | append_singleton events event ih =>
    rw [after_concat]
    exact Nat.le_trans ih ((h.after events).nextId_happen event)

end Workflow

end SlotFlow
