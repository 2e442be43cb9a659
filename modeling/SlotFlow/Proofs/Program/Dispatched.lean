import Mathlib.Data.List.Induction
import SlotFlow.Proofs.Naming.Settled
import SlotFlow.Proofs.Program.Framed
import SlotFlow.Proofs.Program.Undefined
import SlotFlow.Proofs.Text.Quoted
/-!
# How a class tells its inputs and outputs apart

Two methods of a class ask which of its inputs or outputs is meant, one arm after the other. The arms
are grouped by the types of the slots, and a slot is known by the literal of its name.

* `Code.arms` — the arms of a method;
* `Workflow.Dispatches` — a method has one arm for each of some slots, and no two arms ask the same.

## Results

* `perm_arms_choices` — the questions about slots have one arm for each of them;
* `Workflow.WellFormed.dispatches_set`, `Workflow.WellFormed.dispatches_get` — the two methods.
-/

namespace SlotFlow

-- ---------------------------------------------------------------------------
-- Arms
-- ---------------------------------------------------------------------------

/-- One arm of a method that asks which slot is meant. -/
structure Arm where
  slot : SlotId
  objectId : ObjectId
  body : Code

/-- What a line asks for, if it is a question which slot is meant. -/
def Line.asked? : Line → Option (SlotId × ObjectId)
  | .ifObject slot objectId => some (slot, objectId)
  | _ => none

/-- The arm for a slot with a given answer. -/
def Slot.arm (answer : Slot → Line) (slot : Slot) : Arm :=
  ⟨slot.id, slot.objectId, Code.ofLines [answer slot]⟩

namespace Code

/-- The arms of a part of a program, in their order. -/
def arms (code : Code) : List Arm :=
  code.subtrees.filterMap fun tree => tree.1.asked?.map fun asked => ⟨asked.1, asked.2, tree.2⟩

theorem arms_append (first second : Code) :
    arms (first.append second) = first.arms ++ second.arms := by
  rw [arms, Forest.subtrees_append, List.filterMap_append]
  rfl

theorem arms_concat (parts : List Code) : (concat parts).arms = parts.flatMap arms := by
  rw [arms, subtrees_concat, List.filterMap_flatMap]
  rfl

theorem arms_eq_nil {code : Code} (h : ∀ line ∈ code.toList, line.asked? = none) :
    code.arms = [] := by
  rw [arms, List.filterMap_eq_nil_iff]
  rintro ⟨line, below⟩ hsub
  rw [h line ((Forest.toList_sublist_of_mem_subtrees hsub).subset List.mem_cons_self)]
  rfl

theorem arms_ofLines {lines : List Line} (h : ∀ line ∈ lines, line.asked? = none) :
    (ofLines lines).arms = [] :=
  arms_eq_nil (by rwa [toList_ofLines])

/-- A question with an answer that asks nothing is an arm. -/
theorem arms_choice {answer : Slot → Line} {slot : Slot} (h : (answer slot).asked? = none) :
    (block (.ifObject slot.id slot.objectId) (ofLines [answer slot])).arms = [slot.arm answer] := by
  have hanswer : (ofLines [answer slot]).arms = [] :=
    arms_ofLines fun line hline => by rw [List.mem_singleton.mp hline, h]
  have hsplit : (block (.ifObject slot.id slot.objectId) (ofLines [answer slot])).arms =
      slot.arm answer :: ((ofLines [answer slot]).arms ++ []) := by
    simp only [arms, block, Forest.tree, Forest.subtrees, List.append_nil]
    rfl
  rw [hsplit, hanswer]
  rfl

end Code

-- ---------------------------------------------------------------------------
-- Slots by their types
-- ---------------------------------------------------------------------------

/-- Elements that are sorted by keys are the elements, if every key occurs once among those that are
gone through. -/
theorem perm_flatMap_filter {α κ : Type} [DecidableEq κ] {keys : List κ} (key : α → κ)
    (hkeys : keys.Nodup) (hall : ∀ k, k ∈ keys) (xs : List α) :
    (keys.flatMap fun k => xs.filter (key · = k)).Perm xs := by
  induction xs using List.reverseRecOn with
  | nil => simp
  | append_singleton xs x ih =>
    have hother : ∀ k, k ≠ key x →
        (xs ++ [x]).filter (key · = k) = xs.filter (key · = k) := by
      intro k hne
      rw [List.filter_append, List.filter_singleton, decide_eq_false hne.symm]
      exact List.append_nil _
    have hown : (xs ++ [x]).filter (key · = key x) = xs.filter (key · = key x) ++ [x] := by
      rw [List.filter_append, List.filter_singleton, decide_eq_true rfl]
      rfl
    have hids : (keys.map id).Nodup := by rwa [List.map_id]
    exact (perm_flatMap_of_mem hids (hall (key x)) hother hown).trans (ih.append_right [x])

theorem SlotType.nodup_all : SlotType.all.Nodup := by decide

theorem SlotType.mem_all (type : SlotType) : type ∈ SlotType.all := by
  cases type <;> decide

namespace Workflow

/-- **No slot is lost when slots are grouped by their types, and none comes twice.** -/
theorem perm_groupByType (slots : List Slot) :
    ((groupByType slots).flatMap Prod.snd).Perm slots := by
  have hempty : ∀ groups : List (SlotType × List Slot),
      (groups.filter fun group => !group.2.isEmpty).flatMap Prod.snd = groups.flatMap Prod.snd := by
    intro groups
    induction groups with
    | nil => rfl
    | cons group groups ih =>
      obtain ⟨type, members⟩ := group
      cases members with
      | nil => exact ih
      | cons slot members => exact congrArg ((slot :: members) ++ ·) ih
  rw [groupByType, hempty, List.flatMap_map]
  exact perm_flatMap_filter Slot.type SlotType.nodup_all SlotType.mem_all slots

/-- **The questions about slots have one arm for each of them**, and no other one. -/
theorem perm_arms_choices (slots : List Slot) {answer : Slot → Line}
    (h : ∀ slot, (answer slot).asked? = none) :
    (choices slots answer).arms.Perm (slots.map (Slot.arm answer)) := by
  have harms : (choices slots answer).arms =
      ((groupByType slots).flatMap Prod.snd).map (Slot.arm answer) := by
    rw [choices, Code.arms_concat, List.flatMap_map, List.map_flatMap]
    refine List.flatMap_congr fun group _ => ?_
    have hheader : (Code.ofLines [.blank, .comment ("in case of " ++ group.1.name)]).arms = [] :=
      Code.arms_ofLines (by simp [Line.asked?])
    rw [Code.arms_append, hheader, List.nil_append, Code.arms_concat, List.flatMap_map]
    simp only [Code.arms_choice (h _)]
    exact (List.map_eq_flatMap ..).symm
  rw [harms]
  exact (perm_groupByType slots).map _

-- ---------------------------------------------------------------------------
-- Methods
-- ---------------------------------------------------------------------------

variable {μ : Type} {w : Workflow μ} {options : ProgramOptions} {program : Code}

/-- A method has one arm for each of some slots, which gives the answer for that slot, and no other arm.
No two arms ask for the same literal. -/
structure Dispatches (slots : List Slot) (answer : Slot → Line) (method : Code) : Prop where
  arms : method.arms.Perm (slots.map (Slot.arm answer))
  literals : (method.arms.map fun arm => arm.objectId.literal).Nodup

/-- The literals of slots on the border tell them apart. -/
theorem WellFormed.nodup_border_literals (h : w.WellFormed) (direction : Direction) :
    ((w.borderSlots direction).map fun slot => slot.objectId.literal).Nodup := by
  have hquoted : (w.borderSlots direction).map (fun slot => slot.objectId.literal) =
      ((w.borderSlots direction).map Slot.name).map Text.quote := by
    rw [List.map_map]
    refine List.map_congr_left fun slot hs => ?_
    rw [h.objectId_of_border hs]
    rfl
  rw [hquoted]
  exact (h.nodup_border_names direction).map fun _ _ => Text.quote_injective

/-- Arms for slots on the border of one direction ask for different literals. -/
theorem WellFormed.dispatches (h : w.WellFormed) {direction : Direction} {slots : List Slot}
    (hslots : slots.Sublist (w.borderSlots direction)) {answer : Slot → Line} {method : Code}
    (harms : method.arms.Perm (slots.map (Slot.arm answer))) :
    Dispatches slots answer method := by
  refine ⟨harms, (harms.map _).nodup_iff.mpr ?_⟩
  rw [List.map_map]
  exact (h.nodup_border_literals direction).sublist (hslots.map _)

/-- The method that takes in a value asks which input is meant, if there is one. -/
theorem methodBody?_set (h : w.programCode options .component = .ok program) :
    program.methodBody? .set = some
      (if w.inputSlots.isEmpty then Code.ofLines [.pass]
        else choices w.inputSlots fun slot => .assign slot.identifier .argument) := by
  obtain ⟨execution, -, hmethods⟩ := @methodBody?_of_ne_init _ _ _ _ .set _ h (by decide)
  have hcomment : (Code.ofLines [.comment "set method for all external inputs"]).Lacks .set := by
    simp [Line.defines]
  have hbefore : ∀ part ∈ [w.criticalMethod], part.Lacks .set := by
    intro part hpart
    rw [List.mem_singleton.mp hpart]
    exact lacks_criticalMethod (by decide)
  refine hmethods _ (methodBody?_spaced hbefore ?_ _)
  rw [setMethod, Code.methodBody?_append, hcomment.methodBody?, Option.none_or,
    Code.methodBody?_block]
  rfl

/-- The method that gives a value asks which output is meant. -/
theorem methodBody?_get (h : w.programCode options .component = .ok program) :
    program.methodBody? .get = some
      ((choices w.outputSlots fun slot =>
          .returnValue slot.id (w.readSlot slot.id (.named "time"))).append
        (Code.ofLines [.blank, .returnNone])) := by
  obtain ⟨execution, -, hmethods⟩ := @methodBody?_of_ne_init _ _ _ _ .get _ h (by decide)
  have hcomment : (Code.ofLines [.comment "get method for all external outputs"]).Lacks .get := by
    simp [Line.defines]
  have hbefore : ∀ part ∈ [w.criticalMethod, w.setMethod], part.Lacks .get := by
    intro part hpart
    simp only [List.mem_cons, List.not_mem_nil, or_false] at hpart
    rcases hpart with rfl | rfl
    · exact lacks_criticalMethod (by decide)
    · exact lacks_setMethod (by decide)
  refine hmethods _ (methodBody?_spaced hbefore ?_ _)
  rw [getMethod, Code.methodBody?_append, hcomment.methodBody?, Option.none_or,
    Code.methodBody?_block]
  rfl

namespace WellFormed

/-- The method that takes in a value has one arm for each input, which sets the member for it. -/
theorem dispatches_set (h : w.WellFormed) : Dispatches w.inputSlots
    (fun slot => .assign slot.identifier .argument)
    (if w.inputSlots.isEmpty then Code.ofLines [.pass]
      else choices w.inputSlots fun slot => .assign slot.identifier .argument) := by
  have hborder : w.inputSlots.Sublist (w.borderSlots .output) := List.filter_sublist
  refine h.dispatches hborder ?_
  split
  · rename_i hempty
    rw [List.isEmpty_iff.mp hempty, Code.arms_ofLines (by simp [Line.asked?])]
    exact List.Perm.refl _
  · exact perm_arms_choices _ fun _ => rfl

/-- The method that gives a value has one arm for each output, which returns what feeds it. -/
theorem dispatches_get (h : w.WellFormed) : Dispatches w.outputSlots
    (fun slot => .returnValue slot.id (w.readSlot slot.id (.named "time")))
    ((choices w.outputSlots fun slot =>
        .returnValue slot.id (w.readSlot slot.id (.named "time"))).append
      (Code.ofLines [.blank, .returnNone])) := by
  have hborder : w.outputSlots.Sublist (w.borderSlots .input) := List.filter_sublist
  refine h.dispatches hborder ?_
  rw [Code.arms_append, Code.arms_ofLines (by simp [Line.asked?]), List.append_nil]
  exact perm_arms_choices _ fun _ => rfl

end WellFormed

end Workflow

end SlotFlow
