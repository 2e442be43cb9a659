import SlotFlow.Proofs.Naming.Numbered
import SlotFlow.Proofs.Naming.Retained
import SlotFlow.Proofs.Program.Framed
import SlotFlow.Proofs.Program.Parts
/-!
# Members and methods of the same name

A member of the generated class hides the method of the same name. The members go by the names of blocks
and of slots, and none of these is a name that is reserved. The names of the methods are reserved, all
but that of the first one: a named value may have its name, and if the value is linked, the program
assigns a member that hides the method.

* `Workflow.hasMember` — whether a block has a member of its own;
* `Code.Shadows` — a program assigns a member by the name of one of its methods.

## Results

* `Workflow.assigns_iff` — the members that a program assigns;
* `Workflow.KindsKept.exists_named_of_init` — only a named value goes by the name of the first method;
* `Workflow.Reachable.shadows_iff` — when a program hides a method;
* `Workflow.shadows_init_of_named` — a program that does.
-/

namespace SlotFlow

/-- A program defines a method, and it assigns a member by the name of the method. What a user wrote is
left out. -/
def Code.Shadows (program : Code) (method : Method) : Prop :=
  .methodDef method ∈ program.toList ∧ ∃ line ∈ program.toList, line.Assigns method.name

/-- The definition of a method starts with its name. -/
theorem Method.exists_signature_eq (method : Method) :
    ∃ parameters, method.signature = method.name ++ "(" ++ parameters := by
  cases method
  case init => exact ⟨"self)", rfl⟩
  case criticalTimeStep => exact ⟨"self)", rfl⟩
  case set => exact ⟨"self, obj, objectID=0)", rfl⟩
  case get => exact ⟨"self, objectType, time=None, objectID=0)", rfl⟩
  case terminate => exact ⟨"self)", rfl⟩
  case solveStep => exact ⟨"self, tstep, stageID=0, runInBackground=False)", rfl⟩
  case solve => exact ⟨"self, runInBackground=False)", rfl⟩

/-- The names of all methods but the first are reserved. -/
theorem Method.name_mem_reservedMembers {method : Method} (h : method ≠ .init) :
    method.name ∈ Identifier.reservedMembers := by
  cases method with
  | init => exact absurd rfl h
  | _ => decide

/-- The name of the first method does not end with a digit. -/
theorem Method.init_name_ne_numbered (stem : String) (k : Nat) :
    Method.init.name ≠ stem ++ toString k := by
  intro heq
  have hchars := congrArg String.toList heq
  rw [String.toList_append] at hchars
  have hdigits : (toString k).toList ≠ [] := by
    rw [Nat.toString_eq_repr, Nat.toList_repr]
    exact Nat.toDigits_ne_nil
  have hlast := congrArg List.getLast? hchars
  rw [List.getLast?_append_of_ne_nil _ hdigits, List.getLast?_eq_some_getLast hdigits] at hlast
  have hunderscore : (toString k).toList.getLast hdigits = '_' := (Option.some.inj hlast).symm
  have hdigit := Identifier.isDigit_of_mem_toString (List.getLast_mem hdigits)
  rw [hunderscore] at hdigit
  cases hdigit

namespace Workflow

variable {μ : Type} {w : Workflow μ} {options : ProgramOptions} {form : ProgramForm}
  {block : Block} {member : String}

-- ---------------------------------------------------------------------------
-- Members that are assigned
-- ---------------------------------------------------------------------------

/-- Whether a block has a member of its own: a model has one, and a constant or a named value has one if
it is linked. -/
def hasMember (w : Workflow μ) (block : Block) : Bool :=
  match block.kind with
  | .model _ => true
  | .constant _ | .named .. => w.isNamedLinked block BlockKind.valueSlot
  | _ => false

/-- The set-up of a block assigns the member for the block, if it has one. -/
theorem exists_assigns_setUpLines : (∃ line ∈ w.setUpLines options block, line.Assigns member) ↔
    w.hasMember block = true ∧ block.identifier = member := by
  have hlines : ∀ value : MemberValue,
      (∃ line ∈ codeHeader "initialization" block ++ [.assign block.identifier value],
        line.Assigns member) ↔ block.identifier = member := by
    intro value
    simp [codeHeader, Line.Assigns, eq_comm]
  have hnone : (∃ line ∈ ([] : List Line), line.Assigns member) ↔
      false = true ∧ block.identifier = member := by simp
  unfold setUpLines hasMember
  cases block.kind with
  | model setup => exact (hlines _).trans (and_iff_right rfl).symm
  | constant | named =>
    cases w.isNamedLinked block BlockKind.valueSlot with
    | false => exact hnone
    | true => exact (hlines _).trans (and_iff_right rfl).symm
  | _ => exact hnone

/-- So does its execution. -/
theorem hasMember_of_executes {below : Forest Block} {line : Line}
    (h : w.Executes options form block below line) (hassigns : line.Assigns member) :
    w.hasMember block = true ∧ block.identifier = member := by
  obtain ⟨value, rfl⟩ := hassigns
  cases h with
  | own _ hline =>
    have hlinked : ∀ {name : String} {type : SlotType}, block.kind = .named name type →
        w.hasMember block = true := by
      intro name type hkind
      rw [hasMember, hkind]
      rw [executionLines, hkind] at hline
      by_contra hno
      rw [if_neg hno] at hline
      cases hline
    cases executesBlock_of_mem hline with
    | named hkind => exact ⟨hlinked hkind, rfl⟩
  | loop _ _ hline => cases executesLoop_of_mem hline

/-- The methods that a class is used by assign the members for the inputs of the workflow. -/
theorem exists_input_of_access {part : Code}
    (hpart : part ∈ w.accessMethods form ++ [w.terminateMethod]) {line : Line}
    (hline : line ∈ part.toList) (hassigns : line.Assigns member) :
    form = .component ∧ ∃ slot ∈ w.inputSlots, slot.identifier = member := by
  obtain ⟨value, rfl⟩ := hassigns
  cases accesses_of_mem hpart hline with
  | take hform hs => exact ⟨hform, _, hs, rfl⟩

/-- **The members that a program assigns** are those for the blocks that have one, and in a class also
those for the inputs of the workflow. -/
theorem assigns_iff {program : Code} (h : w.programCode options form = .ok program)
    (hnamed : ∀ slot ∈ w.slots, slot.external = true → slot.codeName.isSome = true) :
    (∃ line ∈ program.toList, line.Assigns member) ↔
      (∃ block ∈ w.tree.reached, w.hasMember block = true ∧ block.identifier = member) ∨
        form = .component ∧ ∃ slot ∈ w.inputSlots, slot.identifier = member := by
  constructor
  · rintro ⟨line, hline, hassigns⟩
    obtain ⟨value, rfl⟩ := hassigns
    cases standsIn_of_programCode h hline with
    | imports hin => cases precedes_of_mem (List.mem_append_left [.blank, .blank] hin)
    | opening hin =>
      cases opens_of_mem hin with
      | @input slot name hs hname =>
        refine .inr ⟨?_, slot, hs, by rw [Slot.identifier, hname]; rfl⟩
        cases form with
        | component => rfl
        | execution => cases List.mem_singleton.mp hin
    | @setUp block _ hb hin =>
      exact .inl ⟨block, hb, exists_assigns_setUpLines.mp ⟨_, hin, value, rfl⟩⟩
    | access hpart hin => exact .inr (exists_input_of_access hpart hin ⟨value, rfl⟩)
    | @execution block _ _ hb _ hexecutes =>
      exact .inl ⟨block, hb, hasMember_of_executes hexecutes ⟨value, rfl⟩⟩
    | closing hin => simp [closingLines] at hin
    | main hin => cases concludes_of_mem hin
  · rintro (⟨block, hb, hmember⟩ | ⟨rfl, slot, hs, rfl⟩)
    · obtain ⟨line, hline, hassigns⟩ :=
        (@exists_assigns_setUpLines _ w options block member).mpr hmember
      exact ⟨line, setUpLines_subset_programCode h hb hline, hassigns⟩
    · obtain ⟨hin, hext, -⟩ := mem_inputSlots.mp hs
      obtain ⟨name, hname⟩ := Option.isSome_iff_exists.mp (hnamed slot hin hext)
      refine ⟨.assign slot.identifier .none, openingLines_subset_programCode h ?_, .none, rfl⟩
      refine List.mem_cons_of_mem _ (List.mem_cons_of_mem _ (List.mem_append_right _ ?_))
      refine List.mem_flatMap.mpr ⟨slot, hs, ?_⟩
      rw [Slot.identifier, hname]
      simp

-- ---------------------------------------------------------------------------
-- Methods that are hidden
-- ---------------------------------------------------------------------------

namespace KindsKept

/-- Where no kind is edited, only a named value goes by the name of the first method, and it is the name
that its user asks for. -/
theorem exists_named_of_init (h : w.KindsKept) (hb : block ∈ w.blocks)
    (hname : block.codeName = some Method.init.name) :
    ∃ name type, block.kind = .named name type ∧
      Identifier.ofName? name = some Method.init.name := by
  rcases h.namedByKind block hb _ hname with hwish | ⟨k, heq⟩
  · unfold Block.preferredName? at hwish
    split at hwish
    · rename_i name type hkind
      exact ⟨name, type, hkind, hwish⟩
    · cases hwish
  · exact absurd heq (Method.init_name_ne_numbered _ k)

end KindsKept

/-- **When a program hides a method.** No program assigns a member by the name of one of its methods other
than the first. It assigns one by the name of the first method exactly if that is the name of a block
that has a member. -/
theorem Reachable.shadows_iff (h : w.Reachable) {lines : List String}
    (hg : (w.generate options form).1 = .ok lines) :
    ∃ program, w.assignNames.programCode options form = .ok program ∧ lines = program.lines ∧
      (∀ method, program.Shadows method → method = .init) ∧
      (program.Shadows .init ↔ ∃ block ∈ w.assignNames.tree.reached,
        w.assignNames.hasMember block = true ∧ block.codeName = some Method.init.name) := by
  obtain ⟨program, hprogram, rfl⟩ := generate_eq_ok hg
  have hassigned := fun member =>
    @assigns_iff _ w.assignNames options form member _ hprogram w.named_assignNames.2
  have hblock : ∀ block ∈ w.assignNames.tree.reached, _ := fun block hb =>
    h.usable_block ((Forest.reached_sublist _).subset hb)
  have hslot : ∀ slot ∈ w.assignNames.inputSlots, _ := fun slot hs =>
    h.usable_slot (mem_inputSlots.mp hs).1 (mem_inputSlots.mp hs).2.1
  refine ⟨program, hprogram, rfl, ?_, ?_⟩
  · rintro method ⟨-, hassigns⟩
    by_contra hmethod
    have hreserved := Method.name_mem_reservedMembers hmethod
    rcases (hassigned _).mp hassigns with ⟨block, hb, -, heq⟩ | ⟨-, slot, hs, heq⟩
    · exact (hblock block hb).2.reserved (heq ▸ hreserved)
    · exact (hslot slot hs).2.reserved (heq ▸ hreserved)
  · have hdefined : .methodDef .init ∈ program.toList :=
      openingLines_subset_programCode hprogram List.mem_cons_self
    rw [Code.Shadows, and_iff_right hdefined, hassigned]
    constructor
    · rintro (⟨block, hb, hmember, heq⟩ | ⟨-, slot, hs, heq⟩)
      · exact ⟨block, hb, hmember, heq ▸ (hblock block hb).1⟩
      · obtain ⟨stem, -, k, hnumber⟩ := h.named.slots_numbered slot (mem_inputSlots.mp hs).1 _
          (hslot slot hs).1
        exact absurd (heq.symm.trans hnumber) (Method.init_name_ne_numbered _ _)
    · rintro ⟨block, hb, hmember, hname⟩
      refine .inl ⟨block, hb, hmember, ?_⟩
      rw [Block.identifier, hname]
      rfl

/-- A value that is named like a method of the class goes by a number. -/
theorem not_shadows_of_terminate :
    ∃ (w : Workflow Unit) (program : Code), w.Reachable ∧
      w.assignNames.programCode {} .component = .ok program ∧
      "\t\tself.variable_1 = None" ∈ program.lines ∧ ∀ method, ¬program.Shadows method := by
  have hconstant := @Reachable.edited Unit _ _ (.addBlock rootId (.constant (.number 1)) none) _
    (.new "uid-" "Plan" .empty) rfl
  have hnamed := @Reachable.edited Unit _ _ (.addBlock rootId (.named "terminate" .double) none) _
    hconstant rfl
  have hlinked := @Reachable.edited Unit _ _ (.connect ⟨2⟩ ⟨4⟩ none) _ hnamed rfl
  obtain ⟨program, hprogram, -, honly, hinit⟩ :=
    @hlinked.shadows_iff Unit _ {} .component _ rfl
  refine ⟨_, program, hlinked, hprogram, ?_, fun method hshadows => ?_⟩
  · cases hprogram
    decide +kernel
  · rw [honly method hshadows, hinit] at hshadows
    exact absurd hshadows (by decide +kernel)

/-- A program that hides its first method, by the member for a value that is named like it. -/
theorem shadows_init_of_named :
    ∃ (w : Workflow Unit) (program : Code), w.Reachable ∧
      w.assignNames.programCode {} .component = .ok program ∧
      "\tdef __init__(self):" ∈ program.lines ∧ "\t\tself.__init__ = None" ∈ program.lines ∧
      program.Shadows .init := by
  have hconstant := @Reachable.edited Unit _ _ (.addBlock rootId (.constant (.number 1)) none) _
    (.new "uid-" "Plan" .empty) rfl
  have hnamed := @Reachable.edited Unit _ _ (.addBlock rootId (.named "__init__" .double) none) _
    hconstant rfl
  have hlinked := @Reachable.edited Unit _ _ (.connect ⟨2⟩ ⟨4⟩ none) _ hnamed rfl
  obtain ⟨w, program, hw, hprogram, hmethod, hmember, hblock⟩ :
      ∃ (w : Workflow Unit) (program : Code), w.Reachable ∧
        w.assignNames.programCode {} .component = .ok program ∧
        "\tdef __init__(self):" ∈ program.lines ∧ "\t\tself.__init__ = None" ∈ program.lines ∧
        ∃ block ∈ w.assignNames.tree.reached, w.assignNames.hasMember block = true ∧
          block.identifier = Method.init.name :=
    ⟨_, _, hlinked, rfl, by decide +kernel, by decide +kernel, by decide +kernel⟩
  refine ⟨w, program, hw, hprogram, hmethod, hmember, ?_, ?_⟩
  · exact openingLines_subset_programCode hprogram List.mem_cons_self
  · exact (assigns_iff hprogram w.named_assignNames.2).mpr (.inl hblock)

end Workflow

end SlotFlow
