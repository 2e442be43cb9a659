import SlotFlow.Proofs.Naming.Retained
import SlotFlow.Proofs.Program.Framed
/-!
# Variables of methods

The lines that run time loops keep the variables of the loops in the method that executes the blocks. They
are known by their names alone, which are made from the identifier of the loop and an ending.

* `Line.variablesRead`, `Line.variablesAssigned` — the variables that a line reads and assigns;
* `Line.loop?` — the time loop that a line runs;
* `Code.ReadsKnown` — a part of a program reads variables only where they have been assigned.

## Results

* `LoopVariable.name_inj` — the variables of numbered loops are told apart;
* `Code.ReadsKnown.exists_assignment` — what is read has been assigned on an earlier line.
-/

namespace SlotFlow

-- ---------------------------------------------------------------------------
-- Names of variables
-- ---------------------------------------------------------------------------

namespace LoopVariable

/-- What the name of a variable of a time loop ends with, after an underscore. -/
def ending : LoopVariable → String
  | time => "time"
  | target => "target_time"
  | units => "time_units"
  | compute => "compute"
  | number => "time_step_number"
  | dt => "dt"
  | step => "time_step"

theorem name_eq (loop : String) (var : LoopVariable) :
    var.name loop = loop ++ ("_" ++ var.ending) := by
  cases var <;> rfl

theorem ending_injective {first second : LoopVariable} (h : first.ending = second.ending) :
    first = second := by
  cases first <;> cases second <;> first | rfl | exact absurd h (by decide)

/-- Digits end where there is no digit any more. -/
theorem append_digits_inj {ds es : List Char} (hds : ∀ c ∈ ds, c.isDigit = true)
    (hes : ∀ c ∈ es, c.isDigit = true) {rest others : List Char}
    (h : ds ++ '_' :: rest = es ++ '_' :: others) : ds = es ∧ rest = others := by
  have htake : ∀ {cs : List Char} (rest : List Char), (∀ c ∈ cs, c.isDigit = true) →
      (cs ++ '_' :: rest).takeWhile Char.isDigit = cs := by
    intro cs rest hcs
    rw [List.takeWhile_append_of_pos hcs, List.takeWhile_cons_of_neg (by decide), List.append_nil]
  have hdigits : ds = es := by rw [← htake rest hds, h, htake others hes]
  rw [hdigits] at h
  exact ⟨hdigits, (List.cons.inj (List.append_cancel_left h)).2⟩

/-- **The variables of numbered loops are told apart.** None of the endings is what another one goes on
with after a digit. -/
theorem name_inj {stem : String} {m n : Nat} {first second : LoopVariable}
    (h : first.name (stem ++ toString m) = second.name (stem ++ toString n)) :
    m = n ∧ first = second := by
  have hchars := congrArg String.toList h
  simp only [name_eq, String.toList_append, List.append_assoc] at hchars
  -- Both names go on with digits, and these end at the underscore.
  have hafter := List.append_cancel_left hchars
  obtain ⟨hdigits, hending⟩ := append_digits_inj (fun _ => Identifier.isDigit_of_mem_toString)
    (fun _ => Identifier.isDigit_of_mem_toString) hafter
  have hnumbers : stem ++ toString m = stem ++ toString n := by
    rw [String.toList_injective hdigits]
  exact ⟨Identifier.numbered_inj hnumbers, ending_injective (String.toList_injective hending)⟩

/-- No variable of a numbered loop goes by the name of a parameter. -/
theorem name_ne_parameter {k : Nat} {var : LoopVariable} {parameter : String}
    (h : parameter ∈ ["tstep", "time"]) :
    var.name ("timeloop_" ++ toString k) ≠ parameter := by
  intro heq
  have hlength := congrArg String.length heq
  rw [name_eq, String.length_append, String.length_append] at hlength
  have hstem : "timeloop_".length = 9 := rfl
  simp only [List.mem_cons, List.not_mem_nil, or_false] at h
  rcases h with rfl | rfl
  · have hparameter : "tstep".length = 5 := rfl
    omega
  · have hparameter : "time".length = 4 := rfl
    omega

end LoopVariable

-- ---------------------------------------------------------------------------
-- Reading and assigning
-- ---------------------------------------------------------------------------

/-- The variables that a reference to the time reads. -/
def TimeExpr.variables : TimeExpr → List String
  | .none => []
  | .named name => [name]
  | .ofStep step => [step]

/-- The variables that an expression reads. -/
def Expr.variables : Expr → List String
  | .quantity _ _ _ time _ => time.variables
  | _ => []

/-- The variables that code may read where it stands. -/
def CodeScope.variables (scope : CodeScope) : List String :=
  scope.time.variables ++ scope.step.toList

open LoopVariable in
/-- The variables that a line reads besides those that its expressions read. -/
def Line.ownVariablesRead : Line → List String
  | .whileComputing loop => [compute.name loop]
  | .ifReached loop _ => [time.name loop, units.name loop, target.name loop]
  | .solveModel _ _ held => held.toList
  | .countStep loop => [number.name loop]
  | .advanceTime loop => [time.name loop, dt.name loop, target.name loop]
  | .makeStep loop _ => [time.name loop, dt.name loop, target.name loop, number.name loop]
  | _ => []

/-- The variables that a line reads. What a user wrote is left out. -/
def Line.variablesRead (line : Line) : List String :=
  line.expressions.flatMap Expr.variables ++ line.ownVariablesRead

open LoopVariable in
/-- The variables that a line assigns. -/
def Line.variablesAssigned : Line → List String
  | .setUnits loop _ => [units.name loop]
  | .setStart loop _ => [time.name loop]
  | .setTarget loop _ => [target.name loop]
  | .setCompute loop _ => [compute.name loop]
  | .resetNumber loop => [number.name loop]
  | .countStep loop => [number.name loop]
  | .setLength loop _ => [dt.name loop]
  | .advanceTime loop => [time.name loop]
  | .makeStep loop _ => [step.name loop]
  | _ => []

/-- The time loop that a line runs. -/
def Line.loop? : Line → Option String
  | .whileComputing loop | .ifReached loop _ | .setUnits loop _ | .setStart loop _ | .setTarget loop _
  | .setCompute loop _ | .resetNumber loop | .countStep loop | .setLength loop _ | .advanceTime loop
  | .makeStep loop _ => some loop
  | _ => none

namespace Line

variable {line : Line} {name : String}

/-- What a line assigns is a variable of the time loop that it runs. -/
theorem exists_loop_of_assigned (h : name ∈ line.variablesAssigned) :
    ∃ loop var, line.loop? = some loop ∧ name = LoopVariable.name loop var := by
  cases line with
  | setUnits | setStart | setTarget | setCompute | resetNumber | countStep | setLength | advanceTime
  | makeStep => exact ⟨_, _, rfl, List.mem_singleton.mp h⟩
  | _ => cases h

theorem ownVariablesRead_of_isFrame (h : line.isFrame = true) : line.ownVariablesRead = [] := by
  cases line with
  | assign => rfl
  | _ => first | rfl | cases h

theorem variablesRead_of_isFrame (h : line.isFrame = true) : line.variablesRead = [] := by
  rw [variablesRead, expressions_of_isFrame h, ownVariablesRead_of_isFrame h]
  rfl

theorem loop?_of_isFrame (h : line.isFrame = true) : line.loop? = none := by
  cases line with
  | assign => rfl
  | _ => first | rfl | cases h

end Line

-- ---------------------------------------------------------------------------
-- Known variables
-- ---------------------------------------------------------------------------

/-- A line that stands in one of two parts stands in the first one or in the second one. -/
theorem occurrence_append {α : Type} {xs ys before after : List α} {x : α}
    (h : xs ++ ys = before ++ x :: after) :
    (∃ rest, after = rest ++ ys ∧ xs = before ++ x :: rest) ∨
      ∃ front, before = xs ++ front ∧ ys = front ++ x :: after := by
  rcases List.append_eq_append_iff.mp h with ⟨front, hbefore, hys⟩ | ⟨rest, hxs, hafter⟩
  · exact .inr ⟨front, hbefore, hys⟩
  · cases rest with
    | nil =>
      rw [List.append_nil] at hxs
      exact .inr ⟨[], by rw [hxs, List.append_nil], hafter.symm⟩
    | cons y rest =>
      obtain ⟨rfl, hrest⟩ := List.cons.inj hafter
      exact .inl ⟨rest, hrest, hxs⟩

namespace Code

/-- A part of a program reads a variable only if it is `known` at the start, or a line has assigned it
that stands before it, or before a line that it stands below. What is assigned below a line is not known
after it, since it may not have been executed. -/
def ReadsKnown (known : List String) : Code → Prop
  | .nil => True
  | .node line below after =>
    line.variablesRead ⊆ known ∧ ReadsKnown (line.variablesAssigned ++ known) below ∧
      ReadsKnown (line.variablesAssigned ++ known) after

variable {known : List String} {code first second : Code}

theorem ReadsKnown.mono (h : code.ReadsKnown known) {more : List String} (hsub : known ⊆ more) :
    code.ReadsKnown more := by
  induction code generalizing known more with
  | nil => trivial
  | node line below after ihBelow ihAfter =>
    obtain ⟨hline, hbelow, hafter⟩ := h
    have hthen : line.variablesAssigned ++ known ⊆ line.variablesAssigned ++ more :=
      List.append_subset.mpr ⟨List.subset_append_left _ _, List.subset_append_of_subset_right _ hsub⟩
    exact ⟨List.Subset.trans hline hsub, ihBelow hbelow hthen, ihAfter hafter hthen⟩

theorem ReadsKnown.append (hfirst : first.ReadsKnown known) (hsecond : second.ReadsKnown known) :
    ReadsKnown known (first.append second) := by
  induction first generalizing known with
  | nil => exact hsecond
  | node line below after _ ihAfter =>
    obtain ⟨hline, hbelow, hafter⟩ := hfirst
    exact ⟨hline, hbelow, ihAfter hafter (hsecond.mono (List.subset_append_right _ _))⟩

/-- Lines may read what is known at the start. -/
theorem readsKnown_ofLines {lines : List Line} (h : ∀ line ∈ lines, line.variablesRead ⊆ known) :
    (ofLines lines).ReadsKnown known := by
  induction lines generalizing known with
  | nil => trivial
  | cons line lines ih =>
    refine ⟨h line List.mem_cons_self, trivial, ?_⟩
    refine ih fun other ho => List.Subset.trans (h other (List.mem_cons_of_mem _ ho)) ?_
    exact List.subset_append_right _ _

/-- **What is read has been assigned on an earlier line**, or it is known at the start. -/
theorem ReadsKnown.exists_assignment (h : code.ReadsKnown known) {before after : List Line}
    {line : Line} (hcode : code.toList = before ++ line :: after) {name : String}
    (hread : name ∈ line.variablesRead) :
    name ∈ known ∨ ∃ assignment ∈ before, name ∈ assignment.variablesAssigned := by
  induction code generalizing known before after with
  | nil =>
    rw [Forest.toList_nil] at hcode
    exact absurd hcode.symm (List.append_ne_nil_of_right_ne_nil _ (List.cons_ne_nil _ _))
  | node header below rest ihBelow ihAfter =>
    obtain ⟨hheader, hbelow, hrest⟩ := h
    rw [Forest.toList_node] at hcode
    cases before with
    | nil =>
      rw [← (List.cons.inj hcode).1] at hread
      exact .inl (hheader hread)
    | cons first before =>
      obtain ⟨rfl, htail⟩ := List.cons.inj hcode
      have hlater : name ∈ header.variablesAssigned ++ known ∨
          (∃ assignment ∈ before, name ∈ assignment.variablesAssigned) := by
        rcases occurrence_append htail with ⟨_, -, hin⟩ | ⟨front, rfl, hin⟩
        · exact ihBelow hbelow hin
        · refine (ihAfter hrest hin).imp_right ?_
          rintro ⟨assignment, ha, hassigned⟩
          exact ⟨assignment, List.mem_append_right _ ha, hassigned⟩
      rcases hlater with hknown | ⟨assignment, ha, hassigned⟩
      · rcases List.mem_append.mp hknown with hassigned | hknown
        · exact .inr ⟨header, List.mem_cons_self, hassigned⟩
        · exact .inl hknown
      · exact .inr ⟨assignment, List.mem_cons_of_mem _ ha, hassigned⟩

end Code

end SlotFlow
