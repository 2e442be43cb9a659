import Mathlib.Data.List.Chain
import SlotFlow.Proofs.Program.Members
/-!
# The indentation of a program

Whoever reads a program takes what it means from the indentation of its lines of code; blanks and
comments count for nothing. A line that opens a part has to be followed by code that stands one level
deeper, and after any other line the level may stay or go back, but not grow.

A program is a forest of lines, so all of this is a matter of what stands below which line: code below
each line that opens a part, and nothing below the others. The induction is on the forest, over what the
levels of its lines of code do.

* `Text.isCode`, `Text.leadingTabs` — what a reader sees of a line;
* `Line.opens` — a line opens a part;
* `Code.WellIndented` — the lines of code are indented as a reader expects;
* `Code.Laid` — a program has code below each line that opens a part, and nothing below the others;
* `Code.Stepped` — what the levels of the lines of code do then.

## Results

* `Code.Laid.stepped`, `Code.Laid.wellIndented` — what is laid out like this is well indented;
* `Code.infix_lines_of_mem_subtrees` — a part of a program is written as one piece.
-/

namespace SlotFlow

-- ---------------------------------------------------------------------------
-- Lines as a reader sees them
-- ---------------------------------------------------------------------------

namespace Text

/-- Whether a line is code: neither blank nor a comment. -/
def isCode (text : String) : Bool :=
  match trimStart text.toList with
  | [] => false
  | c :: _ => c ≠ '#'

/-- The number of tabs that a line starts with. -/
def leadingTabs (text : String) : Nat :=
  (text.toList.takeWhile (· = '\t')).length

/-- Whether the first character of a text makes it code. -/
def begins (text : String) : Bool :=
  match text.toList with
  | [] => false
  | c :: _ => !isBlank c && c ≠ '#'

variable {text start : String}

theorem begins_eq_true : begins text = true ↔
    ∃ c cs, text.toList = c :: cs ∧ isBlank c = false ∧ c ≠ '#' := by
  unfold begins
  cases htext : text.toList with
  | nil => simp
  | cons c cs => simp

theorem isCode_of_begins (h : begins text = true) : isCode text = true := by
  obtain ⟨c, cs, htext, hblank, hcomment⟩ := begins_eq_true.mp h
  rw [isCode, htext, trimStart_cons_of_not hblank]
  exact decide_eq_true hcomment

theorem leadingTabs_of_begins (h : begins text = true) : leadingTabs text = 0 := by
  obtain ⟨c, cs, htext, hblank, -⟩ := begins_eq_true.mp h
  have htab : c ≠ '\t' := by
    rintro rfl
    exact absurd hblank (by decide)
  simp [leadingTabs, htext, htab]

/-- A text that starts with another begins as that one does. -/
theorem begins_of_prefix (h : start.toList <+: text.toList) (hstart : begins start = true) :
    begins text = true := by
  obtain ⟨c, cs, hcons, hc⟩ := begins_eq_true.mp hstart
  obtain ⟨rest, hrest⟩ := h
  rw [hcons, List.cons_append] at hrest
  exact begins_eq_true.mpr ⟨c, cs ++ rest, hrest.symm, hc⟩

theorem toList_indent (level : Nat) {text : String} (h : isCode text = true) :
    (Code.indent level text).toList = List.replicate level '\t' ++ text.toList := by
  have hne : text.isEmpty = false := by
    by_contra hempty
    rw [Bool.not_eq_false, String.isEmpty_iff] at hempty
    rw [hempty] at h
    cases h
  rw [Code.indent, hne, if_neg Bool.false_ne_true, String.toList_append, String.toList_ofList]

/-- Indentation is blank. -/
theorem isCode_indent (level : Nat) (text : String) :
    isCode (Code.indent level text) = isCode text := by
  unfold Code.indent
  split
  · rename_i hempty
    rw [String.isEmpty_iff.mp hempty]
  · have htrim : trimStart (List.replicate level '\t' ++ text.toList) = trimStart text.toList := by
      induction level with
      | zero => rfl
      | succ level ih => exact ih
    rw [isCode, isCode, String.toList_append, String.toList_ofList, htrim]

theorem leadingTabs_indent (level : Nat) {text : String} (h : isCode text = true) :
    leadingTabs (Code.indent level text) = level + leadingTabs text := by
  rw [leadingTabs, toList_indent level h]
  induction level with
  | zero => rw [Nat.zero_add]; rfl
  | succ level ih =>
    rw [List.replicate_succ, List.cons_append, List.takeWhile_cons_of_pos (by decide),
      List.length_cons, ih]
    omega

end Text

-- ---------------------------------------------------------------------------
-- Lines
-- ---------------------------------------------------------------------------

namespace Line

/-- Whether a line opens a part of a program. -/
def opens : Line → Bool
  | classDef .. | methodDef _ | whileComputing _ | ifReached .. | ifObject .. | ifMain => true
  | _ => false

/-- What a line starts with: words of the language, or a text from elsewhere. -/
def start : Line → String
  | classDef .. => "class "
  | methodDef _ => "def "
  | whileComputing _ => "while "
  | ifReached .. => "if "
  | ifObject .. => "if objectID == "
  | ifMain => "if __name__ == '__main__':"
  | blank => ""
  | comment _ => "# "
  | verbatim text => text
  | pass => "pass"
  | importModule _ => "import "
  | importClass statement => statement
  | initBase runtime => runtime
  | declareName _ | declareInputs _ | declareOutputs _ => "self.metadata.update(\x7b'"
  | returnValue .. => "return "
  | returnNone => "return None"
  | returnCritical _ => "return min(["
  | assign .. | setInput .. | solveModel .. | terminateModel .. => "self."
  | terminateSelf => "self.terminate()"
  | setUnits loop _ | setStart loop _ | setTarget loop _ | setCompute loop _ | resetNumber loop
  | countStep loop | setLength loop _ | advanceTime loop | makeStep loop _ => loop
  | makeProblem _ => "problem = "
  | solveProblem => "problem.solve()"
  | terminateProblem => "problem.terminate()"
  | printFinished => "print('Simulation has finished.')"

theorem prefix_append_of_prefix {start text rest : String} (h : start.toList <+: text.toList) :
    start.toList <+: (text ++ rest).toList := by
  rw [String.toList_append]
  exact h.trans (List.prefix_append _ _)

theorem start_prefix (line : Line) : line.start.toList <+: line.text.toList := by
  cases line
  all_goals
    dsimp only [text, start, metadataText, LoopVariable.name, toString, id]
    repeat with_reducible refine prefix_append_of_prefix ?_
    with_reducible exact List.prefix_rfl

/-- A line that is code is not moved by tabs of its own. -/
def Flush (line : Line) : Prop :=
  line.isStatement = true → Text.leadingTabs line.text = 0

theorem isStatement_of_begins {line : Line} (h : Text.begins line.start = true) :
    line.isStatement = true :=
  Text.isCode_of_begins (Text.begins_of_prefix line.start_prefix h)

theorem flush_of_begins {line : Line} (h : Text.begins line.start = true) : line.Flush :=
  fun _ => Text.leadingTabs_of_begins (Text.begins_of_prefix line.start_prefix h)

theorem flush_blank : Line.Flush .blank := by
  intro h
  rw [show Line.isStatement .blank = false from rfl] at h
  cases h

theorem flush_comment (text : String) : Line.Flush (.comment text) := by
  have htext : (Line.comment text).text.toList = '#' :: ' ' :: text.toList := String.toList_append
  intro h
  rw [isStatement, htext, Text.trimStart_cons_of_not (by decide)] at h
  cases h

/-- A line that opens nothing and is not moved. -/
structure Inner (line : Line) : Prop where
  flush : line.Flush
  opens : line.opens = false

/-- Whether a line opens nothing and starts with words of the language. -/
def isPlain : Line → Bool
  | pass | importModule _ | declareName _ | declareInputs _ | declareOutputs _ | assign ..
  | returnValue .. | returnNone | returnCritical _ | setInput .. | solveModel .. | terminateModel ..
  | terminateSelf | makeProblem _ | solveProblem | terminateProblem | printFinished => true
  | _ => false

theorem begins_of_isPlain {line : Line} (h : line.isPlain = true) :
    Text.begins line.start = true ∧ line.opens = false := by
  cases line
  case pass => exact ⟨by decide, rfl⟩
  case importModule => exact ⟨show Text.begins "import " = true by decide, rfl⟩
  case declareName | declareInputs | declareOutputs =>
    exact ⟨show Text.begins "self.metadata.update(\x7b'" = true by decide, rfl⟩
  case returnValue => exact ⟨show Text.begins "return " = true by decide, rfl⟩
  case returnNone => exact ⟨by decide, rfl⟩
  case returnCritical => exact ⟨show Text.begins "return min([" = true by decide, rfl⟩
  case assign | setInput | solveModel | terminateModel =>
    exact ⟨show Text.begins "self." = true by decide, rfl⟩
  case terminateSelf => exact ⟨by decide, rfl⟩
  case makeProblem => exact ⟨show Text.begins "problem = " = true by decide, rfl⟩
  case solveProblem => exact ⟨by decide, rfl⟩
  case terminateProblem => exact ⟨by decide, rfl⟩
  case printFinished => exact ⟨by decide, rfl⟩
  all_goals cases h

theorem isStatement_of_isPlain {line : Line} (h : line.isPlain = true) : line.isStatement = true :=
  isStatement_of_begins (begins_of_isPlain h).1

/-- Whether a line opens nothing and is not moved, whatever it is about. -/
def isInner : Line → Bool
  | blank | comment _ => true
  | line => line.isPlain

theorem inner_of_isPlain {line : Line} (h : line.isPlain = true) : line.Inner :=
  ⟨flush_of_begins (begins_of_isPlain h).1, (begins_of_isPlain h).2⟩

theorem inner_of_isInner {line : Line} (h : line.isInner = true) : line.Inner := by
  cases line
  case blank => exact ⟨flush_blank, rfl⟩
  case comment text => exact ⟨flush_comment text, rfl⟩
  all_goals exact inner_of_isPlain h

theorem inner_of_all {lines : List Line} (h : lines.all isInner = true) :
    ∀ line ∈ lines, line.Inner :=
  fun line hline => inner_of_isInner (List.all_eq_true.mp h line hline)

/-- A line that opens a part is code. -/
theorem begins_of_opens {line : Line} (h : line.opens = true) : Text.begins line.start = true := by
  cases line with
  | classDef => exact show Text.begins "class " = true by decide
  | methodDef => exact show Text.begins "def " = true by decide
  | whileComputing => exact show Text.begins "while " = true by decide
  | ifReached => exact show Text.begins "if " = true by decide
  | ifObject => exact show Text.begins "if objectID == " = true by decide
  | ifMain => exact show Text.begins "if __name__ == '__main__':" = true by decide
  | _ => cases h

end Line

-- ---------------------------------------------------------------------------
-- Levels
-- ---------------------------------------------------------------------------

namespace Code

/-- What may come next to a line of code: a line one level deeper if it opens a part, and else one that
is not deeper. -/
def MayFollow (line next : Nat × Line) : Prop :=
  if line.2.opens then next.1 = line.1 + 1 else next.1 ≤ line.1

/-- The lines of code of a part of a program that starts at a level: no line is out of place, the first
one stands at the level and none before it, and the last one opens nothing. -/
structure Stepped (level : Nat) (lines : List (Nat × Line)) : Prop where
  chain : lines.IsChain MayFollow
  head : ∀ first ∈ lines.head?, first.1 = level
  low : ∀ line ∈ lines, level ≤ line.1
  last : ∀ last ∈ lines.getLast?, last.2.opens = false

namespace Stepped

variable {level : Nat} {first second : List (Nat × Line)}

theorem nil (level : Nat) : Stepped level [] where
  chain := .nil
  head := by simp
  low := by simp
  last := by simp

theorem append (h : Stepped level first) (h' : Stepped level second) :
    Stepped level (first ++ second) where
  chain := by
    refine h.chain.append h'.chain fun line hline next hnext => ?_
    rw [MayFollow, h.last line hline, if_neg Bool.false_ne_true, h'.head next hnext]
    exact h.low line (List.mem_of_getLast? hline)
  head := by
    intro line hline
    cases first with
    | nil => exact h'.head line hline
    | cons x xs => exact h.head line hline
  low := by
    intro line hline
    rcases List.mem_append.mp hline with hline | hline
    · exact h.low line hline
    · exact h'.low line hline
  last := by
    intro line hline
    rw [List.getLast?_append] at hline
    cases hsecond : second.getLast? with
    | none =>
      rw [hsecond, Option.none_or] at hline
      exact h.last line hline
    | some x =>
      rw [hsecond, Option.some_or] at hline
      exact h'.last line (hsecond ▸ hline)

/-- A line of code that opens nothing. -/
theorem leaf {line : Line} (h : line.opens = false) : Stepped level [(level, line)] where
  chain := .singleton _
  head := by simp
  low := by simp
  last := by simpa using h

/-- A line that opens a part in which there is code. -/
theorem block {header : Line} (h : header.opens = true) (h' : Stepped (level + 1) second)
    (hne : second ≠ []) : Stepped level ((level, header) :: second) where
  chain := by
    refine List.isChain_cons.mpr ⟨fun next hnext => ?_, h'.chain⟩
    rw [MayFollow, if_pos h]
    exact h'.head next hnext
  head := by simp
  low := by
    intro line hline
    rcases List.mem_cons.mp hline with rfl | hline
    · exact Nat.le_refl _
    · exact Nat.le_of_succ_le (h'.low line hline)
  last := by
    intro line hline
    rw [List.getLast?_cons_of_ne_nil hne] at hline
    exact h'.last line hline

end Stepped

-- ---------------------------------------------------------------------------
-- What stands below which line
-- ---------------------------------------------------------------------------

/-- The lines of code of a program that starts at a level, each with its own level. -/
def statements (level : Nat) (code : Code) : List (Nat × Line) :=
  (leveled level code).filter fun entry => entry.2.isStatement

/-- A program has code below each line that opens a part and nothing below the others, and no line of
code is moved by tabs of its own. -/
def Laid : Code → Prop
  | .nil => True
  | .node line below after =>
    line.Flush ∧ (if line.opens then below.toList.any Line.isStatement = true else below = .nil) ∧
      Laid below ∧ Laid after

theorem Laid.stepped {code : Code} (h : code.Laid) (level : Nat) :
    Stepped level (code.statements level) := by
  induction code generalizing level with
  | nil => exact .nil level
  | node line below after ihBelow ihAfter =>
    obtain ⟨-, hbelow, hlaid, hafter⟩ := h
    have hrest := ihAfter hafter level
    have hsplit : statements level (.node line below after) =
        (if line.isStatement then [(level, line)] else []) ++ statements (level + 1) below ++
          statements level after := by
      rw [statements, leveled, List.filter_cons, List.filter_append]
      split <;> simp [statements]
    rw [hsplit]
    refine .append ?_ hrest
    by_cases hopens : line.opens = true
    · rw [if_pos hopens] at hbelow
      rw [if_pos (Line.isStatement_of_begins (Line.begins_of_opens hopens))]
      refine .block hopens (ihBelow hlaid (level + 1)) fun hnil => ?_
      -- the code below the line is among its lines
      rw [List.any_eq_true] at hbelow
      obtain ⟨inner, hinner, hstatement⟩ := hbelow
      rw [← map_snd_leveled (level + 1), List.mem_map] at hinner
      obtain ⟨entry, hentry, rfl⟩ := hinner
      exact List.filter_eq_nil_iff.mp hnil entry hentry hstatement
    · rw [if_neg hopens] at hbelow
      rw [hbelow, show statements (level + 1) .nil = [] from rfl, List.append_nil]
      split
      · exact .leaf (by simpa using hopens)
      · exact .nil level

-- ---------------------------------------------------------------------------
-- Putting programs together
-- ---------------------------------------------------------------------------

theorem laid_ofLines {lines : List Line} (h : ∀ line ∈ lines, line.Inner) :
    (ofLines lines).Laid := by
  induction lines with
  | nil => trivial
  | cons line lines ih =>
    obtain ⟨hflush, hopens⟩ := h line List.mem_cons_self
    refine ⟨hflush, ?_, trivial, ih fun other ho => h other (List.mem_cons_of_mem _ ho)⟩
    rw [hopens]
    rfl

theorem Laid.append {first second : Code} (h : first.Laid) (h' : second.Laid) :
    Code.Laid (first.append second) := by
  induction first with
  | nil => exact h'
  | node line below after _ ihAfter => exact ⟨h.1, h.2.1, h.2.2.1, ihAfter h.2.2.2⟩

theorem laid_concat {parts : List Code} (h : ∀ part ∈ parts, part.Laid) : (concat parts).Laid := by
  induction parts with
  | nil => trivial
  | cons part parts ih =>
    exact (h part List.mem_cons_self).append (ih fun other ho => h other (List.mem_cons_of_mem _ ho))

theorem laid_block {header : Line} (hopens : header.opens = true) {body : Code}
    (hcode : ∃ line ∈ body.toList, line.isStatement = true) (h : body.Laid) :
    (block header body).Laid := by
  refine ⟨Line.flush_of_begins (Line.begins_of_opens hopens), ?_, h, trivial⟩
  rw [if_pos hopens, List.any_eq_true]
  exact hcode

/-- A part that opens with a line of which the body holds no part of its own. -/
theorem laid_block_ofLines {header : Line} (hopens : header.opens = true) {lines : List Line}
    {line : Line} (hline : line ∈ lines) (hcode : line.isStatement = true)
    (h : ∀ line ∈ lines, line.Inner) : (block header (ofLines lines)).Laid :=
  laid_block hopens ⟨line, (toList_ofLines lines).symm ▸ hline, hcode⟩ (laid_ofLines h)

-- ---------------------------------------------------------------------------
-- Programs as a reader sees them
-- ---------------------------------------------------------------------------

/-- The lines of code of a program: whether each opens a part, and how it is written. -/
def codeLines (program : Code) : List (Bool × String) :=
  ((program.toList.map Line.opens).zip program.lines).filter fun line => Text.isCode line.2

/-- The lines of code are indented as a reader expects: after a line that opens a part there is one with
one tab more, and after any other line none has more tabs. -/
structure WellIndented (program : Code) : Prop where
  steps : program.codeLines.IsChain fun line next =>
    if line.1 then Text.leadingTabs next.2 = Text.leadingTabs line.2 + 1
    else Text.leadingTabs next.2 ≤ Text.leadingTabs line.2
  last : ∀ last ∈ program.codeLines.getLast?, last.1 = false

theorem codeLines_eq (program : Code) : program.codeLines =
    (program.statements 0).map fun entry => (entry.2.opens, indent entry.1 entry.2.text) := by
  have hlines : (program.toList.map Line.opens).zip program.lines =
      (leveled 0 program).map fun entry => (entry.2.opens, indent entry.1 entry.2.text) := by
    rw [← map_snd_leveled 0, List.map_map, lines, List.zip_map']
    rfl
  rw [codeLines, hlines, List.filter_map, statements]
  congr 1
  exact List.filter_congr fun entry _ => Text.isCode_indent entry.1 entry.2.text

theorem Laid.flush {code : Code} (h : code.Laid) : ∀ line ∈ code.toList, line.Flush := by
  induction code with
  | nil => simp
  | node line below after ihBelow ihAfter =>
    obtain ⟨hflush, -, hbelow, hafter⟩ := h
    intro other ho
    rw [Forest.toList_node, List.mem_cons, List.mem_append] at ho
    rcases ho with rfl | ho | ho
    · exact hflush
    · exact ihBelow hbelow other ho
    · exact ihAfter hafter other ho

/-- A line of code has as many tabs as its level says. -/
theorem Laid.leadingTabs {program : Code} (h : program.Laid) {entry : Nat × Line}
    (hentry : entry ∈ program.statements 0) :
    Text.leadingTabs (indent entry.1 entry.2.text) = entry.1 := by
  obtain ⟨hleveled, hcode⟩ := List.mem_filter.mp hentry
  have hmem : entry.2 ∈ program.toList := map_snd_leveled 0 program ▸ List.mem_map_of_mem hleveled
  rw [Text.leadingTabs_indent _ hcode, h.flush entry.2 hmem hcode, Nat.add_zero]

/-- **A program that is laid out as its lines ask for is well indented.** -/
theorem Laid.wellIndented {program : Code} (h : program.Laid) : program.WellIndented := by
  have hstepped := h.stepped 0
  refine ⟨?_, fun last hlast => ?_⟩
  · rw [codeLines_eq, List.isChain_map]
    refine hstepped.chain.imp_of_mem_imp fun line next hline hnext hfollow => ?_
    rw [h.leadingTabs hline, h.leadingTabs hnext]
    exact hfollow
  · rw [codeLines_eq, List.getLast?_map] at hlast
    obtain ⟨entry, hentry, rfl⟩ := Option.map_eq_some_iff.mp hlast
    exact hstepped.last entry hentry

/-- A part of a program, as it is written at a level. -/
def linesAt (level : Nat) (code : Code) : List String :=
  (leveled level code).map fun entry => indent entry.1 entry.2.text

/-- A line and the part it opens are written as one piece. -/
theorem infix_lines_of_mem_subtrees {code body : Code} {header : Line}
    (h : (header, body) ∈ code.subtrees) (level : Nat) :
    ∃ depth, linesAt depth (block header body) <:+: linesAt level code := by
  induction code generalizing level with
  | nil => cases h
  | node line below after ihBelow ihAfter =>
    have hsplit : linesAt level (.node line below after) =
        linesAt level (block line below) ++ linesAt level after := by
      simp [linesAt, leveled]
    have hbelow : linesAt (level + 1) below <:+: linesAt level (block line below) := by
      rw [linesAt, linesAt, leveled_block, List.map_cons]
      exact (List.suffix_cons ..).isInfix
    rw [hsplit]
    rw [Forest.subtrees, List.mem_cons, List.mem_append] at h
    rcases h with h | h | h
    · cases h
      exact ⟨level, (List.prefix_append ..).isInfix⟩
    · obtain ⟨depth, hdepth⟩ := ihBelow h (level + 1)
      exact ⟨depth, (hdepth.trans hbelow).trans (List.prefix_append ..).isInfix⟩
    · obtain ⟨depth, hdepth⟩ := ihAfter h level
      exact ⟨depth, hdepth.trans (List.suffix_append ..).isInfix⟩

/-- Code stays code where it is written. -/
theorem exists_isCode_linesAt {code : Code} (h : ∃ line ∈ code.toList, line.isStatement = true)
    (level : Nat) : ∃ text ∈ linesAt level code, Text.isCode text = true := by
  obtain ⟨line, hline, hcode⟩ := h
  rw [← map_snd_leveled level, List.mem_map] at hline
  obtain ⟨entry, hentry, rfl⟩ := hline
  exact ⟨_, List.mem_map_of_mem hentry, (Text.isCode_indent ..).trans hcode⟩

end Code

end SlotFlow
