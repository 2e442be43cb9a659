import SlotFlow.Graph.Forest
import SlotFlow.Program.Line
import SlotFlow.Text.Blank
/-!
# Laying a program out

A program is a forest of lines: below a line stand the lines that it opens an indented part for.

* `Code.leveled` — the lines with their levels; `Code.lines` — as texts, with one tab per level;
* `renderLines` — the final text, in which a tab at the start of a line takes four columns.
-/

namespace SlotFlow

/-- A program, or a part of one. -/
abbrev Code := Forest Line

namespace Code

/-- A part of a program without nested lines. -/
def ofLines : List Line → Code
  | [] => .nil
  | line :: rest => .node line .nil (ofLines rest)

/-- A line with the part that it opens. -/
def block (header : Line) (body : Code) : Code :=
  .tree header body

/-- Several parts of a program one after the other. -/
def concat : List Code → Code
  | [] => .nil
  | part :: rest => part.append (concat rest)

/-- The text of a line at a level; an empty line is not indented. -/
def indent (level : Nat) (text : String) : String :=
  if text.isEmpty then "" else String.ofList (List.replicate level '\t') ++ text

/-- The lines of a program that starts at a level, each with its own level. -/
def leveled (level : Nat) : Code → List (Nat × Line)
  | .nil => []
  | .node line below after =>
    (level, line) :: (leveled (level + 1) below ++ leveled level after)

@[simp] theorem leveled_append (level : Nat) (first second : Code) :
    leveled level (first.append second) = leveled level first ++ leveled level second := by
  induction first generalizing level with
  | nil => rfl
  | node line below after _ ihAfter => simp [Forest.append, leveled, ihAfter]

@[simp] theorem leveled_ofLines (level : Nat) (lines : List Line) :
    leveled level (ofLines lines) = lines.map (level, ·) := by
  induction lines with
  | nil => rfl
  | cons line rest ih => simp [ofLines, leveled, ih]

@[simp] theorem leveled_block (level : Nat) (header : Line) (body : Code) :
    leveled level (block header body) = (level, header) :: leveled (level + 1) body := by
  simp [block, Forest.tree, leveled]

@[simp] theorem leveled_concat (level : Nat) (parts : List Code) :
    leveled level (concat parts) = parts.flatMap (leveled level) := by
  induction parts with
  | nil => rfl
  | cons part rest ih => simp [concat, ih]

/-- The lines of a program in order are the labels of the forest. -/
@[simp] theorem map_snd_leveled (level : Nat) (code : Code) :
    (leveled level code).map Prod.snd = code.toList := by
  induction code generalizing level with
  | nil => rfl
  | node line below after ihBelow ihAfter => simp [leveled, ihBelow, ihAfter]

/-- The lines of a program as texts. -/
def lines (code : Code) : List String :=
  (leveled 0 code).map fun (level, line) => indent level line.text

end Code

/-- Whether a line is more than a blank or a comment. -/
def Line.isStatement (line : Line) : Bool :=
  match Text.trimStart line.text.toList with
  | [] => false
  | c :: _ => c ≠ '#'

/-- A part of a program that holds a statement: itself, or with a statement that does nothing. -/
def Code.orPass (body : Code) : Code :=
  if body.toList.any Line.isStatement then body else body.append (Code.ofLines [.pass])

/-- A line in which each tab at the start takes four columns. -/
def expandTabs (line : String) : String :=
  let cs := line.toList
  let depth := (cs.takeWhile (· = '\t')).length
  String.ofList (List.replicate (4 * depth) ' ' ++ cs.drop depth)

/-- The text of lines that are indented by tabs. -/
def renderLines (lines : List String) : String :=
  "\n".intercalate (lines.map expandTabs)

end SlotFlow
