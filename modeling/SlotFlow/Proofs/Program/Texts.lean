import SlotFlow.Proofs.Document.Isomorphic
import SlotFlow.Proofs.Program.Members
/-!
# Programs that read the same

The lines of a program keep the numbers of the elements that they were made for, which do not show
in the text. Programs of the same shape whose lines have the same texts are written the same way.

* `Code.texts` — the texts of a program, in the shape it has.

## Results

* `Code.lines_congr` — a program is written out from its texts;
* `Code.texts_ofLines_congr`, `Code.texts_concat_congr`, `Code.texts_orPass_congr` — programs read the
  same if their parts do.
-/

namespace SlotFlow

-- ---------------------------------------------------------------------------
-- Lines
-- ---------------------------------------------------------------------------

namespace Line

open LoopVariable

variable {value value' : Expr}

theorem text_setInput_congr {model model' : BlockId} {member : String} {source source' : SlotId}
    {objectId : ObjectId} (h : value'.text = value.text) :
    (setInput model' member source' value' objectId).text =
      (setInput model member source value objectId).text :=
  congrArg (fun text => s!"self.{member}.set({text}, {objectId.literal})") h

theorem text_assign_congr (member : String) (h : value'.text = value.text) :
    (assign member (.expr value')).text = (assign member (.expr value)).text :=
  congrArg (fun text => s!"self.{member} = {text}") h

theorem text_returnValue_congr {slot slot' : SlotId} (h : value'.text = value.text) :
    (returnValue slot' value').text = (returnValue slot value).text :=
  congrArg ("return " ++ ·) h

theorem text_setStart_congr (loop : String) (h : value'.text = value.text) :
    (setStart loop value').text = (setStart loop value).text :=
  congrArg (fun text => s!"{time.name loop} = {text}") h

theorem text_setTarget_congr (loop : String) (h : value'.text = value.text) :
    (setTarget loop value').text = (setTarget loop value).text :=
  congrArg (fun text => s!"{target.name loop} = {text}") h

theorem text_setLength_congr (loop : String) {sources sources' : List StepSource}
    (h : sources'.map StepSource.text = sources.map StepSource.text) :
    (setLength loop sources').text = (setLength loop sources).text :=
  congrArg (fun texts => s!"{dt.name loop} = min([" ++ ", ".intercalate texts ++ "])") h

theorem text_declareInputs_congr {slots slots' : List SlotDescription}
    (h : slots'.map SlotDescription.text = slots.map SlotDescription.text) :
    (declareInputs slots').text = (declareInputs slots).text :=
  congrArg (fun texts => metadataText "inputs" ("[" ++ ", ".intercalate texts ++ "]")) h

theorem text_declareOutputs_congr {slots slots' : List SlotDescription}
    (h : slots'.map SlotDescription.text = slots.map SlotDescription.text) :
    (declareOutputs slots').text = (declareOutputs slots).text :=
  congrArg (fun texts => metadataText "outputs" ("[" ++ ", ".intercalate texts ++ "]")) h

theorem text_returnCritical_congr {models models' : List (BlockId × String)}
    (h : models'.map Prod.snd = models.map Prod.snd) :
    (returnCritical models').text = (returnCritical models).text := by
  have htexts := congrArg (List.map criticalText) h
  rw [List.map_map, List.map_map] at htexts
  exact congrArg (fun texts => "return min([" ++ ", ".intercalate texts ++ "])") htexts

end Line

-- ---------------------------------------------------------------------------
-- Programs
-- ---------------------------------------------------------------------------

namespace Code

/-- The texts of a program, in the shape it has. -/
def texts (code : Code) : Forest String :=
  code.map Line.text

/-- Lines with their levels, of which only the texts count. -/
theorem map_leveled_congr {first second : Code} (h : first.texts = second.texts) (level : Nat) :
    (first.leveled level).map (fun line => indent line.1 line.2.text) =
      (second.leveled level).map fun line => indent line.1 line.2.text := by
  induction first generalizing second level with
  | nil =>
    cases second with
    | nil => rfl
    | node line below after => cases h
  | node line below after ihBelow ihAfter =>
    cases second with
    | nil => cases h
    | node other under rest =>
      injection h with htext hbelow hafter
      simp only [leveled, List.map_cons, List.map_append, htext, ihBelow hbelow, ihAfter hafter]

/-- **Programs that read the same are written the same way.** -/
theorem lines_congr {first second : Code} (h : first.texts = second.texts) :
    first.lines = second.lines :=
  map_leveled_congr h 0

theorem texts_append (first second : Code) :
    texts (first.append second) = first.texts.append second.texts :=
  Forest.map_append ..

theorem texts_append_congr {first first' second second' : Code} (h : first'.texts = first.texts)
    (h' : second'.texts = second.texts) :
    texts (first'.append second') = texts (first.append second) := by
  rw [texts_append, texts_append, h, h']

theorem texts_block_congr {header header' : Line} {body body' : Code}
    (h : header'.text = header.text) (h' : body'.texts = body.texts) :
    (block header' body').texts = (block header body).texts :=
  congrArg₂ Forest.tree h h'

theorem texts_ofLines_congr {lines others : List Line}
    (h : lines.map Line.text = others.map Line.text) :
    (ofLines lines).texts = (ofLines others).texts := by
  induction lines generalizing others with
  | nil => rw [List.map_eq_nil_iff.mp h.symm]
  | cons line lines ih =>
    obtain ⟨other, others, rfl, hhead, htail⟩ := List.map_eq_cons_iff.mp h.symm
    show Forest.node line.text .nil (texts (ofLines lines)) =
      Forest.node other.text .nil (texts (ofLines others))
    rw [hhead, ih htail.symm]

theorem texts_concat_congr {parts others : List Code}
    (h : parts.map texts = others.map texts) :
    (concat parts).texts = (concat others).texts := by
  induction parts generalizing others with
  | nil => rw [List.map_eq_nil_iff.mp h.symm]
  | cons part parts ih =>
    obtain ⟨other, others, rfl, hhead, htail⟩ := List.map_eq_cons_iff.mp h.symm
    rw [concat, concat, texts_append, texts_append, hhead, ih htail.symm]

/-- Whether a line is a statement shows in its text. -/
theorem any_isStatement_congr {first second : Code} (h : first.texts = second.texts) :
    first.toList.any Line.isStatement = second.toList.any Line.isStatement := by
  have hlines := congrArg Forest.toList h
  rw [texts, texts, Forest.toList_map, Forest.toList_map] at hlines
  have hsame : first.toList.map Line.isStatement = second.toList.map Line.isStatement :=
    map_eq_of_map_eq hlines fun line _ other _ htext => by
      rw [Line.isStatement, Line.isStatement, htext]
  have hany := congrArg (List.any · id) hsame
  simpa only [List.any_map, Function.id_comp] using hany

theorem texts_orPass_congr {first second : Code} (h : first.texts = second.texts) :
    first.orPass.texts = second.orPass.texts := by
  rw [orPass, orPass, any_isStatement_congr h]
  split
  · exact h
  · exact texts_append_congr h rfl

/-- Two attempts at code that reads the same fail both, for the same reason, or succeed both. -/
theorem cases_of_map_texts {first second : Except GenerationError Code}
    (h : first.map texts = second.map texts) :
    (∃ error, first = .error error ∧ second = .error error) ∨
      ∃ code other, first = .ok code ∧ second = .ok other ∧ code.texts = other.texts := by
  cases first with
  | error error =>
    cases second with
    | error other => exact .inl ⟨error, rfl, congrArg Except.error (Except.error.inj h).symm⟩
    | ok other => cases h
  | ok code =>
    cases second with
    | error other => cases h
    | ok other => exact .inr ⟨code, other, rfl, rfl, Except.ok.inj h⟩

theorem map_texts_ok {code other : Code} (h : code.texts = other.texts) :
    (.ok code : Except GenerationError Code).map texts = (.ok other : Except _ Code).map texts :=
  congrArg Except.ok h

/-- Code that is made of two parts reads the same if the parts do, and fails as they do. -/
theorem map_texts_append_congr {first first' second second' : Except GenerationError Code}
    (h : first'.map texts = first.map texts) (h' : second'.map texts = second.map texts) :
    (do return (← first').append (← second') : Except GenerationError Code).map texts =
      (do return (← first).append (← second)).map texts := by
  obtain ⟨error, rfl, rfl⟩ | ⟨code, other, rfl, rfl, hown⟩ := cases_of_map_texts h
  · rfl
  · obtain ⟨error, rfl, rfl⟩ | ⟨rest, more, rfl, rfl, hrest⟩ := cases_of_map_texts h'
    · rfl
    · exact congrArg Except.ok (texts_append_congr hown hrest)

end Code

end SlotFlow
