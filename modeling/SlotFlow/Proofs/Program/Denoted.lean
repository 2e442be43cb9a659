import SlotFlow.Proofs.Program.Constructed
import SlotFlow.Proofs.Program.Scoped
/-!
# What the names of a program denote

A program is a module: its imports, its class and what may come after that bind names in one scope, the
outermost one, and a name denotes what has been bound to it last. The constructor of a model and the
runtime module are looked up in that scope. The name of the class has to be an identifier, and it is
compared with nothing else, so a class can take the place of what was imported under its name.

What a statement that is registered for a class binds is up to the language of the programs. It is a
parameter here.

* `Code.outermost` — the lines that are carried out in the outermost scope;
* `Line.binds`, `lastBinding?` — the names that they bind, and what a name denotes after them;
* `Workflow.NamesBound` — what the names of a program denote.

## Results

* `Workflow.namesBound_of_programCode` — a name denotes the class exactly if it is that of the class;
* `Workflow.rebinds_of_class_names` — classes that take the place of the runtime module and of a model.
-/

namespace SlotFlow

-- ---------------------------------------------------------------------------
-- Names
-- ---------------------------------------------------------------------------

/-- What a dotted name is looked up by: its part before the first point. -/
def nameHead (name : String) : String :=
  String.ofList (name.toList.takeWhile (· ≠ '.'))

/-- The name that an instance of the class is given where the program runs the workflow. -/
def problemName : String := "problem"

/-- The names that a line binds in the scope in which it stands, given what the statements bind that are
registered for classes. The members of an object and the variables of a method are bound elsewhere. -/
def Line.binds (imported : String → List String) : Line → List String
  | .importModule name => [nameHead name]
  | .importClass statement => imported statement
  | .classDef name _ => [name]
  | .makeProblem _ => [problemName]
  | _ => []

/-- What a name denotes after some lines: the last one of them that binds it. -/
def lastBinding? (imported : String → List String) (lines : List Line) (name : String) :
    Option Line :=
  lines.reverse.find? fun line => name ∈ line.binds imported

/-- The name of the class that a line defines. -/
def Line.class? : Line → Option String
  | .classDef name _ => some name
  | _ => none

theorem Line.class?_of_isGlobal {line : Line} (h : line.isGlobal = false) : line.class? = none := by
  cases line <;> first | rfl | cases h

/-- The runtime module that a line refers to. -/
def Line.runtime? : Line → Option String
  | .classDef _ runtime => some runtime
  | .initBase runtime => some runtime
  | .assign _ (.constant runtime (.property ..)) => some runtime
  | .assign _ (.constant runtime (.quantity ..)) => some runtime
  | .makeStep _ runtime => some runtime
  | _ => none

/-- Whether a line opens a scope of its own. -/
def Line.opensScope : Line → Bool
  | .classDef .. | .methodDef _ => true
  | _ => false

/-- Whether a line makes an instance of the class. -/
def Line.makesInstance : Line → Bool
  | .makeProblem _ => true
  | _ => false

namespace Code

/-- The lines that are carried out in the outermost scope: all but those of classes and methods. -/
def outermost : Code → List Line
  | .nil => []
  | .node line below after =>
    line :: ((if line.opensScope then [] else outermost below) ++ outermost after)

/-- The lines of the outermost scope up to the one that makes an instance of the class. -/
def definitions (program : Code) : List Line :=
  program.outermost.takeWhile fun line => !line.makesInstance

@[simp] theorem outermost_append (first second : Code) :
    outermost (first.append second) = first.outermost ++ second.outermost := by
  induction first with
  | nil => rfl
  | node line below after _ ihAfter => simp [Forest.append, outermost, ihAfter]

@[simp] theorem outermost_ofLines (lines : List Line) : (ofLines lines).outermost = lines := by
  induction lines with
  | nil => rfl
  | cons line lines ih => rw [ofLines, outermost, ih]; cases line.opensScope <;> rfl

@[simp] theorem outermost_block (header : Line) (body : Code) : (block header body).outermost =
    header :: if header.opensScope then [] else body.outermost := by
  simp [block, Forest.tree, outermost]

@[simp] theorem outermost_concat (parts : List Code) :
    (concat parts).outermost = parts.flatMap outermost := by
  induction parts with
  | nil => rfl
  | cons part parts ih => simp [concat, ih]

end Code

section LastBinding

variable {imported : String → List String} {name : String}

theorem lastBinding?_append (first second : List Line) :
    lastBinding? imported (first ++ second) name =
      (lastBinding? imported second name).or (lastBinding? imported first name) := by
  rw [lastBinding?, List.reverse_append, List.find?_append]
  rfl

theorem lastBinding?_concat (lines : List Line) (line : Line) :
    lastBinding? imported (lines ++ [line]) name =
      if name ∈ line.binds imported then some line else lastBinding? imported lines name := by
  rw [lastBinding?_append, lastBinding?, List.reverse_singleton, List.find?_singleton]
  by_cases hname : name ∈ line.binds imported <;> simp [hname]

/-- Lines that do not bind a name have no say in what it denotes. -/
theorem lastBinding?_append_of_unbound {first second : List Line}
    (h : ∀ line ∈ second, name ∉ line.binds imported) :
    lastBinding? imported (first ++ second) name = lastBinding? imported first name := by
  have hnone : lastBinding? imported second name = none := by
    rw [lastBinding?, List.find?_eq_none]
    intro line hline
    simpa using h line (List.mem_reverse.mp hline)
  rw [lastBinding?_append, hnone, Option.none_or]

/-- If only one line among several binds a name, that is what the name denotes. -/
theorem lastBinding?_eq_some {lines : List Line} {line : Line} (hline : line ∈ lines)
    (hname : name ∈ line.binds imported)
    (honly : ∀ other ∈ lines, name ∈ other.binds imported → other = line) :
    lastBinding? imported lines name = some line := by
  obtain ⟨found, hfound⟩ : ∃ found, lastBinding? imported lines name = some found := by
    rw [← Option.isSome_iff_exists, lastBinding?, List.find?_isSome]
    exact ⟨line, List.mem_reverse.mpr hline, decide_eq_true hname⟩
  have hbinds : name ∈ found.binds imported := by simpa using List.find?_some hfound
  rw [hfound, honly found (List.mem_reverse.mp (List.mem_of_find?_eq_some hfound)) hbinds]

end LastBinding

namespace Workflow

variable {μ : Type} {w : Workflow μ} {options : ProgramOptions} {form : ProgramForm}
  {imported : String → List String}

-- ---------------------------------------------------------------------------
-- Programs
-- ---------------------------------------------------------------------------

/-- What the names of a program denote, given what the statements bind that are registered for classes. -/
structure NamesBound (w : Workflow μ) (options : ProgramOptions) (form : ProgramForm)
    (imported : String → List String) (program : Code) : Prop where
  /-- There is one class. -/
  classes : program.toList.filterMap Line.class? = [options.className]
  /-- Its first method constructs the models that are reached, each by the name of its class. -/
  constructed : ∃ init, program.methodBody? .init = some init ∧
    init.toList.filterMap Line.construction? = w.tree.reached.filterMap Block.construction?
  /-- No other runtime module is referred to than that of the settings. -/
  runtimes : ∀ line ∈ program.toList, ∀ runtime ∈ line.runtime?, runtime = options.runtimeModule
  /-- When the class is made use of, its name denotes the class, and every other name what the imports
  bind to it. -/
  defined : ∀ name, lastBinding? imported program.definitions name =
    if name = options.className then some (.classDef options.className options.runtimeModule)
    else lastBinding? imported (w.importLines options) name
  /-- After that no name comes to denote something else, but for the one of the instance. -/
  later : ∀ name, lastBinding? imported program.outermost name =
    if form = .execution ∧ name = problemName then some (.makeProblem options.className)
    else lastBinding? imported program.definitions name
  /-- The imports bind the name of the runtime module to that module, unless a class comes under the
  name. -/
  importedModule : (∀ statement, .importClass statement ∈ w.importLines options →
      nameHead options.runtimeModule ∉ imported statement) →
    lastBinding? imported (w.importLines options) (nameHead options.runtimeModule) =
      some (.importModule options.runtimeModule)
  /-- The imports bind the name of a class that is registered to that class, if its statement does so
  and no other import does. -/
  importedClass : ∀ block ∈ w.models, ∀ setup, block.kind = .model setup →
    ∀ modelClass, w.registry.find? setup.className = some modelClass →
      nameHead setup.className ∈ imported modelClass.importStatement →
      nameHead setup.className ≠ nameHead options.runtimeModule →
      (∀ other, .importClass other ∈ w.importLines options →
        nameHead setup.className ∈ imported other → other = modelClass.importStatement) →
      lastBinding? imported (w.importLines options) (nameHead setup.className) =
        some (.importClass modelClass.importStatement)

theorem outermost_mainPart : (mainPart options form).outermost = (mainPart options form).toList := by
  cases form <;> rfl

theorem runtime_openingLines {line : Line} (h : line ∈ w.openingLines options form) :
    line.runtime? = none ∨ line.runtime? = some options.runtimeModule := by
  have hopens := opens_of_mem h
  unfold openingLines at h
  rcases List.mem_cons.mp h with rfl | hrest
  · exact .inr rfl
  · -- what follows describes the class and its inputs
    cases form with
    | execution => cases hrest
    | component =>
      cases hopens with
      | base =>
        rw [List.mem_append, metadataLines, inputSetUpLines, List.mem_flatMap] at hrest
        rcases hrest with hin | ⟨slot, -, hin⟩
        · simp at hin
        · split at hin <;> simp at hin
      | _ => exact .inl rfl

/-- Of the set-up of a block only that of a constant refers to the runtime module. -/
theorem runtime_setUpLines {block : Block} {line : Line} (h : line ∈ w.setUpLines options block) :
    line.runtime? = none ∨ line.runtime? = some options.runtimeModule := by
  have hsetUp : ∀ value, ((Line.assign block.identifier value).runtime? = none ∨
        (Line.assign block.identifier value).runtime? = some options.runtimeModule) →
      line ∈ codeHeader "initialization" block ++ [.assign block.identifier value] →
      line.runtime? = none ∨ line.runtime? = some options.runtimeModule := by
    intro value hvalue hline
    simp only [codeHeader, List.cons_append, List.nil_append, List.mem_cons, List.not_mem_nil,
      or_false] at hline
    rcases hline with rfl | rfl | rfl
    · exact .inl rfl
    · exact .inl rfl
    · exact hvalue
  unfold setUpLines at h
  dsimp only at h
  split at h
  · exact hsetUp _ (.inl rfl) h
  · rename_i literal _
    split at h
    · refine hsetUp _ ?_ h
      cases literal with
      | number => exact .inl rfl
      | _ => exact .inr rfl
    · cases h
  · split at h
    · exact hsetUp _ (.inl rfl) h
    · cases h
  · cases h

/-- Of the lines of a time loop only the one that makes a step does. -/
theorem runtime_loopCode {block : Block} {time : TimeExpr} {sources : List StepSource} {line : Line}
    (h : line ∈ (w.loopCode options block time sources .nil).toList) :
    line.runtime? = none ∨ line.runtime? = some options.runtimeModule := by
  cases executesLoop_of_mem h with
  | make runtimeModule =>
    simp only [toList_loopCode_nil, codeHeader, List.cons_append, List.nil_append, List.mem_cons,
      List.not_mem_nil, or_false, reduceCtorEq, false_or, Line.makeStep.injEq, true_and] at h
    exact .inr (congrArg some h)
  | _ => exact .inl rfl

theorem runtime_methods {line : Line} (h : w.StandsInMethods options form line) :
    line.runtime? = none ∨ line.runtime? = some options.runtimeModule := by
  cases h with
  | blank | definition => exact .inl rfl
  | opening hin => exact runtime_openingLines hin
  | setUp _ hin => exact runtime_setUpLines hin
  | access hpart hin => cases accesses_of_mem hpart hin <;> exact .inl rfl
  | execution _ _ hexecutes =>
    cases hexecutes with
    | own _ hin => cases executesBlock_of_mem hin <;> exact .inl rfl
    | loop _ _ hin => exact runtime_loopCode hin
  | closing hin =>
    simp only [closingLines, List.mem_cons, List.not_mem_nil, or_false] at hin
    rcases hin with rfl | rfl | rfl | rfl <;> exact .inl rfl

theorem runtime_programCode {program : Code} (h : w.programCode options form = .ok program) :
    ∀ line ∈ program.toList, ∀ runtime ∈ line.runtime?, runtime = options.runtimeModule := by
  have hline : ∀ line ∈ program.toList,
      line.runtime? = none ∨ line.runtime? = some options.runtimeModule := by
    intro line hline
    obtain ⟨methods, rfl, hmethods⟩ := exists_methods h
    rw [Code.toList_concat, List.flatMap_cons, List.flatMap_cons, List.flatMap_singleton,
      Code.toList_ofLines, Code.toList_block, List.mem_append, List.mem_append (s := _ :: _),
      List.mem_cons] at hline
    rcases hline with himport | (rfl | hin) | hmain
    · cases precedes_of_mem himport <;> exact .inl rfl
    · exact .inr rfl
    · exact runtime_methods (hmethods line hin)
    · cases concludes_of_mem hmain <;> exact .inl rfl
  intro line hin runtime hruntime
  rcases hline line hin with hnone | hsome
  · rw [hnone] at hruntime
    cases hruntime
  · exact Option.some.inj (hruntime.symm.trans hsome)

/-- A program defines one class. -/
theorem class_programCode {program : Code} (h : w.programCode options form = .ok program) :
    program.toList.filterMap Line.class? = [options.className] := by
  obtain ⟨methods, rfl, hmethods⟩ := exists_methods h
  have himports : (w.importLines options ++ [Line.blank, .blank]).filterMap Line.class? = [] :=
    List.filterMap_eq_nil_iff.mpr fun line hline => by cases precedes_of_mem hline <;> rfl
  have hinside : methods.toList.filterMap Line.class? = [] :=
    List.filterMap_eq_nil_iff.mpr fun line hline =>
      Line.class?_of_isGlobal (isGlobal_methods (hmethods line hline))
  have hmain : (mainPart options form).toList.filterMap Line.class? = [] := by
    cases form <;> rfl
  rw [Code.toList_concat, List.flatMap_cons, List.flatMap_cons, List.flatMap_singleton,
    Code.toList_ofLines, Code.toList_block, List.filterMap_append, himports, List.nil_append,
    List.filterMap_append, hmain, List.append_nil]
  exact congrArg _ hinside

-- ---------------------------------------------------------------------------
-- The outermost scope
-- ---------------------------------------------------------------------------

/-- The outermost scope of a program. -/
theorem outermost_programCode {program : Code} (h : w.programCode options form = .ok program) :
    program.outermost = w.importLines options ++ [.blank, .blank] ++
      [.classDef options.className options.runtimeModule] ++ (mainPart options form).toList := by
  obtain ⟨methods, rfl, -⟩ := exists_methods h
  simp [Line.opensScope, outermost_mainPart]

/-- What stands in the outermost scope before an instance is made: the imports, the class, and lines that
bind nothing. -/
theorem definitions_programCode {program : Code} (h : w.programCode options form = .ok program) :
    ∃ idle, program.definitions = w.importLines options ++ [.blank, .blank] ++
        [.classDef options.className options.runtimeModule] ++ idle ∧
      ∀ line ∈ idle, line.binds imported = [] := by
  have himports : ∀ line ∈ w.importLines options ++ [.blank, .blank] ++
      [.classDef options.className options.runtimeModule], (!line.makesInstance) = true := by
    intro line hline
    rcases List.mem_append.mp hline with hin | hclass
    · cases precedes_of_mem hin <;> rfl
    · rw [List.mem_singleton.mp hclass]
      rfl
  refine ⟨(mainPart options form).toList.takeWhile fun line => !line.makesInstance, ?_, ?_⟩
  · rw [Code.definitions, outermost_programCode h, List.takeWhile_append_of_pos himports]
  · cases form with
    | component => nofun
    | execution =>
      intro line hline
      have hin : line ∈ [Line.blank, .blank, .ifMain] := hline
      simp only [List.mem_cons, List.not_mem_nil, or_false] at hin
      rcases hin with rfl | rfl | rfl <;> rfl

theorem lastBinding?_definitions {program : Code} (h : w.programCode options form = .ok program)
    (name : String) : lastBinding? imported program.definitions name =
      if name = options.className then some (.classDef options.className options.runtimeModule)
      else lastBinding? imported (w.importLines options) name := by
  obtain ⟨idle, hdefinitions, hidle⟩ := @definitions_programCode _ _ _ _ imported _ h
  have hblank : ∀ line ∈ [Line.blank, .blank], name ∉ line.binds imported := by
    intro line hline
    simp only [List.mem_cons, List.not_mem_nil, or_false, or_self] at hline
    rw [hline]
    nofun
  rw [hdefinitions, lastBinding?_append_of_unbound fun line hline => by rw [hidle line hline]; nofun,
    lastBinding?_concat, lastBinding?_append_of_unbound hblank]
  simp only [Line.binds, List.mem_singleton]

theorem lastBinding?_outermost {program : Code} (h : w.programCode options form = .ok program)
    (name : String) : lastBinding? imported program.outermost name =
      if form = .execution ∧ name = problemName then some (.makeProblem options.className)
      else lastBinding? imported program.definitions name := by
  obtain ⟨idle, hdefinitions, hidle⟩ := @definitions_programCode _ _ _ _ imported _ h
  have hunbound : ∀ line ∈ idle, name ∉ line.binds imported := by
    intro line hline
    rw [hidle line hline]
    nofun
  rw [hdefinitions, lastBinding?_append_of_unbound hunbound, outermost_programCode h]
  cases form with
  | component => rw [if_neg (by simp), mainPart, Forest.toList_nil, List.append_nil]
  | execution =>
    have hmain : (mainPart options .execution).toList =
        [.blank, .blank, .ifMain] ++ [.makeProblem options.className] ++
          [.solveProblem, .terminateProblem, .blank, .printFinished] := rfl
    rw [hmain, ← List.append_assoc, ← List.append_assoc, lastBinding?_append_of_unbound,
      lastBinding?_concat, lastBinding?_append_of_unbound]
    · simp [Line.binds]
    · simp [Line.binds]
    · simp [Line.binds]

/-- **What the names of a program denote.** A program defines one class, and its name denotes the class from
then on. Every other name denotes what the imports bind to it, up to the end, save for the name of the
instance that a program makes to run the workflow. So the constructor of a model is the class of the program
exactly if the settings give this the name of the class of the model, and the same holds for the runtime
module. -/
theorem namesBound_of_programCode {program : Code} (h : w.programCode options form = .ok program) :
    w.NamesBound options form imported program where
  classes := class_programCode h
  constructed := construction_init h
  runtimes := runtime_programCode h
  defined := lastBinding?_definitions h
  later := lastBinding?_outermost h
  importedModule := by
    intro hfree
    refine lastBinding?_eq_some List.mem_cons_self List.mem_cons_self fun other ho hbinds => ?_
    cases precedes_of_mem (List.mem_append_left [.blank, .blank] ho) with
    | runtime => rfl
    | model => exact absurd hbinds (hfree _ ho)
    | blank => cases hbinds
  importedClass := by
    intro block hb setup hkind modelClass hfind hbinds hruntime honly
    have hneeded : setup.className ∈ w.neededClasses :=
      List.mem_filterMap.mpr ⟨block, hb, by rw [hkind]; rfl⟩
    have hline : .importClass modelClass.importStatement ∈ w.importLines options :=
      List.mem_cons_of_mem _ (List.mem_filterMap.mpr
        ⟨setup.className, mem_usedClasses.mpr hneeded, by rw [hfind]; rfl⟩)
    refine lastBinding?_eq_some hline hbinds fun other ho hother => ?_
    cases precedes_of_mem (List.mem_append_left [.blank, .blank] ho) with
    | runtime => exact absurd (List.mem_singleton.mp hother) hruntime
    | model => rw [honly _ ho hother]
    | blank => cases hother

/-- What is generated denotes by its names what a program does, and the class has a legal name. -/
theorem namesBound_of_generate {lines : List String}
    (hg : (w.generate options form).1 = .ok lines) :
    ∃ program, w.assignNames.programCode options form = .ok program ∧ lines = program.lines ∧
      Identifier.ofName? options.className = some options.className ∧
      ∀ imported, w.assignNames.NamesBound options form imported program := by
  obtain ⟨program, hprogram, hlines⟩ := generate_eq_ok hg
  refine ⟨program, hprogram, hlines, ?_, fun _ => namesBound_of_programCode hprogram⟩
  by_contra hname
  rw [generate, if_neg hname] at hg
  cases hg

/-- What the statement binds that imports a pipe. -/
def pipeImports (statement : String) : List String :=
  if statement = "from pipes import Pipe" then ["Pipe"] else []

/-- A program with one pipe, for which the class has a name of its own. The constructor of the pipe and the
runtime module are what has been imported. -/
theorem namesBound_of_pipe :
    ∃ (w : Workflow Unit) (program : Code), w.Reachable ∧
      w.assignNames.programCode {} .execution = .ok program ∧
      "\t\tmupif.Workflow.Workflow.__init__(self)" ∈ program.lines ∧
      "\t\tself.model_1 = Pipe()" ∈ program.lines ∧
      w.assignNames.NamesBound {} .execution pipeImports program ∧
      lastBinding? pipeImports program.definitions "mupif" = some (.importModule "mupif") ∧
      lastBinding? pipeImports program.definitions "Pipe" =
        some (.importClass "from pipes import Pipe") := by
  have hpipe := @Reachable.edited Unit _ _ (.addModel rootId ⟨"Pipe", none, none⟩ none) _
    (.new "uid-" "Plan" pipes) rfl
  obtain ⟨w, lines, hw, hg, hbase, hmodel, himports⟩ : ∃ (w : Workflow Unit) (lines : List String),
      w.Reachable ∧ (w.generate {} .execution).1 = .ok lines ∧
        "\t\tmupif.Workflow.Workflow.__init__(self)" ∈ lines ∧ "\t\tself.model_1 = Pipe()" ∈ lines ∧
        w.assignNames.importLines {} =
          [.importModule "mupif", .importClass "from pipes import Pipe"] :=
    ⟨_, _, hpipe, rfl, by decide +kernel, by decide +kernel, rfl⟩
  obtain ⟨program, hprogram, rfl, -, hbound⟩ := namesBound_of_generate hg
  refine ⟨w, program, hw, hprogram, hbase, hmodel, hbound pipeImports, ?_, ?_⟩
  · rw [(hbound pipeImports).defined, if_neg (by decide), himports]
    rfl
  · rw [(hbound pipeImports).defined, if_neg (by decide), himports]
    rfl

/-- Two programs whose classes take the place of what was imported: one has the name of the runtime module,
and the other one that of the class of its model. The first method of the one refers to a member of the
class that there is only in the module, and that of the other makes an instance of its own class. -/
theorem rebinds_of_class_names :
    ∃ (w : Workflow Unit) (first second : Code), w.Reachable ∧
      w.assignNames.programCode { className := "mupif" } .component = .ok first ∧
      (w.generate { className := "mupif" } .component).1 = .ok first.lines ∧
      "\t\tmupif.Workflow.Workflow.__init__(self)" ∈ first.lines ∧
      lastBinding? pipeImports first.definitions "mupif" = some (.classDef "mupif" "mupif") ∧
      w.assignNames.programCode { className := "Pipe" } .component = .ok second ∧
      (w.generate { className := "Pipe" } .component).1 = .ok second.lines ∧
      "\t\tself.model_1 = Pipe()" ∈ second.lines ∧
      lastBinding? pipeImports second.definitions "Pipe" = some (.classDef "Pipe" "mupif") := by
  have hpipe := @Reachable.edited Unit _ _ (.addModel rootId ⟨"Pipe", none, none⟩ none) _
    (.new "uid-" "Plan" pipes) rfl
  exact ⟨_, _, _, hpipe, rfl, rfl, by decide +kernel, rfl, rfl, rfl, by decide +kernel, rfl⟩

end Workflow

end SlotFlow
