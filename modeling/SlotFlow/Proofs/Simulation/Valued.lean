import SlotFlow.Proofs.Program.Reindexed
import SlotFlow.Proofs.Simulation.Fed
/-!
# Where there is a value to read

A program reads what a slot is linked to by an expression, and a simulation by asking for a value. The
expression is `None` where the program knows of no value, and the simulation may know better: it hands on
what a named value stands for, while the program has no expression for that.

* `Simulation.Amid` — a simulation at any moment, also in the middle of an execution;
* `Workflow.ReadsNothing` — a simulation never finds a value at the other end of a slot's link;
* `OwnedSlot.hasGetter` — the slots for which a program has an expression.

## Results

* `Workflow.text_readSlot_iff` — when an expression is `None`;
* `Simulation.linked_apply` — what a simulation finds at the other end of a link;
* `Workflow.Reachable.getters_and_reads` — where the two agree, and where they do not;
* `Workflow.getters_and_reads_differ` — a value that a simulation hands on and the program does not.
-/

namespace SlotFlow

/-- There is no value for an expression exactly if the expression says so. -/
theorem Expr.text_eq_none_iff (expr : Expr) : expr.text = "None" ↔ expr = .none := by
  constructor
  · intro h
    cases expr with
    | none => rfl
    | quantity => simp [text, toString, String.ext_iff] at h
    | member => simp [text, String.ext_iff] at h
  · rintro rfl
    rfl

/-- Whether a program has an expression other than `None` for what a slot provides. -/
def OwnedSlot.hasGetter (owned : OwnedSlot) : Bool :=
  match owned.owner.kind with
  | .model _ | .constant _ => true
  | .workflow => owned.slot.external
  | _ => false

namespace Workflow

variable {μ : Type} {w : Workflow μ} {id source : SlotId} {owned : OwnedSlot}

/-- A slot that is linked is linked to a slot of some block. -/
theorem WellFormed.exists_partner? (h : w.WellFormed) (hlinked : w.isLinked id = true) :
    ∃ source owned, w.partner? id = some source ∧ w.ownedSlot? source = some owned := by
  obtain ⟨source, hsource⟩ := exists_partner?_of_isLinked hlinked
  obtain ⟨slot, hs, hid⟩ := h.exists_slot_of_partner? hsource
  obtain ⟨owner, howner, hin⟩ := mem_slots.mp hs
  exact ⟨source, ⟨owner, slot⟩, hsource, h.ownedSlot?_eq_some.mpr ⟨howner, hin, hid⟩⟩

/-- When an expression is `None`. -/
theorem text_readSlot_iff (hsource : w.partner? id = some source)
    (howned : w.ownedSlot? source = some owned) (time : TimeExpr) :
    (w.readSlot id time).text = "None" ↔ owned.hasGetter = false := by
  have hread : w.readSlot id time = w.provideSlot source time := by
    rw [readSlot, hsource]
  rw [Expr.text_eq_none_iff, hread, provideSlot, howned, OwnedSlot.hasGetter]
  dsimp only
  cases hkind : owned.owner.kind <;> simp

end Workflow

namespace Simulation

variable {R μ : Type} {w : Workflow μ} {sim : Simulation R μ} {id source : SlotId}
  {owned : OwnedSlot}

variable [TimeNumber R] [NativeModel R μ]

-- ---------------------------------------------------------------------------
-- What a simulation finds
-- ---------------------------------------------------------------------------

/-- What a simulation finds at the other end of a link. -/
theorem linked_apply (hsource : sim.workflow.partner? id = some source)
    (howned : sim.workflow.ownedSlot? source = some owned) (moment : Moment R) :
    linked id moment sim =
      match owned.owner.kind with
      | .model setup =>
        askModel owned.owner.id setup.className owned.slot.objectType
          (moment.time.getD (TimeNumber.ofFloat 0.0)) owned.slot.objectId sim
      | .constant literal => (.ok (constantValue literal), sim)
      | .named .. => (.ok ((sim.bound.lookup owned.owner.id).getD .none), sim)
      | .workflow =>
        if owned.slot.external then (.ok ((sim.inputs.lookup source).getD .none), sim)
        else (.ok .none, sim)
      | _ => (.ok .none, sim) := by
  rw [linked, get_bind_apply, hsource]
  dsimp only
  rw [provided, get_bind_apply, howned]
  dsimp only
  cases owned.owner.kind with
  | workflow => cases owned.slot.external <;> rfl
  | _ => rfl

/-- A simulation at some moment: between two requests, or in the middle of an execution. -/
inductive Amid (w : Workflow μ) : Simulation R μ → Prop where
  | between {sim : Simulation R μ} (h : Over w sim) : Amid w sim
  | executed {sim : Simulation R μ} (h : Amid w sim) {forest : Forest Block}
      (hforest : ∀ block ∈ forest.toList, block ∈ w.blocks) (moment : Moment R) :
      Amid w (execute forest moment sim).2
  | handed {sim : Simulation R μ} (h : Amid w sim) (block : Block) (className : String)
      (moment : Moment R) (slots : List Slot) :
      Amid w (takeInputs block className moment slots sim).2
  | asked {sim : Simulation R μ} (h : Amid w sim) (id : SlotId) (moment : Moment R) :
      Amid w (linked id moment sim).2
  | counted {sim : Simulation R μ} (h : Amid w sim) (steps : Nat) :
      Amid w { sim with timeSteps := steps }

theorem Amid.fed (h : Amid w sim) (hw : w.WellFormed) : Fed w sim := by
  induction h with
  | between h => exact h.fed hw
  | executed _ hforest moment ih => exact (keeps_execute hw moment hforest).kept _ ih
  | handed _ block className moment slots ih => exact (keeps_takeInputs hw ..).kept _ ih
  | asked _ id moment ih => exact (keeps_linked hw id moment).kept _ ih
  | counted _ steps ih => exact ih.of_continues ⟨rfl, rfl⟩ rfl

end Simulation

namespace Workflow

open Simulation

variable {μ : Type} {w : Workflow μ} {id source : SlotId} {owned : OwnedSlot}

/-- Whatever models do, whatever is set from outside and whatever has happened before, a simulation
finds no value at the other end of a slot's link. -/
def ReadsNothing (w : Workflow μ) (id : SlotId) : Prop :=
  ∀ (R : Type) [TimeNumber R] [NativeModel R μ] (sim : Simulation R μ), Amid w sim →
    ∀ moment, (linked id moment sim).1 = .ok .none

/-- A program has no expression, and a simulation no value, for what other blocks than named values
provide. -/
theorem readsNothing_of_hasGetter (hw : w.WellFormed) (hsource : w.partner? id = some source)
    (howned : w.ownedSlot? source = some owned) (hnone : owned.hasGetter = false)
    (hnamed : ∀ text type, owned.owner.kind ≠ .named text type) : w.ReadsNothing id := by
  intro R _ _ sim hsim moment
  have hworkflow := (hsim.fed hw).workflow
  rw [OwnedSlot.hasGetter] at hnone
  rw [linked_apply (hworkflow.symm ▸ hsource) (hworkflow.symm ▸ howned)]
  cases hkind : owned.owner.kind with
  | model => simp [hkind] at hnone
  | constant => simp [hkind] at hnone
  | named text type => exact absurd hkind (hnamed text type)
  | workflow =>
    rw [hkind] at hnone
    dsimp only at hnone ⊢
    rw [hnone]
    rfl
  | _ => rfl

/-- A named value at the end of a chain that starts nowhere stands for nothing. -/
theorem readsNothing_of_not_fed (hw : w.WellFormed) (hsource : w.partner? id = some source)
    (howned : w.ownedSlot? source = some owned) {text : String} {type : SlotType}
    (hkind : owned.owner.kind = .named text type) (hfed : ¬w.FeedsNamed owned.owner) :
    w.ReadsNothing id := by
  intro R _ _ sim hsim moment
  have hinv := hsim.fed hw
  have howner := (mem_of_ownedSlot? howned).1
  rw [linked_apply (hinv.workflow.symm ▸ hsource) (hinv.workflow.symm ▸ howned), hkind]
  dsimp only
  cases hlookup : sim.bound.lookup owned.owner.id with
  | none => rfl
  | some value =>
    by_cases hvalue : value = .none
    · rw [hvalue]
      rfl
    · exact absurd (hinv.bound owned.owner howner value hlookup hvalue) hfed

/-- A simulation has no instance for the root. -/
theorem readsNothing_of_root (hw : w.WellFormed) (hsource : w.partner? id = some source)
    (howned : w.ownedSlot? source = some owned) (hroot : owned.owner = w.root)
    (hmodel : w.root.isModel = true) : w.ReadsNothing id := by
  intro R _ _ sim hsim moment
  have hinv := hsim.fed hw
  obtain ⟨setup, hsetup⟩ := Option.isSome_iff_exists.mp hmodel
  have hkind : owned.owner.kind = .model setup := by
    rw [hroot]
    exact BlockKind.model?_eq_some.mp hsetup
  have hnone : sim.model? owned.owner.id = none := by
    refine model?_eq_none fun hkey => ?_
    have hids := hw.blocks.ids
    rw [blocks_eq, List.map_cons, List.nodup_cons] at hids
    rw [HasModel, hinv.models, hroot] at hkey
    exact hids.1 ((List.filter_sublist.map _).subset hkey)
  rw [linked_apply (hinv.workflow.symm ▸ hsource) (hinv.workflow.symm ▸ howned), hkind]
  dsimp only
  rw [askModel, hnone]

-- ---------------------------------------------------------------------------
-- Where there is a value
-- ---------------------------------------------------------------------------

/-- Models that answer every question with the same number. -/
@[reducible]
def answering (μ : Type) : NativeModel Float μ where
  declaration _ := { name := "", inputs := [], outputs := [] }
  criticalTimeStep _ := 1.0
  solveStep _ state := (.ok (), state)
  set _ _ state := (.ok (), state)
  get _ _ _ _ := .ok (.scalar 1.0)
  terminate state := state

/-- A registry in which every class of a model has the same native model. -/
def nativeRegistry (w : Workflow μ) (fresh : μ) : Registry μ where
  classes := w.models.filterMap fun block => block.kind.model?.map fun setup =>
    { name := setup.className
      importStatement := ""
      declaration := { name := "", inputs := [], outputs := [] }
      native := some fresh }

theorem native?_nativeRegistry {fresh : μ} {block : Block} (hb : block ∈ w.models) {setup : ModelSetup}
    (hsetup : block.kind.model? = some setup) :
    (w.nativeRegistry fresh).native? setup.className = some fresh := by
  have hfound : ((w.nativeRegistry fresh).find? setup.className).isSome = true := by
    rw [Registry.find?, List.find?_isSome]
    exact ⟨_, List.mem_filterMap.mpr ⟨block, hb, by rw [hsetup]; rfl⟩, decide_eq_true rfl⟩
  obtain ⟨found, hfind⟩ := Option.isSome_iff_exists.mp hfound
  obtain ⟨other, -, hother⟩ := List.mem_filterMap.mp (List.mem_of_find?_eq_some hfind)
  obtain ⟨_, -, rfl⟩ := Option.map_eq_some_iff.mp hother
  rw [Registry.native?, hfind]
  rfl

/-- A simulation starts if every class has a native model. -/
theorem exists_over (w : Workflow μ) (fresh : μ) {R : Type} [TimeNumber R] [NativeModel R μ] :
    ∃ sim : Simulation R μ, Over w sim := by
  have hinstances : ∀ blocks : List Block, blocks ⊆ w.models → ∃ models,
      (instantiate (w.nativeRegistry fresh) blocks : Except (RunError R) _) = .ok models := by
    intro blocks hsub
    induction blocks with
    | nil => exact ⟨[], rfl⟩
    | cons block blocks ih =>
      obtain ⟨models, hmodels⟩ := ih fun other ho => hsub (List.mem_cons_of_mem _ ho)
      cases hsetup : block.kind.model? with
      | none =>
        refine ⟨models, ?_⟩
        rw [instantiate, hsetup]
        exact hmodels
      | some setup =>
        refine ⟨(block.id, fresh) :: models, ?_⟩
        rw [instantiate, hsetup]
        dsimp only
        rw [native?_nativeRegistry (hsub List.mem_cons_self) hsetup, hmodels]
        rfl
  obtain ⟨models, hmodels⟩ := hinstances w.models (List.Subset.refl _)
  have hstart : start w (w.nativeRegistry fresh) =
      .ok ({ workflow := w, models := models, tolerance := defaultTolerance } : Simulation R μ) := by
    rw [start, hmodels]
    rfl
  exact ⟨_, .started hstart⟩

/-- Where a program has an expression, a simulation finds a value, unless it would have to ask the
root. -/
theorem not_readsNothing (hw : w.WellFormed) (fresh : μ) {slot : Slot} (hs : slot ∈ w.slots)
    (hin : slot.direction = .input) (hsource : w.partner? slot.id = some source)
    (howned : w.ownedSlot? source = some owned) (hgetter : owned.hasGetter = true)
    (hroot : owned.owner = w.root → w.root.isModel = false) : ¬w.ReadsNothing slot.id := by
  intro hnothing
  obtain ⟨howner, hslot, hid⟩ := mem_of_ownedSlot? howned
  let _ : NativeModel Float μ := answering μ
  obtain ⟨sim, hover⟩ := w.exists_over fresh (R := Float)
  have hworkflow := hover.workflow_eq
  have hread := hnothing Float sim (.between hover) {}
  rw [linked_apply (hworkflow.symm ▸ hsource) (hworkflow.symm ▸ howned)] at hread
  rw [OwnedSlot.hasGetter] at hgetter
  cases hkind : owned.owner.kind with
  | model setup =>
    have hmodel : owned.owner.isModel = true := by rw [Block.isModel, hkind]; rfl
    have hbelow : owned.owner ∈ w.models := by
      refine List.mem_filter.mpr ⟨?_, hmodel⟩
      rw [blocks_eq, List.mem_cons] at howner
      refine howner.resolve_left fun heq => ?_
      rw [heq, hroot heq] at hmodel
      cases hmodel
    have hhas : sim.HasModel owned.owner.id := by
      rw [HasModel, hover.map_fst_models]
      exact List.mem_map_of_mem hbelow
    obtain ⟨state, hstate⟩ := hhas.exists_model?
    rw [hkind] at hread
    dsimp only at hread
    rw [askModel, hstate] at hread
    cases hread
  | constant literal =>
    rw [hkind] at hread
    cases literal <;> cases hread
  | workflow =>
    -- a value that is set from outside is found
    have hext : owned.slot.external = true := by rwa [hkind] at hgetter
    have hborder : owned.slot ∈ w.borderSlots .output := by
      refine mem_borderSlots.mpr ⟨mem_slots.mpr ⟨_, howner, hslot⟩, hext, ?_⟩
      exact hw.direction_of_partner? hs hin (hid ▸ hsource) (mem_slots.mpr ⟨_, howner, hslot⟩)
    have hset := hnothing Float _ (.between (hover.inputSet owned.slot.name (.scalar 1.0))) {}
    have hfind : sim.externalSlot? .output owned.slot.name = some owned.slot := by
      rw [externalSlot?, hworkflow]
      exact hw.find?_borderSlots hborder
    have hafter : (setInput owned.slot.name (.scalar 1.0) sim).2 =
        { sim with inputs := assign owned.slot.id (.scalar 1.0) sim.inputs } := by
      rw [setInput, get_bind_apply, hfind]
      rfl
    rw [hafter, linked_apply (by exact hworkflow.symm ▸ hsource) (by exact hworkflow.symm ▸ howned),
      hkind] at hset
    dsimp only at hset
    rw [if_pos hext, lookup_assign, if_pos hid.symm] at hset
    cases hset
  | _ =>
    rw [hkind] at hgetter
    cases hgetter

-- ---------------------------------------------------------------------------
-- Main result
-- ---------------------------------------------------------------------------

/-- **Where programs and simulations agree about what there is to read.** Every linked input is linked to a
slot of some block. If that block is neither a named value nor a root that has been made a model, the
program reads the input by the expression `None` exactly if no simulation ever finds a value there. A named
value is always read by `None`, while a simulation hands on what the value stands for at the moment; only
at the end of a chain that starts nowhere this is nothing, too. A root that has been made a model is asked
by the program, and never by a simulation, which has no instance for it. -/
theorem Reachable.getters_and_reads [Nonempty μ] (h : w.Reachable) {slot : Slot} (hs : slot ∈ w.slots)
    (hin : slot.direction = .input) (hlinked : w.isLinked slot.id = true) :
    ∃ source owned, w.partner? slot.id = some source ∧ w.ownedSlot? source = some owned ∧
      ((∀ text type, owned.owner.kind ≠ .named text type) →
        (owned.owner = w.root → w.root.isModel = false) →
          ∀ time, (w.readSlot slot.id time).text = "None" ↔ w.ReadsNothing slot.id) ∧
      (∀ text type, owned.owner.kind = .named text type →
        (∀ time, (w.readSlot slot.id time).text = "None") ∧
        (¬w.FeedsNamed owned.owner → w.ReadsNothing slot.id) ∧
        ∀ (R : Type) [TimeNumber R] [NativeModel R μ] (sim : Simulation R μ), Amid w sim →
          ∀ moment, linked slot.id moment sim =
            (.ok ((sim.bound.lookup owned.owner.id).getD .none), sim)) ∧
      (owned.owner = w.root → w.root.isModel = true →
        (∀ time, (w.readSlot slot.id time).text ≠ "None") ∧ w.ReadsNothing slot.id) := by
  have hw := h.wellFormed
  obtain ⟨fresh⟩ := ‹Nonempty μ›
  obtain ⟨source, owned, hsource, howned⟩ := hw.exists_partner? hlinked
  refine ⟨source, owned, hsource, howned, fun hnamed hroot time => ?_, fun text type hkind => ?_,
    fun hroot hmodel => ?_⟩
  · rw [text_readSlot_iff hsource howned]
    constructor
    · intro hnone
      exact readsNothing_of_hasGetter hw hsource howned hnone hnamed
    · intro hnothing
      by_contra hgetter
      exact not_readsNothing hw fresh hs hin hsource howned (Bool.not_eq_false _ ▸ hgetter) hroot
        hnothing
  · have hnone : owned.hasGetter = false := by rw [OwnedSlot.hasGetter, hkind]
    refine ⟨fun time => (text_readSlot_iff hsource howned time).mpr hnone,
      readsNothing_of_not_fed hw hsource howned hkind, fun R _ _ sim hsim moment => ?_⟩
    have hworkflow := (hsim.fed hw).workflow
    rw [linked_apply (hworkflow.symm ▸ hsource) (hworkflow.symm ▸ howned), hkind]
  · obtain ⟨setup, hsetup⟩ := Option.isSome_iff_exists.mp hmodel
    have hgetter : owned.hasGetter = true := by
      rw [OwnedSlot.hasGetter, hroot, BlockKind.model?_eq_some.mp hsetup]
    refine ⟨fun time htext => ?_, readsNothing_of_root hw hsource howned hroot hmodel⟩
    rw [text_readSlot_iff hsource howned, hgetter] at htext
    cases htext

/-- A named value is linked to a constant, and an output to the named value. The program and a simulation
agree about the input of the named value. -/
theorem getters_and_reads_of_constant :
    ∃ (w : Workflow Timer) (slot : Slot), w.Reachable ∧ slot ∈ w.slots ∧ slot.direction = .input ∧
      w.isLinked slot.id = true ∧ slot.id = ⟨4⟩ ∧
      (w.assignNames.readSlot ⟨4⟩ .none).text = "self.float_variable_1" ∧ ¬w.ReadsNothing ⟨4⟩ := by
  have hconstant := @Reachable.edited Timer _ _ (.addBlock rootId (.constant (.number 1.0)) none) _
    (.new "uid-" "Plan" timers) rfl
  have hnamed := @Reachable.edited Timer _ _ (.addBlock rootId (.named "y" .double) none) _
    hconstant rfl
  have hlinked := @Reachable.edited Timer _ _ (.connect ⟨2⟩ ⟨4⟩ none) _ hnamed rfl
  obtain ⟨source, owned, hsource, howned, hagree, -, -⟩ :=
    @Reachable.getters_and_reads Timer _ ⟨⟨2⟩⟩ hlinked
      ⟨⟨4⟩, "uid-4", "value", .double, true, ⟨.input, false⟩, none, .default, none⟩
      (by decide +kernel) rfl rfl
  cases hsource
  cases howned
  refine ⟨_, ⟨⟨4⟩, "uid-4", "value", .double, true, ⟨.input, false⟩, none, .default, none⟩, hlinked,
    ?_, rfl, rfl, rfl, by decide +kernel, ?_⟩
  · decide +kernel
  · rw [← hagree nofun (by intro h; cases h) .none]
    decide +kernel

/-- A value that a simulation hands on and the program does not. An output of the workflow is linked to a
named value, and the named value to a constant. After a run the simulation gives the number when it is asked
for the output, and the program returns `None`. -/
theorem getters_and_reads_differ :
    ∃ (w : Workflow Timer) (slot : Slot) (program : Code) (sim : Simulation Nat Timer),
      w.Reachable ∧ slot ∈ w.slots ∧ slot.direction = .input ∧ w.isLinked slot.id = true ∧
      w.assignNames.programCode {} .component = .ok program ∧
      "\t\t\treturn None" ∈ program.lines ∧
      (∀ time, (w.assignNames.readSlot slot.id time).text = "None") ∧
      Over w sim ∧ (run sim).1.toOption = some 0 ∧
      (output slot.name 0 (run sim).2).1.toOption.map Value.typeName = some "Scalar" ∧
      ¬((∀ time, (w.readSlot slot.id time).text = "None") ↔ w.ReadsNothing slot.id) := by
  have hconstant := @Reachable.edited Timer _ _ (.addBlock rootId (.constant (.number 1.0)) none) _
    (.new "uid-" "Plan" timers) rfl
  have hnamed := @Reachable.edited Timer _ _ (.addBlock rootId (.named "y" .double) none) _
    hconstant rfl
  have hout := @Reachable.edited Timer _ _
    (.addSlot ⟨3⟩ { name := "out", type := .double, kind := ⟨.output, false⟩ }) _ hnamed rfl
  have hresult := @Reachable.edited Timer _ _
    (.addSlot rootId { name := "result", type := .double, kind := ⟨.input, true⟩ }) _ hout rfl
  have hfed := @Reachable.edited Timer _ _ (.connect ⟨2⟩ ⟨4⟩ none) _ hresult rfl
  have hlinked := @Reachable.edited Timer _ _ (.connect ⟨5⟩ ⟨6⟩ none) _ hfed rfl
  have hover := over_of_reachable hlinked rfl
  refine ⟨_, ⟨⟨6⟩, "uid-6", "result", .double, true, ⟨.input, true⟩, none, .name "result", none⟩, _, _,
    hlinked, by decide +kernel, rfl, rfl, rfl, by decide +kernel, fun time => rfl, hover,
    by decide +kernel, by decide +kernel, fun hagree => ?_⟩
  have hnothing := congrArg (fun read => read.toOption.map Value.typeName)
    (hagree.mp (fun time => rfl) Nat _ (.between hover.ran) {})
  revert hnothing
  decide +kernel

end Workflow

end SlotFlow
