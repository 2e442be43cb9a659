import SlotFlow.Proofs.Simulation.Instantiated
/-!
# Where values come from

A value that travels along a link has been provided by a model below the root, by a constant or from
outside. A named value only hands on what is linked to it, so that in a chain of named values that starts
nowhere no value ever arrives, whatever models do and whatever is asked of a simulation.

* `Workflow.Feeds` — there is something at the start of the chain that leads to a slot;
* `Simulation.Fed` — named values stand only for what comes from somewhere;
* `Simulation.Keeps` — an action that leaves it at that, and what it answers.

## Results

* `Simulation.keeps_provided`, `Simulation.keeps_execute` — no action makes a value out of nothing;
* `Simulation.Over.fed` — named values stand only for what comes from somewhere, at every moment;
* `Simulation.Over.feeds_of_linked` — a value that is read comes from somewhere.
-/

namespace SlotFlow

namespace Workflow

variable {μ : Type}

/-- There is something that may provide a slot with a value. -/
inductive Feeds (w : Workflow μ) : SlotId → Prop where
  | model {id : SlotId} {owned : OwnedSlot} (h : w.ownedSlot? id = some owned)
      (hmodel : owned.owner ∈ w.models) : Feeds w id
  | constant {id : SlotId} {owned : OwnedSlot} {literal : Constant} (h : w.ownedSlot? id = some owned)
      (hkind : owned.owner.kind = .constant literal) : Feeds w id
  | input {id : SlotId} {owned : OwnedSlot} (h : w.ownedSlot? id = some owned)
      (hkind : owned.owner.kind = .workflow) (hext : owned.slot.external = true) : Feeds w id
  /-- What is linked to a named value may be provided. -/
  | named {id : SlotId} {owned : OwnedSlot} {text : String} {type : SlotType} {slot : Slot}
      {source : SlotId} (h : w.ownedSlot? id = some owned)
      (hkind : owned.owner.kind = .named text type)
      (hslot : owned.owner.slot? BlockKind.valueSlot = some slot)
      (hsource : w.partner? slot.id = some source) (hfeeds : Feeds w source) : Feeds w id

/-- What is linked to a slot may be provided with a value. -/
def FeedsLinked (w : Workflow μ) (id : SlotId) : Prop :=
  ∃ source, w.partner? id = some source ∧ w.Feeds source

/-- What is linked to a named value may be provided with a value. -/
def FeedsNamed (w : Workflow μ) (block : Block) : Prop :=
  ∃ slot, block.slot? BlockKind.valueSlot = some slot ∧ w.FeedsLinked slot.id

end Workflow

namespace Simulation

variable {R μ α β : Type} {w : Workflow μ} {sim after : Simulation R μ}

/-- A simulation of a workflow whose named values stand only for what comes from somewhere. -/
structure Fed (w : Workflow μ) (sim : Simulation R μ) : Prop where
  workflow : sim.workflow = w
  models : sim.models.map Prod.fst = w.models.map Block.id
  bound : ∀ block ∈ w.blocks, ∀ value, sim.bound.lookup block.id = some value → value ≠ .none →
    w.FeedsNamed block

/-- What leaves the named values alone does not matter. -/
theorem Fed.of_continues (h : Fed w sim) (hcontinues : sim.Continues after)
    (hbound : after.bound = sim.bound) : Fed w after where
  workflow := hcontinues.workflow.trans h.workflow
  models := hcontinues.blocks.trans h.models
  bound := by
    rw [hbound]
    exact h.bound

-- ---------------------------------------------------------------------------
-- Actions
-- ---------------------------------------------------------------------------

/-- An action makes no value out of nothing, whether it succeeds or fails, and its answer has a
property. -/
structure Keeps (w : Workflow μ) (action : Action R μ α) (post : α → Prop) : Prop where
  kept : ∀ sim, Fed w sim → Fed w (action sim).2
  answers : ∀ sim, Fed w sim → ∀ a, (action sim).1 = .ok a → post a

variable {action : Action R μ α} {next : α → Action R μ β} {post : α → Prop} {final : β → Prop}

theorem keeps_pure {a : α} (h : post a) : Keeps w (pure a : Action R μ α) post where
  kept _ hsim := hsim
  answers := by
    rintro _ _ _ ⟨⟩
    exact h

theorem keeps_throw (error : RunError R) : Keeps w (throw error : Action R μ α) post where
  kept _ hsim := hsim
  answers := nofun

theorem Keeps.mono {post' : α → Prop} (h : Keeps w action post) (hpost : ∀ a, post a → post' a) :
    Keeps w action post' :=
  ⟨h.kept, fun sim hsim a ha => hpost a (h.answers sim hsim a ha)⟩

theorem Keeps.bind (h : Keeps w action post) (hnext : ∀ a, post a → Keeps w (next a) final) :
    Keeps w (action >>= next) final := by
  have hboth : ∀ sim, Fed w sim → Fed w ((action >>= next) sim).2 ∧
      ∀ b, ((action >>= next) sim).1 = .ok b → final b := by
    intro sim hsim
    have hkept := h.kept sim hsim
    have hanswers := h.answers sim hsim
    rw [bind_apply]
    rcases houtcome : action sim with ⟨result, middle⟩
    rw [houtcome] at hkept hanswers
    cases result with
    | error error => exact ⟨hkept, nofun⟩
    | ok a =>
      have hthen := hnext a (hanswers a rfl)
      exact ⟨hthen.kept middle hkept, hthen.answers middle hkept⟩
  exact ⟨fun sim hsim => (hboth sim hsim).1, fun sim hsim => (hboth sim hsim).2⟩

/-- What comes after an action whose answer does not matter. -/
theorem Keeps.then (h : Keeps w action post) (hnext : ∀ a, Keeps w (next a) final) :
    Keeps w (action >>= next) final :=
  h.bind fun a _ => hnext a

theorem keeps_get {next : Simulation R μ → Action R μ β}
    (h : ∀ sim, Fed w sim → Keeps w (next sim) final) : Keeps w (get >>= next) final where
  kept sim hsim := (h sim hsim).kept sim hsim
  answers sim hsim := (h sim hsim).answers sim hsim

theorem keeps_modify {f : Simulation R μ → Simulation R μ} (h : ∀ sim, Fed w sim → Fed w (f sim)) :
    Keeps w (modify f : Action R μ PUnit) fun _ => True :=
  ⟨h, fun _ _ _ _ => trivial⟩

theorem keeps_callModel (id : BlockId) (className : String) (call : ModelCall R)
    (act : μ → Except String Unit × μ) :
    Keeps w (callModel id className call act) fun _ => True where
  kept sim hsim := by
    refine hsim.of_continues (presupposes_callModel ..).continues ?_
    unfold callModel
    split
    · rfl
    · dsimp only
      split <;> rfl
  answers _ _ _ _ := trivial

theorem keeps_repeatSteps [TimeNumber R] (name : String) {next : Action R μ R}
    {body : TimeStep R → Action R μ Unit} (hnext : Keeps w next fun _ => True)
    (hbody : ∀ step, Keeps w (body step) fun _ => True)
    (fuel : Nat) (loop : TimeLoop R) :
    Keeps w (repeatSteps name next body fuel loop) fun _ => True := by
  refine ⟨fun sim hsim => ?_, fun _ _ _ _ => trivial⟩
  induction fuel generalizing loop sim with
  | zero =>
    unfold repeatSteps
    split <;> exact hsim
  | succ fuel ih =>
    unfold repeatSteps
    split
    · have hkept := hnext.kept sim hsim
      dsimp only
      split
      · rename_i houtcome
        rwa [houtcome] at hkept
      · rename_i dt middle houtcome
        rw [houtcome] at hkept
        have hstart : Fed w { middle with timeSteps := middle.timeSteps + 1 } :=
          hkept.of_continues ⟨rfl, rfl⟩ rfl
        have hround := (hbody (loop.advance dt).1).kept _ hstart
        split
        · rename_i hbodyOutcome
          rwa [hbodyOutcome] at hround
        · rename_i hbodyOutcome
          rw [hbodyOutcome] at hround
          exact ih _ _ hround
    · exact hsim

theorem bound_setInput (name : String) (value : Value R) (sim : Simulation R μ) :
    (setInput name value sim).2.bound = sim.bound := by
  rw [setInput, get_bind_apply]
  cases sim.externalSlot? .output name <;> rfl

variable [NativeModel R μ]

theorem bound_terminateAll (models : List (BlockId × μ)) (sim : Simulation R μ) :
    (terminateAll models sim).bound = sim.bound := by
  induction models generalizing sim with
  | nil => rfl
  | cons entry models ih =>
    rw [terminateAll, ih]
    rfl

/-- A model that answers is one of those below the root. -/
theorem keeps_askModel (hw : w.WellFormed) {owner : Block} (howner : owner ∈ w.blocks)
    (className : String) (objectType : Option String) (time : R) (objectId : ObjectId) :
    Keeps w (askModel owner.id className objectType time objectId) fun value =>
      value ≠ .none → owner ∈ w.models := by
  refine ⟨fun sim hsim => hsim.of_continues (quiet_askModel ..).continues ?_,
    fun sim hsim value hvalue hsome => ?_⟩
  · unfold askModel
    split
    · rfl
    · dsimp only
      split <;> rfl
  · have hkey : sim.HasModel owner.id := by
      by_contra hnone
      rw [askModel, model?_eq_none hnone] at hvalue
      cases hvalue
      exact hsome rfl
    rw [HasModel, hsim.models] at hkey
    obtain ⟨model, hin, hid⟩ := List.mem_map.mp hkey
    have hblock : model ∈ w.blocks :=
      Workflow.mem_blocks_of_mem_body (List.mem_of_mem_filter hin)
    exact hw.block_ext hblock howner hid ▸ hin

-- ---------------------------------------------------------------------------
-- Values of slots
-- ---------------------------------------------------------------------------

variable [TimeNumber R]

/-- **A value that a slot provides comes from somewhere.** -/
theorem keeps_provided (hw : w.WellFormed) (id : SlotId) (moment : Moment R) :
    Keeps w (provided id moment : Action R μ (Value R)) fun value =>
      value ≠ .none → w.Feeds id := by
  have hnone : Keeps w (pure .none : Action R μ (Value R)) fun value => value ≠ .none → w.Feeds id :=
    keeps_pure fun hvalue => absurd rfl hvalue
  unfold provided
  refine keeps_get fun sim hsim => ?_
  rw [hsim.workflow]
  split
  · exact hnone
  · rename_i owned howned
    obtain ⟨howner, -, -⟩ := Workflow.mem_of_ownedSlot? howned
    split
    · refine (keeps_askModel hw howner ..).mono fun value hmodel hsome => ?_
      exact .model howned (hmodel hsome)
    · rename_i literal hkind
      exact keeps_pure fun _ => .constant howned hkind
    · rename_i text type hkind
      refine keeps_pure fun hvalue => ?_
      cases hlookup : sim.bound.lookup owned.owner.id with
      | none =>
        rw [hlookup] at hvalue
        exact absurd rfl hvalue
      | some value =>
        rw [hlookup] at hvalue
        obtain ⟨slot, hslot, source, hsource, hfeeds⟩ :=
          hsim.bound owned.owner howner value hlookup hvalue
        exact .named howned hkind hslot hsource hfeeds
    · rename_i hkind
      split
      · rename_i hext
        exact keeps_pure fun _ => .input howned hkind hext
      · exact hnone
    · exact hnone

theorem keeps_linked (hw : w.WellFormed) (id : SlotId) (moment : Moment R) :
    Keeps w (linked id moment : Action R μ (Value R)) fun value =>
      value ≠ .none → w.FeedsLinked id := by
  unfold linked
  refine keeps_get fun sim hsim => ?_
  rw [hsim.workflow]
  split
  · rename_i source hsource
    exact (keeps_provided hw source moment).mono fun value hfeeds hsome =>
      ⟨source, hsource, hfeeds hsome⟩
  · exact keeps_pure fun hvalue => absurd rfl hvalue

theorem keeps_linkedNumber (hw : w.WellFormed) (id : SlotId) (label : String) (moment : Moment R) :
    Keeps w (linkedNumber id label moment : Action R μ R) fun _ => True := by
  unfold linkedNumber
  refine (keeps_linked hw id moment).then fun value => ?_
  split
  · exact keeps_pure trivial
  · exact keeps_throw _

theorem keeps_readTime (hw : w.WellFormed) (loop : Block) (name : String) (moment : Moment R) :
    Keeps w (readTime loop name moment : Action R μ R) fun _ => True := by
  unfold readTime
  split
  · exact keeps_linkedNumber hw ..
  · exact keeps_throw _

theorem keeps_nextStep (hw : w.WellFormed) (loop : Block) (maxStep : Option Slot)
    (models : List Block) (moment : Moment R) :
    Keeps w (nextStep loop maxStep models moment : Action R μ R) fun _ => True := by
  have hrest : ∀ limit : List R, Keeps w (do
      let sim ← get
      let critical := models.filterMap fun block =>
        (sim.model? block.id).map NativeModel.criticalTimeStep
      let dt := TimeNumber.least (limit ++ critical)
      if TimeNumber.isStep dt then return dt else throw (.nonPositiveStep loop.name dt) :
        Action R μ R) fun _ => True := by
    refine fun limit => keeps_get fun sim _ => ?_
    dsimp only
    split
    · exact keeps_pure trivial
    · exact keeps_throw _
  unfold nextStep
  cases maxStep with
  | none => exact hrest []
  | some slot => exact (keeps_linkedNumber hw ..).then fun limit => hrest [limit]

-- ---------------------------------------------------------------------------
-- Blocks
-- ---------------------------------------------------------------------------

theorem keeps_takeInputs (hw : w.WellFormed) (block : Block) (className : String)
    (moment : Moment R) (slots : List Slot) :
    Keeps w (takeInputs block className moment slots : Action R μ Unit) fun _ => True := by
  induction slots with
  | nil => exact keeps_pure trivial
  | cons slot slots ih =>
    have hfirst : Keeps w (takeInput block className moment slot : Action R μ Unit)
        fun _ => True := by
      unfold takeInput
      split
      · refine keeps_get fun sim _ => ?_
        split
        · exact keeps_pure trivial
        · exact (keeps_provided hw ..).then fun value => keeps_callModel ..
      · exact keeps_pure trivial
    rw [takeInputs]
    exact hfirst.then fun _ => ih

/-- A named value that is executed stands for what is linked to it. -/
theorem keeps_executeNamed (hw : w.WellFormed) {block : Block} (hb : block ∈ w.blocks)
    (moment : Moment R) :
    Keeps w (executeNamed block moment : Action R μ Unit) fun _ => True := by
  unfold executeNamed
  split
  · exact keeps_pure trivial
  · rename_i slot hslot
    refine (keeps_linked hw slot.id moment).bind fun value hvalue => keeps_modify fun sim hsim => ?_
    refine ⟨hsim.workflow, hsim.models, fun other ho present hpresent hsome => ?_⟩
    rw [lookup_assign] at hpresent
    split at hpresent
    · rename_i hid
      obtain rfl := hw.block_ext ho hb hid
      cases hpresent
      exact ⟨slot, hslot, hvalue hsome⟩
    · exact hsim.bound other ho present hpresent hsome

/-- **An execution makes no value out of nothing**, whether it succeeds or fails. -/
theorem keeps_execute (hw : w.WellFormed) {forest : Forest Block} (moment : Moment R)
    (hforest : ∀ block ∈ forest.toList, block ∈ w.blocks) :
    Keeps w (execute forest moment : Action R μ Unit) fun _ => True := by
  induction forest generalizing moment with
  | nil => exact keeps_pure trivial
  | node block below after ihBelow ihAfter =>
    have hb : block ∈ w.blocks := hforest block List.mem_cons_self
    have hbelow := fun moment : Moment R => ihBelow moment fun other ho =>
      hforest other (List.mem_cons_of_mem _ (List.mem_append_left _ ho))
    have hafter := ihAfter moment fun other ho =>
      hforest other (List.mem_cons_of_mem _ (List.mem_append_right _ ho))
    have hthen : ∀ {action : Action R μ Unit}, Keeps w action (fun _ => True) →
        Keeps w (action >>= fun _ => execute after moment) fun _ => True :=
      fun haction => haction.then fun _ => hafter
    rw [execute]
    cases hkind : block.kind with
    | ifElse => exact hthen (keeps_throw _)
    | workflow | sequential => exact hthen (hbelow moment)
    | timeLoop =>
      refine hthen ?_
      unfold executeLoop
      refine keeps_get fun sim _ => ?_
      dsimp only
      split
      · exact keeps_throw _
      · refine (keeps_readTime hw ..).then fun time => (keeps_readTime hw ..).then fun target => ?_
        exact keeps_repeatSteps _ (keeps_nextStep hw ..) (fun step => hbelow _) _ _
    | model setup =>
      refine hthen ?_
      unfold executeModel
      exact (keeps_takeInputs hw ..).then fun _ => keeps_callModel ..
    | named => exact hthen (keeps_executeNamed hw hb moment)
    | constant | code => exact hthen (keeps_pure (a := ()) trivial)

-- ---------------------------------------------------------------------------
-- All simulations
-- ---------------------------------------------------------------------------

theorem keeps_output (hw : w.WellFormed) (name : String) (time : R) :
    Keeps w (output name time : Action R μ (Value R)) fun _ => True := by
  unfold output
  refine keeps_get fun sim _ => ?_
  split
  · exact keeps_throw _
  · exact (keeps_linked hw ..).mono fun _ _ => trivial

/-- **Named values stand only for what comes from somewhere**, whatever is asked of a simulation and
whatever its models do. -/
theorem Over.fed (h : Over w sim) (hw : w.WellFormed) : Fed w sim := by
  have htree : ∀ block ∈ w.tree.toList, block ∈ w.blocks := fun _ hb => hb
  induction h with
  | @started registry sim hstart =>
    refine ⟨(Over.started hstart).workflow_eq, (Over.started hstart).map_fst_models, ?_⟩
    obtain ⟨models, -, hstart⟩ := bind_eq_ok.mp hstart
    cases pure_eq_ok.mp hstart
    intro block _ value hvalue
    cases hvalue
  | adjusted _ _ _ ih => exact ih.of_continues ⟨rfl, rfl⟩ rfl
  | inputSet _ name value ih =>
    exact ih.of_continues (continues_setInput name value) (bound_setInput name value _)
  | outputRead _ name time ih => exact (keeps_output hw name time).kept _ ih
  | @ran sim _ ih =>
    have hrun : Keeps w (run : Action R μ Nat) fun _ => True := by
      unfold run
      refine (keeps_modify (f := fun sim => { sim with timeSteps := 0 }) fun sim hsim =>
        hsim.of_continues ⟨rfl, rfl⟩ rfl).then fun _ => keeps_get fun start hstart => ?_
      rw [hstart.workflow]
      exact (keeps_execute hw _ htree).then fun _ => keeps_get fun _ _ => keeps_pure trivial
    exact hrun.kept sim ih
  | @stepped sim _ step ih =>
    have hstep : Keeps w (solveStep step : Action R μ Unit) fun _ => True := by
      unfold solveStep
      refine keeps_get fun start hstart => ?_
      rw [hstart.workflow]
      exact keeps_execute hw _ htree
    exact hstep.kept sim ih
  | @finished sim _ ih =>
    refine ih.of_continues continues_finish ?_
    unfold finish
    split
    · rfl
    · exact bound_terminateAll ..

/-- **A value that is read comes from somewhere.** -/
theorem Over.feeds_of_linked (h : Over w sim) (hw : w.WellFormed) {id : SlotId} {moment : Moment R}
    {value : Value R} (hvalue : (linked id moment sim).1 = .ok value) (hsome : value ≠ .none) :
    w.FeedsLinked id :=
  (keeps_linked hw id moment).answers sim (h.fed hw) value hvalue hsome

end Simulation

end SlotFlow
