import SlotFlow.Proofs.Document.Carried
import SlotFlow.Proofs.Document.LinkPass
/-!
# Workflows that have been built

A document does not say how a workflow came about, so not every workflow that can be built comes back
from its document. What has to be asked for is a matter of its history: how its blocks were made, and
what became of the slots they were made with.

* `Event`, `Workflow.Built` — histories;
* `Workflow.Faithful` — a history that a document may forget;
* `Workflow.Chronicle` — what a history says about the blocks that there are.

## Results

* `Workflow.Built.chronicle` — the invariant of histories;
* `Workflow.Built.restorable` — a workflow with a faithful history is restorable;
* `Workflow.Built.isomorphic_of_save` — it comes back from its records.
-/

namespace SlotFlow

variable {μ : Type}

-- ---------------------------------------------------------------------------
-- Histories
-- ---------------------------------------------------------------------------

/-- A request that was granted, between the workflows before and after it. -/
structure Event (μ : Type) where
  before : Workflow μ
  edit : Edit μ
  answer : Answer
  after : Workflow μ

namespace Workflow

variable {v w w' : Workflow μ} {events others : List (Event μ)} {registry : Registry μ}

/-- The workflows that are built from nothing, with the requests that were granted on the way, the
last one first. -/
inductive Built : List (Event μ) → Workflow μ → Prop where
  | new (uidStem name : String) (registry : Registry μ) : Built [] (new uidStem name registry)
  | edited {events : List (Event μ)} {w w' : Workflow μ} {edit : Edit μ} {answer : Answer}
      (h : Built events w) (he : w.perform edit = .ok (answer, w')) :
      Built (⟨w, edit, answer, w'⟩ :: events) w'
  | named {events : List (Event μ)} {w : Workflow μ} (h : Built events w) :
      Built events w.assignNames
  | generated {events : List (Event μ)} {w : Workflow μ} (h : Built events w)
      (options : ProgramOptions) (form : ProgramForm) : Built events (w.generate options form).2

theorem Built.reachable (h : Built events w) : w.Reachable := by
  induction h with
  | new uidStem name registry => exact .new ..
  | edited _ he ih => exact .edited ih he
  | named _ ih => exact .named ih
  | generated _ options form ih => exact .generated ih options form

/-- None of the slots of a block is renamed or removed. -/
def Untouched (events : List (Event μ)) (block : Block) : Prop :=
  ∀ slot ∈ block.slots, ∀ event ∈ events, event.edit.changedSlot? ≠ some slot.id

/-- A history that may be forgotten once the workflow is saved: what is loaded over the classes of a
registry is the same. -/
structure Faithful (registry : Registry μ) (events : List (Event μ)) (w : Workflow μ) : Prop where
  /-- No block has changed its kind. -/
  kinds : ∀ event ∈ events, ∀ id kind, event.edit ≠ .setBlockKind id kind
  rootName : w.root.name = w.name
  uids : (w.blocks.map Block.uid).Nodup
  slotUids : (w.slots.map Slot.uid).Nodup
  inner : ∀ block ∈ w.body.toList, block.kind ≠ .workflow
  /-- Models were added as such, and their classes have not changed since. -/
  classes : ∀ block ∈ w.body.toList, ∀ setup, block.kind = .model setup →
    ∃ creation ∈ events, creation.answer = .block block.id ∧
      (∃ parent uid, creation.edit = .addModel parent setup uid) ∧
      registry.find? setup.className = creation.before.registry.find? setup.className
  /-- The slots that blocks below the root were made with have been left alone. -/
  made : ∀ block ∈ w.body.toList, ∀ creation ∈ events, creation.answer = .block block.id →
    ∀ fresh, creation.after.block? block.id = some fresh → Untouched events fresh
  /-- The slots that were added have no object type that stands for none. -/
  added : ∀ slot ∈ w.slots, ∀ event ∈ events, event.answer = .slot slot.id → slot.Plain
  border : w.LinkedInside

-- ---------------------------------------------------------------------------
-- What histories say
-- ---------------------------------------------------------------------------

/-- The slots of a block are those it was made with, which answer what was asked for, and after them
slots that were added. -/
def MadeAs (events : List (Event μ)) (requests : List SlotRequest) (fresh block : Block) : Prop :=
  ∃ made added, block.slots = made ++ added ∧ made.map Slot.id = fresh.slots.map Slot.id ∧
    List.Forall₂ (fun request slot => slot.Answers request) requests made ∧
    ∀ slot ∈ added, ∃ event ∈ events, event.answer = .slot slot.id

/-- A request accounts for the block that it was answered with. -/
structure Explains (events : List (Event μ)) (creation : Event μ) (block : Block) : Prop where
  kind : creation.edit.kind? = some block.kind
  slots : ∃ requests fresh, creation.edit.requests? creation.before.registry = some requests ∧
    creation.after.block? block.id = some fresh ∧
    (Untouched events fresh → MadeAs events requests fresh block)

/-- What a history says about a workflow: each block below the root was made by a request that
accounts for it, and the slots of the root have been added. -/
structure Chronicle (events : List (Event μ)) (w : Workflow μ) : Prop where
  root : w.root.kind = .workflow
  rootSlots : ∀ slot ∈ w.root.slots, ∃ event ∈ events, event.answer = .slot slot.id
  nested : w.tree.Nested
  made : ∀ block ∈ w.body.toList, ∃ creation ∈ events, creation.answer = .block block.id
  explained : ∀ block ∈ w.body.toList, ∀ creation ∈ events, creation.answer = .block block.id →
    Explains events creation block
  /-- Numbers are not used twice. -/
  bound : ∀ event ∈ events, ∀ id, event.answer = .block id → id.val < w.nextId

theorem Untouched.mono {block : Block} (h : Untouched others block) (hsub : events ⊆ others) :
    Untouched events block :=
  fun slot hs event he => h slot hs event (hsub he)

-- The slots in front are told by their numbers, which stay when they take on types and names.
theorem MadeAs.carried {touched added : SlotId → Prop} {requests : List SlotRequest}
    {fresh b c : Block} (h : MadeAs events requests fresh b) (hc : b.Carried touched added c)
    (hfresh : ∀ slot ∈ fresh.slots, ¬touched slot.id) (hsub : events ⊆ others)
    (hadded : ∀ id, added id → ∃ event ∈ others, event.answer = .slot id) :
    MadeAs others requests fresh c := by
  obtain ⟨made, extra, hslots, hids, hanswers, hextra⟩ := h
  have hcarried := hc.slots
  rw [hslots] at hcarried
  have hmade : ∀ slot ∈ made, ¬touched slot.id := by
    intro slot hs
    have hmem : slot.id ∈ fresh.slots.map Slot.id := hids ▸ List.mem_map_of_mem hs
    obtain ⟨first, hf, hid⟩ := List.mem_map.mp hmem
    rw [← hid]
    exact hfresh first hf
  obtain ⟨made', extra', hslots', hids', hanswers', hextra'⟩ := hcarried.split hmade
  refine ⟨made', extra', hslots', hids'.trans hids, ?_, fun slot hs => ?_⟩
  · exact Slot.Carried.answers hanswers hanswers'
  · rcases hextra'.mem hs with ⟨old, ho, hid⟩ | hnew
    · obtain ⟨event, he, hanswer⟩ := hextra old ho
      exact ⟨event, hsub he, hid ▸ hanswer⟩
    · exact hadded _ hnew

theorem Explains.carried {touched added : SlotId → Prop} {creation : Event μ} {b c : Block}
    (h : Explains events creation b) (hc : b.Carried touched added c) (hsub : events ⊆ others)
    (htouched : ∀ id, touched id → ∃ event ∈ others, event.edit.changedSlot? = some id)
    (hadded : ∀ id, added id → ∃ event ∈ others, event.answer = .slot id) :
    Explains others creation c := by
  obtain ⟨requests, fresh, hr, hfresh, hmade⟩ := h.slots
  refine ⟨hc.kind ▸ h.kind, requests, fresh, hr, hc.id ▸ hfresh, fun huntouched => ?_⟩
  refine (hmade (huntouched.mono hsub)).carried hc (fun slot hs ht => ?_) hsub hadded
  obtain ⟨event, he, hchanged⟩ := htouched _ ht
  exact huntouched slot hs event he hchanged

namespace Chronicle

theorem new (uidStem name : String) (registry : Registry μ) :
    Chronicle [] (new uidStem name registry) where
  root := rfl
  rootSlots _ hs := absurd hs List.not_mem_nil
  nested := ⟨.inr rfl, trivial, trivial⟩
  made _ hb := absurd hb List.not_mem_nil
  explained _ hb := absurd hb List.not_mem_nil
  bound _ he := absurd he List.not_mem_nil

/-- A step is chronicled if the requests that come to the history account for what it does. -/
theorem step {touched added : SlotId → Prop} {made : Block → Prop} (h : Chronicle events v)
    (hc : v.Carries touched added made w) (hsub : events ⊆ others)
    (htouched : ∀ id, touched id → ∃ event ∈ others, event.edit.changedSlot? = some id)
    (hadded : ∀ id, added id → ∃ event ∈ others, event.answer = .slot id)
    (hmade : ∀ block ∈ w.body.toList, made block →
      (∃ creation ∈ others, creation.answer = .block block.id) ∧
        ∀ creation ∈ others, creation.answer = .block block.id → Explains others creation block)
    (hold : ∀ event ∈ others, ∀ block ∈ v.body.toList, event.answer = .block block.id →
      event ∈ events)
    (hbound : ∀ event ∈ others, ∀ id, event.answer = .block id → id.val < w.nextId) :
    Chronicle others w where
  root := hc.root.kind.trans h.root
  rootSlots := by
    intro slot hs
    rcases hc.root.slots.mem hs with ⟨old, ho, hid⟩ | hnew
    · obtain ⟨event, he, hanswer⟩ := h.rootSlots old ho
      exact ⟨event, hsub he, hid ▸ hanswer⟩
    · exact hadded _ hnew
  nested := hc.nested h.nested
  made := by
    intro c hmem
    rcases hc.body c hmem with ⟨b, hb, hbc⟩ | hnew
    · obtain ⟨creation, hcreation, hanswer⟩ := h.made b hb
      rw [← hbc.id] at hanswer
      exact ⟨creation, hsub hcreation, hanswer⟩
    · exact (hmade c hmem hnew).1
  explained := by
    intro c hmem creation hcreation hanswer
    rcases hc.body c hmem with ⟨b, hb, hbc⟩ | hnew
    · rw [hbc.id] at hanswer
      have hearlier := hold creation hcreation b hb hanswer
      exact (h.explained b hb creation hearlier hanswer).carried hbc hsub htouched hadded
    · exact (hmade c hmem hnew).2 creation hcreation hanswer
  bound := hbound

/-- A step that no request stands for. -/
theorem silent (h : Chronicle events v)
    (hc : v.Carries (fun _ => False) (fun _ => False) (fun _ => False) w) : Chronicle events w :=
  h.step hc (List.Subset.refl _) (fun _ hfalse => hfalse.elim) (fun _ hfalse => hfalse.elim)
    (fun _ _ hfalse => hfalse.elim) (fun _ he _ _ _ => he)
    fun event he id hanswer => Nat.lt_of_lt_of_le (h.bound event he id hanswer) hc.nextId

theorem assignNames (h : Chronicle events v) : Chronicle events v.assignNames := by
  obtain ⟨named, hblocks, hslots⟩ := carries_assignNames _ _ _ v
  exact (h.silent hblocks).silent hslots

/-- A request that is granted goes into the history. -/
theorem perform (h : Chronicle events v) (hv : v.WellFormed) {edit : Edit μ} {answer : Answer}
    (he : v.perform edit = .ok (answer, w)) (hkind : ∀ id kind, edit ≠ .setBlockKind id kind) :
    Chronicle (⟨v, edit, answer, w⟩ :: events) w := by
  have hc := hv.carries_perform he hkind
  have hnew : ∀ id, answer = .block id → id.val = v.nextId ∧ v.nextId < w.nextId :=
    fun id hanswer => number_of_perform (hanswer ▸ he)
  refine h.step hc (List.subset_cons_self ..) (fun id ht => ?_) (fun id ha => ?_) ?_ ?_ ?_
  · exact ⟨_, List.mem_cons_self, ht⟩
  · exact ⟨_, List.mem_cons_self, ha⟩
  · rintro block hb ⟨hanswer, hkind, requests, hr, hmade⟩
    refine ⟨⟨_, List.mem_cons_self, hanswer⟩, fun creation hcreation hblock => ?_⟩
    rcases List.mem_cons.mp hcreation with rfl | hcreation
    · have hfresh : w.block? block.id = some block :=
        (hv.perform he).block?_eq_some.mpr ⟨mem_blocks_of_mem_body hb, rfl⟩
      refine ⟨hkind, requests, block, hr, hfresh, fun _ => ⟨block.slots, [], ?_, rfl, hmade, ?_⟩⟩
      · rw [List.append_nil]
      · intro slot hs
        cases hs
    · have hlt := h.bound creation hcreation _ hblock
      have hid := (hnew _ hanswer).1
      omega
  · -- The number of a new block is larger than those of the blocks that there were.
    intro event hevent block hb hanswer
    rcases List.mem_cons.mp hevent with rfl | hevent
    · have hlt := hv.blocks.idBound block (mem_blocks_of_mem_body hb)
      have heq := (hnew _ hanswer).1
      omega
    · exact hevent
  · intro event hevent id hanswer
    rcases List.mem_cons.mp hevent with rfl | hevent
    · have hid := hnew id hanswer
      omega
    · have hlt := h.bound event hevent id hanswer
      have hle := hc.nextId
      omega

end Chronicle

/-- The invariant of histories. -/
theorem Built.chronicle (h : Built events w)
    (hkinds : ∀ event ∈ events, ∀ id kind, event.edit ≠ .setBlockKind id kind) :
    Chronicle events w := by
  induction h with
  | new uidStem name registry => exact .new ..
  | edited h he ih =>
    have hearlier := ih fun event hevent => hkinds event (List.mem_cons_of_mem _ hevent)
    exact hearlier.perform h.reachable.wellFormed he (hkinds _ List.mem_cons_self)
  | named _ ih => exact (ih hkinds).assignNames
  | generated _ options form ih =>
    exact generate_keeps (ih hkinds).assignNames (ih hkinds) options form

-- ---------------------------------------------------------------------------
-- Saving and loading
-- ---------------------------------------------------------------------------

/-- The class that a model was made from is still there; other blocks need none. -/
theorem Faithful.creation (hf : w.Faithful registry events) (h : Chronicle events w) {block : Block}
    (hb : block ∈ w.body.toList) :
    ∃ creation ∈ events, creation.answer = .block block.id ∧
      creation.edit.requests? creation.before.registry = registry.requests? block.kind := by
  cases hmodel : block.kind.model? with
  | some setup =>
    have hkind := BlockKind.model?_eq_some.mp hmodel
    obtain ⟨creation, hcreation, hanswer, ⟨parent, uid, hedit⟩, hclass⟩ :=
      hf.classes block hb setup hkind
    refine ⟨creation, hcreation, hanswer, ?_⟩
    rw [hedit, hkind, Edit.requests?, Registry.requests?, Registry.requests?, hclass]
  | none =>
    obtain ⟨creation, hcreation, hanswer⟩ := h.made block hb
    have hkind := (h.explained block hb creation hcreation hanswer).kind
    exact ⟨creation, hcreation, hanswer, Edit.requests?_of_kind? hkind hmodel ..⟩

/-- A workflow comes back if its history may be forgotten. -/
theorem Built.restorable (h : Built events w) (hf : w.Faithful registry events) :
    w.Restorable registry := by
  have hc := h.chronicle hf.kinds
  have hadded : ∀ block ∈ w.blocks, ∀ slot ∈ block.slots,
      (∃ event ∈ events, event.answer = .slot slot.id) → slot.Plain := by
    rintro block hb slot hs ⟨event, he, hanswer⟩
    exact hf.added slot (mem_slots.mpr ⟨block, hb, hs⟩) event he hanswer
  refine ⟨⟨hc.root, hf.rootName, hf.inner, hc.nested, fun block hb => ?_⟩,
    h.reachable.wellFormed, hf.uids, hf.slotUids, hf.border⟩
  have hbelow := hb
  rw [blocks_eq] at hbelow
  rcases List.mem_cons.mp hbelow with rfl | hbelow
  · refine ⟨[], by rw [hc.root]; rfl, [], w.root.slots, rfl, .nil, fun slot hs => ?_⟩
    exact hadded w.root hb slot hs (hc.rootSlots slot hs)
  · obtain ⟨creation, hcreation, hanswer, hsame⟩ := hf.creation hc hbelow
    obtain ⟨requests, fresh, hr, hfresh, hmade⟩ :=
      (hc.explained block hbelow creation hcreation hanswer).slots
    obtain ⟨made, added, hslots, -, hanswers, hextra⟩ :=
      hmade (hf.made block hbelow creation hcreation hanswer fresh hfresh)
    refine ⟨requests, hsame ▸ hr, made, added, hslots, hanswers, fun slot hs => ?_⟩
    refine hadded block hb slot ?_ (hextra slot hs)
    rw [hslots]
    exact List.mem_append_right _ hs

/-- **A workflow that has been built comes back from its records.** Take any workflow that has been
built by edits, naming passes and generations, with a history that may be forgotten. What is built
from its records differs from it in nothing but numbers and identifiers. -/
theorem Built.isomorphic_of_save (h : Built events w) (hf : w.Faithful registry events)
    (uidStem : String) :
    ∃ w', ofRecords uidStem w.records registry = .ok w' ∧ w.Isomorphic w' :=
  (h.restorable hf).ofRecords_records uidStem

/-- A model whose only input has an object type that stands for none, and a slot on the border that
is linked to it. -/
theorem isomorphic_of_save_of_heat :
    ∃ (registry : Registry Unit) (events : List (Event Unit)) (w w' : Workflow Unit),
      Built events w ∧ w.models.length = 1 ∧ w.links.length = 1 ∧
        ofRecords "again-" w.records registry = .ok w' ∧ w.Isomorphic w' := by
  let heat : ModelClass Unit := ⟨"Heat", "import heat",
    ⟨"Heat", [⟨"load", .property, false, "", some "None", .default⟩], [], ""⟩, none⟩
  have hadded := @Built.edited Unit _ _ _ (.addModel rootId ⟨"Heat", none, none⟩ none) _
    (.new "new-" "Plan" ⟨[heat]⟩) rfl
  have hslot := @Built.edited Unit _ _ _
    (.addSlot rootId ⟨"source", .unknown, ⟨.output, true⟩, false, none, .default, none⟩) _ hadded rfl
  have hlinked := @Built.edited Unit _ _ _ (.connect ⟨3⟩ ⟨2⟩ none) _ hslot rfl
  obtain ⟨w', hw', hiso⟩ := @Built.isomorphic_of_save Unit _ _ ⟨[heat]⟩ hlinked
    { kinds := by simp
      rootName := rfl
      uids := by decide
      slotUids := by decide
      inner := by
        intro block hb
        rw [List.mem_singleton.mp hb]
        intro hkind
        cases hkind
      classes := by
        intro block hb setup hsetup
        rw [List.mem_singleton.mp hb] at hsetup ⊢
        cases hsetup
        exact ⟨_, List.mem_cons_of_mem _ (List.mem_cons_of_mem _ List.mem_cons_self), rfl,
          ⟨rootId, none, rfl⟩, rfl⟩
      made := by
        intro block _ creation _ _ fresh _ slot _ event he
        have hnone : event.edit.changedSlot? = none := by
          revert event
          simp [Edit.changedSlot?]
        rw [hnone]
        intro hsome
        cases hsome
      added := by
        unfold Slot.Plain
        decide
      border := by
        unfold LinkedInside
        decide } "again-"
  exact ⟨_, _, _, w', hlinked, rfl, rfl, hw', hiso⟩

end Workflow

end SlotFlow
