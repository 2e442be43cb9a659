import SlotFlow.Proofs.Document.Isomorphic
import SlotFlow.Proofs.Document.Loaded
/-!
# Workflows that documents can bring back

A document does not say how a workflow came about. Whoever reads it makes each block anew, with the
slots that its kind or its class calls for, and only then looks at the records of slots: one that
names a slot which is there changes it, any other asks for a further slot. For the outcome to be the
workflow that was saved, the slots of each block have to be those the block is made with, as records
can change them, followed by others.

* `Slot.Answers` — a slot is what its record makes of the slot that is asked for;
* `Slot.Plain` — a slot is what its record asks for;
* `Workflow.Restorable` — what has to hold of a workflow that is to come back.

## Results

* `Slot.Answers.outline_applyRecord`, `Slot.Plain.outline_ofRequest` — slots come back.
-/

namespace SlotFlow

open Workflow

-- ---------------------------------------------------------------------------
-- Slots
-- ---------------------------------------------------------------------------

/-- What is recorded of a slot. -/
def Slot.data (slot : Slot) (owner : Option String) : SlotData where
  uid := slot.uid
  owner := owner
  name := slot.name
  type := slot.type
  objectType := slot.objectType
  objectId := slot.objectId
  optional := slot.optional

/-- The object type of a slot is none of the texts that stand for none. -/
def Slot.Plain (slot : Slot) : Prop :=
  slot.objectType ≠ some "" ∧ slot.objectType ≠ some "None"

/-- A slot differs from the one that is asked for in what its record says of it at most. Where the
record says nothing, neither the type nor the object type differs. -/
structure Slot.Answers (request : SlotRequest) (slot : Slot) : Prop where
  name : slot.name = request.name
  kind : slot.kind = request.kind
  optional : slot.optional = (Slot.ofRequest slot.id slot.uid request).optional
  objectId : slot.objectId = (Slot.ofRequest slot.id slot.uid request).objectId
  type : slot.type = .unknown → request.type = .unknown
  objectType : (recordedObjectType? (slot.data none)).or request.objectType = slot.objectType

/-- The object type that a record gives is kept by the next record. -/
theorem recordedObjectType?_of_plain {slot : Slot} (h : slot.Plain) (owner : Option String) :
    recordedObjectType? (slot.data owner) = slot.objectType := by
  show slot.objectType.filter (fun type => type ≠ "" && type ≠ "None") = slot.objectType
  cases ho : slot.objectType with
  | none => rfl
  | some type =>
    have hempty : type ≠ "" := fun he => h.1 (he ▸ ho)
    have hnone : type ≠ "None" := fun he => h.2 (he ▸ ho)
    simp [Option.filter, hempty, hnone]

/-- The record of a slot makes it out of the slot that was asked for. -/
theorem Slot.Answers.outline_applyRecord {request : SlotRequest} {slot : Slot}
    (h : slot.Answers request) (id : SlotId) (uid : String) (owner : Option String) :
    (applyRecord (slot.data owner) (Slot.ofRequest id uid request)).outline = slot.outline := by
  have htype : (if slot.type = .unknown then request.type else slot.type) = slot.type := by
    split
    · rename_i hunknown
      rw [hunknown, h.type hunknown]
    · rfl
  unfold Slot.outline Slot.renumber applyRecord
  rw [Slot.mk.injEq]
  exact ⟨rfl, rfl, h.name.symm, htype, h.optional.symm, h.kind.symm, h.objectType, h.objectId.symm,
    rfl⟩

/-- A slot is what its record asks for. -/
theorem Slot.Plain.outline_ofRequest {slot : Slot} (h : slot.Plain) (hsound : slot.Sound)
    (id : SlotId) (uid : String) (owner : Option String) :
    (Slot.ofRequest id uid (recordedRequest (slot.data owner) slot.kind)).outline =
      slot.outline := by
  have hoptional : (slot.optional || slot.external || decide (slot.direction = .output)) =
      slot.optional := by
    cases ho : slot.optional with
    | true => rfl
    | false =>
      have hplain : ¬(slot.external = true ∨ slot.direction = .output) := by
        intro hkind
        rw [hsound.optional hkind] at ho
        cases ho
      rw [not_or] at hplain
      simp [hplain]
  have hobjectId : (if slot.external then .name slot.name else slot.objectId) = slot.objectId := by
    split
    · rename_i hext
      exact (hsound.objectId hext).symm
    · rfl
  unfold Slot.outline Slot.renumber Slot.ofRequest
  rw [Slot.mk.injEq]
  exact ⟨rfl, rfl, rfl, rfl, hoptional, rfl, recordedObjectType?_of_plain h owner, hobjectId, rfl⟩

-- ---------------------------------------------------------------------------
-- What slots go through
-- ---------------------------------------------------------------------------

/-- The object type of a record is none of the texts that stand for none. -/
theorem recordedObjectType?_ne (data : SlotData) :
    recordedObjectType? data ≠ some "" ∧ recordedObjectType? data ≠ some "None" := by
  unfold recordedObjectType?
  cases data.objectType with
  | none => simp
  | some type =>
    by_cases hempty : type = ""
    · simp [Option.filter, hempty]
    · by_cases hnone : type = "None"
      · simp [Option.filter, hnone]
      · simp [Option.filter, hempty, hnone]

theorem Slot.plain_ofRequest (id : SlotId) (uid : String) (data : SlotData) (kind : SlotKind) :
    (Slot.ofRequest id uid (recordedRequest data kind)).Plain :=
  recordedObjectType?_ne data

theorem Slot.Plain.applyRecord {slot : Slot} (h : slot.Plain) (data : SlotData) :
    (applyRecord data slot).Plain := by
  show (recordedObjectType? data).or slot.objectType ≠ some "" ∧
    (recordedObjectType? data).or slot.objectType ≠ some "None"
  have hdata := recordedObjectType?_ne data
  cases ho : recordedObjectType? data with
  | none => exact h
  | some type =>
    rw [ho] at hdata
    exact hdata

/-- A slot that is made answers its request. -/
theorem Slot.answers_ofRequest (id : SlotId) (uid : String) (request : SlotRequest) :
    (Slot.ofRequest id uid request).Answers request where
  name := rfl
  kind := rfl
  optional := rfl
  objectId := rfl
  type h := h
  objectType := by
    show (request.objectType.filter fun type => type ≠ "" && type ≠ "None").or request.objectType =
      request.objectType
    cases request.objectType with
    | none => rfl
    | some type =>
      rw [Option.filter_some]
      split <;> rfl

/-- A record changes nothing that the next record would not change back. -/
theorem Slot.Answers.applyRecord {request : SlotRequest} {slot : Slot} (h : slot.Answers request)
    (data : SlotData) : (applyRecord data slot).Answers request where
  name := h.name
  kind := h.kind
  optional := h.optional
  objectId := h.objectId
  type := by
    show (if data.type = .unknown then slot.type else data.type) = .unknown → _
    split
    · exact h.type
    · exact fun htype => absurd htype ‹_›
  objectType := by
    have hplain := recordedObjectType?_ne data
    show (((recordedObjectType? data).or slot.objectType).filter fun type =>
      type ≠ "" && type ≠ "None").or request.objectType =
        (recordedObjectType? data).or slot.objectType
    cases hdata : recordedObjectType? data with
    | none => exact h.objectType
    | some type =>
      rw [hdata] at hplain
      have hempty : type ≠ "" := fun he => hplain.1 (congrArg some he)
      have hnone : type ≠ "None" := fun he => hplain.2 (congrArg some he)
      simp [Option.filter, hempty, hnone]

theorem Slot.Plain.takeOn {slot : Slot} (h : slot.Plain) (adopts : Option (SlotId × SlotType)) :
    (slot.takeOn adopts).Plain := by
  unfold Slot.takeOn
  split
  · exact h
  · split <;> exact h

/-- A slot that has no type may take one on. -/
theorem Slot.Answers.takeOn {request : SlotRequest} {slot : Slot} (h : slot.Answers request)
    {adopts : Option (SlotId × SlotType)}
    (hadopts : ∀ type, adopts = some (slot.id, type) → slot.type = .unknown) :
    (slot.takeOn adopts).Answers request := by
  unfold Slot.takeOn
  split
  · exact h
  · rename_i id type
    split
    · rename_i hid
      exact ⟨h.name, h.kind, h.optional, h.objectId, fun _ => h.type (hadopts type (by rw [hid])),
        h.objectType⟩
    · exact h

-- ---------------------------------------------------------------------------
-- Blocks
-- ---------------------------------------------------------------------------

/-- The slots of a block are those it is made with, and after them slots that came later. -/
def Block.MadeWith (requests : List SlotRequest) (block : Block) : Prop :=
  ∃ made added, block.slots = made ++ added ∧
    List.Forall₂ (fun request slot => slot.Answers request) requests made ∧
    ∀ slot ∈ added, slot.Plain

/-- The slots of a block are those that its record calls for, and after them slots that came later. -/
def Block.Restorable {μ : Type} (registry : Registry μ) (block : Block) : Prop :=
  ∃ requests, registry.requests? block.kind = some requests ∧ block.MadeWith requests

theorem Block.MadeWith.map {requests : List SlotRequest} {block : Block} (h : block.MadeWith requests)
    {g : Slot → Slot}
    (hmade : ∀ request, ∀ slot ∈ block.slots, slot.Answers request → (g slot).Answers request)
    (hadded : ∀ slot ∈ block.slots, slot.Plain → (g slot).Plain) :
    Block.MadeWith requests { block with slots := block.slots.map g } := by
  obtain ⟨made, added, hslots, hanswers, hplain⟩ := h
  refine ⟨made.map g, added.map g, ?_, ?_, ?_⟩
  · rw [← List.map_append, ← hslots]
  · have hmem : ∀ slot ∈ made, slot ∈ block.slots :=
      fun slot hs => hslots ▸ List.mem_append_left _ hs
    have hboth := ((List.forall₂_and_left _ _).mpr ⟨hmem, hanswers.flip⟩).flip
    rw [List.forall₂_map_right_iff]
    exact hboth.imp fun request slot hslot => hmade request slot hslot.1 hslot.2
  · intro slot hs
    obtain ⟨old, ho, rfl⟩ := List.mem_map.mp hs
    exact hadded old (hslots ▸ List.mem_append_right _ ho) (hplain old ho)

theorem Block.MadeWith.append {requests : List SlotRequest} {block : Block}
    (h : block.MadeWith requests) {slot : Slot} (hs : slot.Plain) :
    Block.MadeWith requests { block with slots := block.slots ++ [slot] } := by
  obtain ⟨made, added, hslots, hanswers, hplain⟩ := h
  refine ⟨made, added ++ [slot], ?_, hanswers, fun other ho => ?_⟩
  · rw [← List.append_assoc, ← hslots]
  · rw [List.mem_append, List.mem_singleton] at ho
    rcases ho with ho | rfl
    · exact hplain other ho
    · exact hs

-- ---------------------------------------------------------------------------
-- Containers
-- ---------------------------------------------------------------------------

namespace Forest

/-- Only containers have blocks below them. -/
def Nested : Forest Block → Prop
  | nil => True
  | node b below after => (below = nil ∨ b.kind.isContainer = true) ∧ below.Nested ∧ after.Nested

namespace Nested

variable {forest other : Forest Block}

theorem append (h : forest.Nested) (ho : other.Nested) : (forest.append other).Nested := by
  induction forest with
  | nil => exact ho
  | node b below after _ ihAfter => exact ⟨h.1, h.2.1, ihAfter h.2.2⟩

theorem tree {b : Block} (hb : forest = nil ∨ b.kind.isContainer = true) (h : forest.Nested) :
    (Forest.tree b forest).Nested :=
  ⟨hb, h, trivial⟩

theorem map (h : forest.Nested) {f : Block → Block}
    (hf : ∀ b, (f b).kind.isContainer = b.kind.isContainer) : (forest.map f).Nested := by
  induction forest with
  | nil => trivial
  | node b below after ihBelow ihAfter =>
    refine ⟨?_, ihBelow h.2.1, ihAfter h.2.2⟩
    rw [hf]
    refine h.1.imp_left ?_
    rintro rfl
    rfl

/-- Blocks may come below a container. -/
theorem mapBelow (h : forest.Nested) {id : BlockId}
    (hcontainer : ∀ b ∈ forest.toList, b.id = id → b.kind.isContainer = true)
    {f : Forest Block → Forest Block} (hf : ∀ below : Forest Block, below.Nested → (f below).Nested) :
    (forest.mapBelow (·.id = id) f).Nested := by
  induction forest with
  | nil => trivial
  | node b below after ihBelow ihAfter =>
    have hbelow := ihBelow h.2.1 fun c hc =>
      hcontainer c (List.mem_cons_of_mem _ (List.mem_append_left _ hc))
    have hafter := ihAfter h.2.2 fun c hc =>
      hcontainer c (List.mem_cons_of_mem _ (List.mem_append_right _ hc))
    dsimp only [Forest.mapBelow]
    split
    · rename_i hid
      exact ⟨.inr (hcontainer b List.mem_cons_self (by simpa using hid)), hf _ hbelow, hafter⟩
    · refine ⟨h.1.imp_left ?_, hbelow, hafter⟩
      rintro rfl
      rfl

theorem prune (h : forest.Nested) (p : Block → Bool) : (forest.prune p).Nested := by
  induction forest with
  | nil => trivial
  | node b below after ihBelow ihAfter =>
    rw [Forest.prune]
    split
    · exact ihAfter h.2.2
    · refine ⟨h.1.imp_left ?_, ihBelow h.2.1, ihAfter h.2.2⟩
      rintro rfl
      rfl

theorem insertAt {b : Block} (hb : other = nil ∨ b.kind.isContainer = true) (ho : other.Nested)
    (h : forest.Nested) (index : Nat) : (Forest.insertAt b other index forest).Nested := by
  induction forest generalizing index with
  | nil =>
    rw [Forest.insertAt]
    exact .tree hb ho
  | node c below after _ ihAfter =>
    cases index with
    | zero => exact ⟨hb, ho, h⟩
    | succ index => exact ⟨h.1, h.2.1, ihAfter h.2.2 index⟩

/-- A block that is found is nested like all others. -/
theorem of_find? (h : forest.Nested) {p : Block → Bool} {b : Block} {below : Forest Block}
    (hfind : forest.find? p = some (b, below)) :
    (below = nil ∨ b.kind.isContainer = true) ∧ below.Nested := by
  induction forest with
  | nil => cases hfind
  | node c under after ihUnder ihAfter =>
    rw [find?_node] at hfind
    split at hfind
    · cases hfind
      exact ⟨h.1, h.2.1⟩
    · rcases Option.or_eq_some_iff.mp hfind with hfind | ⟨-, hfind⟩
      · exact ihUnder h.2.1 hfind
      · exact ihAfter h.2.2 hfind

end Nested

end Forest

namespace Workflow.WellFormed

variable {μ : Type} {w : Workflow μ}

/-- Only one block has the number of a container. -/
theorem isContainer_of_getContainer (h : w.WellFormed) {parent : BlockId} {container : Block}
    (hget : w.getContainer parent = .ok container) :
    ∀ b ∈ w.blocks, b.id = parent → b.kind.isContainer = true := by
  intro b hb hid
  obtain ⟨hblock, hcontainer⟩ := getContainer_eq_ok.mp hget
  rw [h.block?_eq_some.mpr ⟨hb, hid⟩, Option.some.injEq] at hblock
  rwa [hblock]

/-- A new block below a container. -/
theorem nested_attachBlock (h : w.WellFormed) (hn : w.tree.Nested) {parent : BlockId}
    {container : Block} (hget : w.getContainer parent = .ok container) (kind : BlockKind)
    (name : String) (requests : List SlotRequest) (uid : Option String) :
    (w.attachBlock parent kind name requests uid).2.tree.Nested := by
  have htree := @tree_modifyBelow _ w parent h.blocks.ids fun children =>
    children.append (.tree (w.newBlock kind name requests uid) .nil)
  rw [show (w.attachBlock parent kind name requests uid).2.tree = _ from htree]
  refine hn.mapBelow (h.isContainer_of_getContainer hget) fun below hbelow => ?_
  exact hbelow.append (.tree (.inl rfl) trivial)

/-- A connection leaves a slot as its record calls for it: only a slot without a type takes one
on. -/
theorem answers_takeOn (h : w.WellFormed) {a b slot : Slot} (ha : a ∈ w.slots) (hb : b ∈ w.slots)
    (hslot : slot ∈ w.slots) {request : SlotRequest} (hr : slot.Answers request) :
    (slot.takeOn (adoptedType? a b)).Answers request := by
  refine hr.takeOn fun type hadopts => ?_
  unfold adoptedType? at hadopts
  split at hadopts
  · rename_i hunknown
    injection hadopts with hadopts
    rw [← List.inj_on_of_nodup_map h.slotIds ha hslot (congrArg Prod.fst hadopts)]
    exact hunknown.2
  · split at hadopts
    · rename_i hunknown
      injection hadopts with hadopts
      rw [← List.inj_on_of_nodup_map h.slotIds hb hslot (congrArg Prod.fst hadopts)]
      exact hunknown.2
    · cases hadopts

end Workflow.WellFormed

-- ---------------------------------------------------------------------------
-- Workflows
-- ---------------------------------------------------------------------------

/-- The part that can be said block by block: there is no workflow inside another, only containers
have blocks below them, and every block has the slots that its record calls for. -/
structure Workflow.Laid {μ : Type} (registry : Registry μ) (w : Workflow μ) : Prop where
  root : w.root.kind = .workflow
  rootName : w.root.name = w.name
  inner : ∀ block ∈ w.body.toList, block.kind ≠ .workflow
  nested : w.tree.Nested
  blocks : ∀ block ∈ w.blocks, block.Restorable registry

/-- No link leads across the workflow, from border to border. -/
def Workflow.LinkedInside {μ : Type} (w : Workflow μ) : Prop :=
  ∀ link ∈ w.links, ∀ s ∈ w.slots, ∀ t ∈ w.slots, s.id = link.source → t.id = link.target →
    s.external = false ∨ t.external = false

/-- A workflow that a document brings back, over the classes of a registry. -/
structure Workflow.Restorable {μ : Type} (registry : Registry μ) (w : Workflow μ) : Prop extends
    Workflow.Laid registry w where
  wellFormed : w.WellFormed
  uids : (w.blocks.map Block.uid).Nodup
  slotUids : (w.slots.map Slot.uid).Nodup
  border : w.LinkedInside

end SlotFlow
