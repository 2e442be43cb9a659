import SlotFlow.Proofs.Arena.Lockstep
import SlotFlow.Proofs.Graph.History
/-!
# Requests to link two slots

A request to link two slots that are there is put to a list of rules. The first that does not hold is what
the refusal is about; where all hold, there is a new link. Which slot is named first shows in the wording of
a refusal and nowhere else, although the type of a slot on the border is settled in that order, and the
tables look for a link between the two on the list of the first one only.

* `LinkRule`, `Workflow.linkRules` — the rules in their order, each with its refusal;
* `LinkRule.FirstFails` — the refusal of the first rule that does not hold;
* `Workflow.LinkMade` — a workflow before and after a new link.

## Results

* `Workflow.connection_eq_error_iff`, `Workflow.exists_connection_iff` — the rules decide;
* `Workflow.linkMade_addLink` — what a new link changes;
* `Workflow.WellFormed.connect_comm` — the order in which the slots are named;
* `Workflow.Reachable.decidesLinks` — all of this for reachable workflows.
-/

namespace SlotFlow

variable {μ : Type}

-- ---------------------------------------------------------------------------
-- Rules
-- ---------------------------------------------------------------------------

/-- Something that has to hold of two slots, and the refusal where it is the first that does not. -/
structure LinkRule where
  holds : Prop
  refusal : EditError

namespace LinkRule

/-- The refusal of the first rule that does not hold. -/
inductive FirstFails : List LinkRule → EditError → Prop where
  | here {rule : LinkRule} {rules : List LinkRule} (h : ¬rule.holds) :
    FirstFails (rule :: rules) rule.refusal
  | later {rule : LinkRule} {rules : List LinkRule} {error : EditError} (h : rule.holds)
    (hrest : FirstFails rules error) : FirstFails (rule :: rules) error

theorem firstFails_cons {rule : LinkRule} {rules : List LinkRule} {error : EditError} :
    FirstFails (rule :: rules) error ↔
      ¬rule.holds ∧ rule.refusal = error ∨ rule.holds ∧ FirstFails rules error := by
  constructor
  · rintro (h | ⟨h, hrest⟩)
    · exact .inl ⟨h, rfl⟩
    · exact .inr ⟨h, hrest⟩
  · rintro (⟨h, rfl⟩ | ⟨h, hrest⟩)
    · exact .here h
    · exact .later h hrest

theorem not_firstFails_nil {error : EditError} : ¬FirstFails [] error := nofun

/-- Some rule is the first to fail unless all hold. -/
theorem exists_firstFails_iff {rules : List LinkRule} :
    (∃ error, FirstFails rules error) ↔ ¬∀ rule ∈ rules, rule.holds := by
  induction rules with
  | nil => simp [not_firstFails_nil]
  | cons rule rules ih =>
    simp only [firstFails_cons, exists_or, exists_and_left, exists_eq', and_true, ih,
      List.forall_mem_cons, not_and]
    by_cases h : rule.holds <;> simp [h]

/-- A check and the rule that it is about: what comes after the check is about the other rules. -/
theorem check_eq_error_iff {α : Type} {c holds : Prop} [Decidable c] {refusal error : EditError}
    {rules : List LinkRule} {rest : Except EditError α} (hc : holds ↔ ¬c)
    (hrest : holds → (rest = .error error ↔ FirstFails rules error)) :
    (if c then .error refusal else rest) = .error error ↔
      FirstFails ({ holds, refusal } :: rules) error := by
  rw [firstFails_cons]
  by_cases h : holds
  · rw [if_neg (hc.mp h), hrest h]
    simp [h]
  · rw [if_pos (not_not.mp (hc.not.mp h))]
    simp [h]

end LinkRule

/-- The one of two slots that takes a value, if only one of them does. -/
def Slot.inputOf (a b : Slot) : Slot :=
  match a.direction with
  | .input => a
  | .output => b

namespace Workflow

variable {w w' : Workflow μ} {a b : Slot}

/-- What has to hold of two slots that are to be linked, in the order in which it is looked at. -/
def linkRules (w : Workflow μ) (a b : Slot) : List LinkRule :=
  [{ holds := a.id ≠ b.id, refusal := .selfConnection a.name },
   { holds := a.direction ≠ b.direction, refusal := .sameDirection a.name b.name a.direction },
   { holds := a.external = true ∨ b.external = true ∨ a.type = b.type
     refusal := .typeMismatch a.name a.type b.name b.type },
   { holds := ∀ link ∈ w.links, link.joins a.id b.id = false
     refusal := .alreadyConnected a.name b.name },
   { holds := w.linksAt (a.inputOf b).id = []
     refusal := .capacityExceeded (a.inputOf b).name }]

theorem isFull_of_output {slot : Slot} (h : slot.direction = .output) : w.isFull slot = false := by
  rw [isFull, Slot.maxLinks, h]

theorem linksAt_eq_nil_iff {slot : Slot} (h : slot.direction = .input) :
    w.linksAt slot.id = [] ↔ ¬w.isFull slot = true := by
  rw [isFull, Slot.maxLinks, h, ← not_iff_not, not_not, ← ne_eq, ← List.length_pos_iff]
  exact decide_eq_true_iff.symm

theorem direction_inputOf (hdir : a.direction ≠ b.direction) : (a.inputOf b).direction = .input := by
  cases ha : a.direction <;> cases hb : b.direction <;> simp_all [Slot.inputOf]

/-- Of two slots with different directions only the one that takes a value may be full. -/
theorem check_capacity_eq (hdir : a.direction ≠ b.direction) (rest : Except EditError Connection) :
    (if w.isFull a then .error (.capacityExceeded a.name)
      else if w.isFull b then .error (.capacityExceeded b.name) else rest) =
      if w.isFull (a.inputOf b) then .error (.capacityExceeded (a.inputOf b).name) else rest := by
  cases ha : a.direction <;> cases hb : b.direction
  · exact absurd (ha.trans hb.symm) hdir
  · simp [Slot.inputOf, ha, isFull_of_output hb]
  · simp [Slot.inputOf, ha, isFull_of_output ha]
  · exact absurd (ha.trans hb.symm) hdir

/-- A request is refused because of the first rule that does not hold. -/
theorem connection_eq_error_iff {error : EditError} :
    w.connection a b = .error error ↔ LinkRule.FirstFails (w.linkRules a b) error := by
  rw [connection_eq, linkRules]
  refine LinkRule.check_eq_error_iff .rfl fun _ => ?_
  refine LinkRule.check_eq_error_iff .rfl fun hdir => ?_
  refine LinkRule.check_eq_error_iff ?_ fun _ => ?_
  · simp [Slot.compatible, hdir, or_iff_not_imp_left]
  refine LinkRule.check_eq_error_iff (by simp) fun _ => ?_
  rw [check_capacity_eq hdir]
  refine LinkRule.check_eq_error_iff (linksAt_eq_nil_iff (direction_inputOf hdir)) fun _ => ?_
  cases a.direction <;> simp [LinkRule.not_firstFails_nil]

/-- A request is granted if all rules hold. -/
theorem exists_connection_iff :
    (∃ plan, w.connection a b = .ok plan) ↔ ∀ rule ∈ w.linkRules a b, rule.holds := by
  rw [← not_iff_not, ← LinkRule.exists_firstFails_iff]
  simp only [← connection_eq_error_iff]
  cases w.connection a b <;> simp

-- ---------------------------------------------------------------------------
-- Requests
-- ---------------------------------------------------------------------------

theorem ownedSlot?_eq_none_iff {id : SlotId} :
    w.ownedSlot? id = none ↔ ∀ slot ∈ w.slots, slot.id ≠ id := by
  simp [ownedSlot?, slots]

/-- A request that names no slot in the first place is about that. -/
theorem connect_of_first_missing {x : SlotId} (hx : ∀ slot ∈ w.slots, slot.id ≠ x) (y : SlotId)
    (uid : Option String) : w.connect x y uid = .error (.slotNotFound x) := by
  rw [connect, getOwnedSlot_eq_error (ownedSlot?_eq_none_iff.mpr hx)]
  rfl

namespace WellFormed

theorem getOwnedSlot_of_mem (h : w.WellFormed) {slot : Slot} (hs : slot ∈ w.slots) :
    ∃ owner, w.getOwnedSlot slot.id = .ok ⟨owner, slot⟩ := by
  obtain ⟨owner, howner, hin⟩ := mem_slots.mp hs
  exact ⟨owner, getOwnedSlot_eq_ok.mpr (h.ownedSlot?_eq_some.mpr ⟨howner, hin, rfl⟩)⟩

/-- A request that names no slot in the second place only is about that. -/
theorem connect_of_second_missing (h : w.WellFormed) (ha : a ∈ w.slots) {y : SlotId}
    (hy : ∀ slot ∈ w.slots, slot.id ≠ y) (uid : Option String) :
    w.connect a.id y uid = .error (.slotNotFound y) := by
  obtain ⟨owner, hget⟩ := h.getOwnedSlot_of_mem ha
  rw [Workflow.connect, hget, getOwnedSlot_eq_error (ownedSlot?_eq_none_iff.mpr hy)]
  rfl

/-- A request about two slots that are there is decided by what they are. -/
theorem connect_eq (h : w.WellFormed) (ha : a ∈ w.slots) (hb : b ∈ w.slots) (uid : Option String) :
    w.connect a.id b.id uid =
      (w.connection a b).map fun plan => (⟨w.nextId⟩, w.addLink plan uid) := by
  obtain ⟨owner, hgetA⟩ := h.getOwnedSlot_of_mem ha
  obtain ⟨other, hgetB⟩ := h.getOwnedSlot_of_mem hb
  rw [Workflow.connect, hgetA, hgetB]
  show w.connection a b >>= _ = _
  cases w.connection a b <;> rfl

end WellFormed

/-- A workflow before and after a new link between two slots. -/
structure LinkMade (w : Workflow μ) (a b : Slot) (link : Link) (adopts : Option (SlotId × SlotType))
    (w' : Workflow μ) : Prop where
  /-- The link leads from the slot that is an output to the one that is an input. -/
  ends : ∃ source target, (source = a ∧ target = b ∨ source = b ∧ target = a) ∧
    source.direction = .output ∧ target.direction = .input ∧
    link.source = source.id ∧ link.target = target.id
  /-- It takes the next number. -/
  number : link.id = ⟨w.nextId⟩
  /-- Both slots list it after the links that they had, and no other slot does. -/
  listed : ∀ id, w'.linksAt id = w.linksAt id ++ if id = a.id ∨ id = b.id then [link] else []
  /-- A type is taken on by a slot on the border that has none, and it is that of the other slot. -/
  adopted : ∀ id type, adopts = some (id, type) →
    ∃ slot other, (slot = a ∧ other = b ∨ slot = b ∧ other = a) ∧
      slot.external = true ∧ slot.type = .unknown ∧ id = slot.id ∧ type = other.type
  /-- Apart from such a type, the link and the next number, nothing changes. -/
  rest : w' = { w.adopt adopts with links := w.links ++ [link], nextId := w.nextId + 1 }

/-- The one slot that takes on a type takes on that of the other. -/
theorem exists_of_adoptedType? {id : SlotId} {type : SlotType}
    (h : adoptedType? a b = some (id, type)) :
    ∃ slot other, (slot = a ∧ other = b ∨ slot = b ∧ other = a) ∧
      slot.external = true ∧ slot.type = .unknown ∧ id = slot.id ∧ type = other.type := by
  unfold adoptedType? at h
  split_ifs at h with hfirst hsecond
  · cases h
    exact ⟨a, b, .inl ⟨rfl, rfl⟩, hfirst.1, hfirst.2, rfl, rfl⟩
  · cases h
    exact ⟨b, a, .inr ⟨rfl, rfl⟩, hsecond.1, hsecond.2, rfl, rfl⟩

/-- What a granted connection makes of a workflow. -/
theorem linkMade_addLink {plan : Connection} (hplan : w.connection a b = .ok plan)
    (uid : Option String) :
    w.LinkMade a b ⟨⟨w.nextId⟩, uid.getD (freshUid w.uidStem w.nextId), plan.source, plan.target⟩
      plan.adopts (w.addLink plan uid) := by
  obtain ⟨source, target, hends, hout, hin, -, rfl⟩ := ends_of_connection hplan
  refine ⟨⟨source, target, hends, hout, hin, rfl, rfl⟩, rfl, fun id => ?_,
    fun _ _ => exists_of_adoptedType?, rfl⟩
  let link : Link :=
    ⟨⟨w.nextId⟩, uid.getD (freshUid w.uidStem w.nextId), source.id, target.id⟩
  have htouch : link.touches id = true ↔ id = a.id ∨ id = b.id := by
    simp only [link, Link.touches, Bool.or_eq_true, decide_eq_true_eq]
    rcases hends with ⟨rfl, rfl⟩ | ⟨rfl, rfl⟩
    · exact or_congr eq_comm eq_comm
    · exact or_comm.trans (or_congr eq_comm eq_comm)
  have happend : (w.addLink ⟨source.id, target.id, adoptedType? a b⟩ uid).linksAt id =
      w.linksAt id ++ [link].filter (·.touches id) := List.filter_append ..
  rw [happend]
  by_cases hid : id = a.id ∨ id = b.id
  · rw [if_pos hid, List.filter_eq_self.mpr fun _ hl => List.mem_singleton.mp hl ▸ htouch.mpr hid]
  · rw [if_neg hid, List.filter_eq_nil_iff.mpr fun _ hl => List.mem_singleton.mp hl ▸ mt htouch.mp hid]

-- ---------------------------------------------------------------------------
-- The order of the slots
-- ---------------------------------------------------------------------------

end Workflow

/-- The same refusal with the two slots named in the other order. -/
def EditError.exchanged : EditError → EditError
  | sameDirection first second direction => sameDirection second first direction
  | typeMismatch first firstType second secondType => typeMismatch second secondType first firstType
  | alreadyConnected first second => alreadyConnected second first
  | error => error

theorem Link.joins_comm (link : Link) (x y : SlotId) : link.joins x y = link.joins y x :=
  Bool.or_comm ..

theorem Slot.inputOf_comm {a b : Slot} (hdir : a.direction ≠ b.direction) :
    a.inputOf b = b.inputOf a := by
  cases ha : a.direction <;> cases hb : b.direction <;> simp_all [inputOf]

namespace Workflow

variable {w w' : Workflow μ} {a b : Slot}

/-- The first rule that fails is the same one for the slots in the other order. -/
theorem firstFails_exchanged (hself : a.id = b.id → a = b) {error : EditError}
    (h : LinkRule.FirstFails (w.linkRules a b) error) :
    LinkRule.FirstFails (w.linkRules b a) error.exchanged := by
  simp only [linkRules, LinkRule.firstFails_cons, LinkRule.not_firstFails_nil, and_false,
    or_false] at h ⊢
  rcases h with ⟨hid, rfl⟩ | ⟨hid, ⟨hdir, rfl⟩ | ⟨hdir, ⟨htype, rfl⟩ | ⟨htype, hrest⟩⟩⟩
  · left
    obtain rfl := hself (not_not.mp hid)
    exact ⟨hid, rfl⟩
  · refine .inr ⟨Ne.symm hid, .inl ⟨fun hne => hdir (Ne.symm hne), ?_⟩⟩
    rw [not_not.mp hdir]
    rfl
  · refine .inr ⟨Ne.symm hid, .inr ⟨Ne.symm hdir, .inl ⟨fun htype' => htype ?_, rfl⟩⟩⟩
    tauto
  · refine .inr ⟨Ne.symm hid, .inr ⟨Ne.symm hdir, .inr ⟨by tauto, ?_⟩⟩⟩
    simp only [Link.joins_comm _ b.id, Slot.inputOf_comm (Ne.symm hdir)]
    rcases hrest with ⟨hjoined, rfl⟩ | ⟨hjoined, hfull, rfl⟩
    · exact .inl ⟨hjoined, rfl⟩
    · exact .inr ⟨hjoined, hfull, rfl⟩

/-- A slot that takes on the type it has changes nothing. -/
theorem WellFormed.adopt_own_type (h : w.WellFormed) {slot : Slot} (hs : slot ∈ w.slots) :
    w.adopt (some (slot.id, slot.type)) = w := by
  refine mapSlots_eq_self fun s hin => ?_
  split
  · rename_i hid
    rw [List.inj_on_of_nodup_map h.slotIds hin hs hid]
  · rfl

/-- It does not matter for the types which of the two slots is named first. -/
theorem WellFormed.adopt_comm (h : w.WellFormed) (ha : a ∈ w.slots) (hb : b ∈ w.slots) :
    w.adopt (adoptedType? b a) = w.adopt (adoptedType? a b) := by
  unfold adoptedType?
  by_cases hua : a.external ∧ a.type = .unknown <;> by_cases hub : b.external ∧ b.type = .unknown
  · -- neither has a type that the other could take on
    rw [if_pos hub, if_pos hua, show a.type = b.type from hua.2.trans hub.2.symm,
      h.adopt_own_type hb, ← hua.2.trans hub.2.symm, h.adopt_own_type ha]
  · rw [if_neg hub, if_pos hua, if_pos hua]
  · rw [if_pos hub, if_neg hua, if_pos hub]
  · rw [if_neg hub, if_neg hua, if_neg hua, if_neg hub]

/-- The order in which two slots are named shows in the wording of a refusal only. -/
theorem WellFormed.connect_comm (h : w.WellFormed) (ha : a ∈ w.slots) (hb : b ∈ w.slots)
    (uid : Option String) :
    w.connect b.id a.id uid = (w.connect a.id b.id uid).mapError EditError.exchanged := by
  have hself := fun hid => List.inj_on_of_nodup_map h.slotIds ha hb hid
  have hself' := fun hid => List.inj_on_of_nodup_map h.slotIds hb ha hid
  rw [h.connect_eq ha hb, h.connect_eq hb ha]
  cases hplan : w.connection a b with
  | error error =>
    have hback := firstFails_exchanged hself (connection_eq_error_iff.mp hplan)
    rw [connection_eq_error_iff.mpr hback]
    rfl
  | ok plan =>
    cases hback : w.connection b a with
    | error error =>
      have hforth := firstFails_exchanged hself' (connection_eq_error_iff.mp hback)
      rw [connection_eq_error_iff.mpr hforth] at hplan
      cases hplan
    | ok plan' =>
      obtain ⟨source, target, hends, hout, hin, -, rfl⟩ := ends_of_connection hplan
      obtain ⟨source', target', hends', hout', hin', -, rfl⟩ := ends_of_connection hback
      obtain ⟨rfl, rfl⟩ : source' = source ∧ target' = target := by
        rcases hends with ⟨rfl, rfl⟩ | ⟨rfl, rfl⟩ <;> rcases hends' with ⟨rfl, rfl⟩ | ⟨rfl, rfl⟩
        · exact absurd (hin.symm.trans hout') nofun
        · exact ⟨rfl, rfl⟩
        · exact ⟨rfl, rfl⟩
        · exact absurd (hin.symm.trans hout') nofun
      have hsame : w.addLink ⟨source'.id, target'.id, adoptedType? b a⟩ uid =
          w.addLink ⟨source'.id, target'.id, adoptedType? a b⟩ uid := by
        rw [addLink, addLink, h.adopt_comm ha hb]
      exact congrArg (fun made => Except.ok (LinkId.mk w.nextId, made)) hsame

-- ---------------------------------------------------------------------------
-- Main result
-- ---------------------------------------------------------------------------

/-- How a workflow decides on requests to link two slots. -/
structure DecidesLinks (w : Workflow μ) : Prop where
  /-- A request is granted if both slots are there and all rules hold of them. -/
  granted : ∀ x y uid, (∃ added, w.connect x y uid = .ok added) ↔
    ∃ a ∈ w.slots, ∃ b ∈ w.slots, a.id = x ∧ b.id = y ∧ ∀ rule ∈ w.linkRules a b, rule.holds
  /-- Otherwise it is refused because the first slot is not there, … -/
  firstMissing : ∀ x y uid, (∀ slot ∈ w.slots, slot.id ≠ x) →
    w.connect x y uid = .error (.slotNotFound x)
  /-- … or the second one, … -/
  secondMissing : ∀ a ∈ w.slots, ∀ y uid, (∀ slot ∈ w.slots, slot.id ≠ y) →
    w.connect a.id y uid = .error (.slotNotFound y)
  /-- … or because of the first rule that does not hold. -/
  refused : ∀ a ∈ w.slots, ∀ b ∈ w.slots, ∀ uid error,
    w.connect a.id b.id uid = .error error ↔ LinkRule.FirstFails (w.linkRules a b) error
  /-- A request that is granted makes a link, and that is all. -/
  made : ∀ a ∈ w.slots, ∀ b ∈ w.slots, ∀ uid id w', w.connect a.id b.id uid = .ok (id, w') →
    ∃ link adopts, link.id = id ∧ w.LinkMade a b link adopts w'
  /-- The order in which the slots are named shows in the wording of a refusal only. -/
  symmetric : ∀ a ∈ w.slots, ∀ b ∈ w.slots, ∀ uid,
    w.connect b.id a.id uid = (w.connect a.id b.id uid).mapError EditError.exchanged
  /-- The program on the tables, which looks for a link between the two on the list of the first slot only
  and puts the new one on the lists of both, comes to the same. -/
  inStep : ∀ x y uid,
    (Arena.connect x y uid).run w.arena = some (w.outcome (w.connect x y uid))

theorem WellFormed.exists_connect_iff (h : w.WellFormed) {x y : SlotId} {uid : Option String} :
    (∃ added, w.connect x y uid = .ok added) ↔
      ∃ a ∈ w.slots, ∃ b ∈ w.slots, a.id = x ∧ b.id = y ∧
        ∀ rule ∈ w.linkRules a b, rule.holds := by
  constructor
  · rintro ⟨added, hadded⟩
    obtain ⟨first, second, plan, hfirst, hsecond, hplan, -⟩ := connect_eq_ok.mp hadded
    obtain ⟨hown, hin, rfl⟩ := mem_of_ownedSlot? (getOwnedSlot_eq_ok.mp hfirst)
    obtain ⟨hown', hin', rfl⟩ := mem_of_ownedSlot? (getOwnedSlot_eq_ok.mp hsecond)
    exact ⟨_, mem_slots.mpr ⟨_, hown, hin⟩, _, mem_slots.mpr ⟨_, hown', hin'⟩, rfl, rfl,
      exists_connection_iff.mp ⟨plan, hplan⟩⟩
  · rintro ⟨a, ha, b, hb, rfl, rfl, hrules⟩
    obtain ⟨plan, hplan⟩ := exists_connection_iff.mpr hrules
    rw [h.connect_eq ha hb, hplan]
    exact ⟨_, rfl⟩

/-- **Links on request.** Two slots of a reachable workflow are linked exactly if they are different, have
different directions, agree in type or stand on the border, have no link between them and the input has none
at all; otherwise the first of these that fails is reported. The new link leads from the output to the input,
both list it last, and nothing else changes but the type of one slot on the border that has none. -/
theorem Reachable.decidesLinks (h : w.Reachable) : w.DecidesLinks where
  granted _ _ _ := h.wellFormed.exists_connect_iff
  firstMissing _ y uid hx := connect_of_first_missing hx y uid
  secondMissing _ ha _ uid hy := h.wellFormed.connect_of_second_missing ha hy uid
  refused a ha b hb uid error := by
    rw [h.wellFormed.connect_eq ha hb, ← connection_eq_error_iff]
    cases w.connection a b <;> simp [Except.map]
  made a ha b hb uid id w' hw := by
    rw [h.wellFormed.connect_eq ha hb, map_eq_ok] at hw
    obtain ⟨plan, hplan, heq⟩ := hw
    cases heq
    exact ⟨_, _, rfl, linkMade_addLink hplan uid⟩
  symmetric _ ha _ hb uid := h.wellFormed.connect_comm ha hb uid
  inStep := h.wellFormed.run_connect

/-- An input of a workflow that feeds the start time of a loop. That slot takes no other value, not the same
one twice either, and the loop's slots are not linked to each other. -/
theorem decidesLinks_of_load :
    ∃ w : Workflow Unit,
      (new "uid-" "Plan" .empty).after
        [.edit (.addSlot rootId { name := "load", type := .unknown, kind := ⟨.output, true⟩ }),
          .edit (.addBlock rootId .timeLoop none),
          .edit (.addBlock rootId (.constant (.quantity 1 "s")) none),
          .edit (.connect ⟨1⟩ ⟨3⟩ none)] = w ∧
      w.DecidesLinks ∧
      w.connect ⟨3⟩ ⟨7⟩ none = .error (.capacityExceeded "start_time") ∧
      w.connect ⟨3⟩ ⟨1⟩ none = .error (.alreadyConnected "start_time" "load") ∧
      w.connect ⟨3⟩ ⟨4⟩ none = .error (.sameDirection "start_time" "target_time" .input) ∧
      (w.connect ⟨4⟩ ⟨7⟩ none).toOption.map Prod.fst = some ⟨9⟩ :=
  ⟨_, rfl, Reachable.decidesLinks (Reachable.after (.new ..) _), rfl, rfl, rfl, rfl⟩

end Workflow

end SlotFlow
