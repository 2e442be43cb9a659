import SlotFlow.Proofs.Document.Recalled
import SlotFlow.Proofs.Graph.Border
/-!
# The types of the slots that come back

After the records of slots a slot has the type that was saved, but for one that had none: it has that of
the slot of its name that its block is made with.

Then the links are made again, in their order, and a slot on the border that has no type takes one on from
what it is linked to, as it did not do when the link was first made: perhaps the other end had no type
either, and got it later. Whether it does depends on the order, for what it is linked to may itself have
none until a later link. The induction over the links carries along what each slot has come to by then.

* `Workflow.Retyped` — a slot without a type that gets one from its record or from one of the first links;
* `Workflow.Returned` — what is known of a slot that has come back;
* `Workflow.Recovered` — what is there when some of the links have been made again.

## Results

* `Workflow.Returned.joined` — what a link does to the slots it joins;
* `Workflow.Recovered.addRecordedLink` — what making the next link again does to the types;
* `Workflow.Storable.exists_recovered` — the slots before the first link;
* `Workflow.Built.slotTypes_of_save` — a slot comes back with its type, unless it had none.
-/

namespace SlotFlow

-- ---------------------------------------------------------------------------
-- Ends of links
-- ---------------------------------------------------------------------------

/-- A link joins a slot with one other. -/
theorem Link.eq_of_joins {link : Link} {a b c : SlotId} (hb : link.joins a b = true)
    (hc : link.joins a c = true) : b = c := by
  simp only [Link.joins, Bool.or_eq_true, Bool.and_eq_true, decide_eq_true_eq] at hb hc
  rcases hb with ⟨hsource, rfl⟩ | ⟨rfl, htarget⟩ <;> rcases hc with ⟨hsource', rfl⟩ | ⟨rfl, htarget'⟩
  · rfl
  · exact htarget'.trans hsource.symm
  · exact hsource'.trans htarget.symm
  · rfl

/-- A link touches the slots that it joins. -/
theorem Link.touches_of_joins {link : Link} {a b : SlotId} (h : link.joins a b = true) :
    link.touches a = true := by
  simp only [Link.joins, Bool.or_eq_true, Bool.and_eq_true, decide_eq_true_eq] at h
  rcases h with ⟨rfl, -⟩ | ⟨-, rfl⟩ <;> simp [Link.touches]

/-- It touches no others. -/
theorem Link.eq_of_touches {link : Link} {a b c : SlotId} (h : link.joins a b = true)
    (hc : link.touches c = true) : c = a ∨ c = b := by
  simp only [Link.joins, Link.touches, Bool.or_eq_true, Bool.and_eq_true, decide_eq_true_eq] at h hc
  rcases h with ⟨rfl, rfl⟩ | ⟨rfl, rfl⟩
  · exact hc.imp Eq.symm Eq.symm
  · exact hc.symm.imp Eq.symm Eq.symm

/-- There are two directions. -/
theorem Direction.eq_of_ne {a b c : Direction} (hb : a ≠ b) (hc : a ≠ c) : b = c := by
  cases a <;> cases b <;> cases c <;> trivial

namespace Workflow

variable {μ : Type} {registry : Registry μ} {uidStem : String} {u w : Workflow μ}

-- ---------------------------------------------------------------------------
-- Types
-- ---------------------------------------------------------------------------

/-- A link joins a slot on the border with another slot, which comes back with the direction it had. -/
structure Rejoined (registry : Registry μ) (w : Workflow μ) (link : Link) (slot other : Slot) :
    Prop where
  border : slot.external = true
  joins : link.joins slot.id other.id = true
  directed : ∃ block ∈ w.blocks, other ∈ block.slots ∧
    (other.reloadedKind registry block).direction = other.direction

/-- A slot without a type that has one once its record has been read and some links have been made again,
in their order. -/
inductive Retyped (registry : Registry μ) (w : Workflow μ) : List Link → Slot → Prop
  /-- Its block is made with a slot of its name that has a type. -/
  | made {links : List Link} {block : Block} {slot : Slot} (hblock : block ∈ w.blocks)
      (hslot : slot ∈ block.slots) (huntyped : slot.type = .unknown)
      (hmade : slot.reloadedType registry block ≠ .unknown) : Retyped registry w links slot
  /-- It has got one before. -/
  | before {links : List Link} {link : Link} {slot : Slot} (hslot : Retyped registry w links slot) :
      Retyped registry w (links ++ [link]) slot
  /-- The next link joins it with a slot that had a type. -/
  | typed {links : List Link} {link : Link} {slot other : Slot} (huntyped : slot.type = .unknown)
      (hrejoined : w.Rejoined registry link slot other) (hother : other.type ≠ .unknown) :
      Retyped registry w (links ++ [link]) slot
  /-- The next link joins it with a slot that has got one before. -/
  | linked {links : List Link} {link : Link} {slot other : Slot} (huntyped : slot.type = .unknown)
      (hrejoined : w.Rejoined registry link slot other) (hother : Retyped registry w links other) :
      Retyped registry w (links ++ [link]) slot

namespace Retyped

variable {links : List Link} {link : Link} {slot : Slot}

theorem untyped (h : Retyped registry w links slot) : slot.type = .unknown := by
  induction h <;> assumption

/-- Before the first link it is the records of slots that count. -/
theorem exists_of_nil (h : Retyped registry w [] slot) :
    ∃ block ∈ w.blocks, slot ∈ block.slots ∧ slot.reloadedType registry block ≠ .unknown := by
  generalize hnil : ([] : List Link) = links at h
  cases h with
  | made hblock hslot _ hmade => exact ⟨_, hblock, hslot, hmade⟩
  | before | typed | linked => simp at hnil

/-- What the next link adds. -/
theorem concat_iff : Retyped registry w (links ++ [link]) slot ↔
    Retyped registry w links slot ∨ slot.type = .unknown ∧
      ∃ other, w.Rejoined registry link slot other ∧
        (other.type ≠ .unknown ∨ Retyped registry w links other) := by
  constructor
  · intro h
    generalize hall : links ++ [link] = all at h
    have hsplit : ∀ {front : List Link} {last : Link}, links ++ [link] = front ++ [last] →
        links = front ∧ link = last := fun heq => by simpa using List.append_inj' heq rfl
    cases h with
    | made hblock hslot huntyped hmade => exact .inl (.made hblock hslot huntyped hmade)
    | before hslot =>
      obtain ⟨rfl, rfl⟩ := hsplit hall
      exact .inl hslot
    | typed huntyped hrejoined hother =>
      obtain ⟨rfl, rfl⟩ := hsplit hall
      exact .inr ⟨huntyped, _, hrejoined, .inl hother⟩
    | linked huntyped hrejoined hother =>
      obtain ⟨rfl, rfl⟩ := hsplit hall
      exact .inr ⟨huntyped, _, hrejoined, .inr hother⟩
  · rintro (hslot | ⟨huntyped, other, hrejoined, hother | hother⟩)
    · exact .before hslot
    · exact .typed huntyped hrejoined hother
    · exact .linked huntyped hrejoined hother

end Retyped

/-- A workflow whose slots are told apart by uids, none of which is one that the loader makes up. -/
structure ToldApart (uidStem : String) (w : Workflow μ) : Prop where
  wellFormed : w.WellFormed
  root : w.root.kind = .workflow
  uids : (w.slots.map Slot.uid).Nodup
  fresh : ∀ slot ∈ w.slots, ∀ number, slot.uid ≠ freshUid uidStem number

/-- A slot on the border comes back as it was, for the root is made without slots. -/
theorem ToldApart.reloadedKind_of_external (hw : w.ToldApart uidStem) {block : Block}
    (hb : block ∈ w.blocks) {slot : Slot} (hs : slot ∈ block.slots) (hext : slot.external = true) :
    slot.reloadedKind registry block = slot.kind := by
  have hnone : slot.name ∉ registry.slotNames block.kind := by
    rw [hw.wellFormed.owner_eq_root hb hs hext, hw.root]
    exact List.not_mem_nil
  rw [Slot.reloadedKind, Registry.madeRequest?_of_not_mem hnone, Option.elim_none]

/-- What is known of a slot of a block that has come back, once some links have been made again. -/
structure Returned (registry : Registry μ) (w : Workflow μ) (links : List Link) (block : Block)
    (saved slot : Slot) : Prop where
  uid : slot.uid = saved.uid
  kind : slot.kind = saved.reloadedKind registry block
  inside : saved.external = false → slot.type = saved.reloadedType registry block
  retyped : slot.type ≠ saved.type ↔ Retyped registry w links saved

/-- The records of slots leave a type as it was unless there is none. -/
theorem WellFormed.returned_of_recalls (hw : w.WellFormed) {block : Block} (hb : block ∈ w.blocks)
    {saved slot : Slot} (hs : saved ∈ block.slots) (h : Slot.Recalls registry block saved slot) :
    Returned registry w [] block saved slot where
  uid := h.uid
  kind := h.kind
  inside _ := h.type
  retyped := by
    rw [h.type]
    constructor
    · intro hne
      by_cases huntyped : saved.type = .unknown
      · exact .made hb hs huntyped (huntyped ▸ hne)
      · exact absurd (if_neg huntyped) hne
    · intro hretyped
      obtain ⟨other, ho, hso, hmade⟩ := hretyped.exists_of_nil
      obtain ⟨rfl, -⟩ := hw.slot_ext hb ho hs hso rfl
      exact hretyped.untyped ▸ hmade

namespace Returned

variable {links : List Link} {link : Link} {block other : Block}
  {saved partner slot opposite : Slot}

theorem kept (h : Returned registry w links block saved slot)
    (hnot : ¬Retyped registry w links saved) : slot.type = saved.type :=
  not_not.mp (h.retyped.not.mpr hnot)

/-- A slot has a type if it had one or has got one. -/
theorem typed_iff (h : Returned registry w links block saved slot) :
    slot.type ≠ .unknown ↔ saved.type ≠ .unknown ∨ Retyped registry w links saved := by
  by_cases hretyped : Retyped registry w links saved
  · have hne := h.retyped.mpr hretyped
    rw [hretyped.untyped] at hne
    exact iff_of_true hne (.inr hretyped)
  · rw [h.kept hretyped]
    exact (or_iff_left hretyped).symm

theorem external_eq (h : Returned registry w links block saved slot) (hw : w.ToldApart uidStem)
    (hb : block ∈ w.blocks) (hs : saved ∈ block.slots) : slot.external = saved.external := by
  rw [Slot.external, h.kind]
  cases hext : saved.external with
  | true =>
    rw [hw.reloadedKind_of_external hb hs hext]
    exact hext
  | false => exact Slot.inside_reloadedKind hext

theorem direction_eq (h : Returned registry w links block saved slot) (hw : w.ToldApart uidStem)
    (hb : block ∈ w.blocks) (hs : saved ∈ block.slots) (hext : saved.external = true) :
    slot.direction = saved.direction := by
  rw [Slot.direction, h.kind, hw.reloadedKind_of_external hb hs hext, Slot.direction]

/-- A link leaves the slots alone that it does not join with another one. -/
theorem apart (h : Returned registry w links block saved slot)
    (hnone : ∀ other ∈ w.slots, link.joins saved.id other.id = false) :
    Returned registry w (links ++ [link]) block saved slot := by
  refine ⟨h.uid, h.kind, h.inside, h.retyped.trans ?_⟩
  rw [Retyped.concat_iff, iff_self_or]
  rintro ⟨-, other, hrejoined, -⟩
  obtain ⟨owner, howner, hin, -⟩ := hrejoined.directed
  have hjoins := hrejoined.joins
  rw [hnone other (mem_slots.mpr ⟨owner, howner, hin⟩)] at hjoins
  cases hjoins

/-- A link gives a slot on the border that has no type that of its partner, if their directions still
differ. -/
theorem joined (h : Returned registry w links block saved slot)
    (h' : Returned registry w links other partner opposite) (hw : w.ToldApart uidStem)
    (hb : block ∈ w.blocks) (hs : saved ∈ block.slots) (ho : other ∈ w.blocks)
    (hp : partner ∈ other.slots) (hjoins : link.joins saved.id partner.id = true)
    (hdirections : saved.direction ≠ partner.direction) :
    Returned registry w (links ++ [link]) block saved
      (if slot.direction ≠ opposite.direction ∧ slot.external = true ∧ slot.type = .unknown then
        { slot with type := opposite.type } else slot) := by
  have hborder := h.external_eq hw hb hs
  -- the partner is the only slot that the link joins the slot with
  have hnext : Retyped registry w (links ++ [link]) saved ↔ Retyped registry w links saved ∨
      saved.type = .unknown ∧ w.Rejoined registry link saved partner ∧ opposite.type ≠ .unknown := by
    rw [Retyped.concat_iff, h'.typed_iff]
    refine or_congr_right (and_congr_right fun _ => ⟨?_, fun htyped => ⟨partner, htyped⟩⟩)
    rintro ⟨third, hrejoined, htyped⟩
    obtain ⟨owner, howner, hin, -⟩ := hrejoined.directed
    obtain ⟨-, rfl⟩ := hw.wellFormed.slot_ext howner ho hin hp
      (Link.eq_of_joins hrejoined.joins hjoins)
    exact ⟨hrejoined, htyped⟩
  split
  · rename_i hadopts
    obtain ⟨hopposed, hext, huntyped⟩ := hadopts
    rw [hborder] at hext
    have hkept : ¬Retyped registry w links saved := fun hretyped =>
      h.retyped.mpr hretyped (huntyped.trans hretyped.untyped.symm)
    have hsaved : saved.type = .unknown := h.kept hkept ▸ huntyped
    have hrejoined : w.Rejoined registry link saved partner := by
      refine ⟨hext, hjoins, other, ho, hp, ?_⟩
      rw [← h'.kind]
      rw [h.direction_eq hw hb hs hext] at hopposed
      exact Direction.eq_of_ne hopposed hdirections
    refine ⟨h.uid, h.kind, fun hinside => ?_, ?_⟩
    · rw [hinside] at hext
      cases hext
    · rw [hnext, hsaved, or_iff_right hkept]
      exact ⟨fun htyped => ⟨rfl, hrejoined, htyped⟩, fun htyped => htyped.2.2⟩
  · rename_i hadopts
    refine ⟨h.uid, h.kind, h.inside, ?_⟩
    rw [h.retyped, hnext, iff_self_or]
    rintro ⟨hsaved, hrejoined, -⟩
    by_contra hkept
    obtain ⟨owner, howner, hin, hdirection⟩ := hrejoined.directed
    obtain ⟨rfl, -⟩ := hw.wellFormed.slot_ext howner ho hin hp rfl
    refine hadopts ⟨?_, hborder.trans hrejoined.border,
      (h.kept hkept).trans hsaved⟩
    rw [h.direction_eq hw hb hs hrejoined.border, Slot.direction.eq_1 opposite, h'.kind, hdirection]
    exact hdirections

end Returned

-- ---------------------------------------------------------------------------
-- Links
-- ---------------------------------------------------------------------------

section
variable {a b slot : Slot}

/-- What the first of two slots takes on when they are linked. -/
theorem takeOn_first (hne : a.id ≠ b.id) : a.takeOn (adoptedType? a b) =
    if a.external = true ∧ a.type = .unknown then { a with type := b.type } else a := by
  unfold adoptedType? Slot.takeOn
  split_ifs with ha hb
  · exact if_pos rfl
  · exact if_neg hne
  · rfl

/-- What the second of two slots takes on when they are linked. -/
theorem takeOn_second (hne : a.id ≠ b.id) : b.takeOn (adoptedType? a b) =
    if b.external = true ∧ b.type = .unknown then { b with type := a.type } else b := by
  unfold adoptedType? Slot.takeOn
  split_ifs with ha hb hb
  · rw [ha.2, ← hb.2]
    exact if_neg hne.symm
  · exact if_neg hne.symm
  · exact if_pos rfl
  · rfl

/-- The other slots take on nothing. -/
theorem takeOn_other (ha : slot.id ≠ a.id) (hb : slot.id ≠ b.id) :
    slot.takeOn (adoptedType? a b) = slot := by
  unfold adoptedType? Slot.takeOn
  split_ifs
  · exact if_neg ha
  · exact if_neg hb
  · rfl

/-- Neither slot takes on a type if neither stands on the border without one. -/
theorem adoptedType?_eq_none (ha : ¬(a.external = true ∧ a.type = .unknown))
    (hb : ¬(b.external = true ∧ b.type = .unknown)) : adoptedType? a b = none := by
  rw [adoptedType?, if_neg ha, if_neg hb]

/-- What the two slots of a request take on. It is refused if their directions do not differ. -/
def exchanged (a b slot : Slot) : Slot :=
  if a.direction ≠ b.direction then slot.takeOn (adoptedType? a b) else slot

@[simp] theorem id_exchanged : (exchanged a b slot).id = slot.id := by
  unfold exchanged
  split <;> simp

@[simp] theorem uid_exchanged : (exchanged a b slot).uid = slot.uid := by
  unfold exchanged
  split <;> simp

theorem exchanged_first (hne : a.id ≠ b.id) : exchanged a b a =
    if a.direction ≠ b.direction ∧ a.external = true ∧ a.type = .unknown then
      { a with type := b.type } else a := by
  by_cases hdirection : a.direction = b.direction
  · rw [exchanged, if_neg (not_not.mpr hdirection), if_neg fun h => h.1 hdirection]
  · simp only [exchanged, takeOn_first hne, ne_eq, hdirection, not_false_eq_true, if_true, true_and]

theorem exchanged_second (hne : a.id ≠ b.id) : exchanged a b b =
    if b.direction ≠ a.direction ∧ b.external = true ∧ b.type = .unknown then
      { b with type := a.type } else b := by
  by_cases hdirection : a.direction = b.direction
  · rw [exchanged, if_neg (not_not.mpr hdirection), if_neg fun h => h.1 hdirection.symm]
  · simp only [exchanged, takeOn_second hne, ne_eq, hdirection, Ne.symm hdirection,
      not_false_eq_true, if_true, true_and]

theorem exchanged_other (ha : slot.id ≠ a.id) (hb : slot.id ≠ b.id) : exchanged a b slot = slot := by
  rw [exchanged, takeOn_other ha hb, ite_self]

end

/-- A granted request links the two slots it is about. -/
theorem WellFormed.connect_slots (hu : u.WellFormed) {a b : Slot} (ha : a ∈ u.slots)
    (hb : b ∈ u.slots) {uid : Option String} {added : LinkId × Workflow μ}
    (hadded : u.connect a.id b.id uid = .ok added) :
    a.direction ≠ b.direction ∧ added.2.slots = u.slots.map (Slot.takeOn (adoptedType? a b)) ∧
      ∀ link ∈ added.2.links, link ∈ u.links ∨ link.joins a.id b.id = true := by
  obtain ⟨first, second, plan, hfirst, hsecond, hplan, rfl⟩ := connect_eq_ok.mp hadded
  have hslot : ∀ {owned : OwnedSlot} {slot : Slot}, slot ∈ u.slots →
      u.getOwnedSlot slot.id = .ok owned → owned.slot = slot := by
    intro owned slot hs howned
    obtain ⟨hblock, hin, hid⟩ := mem_of_ownedSlot? (getOwnedSlot_eq_ok.mp howned)
    exact List.inj_on_of_nodup_map hu.slotIds (mem_slots.mpr ⟨_, hblock, hin⟩) hs hid
  rw [hslot ha hfirst, hslot hb hsecond] at hplan
  obtain ⟨source, target, hends, -, -, -, hplan'⟩ := ends_of_connection hplan
  refine ⟨(connection_eq_ok.mp hplan).2.1, ?_, fun link hlink => ?_⟩
  · rw [hplan']
    show (u.adopt (adoptedType? a b)).slots = _
    rw [adopt_eq_mapSlots, slots_mapSlots]
  · rw [addLink, List.mem_append, List.mem_singleton, hplan'] at hlink
    refine hlink.imp_right ?_
    rintro rfl
    rcases hends with ⟨rfl, rfl⟩ | ⟨rfl, rfl⟩ <;> simp [Link.joins]

/-- What is there of the slots of a workflow when some of its links have been made again. -/
structure Recovered (registry : Registry μ) (uidStem : String) (w : Workflow μ) (links : List Link)
    (u : Workflow μ) : Prop where
  wellFormed : u.WellFormed
  uids : (u.slots.map Slot.uid).Nodup
  origin : ∀ slot ∈ u.slots, (∃ number, slot.uid = freshUid uidStem number) ∨
    ∃ block ∈ w.blocks, ∃ saved ∈ block.slots, Returned registry w links block saved slot
  back : ∀ saved ∈ w.slots, ∃ slot ∈ u.slots, slot.uid = saved.uid
  traced : ∀ made ∈ u.links, ∀ slot ∈ u.slots, made.touches slot.id = true →
    ∃ link ∈ links, ∃ saved ∈ w.slots, slot.uid = saved.uid ∧ link.touches saved.id = true

/-- The ends of a link, and what has come back of them. -/
structure Ends (w u : Workflow μ) (link : Link) (s t a b : Slot) : Prop where
  source : s ∈ w.slots
  sourceId : s.id = link.source
  output : s.direction = .output
  target : t ∈ w.slots
  targetId : t.id = link.target
  input : t.direction = .input
  first : a ∈ u.slots
  firstUid : a.uid = s.uid
  second : b ∈ u.slots
  secondUid : b.uid = t.uid

namespace Ends

variable {link : Link} {s t a b : Slot}

theorem joins (h : Ends w u link s t a b) : link.joins s.id t.id = true := by
  simp [Link.joins, h.sourceId, h.targetId]

theorem joins_symm (h : Ends w u link s t a b) : link.joins t.id s.id = true := by
  simp [Link.joins, h.sourceId, h.targetId]

theorem directions (h : Ends w u link s t a b) : s.direction ≠ t.direction := by
  rw [h.output, h.input]
  decide

theorem ne (h : Ends w u link s t a b) (hw : w.ToldApart uidStem) (hu : u.WellFormed) :
    a.id ≠ b.id := by
  intro hid
  obtain rfl := List.inj_on_of_nodup_map hu.slotIds h.first h.second hid
  have hst := List.inj_on_of_nodup_map hw.uids h.source h.target (h.firstUid.symm.trans h.secondUid)
  exact h.directions (hst ▸ rfl)

/-- The link touches no other slot. -/
theorem eq_of_touches (h : Ends w u link s t a b) (hw : w.WellFormed) {saved : Slot}
    (hs : saved ∈ w.slots) (htouches : link.touches saved.id = true) : saved = s ∨ saved = t := by
  rw [Link.touches, Bool.or_eq_true, decide_eq_true_eq, decide_eq_true_eq] at htouches
  refine htouches.imp (fun hsource => ?_) fun htarget => ?_
  · exact List.inj_on_of_nodup_map hw.slotIds hs h.source (hsource.symm.trans h.sourceId.symm)
  · exact List.inj_on_of_nodup_map hw.slotIds hs h.target (htarget.symm.trans h.targetId.symm)

end Ends

namespace Recovered

variable {links after : List Link} {link : Link} {s t a b : Slot}

/-- A slot with the uid of a saved one is what came back of it. -/
theorem returned (h : Recovered registry uidStem w links u) (hw : w.ToldApart uidStem) {block : Block}
    (hb : block ∈ w.blocks) {saved slot : Slot} (hs : saved ∈ block.slots) (hslot : slot ∈ u.slots)
    (huid : slot.uid = saved.uid) : Returned registry w links block saved slot := by
  have hmem : saved ∈ w.slots := mem_slots.mpr ⟨block, hb, hs⟩
  rcases h.origin slot hslot with ⟨number, hnumber⟩ | ⟨other, ho, old, hold, hreturned⟩
  · exact absurd (huid.symm.trans hnumber) (hw.fresh saved hmem number)
  · have hsame : old = saved := List.inj_on_of_nodup_map hw.uids (mem_slots.mpr ⟨other, ho, hold⟩)
      hmem (hreturned.uid.symm.trans huid)
    subst hsame
    obtain ⟨rfl, -⟩ := hw.wellFormed.slot_ext ho hb hold hs rfl
    exact hreturned

/-- The ends of a link are back before it is made again. -/
theorem exists_ends (h : Recovered registry uidStem w links u) (hw : w.WellFormed)
    (hl : link ∈ w.links) : ∃ s t a b, Ends w u link s t a b := by
  obtain ⟨s, hs, hsource, hout⟩ := hw.links.source link hl
  obtain ⟨t, ht, htarget, hin⟩ := hw.links.target link hl
  obtain ⟨a, ha, haUid⟩ := h.back s hs
  obtain ⟨b, hb, hbUid⟩ := h.back t ht
  exact ⟨s, t, a, b, hs, hsource, hout, ht, htarget, hin, ha, haUid, hb, hbUid⟩

/-- An input whose link has not had its turn has no link. -/
theorem not_touches (h : Recovered registry uidStem w links u) (hw : w.ToldApart uidStem)
    (hlinks : w.links = links ++ link :: after) (hends : Ends w u link s t a b) :
    ∀ made ∈ u.links, made.touches b.id = false := by
  intro made hmade
  by_contra htouch
  obtain ⟨old, ho, saved, hs, hsaved, htouches⟩ :=
    h.traced made hmade b hends.second (by simpa using htouch)
  obtain rfl := List.inj_on_of_nodup_map hw.uids hends.target hs (hends.secondUid.symm.trans hsaved)
  have hold : old ∈ w.links := hlinks ▸ List.mem_append_left _ ho
  rw [Link.touches, Bool.or_eq_true, decide_eq_true_eq, decide_eq_true_eq] at htouches
  rcases htouches with hsource | htarget
  · -- the source of a link is an output
    obtain ⟨source, hsource', hid, hout⟩ := hw.wellFormed.links.source old hold
    obtain rfl := List.inj_on_of_nodup_map hw.wellFormed.slotIds hsource' hends.target
      (hid.trans hsource)
    rw [hends.input] at hout
    cases hout
  · have htargets := hw.wellFormed.links.targets
    rw [hlinks, List.map_append, List.map_cons, List.nodup_append] at htargets
    exact htargets.2.2 _ (List.mem_map_of_mem ho) _ List.mem_cons_self
      (htarget.trans hends.targetId)

/-- A request with an end on the border is refused for nothing but the directions. -/
theorem exists_connect (h : Recovered registry uidStem w links u) (hw : w.ToldApart uidStem)
    (hlinks : w.links = links ++ link :: after) (hends : Ends w u link s t a b)
    (hborder : (a.external || b.external) = true) (hdirections : a.direction ≠ b.direction)
    (uid : Option String) : ∃ added, u.connect a.id b.id uid = .ok added := by
  obtain ⟨sBlock, hsBlock, hs⟩ := mem_slots.mp hends.source
  obtain ⟨tBlock, htBlock, ht⟩ := mem_slots.mp hends.target
  have hsa := h.returned hw hsBlock hs hends.first hends.firstUid
  have htb := h.returned hw htBlock ht hends.second hends.secondUid
  have hcompatible : a.compatible b = true := by
    rw [Slot.compatible, hborder, Bool.true_or, Bool.and_true]
    exact decide_eq_true hdirections
  have hopposed : a.direction = .output ∧ b.direction = .input := by
    rw [Bool.or_eq_true, hsa.external_eq hw hsBlock hs, htb.external_eq hw htBlock ht] at hborder
    rcases hborder with hext | hext
    · have hout := (hsa.direction_eq hw hsBlock hs hext).trans hends.output
      exact ⟨hout, Direction.eq_of_ne hdirections (hout ▸ by decide)⟩
    · have hin := (htb.direction_eq hw htBlock ht hext).trans hends.input
      exact ⟨Direction.eq_of_ne (Ne.symm hdirections) (hin ▸ by decide), hin⟩
  exact ⟨_, h.wellFormed.connect_of_compatible hends.first hends.second hopposed.1 hopposed.2
    hcompatible (h.not_touches hw hlinks hends) uid⟩

/-- What becomes of the slots and the links when the next link is made again. -/
theorem exchange (h : Recovered registry uidStem w links u) (hw : w.ToldApart uidStem)
    (hlinks : w.links = links ++ link :: after) (hends : Ends w u link s t a b) :
    (u.addRecordedLink (w.linkData link)).slots = u.slots.map (exchanged a b) ∧
      ∀ made ∈ (u.addRecordedLink (w.linkData link)).links,
        made ∈ u.links ∨ made.joins a.id b.id = true := by
  rw [hw.wellFormed.linkData_eq hends.source hends.target hends.sourceId hends.targetId,
    Workflow.addRecordedLink, (slotWithUid?_eq_some h.uids).mpr ⟨hends.first, hends.firstUid⟩,
    (slotWithUid?_eq_some h.uids).mpr ⟨hends.second, hends.secondUid⟩]
  dsimp only
  split
  · rename_i added hadded
    obtain ⟨hdirections, hslots, hmade⟩ := h.wellFormed.connect_slots hends.first hends.second hadded
    refine ⟨?_, hmade⟩
    rw [hslots]
    exact List.map_congr_left fun slot _ => (if_pos hdirections).symm
  · rename_i error hrefused
    refine ⟨(List.map_id _).symm.trans (List.map_congr_left fun slot _ => ?_), fun _ => .inl⟩
    rw [exchanged]
    split
    · rename_i hdirections
      have hinside : ¬(a.external || b.external) = true := by
        intro hborder
        obtain ⟨added, hadded⟩ :=
          h.exists_connect hw hlinks hends hborder hdirections (some link.uid)
        rw [hrefused] at hadded
        cases hadded
      rw [Bool.or_eq_true, not_or] at hinside
      rw [adoptedType?_eq_none (fun hadopts => hinside.1 hadopts.1) fun hadopts =>
        hinside.2 hadopts.1]
      rfl
    · rfl

/-- What is known of a slot that has come back, after the next link. -/
theorem returned_exchanged (h : Recovered registry uidStem w links u) (hw : w.ToldApart uidStem)
    (hends : Ends w u link s t a b) {block : Block} (hblock : block ∈ w.blocks) {saved slot : Slot}
    (hsaved : saved ∈ block.slots) (hslot : slot ∈ u.slots)
    (hreturned : Returned registry w links block saved slot) :
    Returned registry w (links ++ [link]) block saved (exchanged a b slot) := by
  obtain ⟨sBlock, hsBlock, hs⟩ := mem_slots.mp hends.source
  obtain ⟨tBlock, htBlock, ht⟩ := mem_slots.mp hends.target
  have hsa := h.returned hw hsBlock hs hends.first hends.firstUid
  have htb := h.returned hw htBlock ht hends.second hends.secondUid
  have hne := hends.ne hw h.wellFormed
  have hmem : saved ∈ w.slots := mem_slots.mpr ⟨block, hblock, hsaved⟩
  have hback : ∀ {x y : Slot}, x ∈ w.slots → y ∈ u.slots → y.uid = x.uid →
      (saved = x ↔ slot = y) := by
    intro x y hx hy huid
    constructor
    · rintro rfl
      exact List.inj_on_of_nodup_map h.uids hslot hy (hreturned.uid.trans huid.symm)
    · rintro rfl
      exact List.inj_on_of_nodup_map hw.uids hmem hx (hreturned.uid.symm.trans huid)
  have hfirst := hback hends.source hends.first hends.firstUid
  have hsecond := hback hends.target hends.second hends.secondUid
  by_cases hslotA : slot = a
  · obtain rfl := hfirst.mpr hslotA
    subst hslotA
    rw [exchanged_first hne]
    exact hreturned.joined htb hw hblock hsaved htBlock ht hends.joins hends.directions
  · by_cases hslotB : slot = b
    · obtain rfl := hsecond.mpr hslotB
      subst hslotB
      rw [exchanged_second hne]
      exact hreturned.joined hsa hw hblock hsaved hsBlock hs hends.joins_symm hends.directions.symm
    · rw [exchanged_other
        (fun hid => hslotA (List.inj_on_of_nodup_map h.wellFormed.slotIds hslot hends.first hid))
        fun hid => hslotB (List.inj_on_of_nodup_map h.wellFormed.slotIds hslot hends.second hid)]
      refine hreturned.apart fun other _ => ?_
      by_contra hjoins
      rcases hends.eq_of_touches hw.wellFormed hmem (Link.touches_of_joins (by simpa using hjoins)) with
        hsame | hsame
      · exact hslotA (hfirst.mp hsame)
      · exact hslotB (hsecond.mp hsame)

/-- Making a link again retypes a slot on the border that has no type, if its partner has one. -/
theorem addRecordedLink (h : Recovered registry uidStem w links u) (hw : w.ToldApart uidStem)
    (hlinks : w.links = links ++ link :: after) :
    Recovered registry uidStem w (links ++ [link]) (u.addRecordedLink (w.linkData link)) := by
  have hl : link ∈ w.links := hlinks ▸ List.mem_append_right _ List.mem_cons_self
  obtain ⟨s, t, a, b, hends⟩ := h.exists_ends hw.wellFormed hl
  obtain ⟨hslots, hmade⟩ := h.exchange hw hlinks hends
  have huids : (u.slots.map (exchanged a b)).map Slot.uid = u.slots.map Slot.uid := by
    rw [List.map_map]
    exact List.map_congr_left fun _ _ => uid_exchanged
  refine ⟨h.wellFormed.addRecordedLink _, hslots ▸ huids ▸ h.uids, ?_, fun saved hsaved => ?_, ?_⟩
  · rw [hslots, List.forall_mem_map]
    intro slot hslot
    rw [uid_exchanged]
    refine (h.origin slot hslot).imp_right ?_
    rintro ⟨block, hblock, saved, hsaved, hreturned⟩
    exact ⟨block, hblock, saved, hsaved,
      h.returned_exchanged hw hends hblock hsaved hslot hreturned⟩
  · obtain ⟨slot, hslot, huid⟩ := h.back saved hsaved
    rw [hslots]
    exact ⟨_, List.mem_map_of_mem hslot, uid_exchanged.trans huid⟩
  · rw [hslots]
    simp only [List.forall_mem_map, id_exchanged, uid_exchanged]
    intro made hm slot hslot htouches
    rcases hmade made hm with hold | hjoins
    · obtain ⟨old, ho, htraced⟩ := h.traced made hold slot hslot htouches
      exact ⟨old, List.mem_append_left _ ho, htraced⟩
    · refine ⟨link, List.mem_append_right _ (List.mem_singleton_self _), ?_⟩
      rcases Link.eq_of_touches hjoins htouches with hid | hid
      · obtain rfl := List.inj_on_of_nodup_map h.wellFormed.slotIds hslot hends.first hid
        exact ⟨s, hends.source, hends.firstUid, Link.touches_of_joins hends.joins⟩
      · obtain rfl := List.inj_on_of_nodup_map h.wellFormed.slotIds hslot hends.second hid
        exact ⟨t, hends.target, hends.secondUid, Link.touches_of_joins hends.joins_symm⟩

theorem addRecordedLinks (hw : w.ToldApart uidStem) (after : List Link) :
    ∀ {links : List Link} {u : Workflow μ}, w.links = links ++ after →
      Recovered registry uidStem w links u →
      Recovered registry uidStem w w.links
        ((after.map w.linkData).foldl Workflow.addRecordedLink u) := by
  induction after with
  | nil =>
    intro links u hlinks h
    rw [hlinks, List.append_nil]
    exact h
  | cons link after ih =>
    intro links u hlinks h
    refine ih ?_ (h.addRecordedLink hw hlinks)
    rw [hlinks, List.append_assoc, List.singleton_append]

end Recovered

/-- After the records of slots each slot is there, with the type that was recorded if there is one. -/
theorem Storable.exists_recovered (h : w.Storable registry) (hw : w.ToldApart uidStem)
    (hnested : w.body.Nested) :
    ∃ u, ofRecords uidStem w.records registry =
        .ok ((w.links.map w.linkData).foldl addRecordedLink u) ∧
      Recovered registry uidStem w [] u := by
  have hdraft : Drafted registry w.root.name w.tree _ :=
    h.drafted hw.root (List.Sublist.refl _) (fun _ => h.known) hnested uidStem
  have hentries := hw.wellFormed.recordedBlocks_records hw.root h.inner
  have hstart : Growing registry uidStem ((recordedBlocks w.records).map fun entry => entry.1.uid)
      (new uidStem w.root.name registry (some w.root.uid)) := by
    refine ⟨⟨wellFormed_new .., rfl⟩, laid_new .., rfl, rfl, ?_, fun _ hs => absurd hs List.not_mem_nil⟩
    rw [hentries, uids_entries]
    have huids := h.uids
    rwa [blocks_eq, List.map_cons] at huids
  obtain ⟨left, hgrown⟩ := Growing.addRecordedBlocks (recordedBlocks w.records).length
    (fun entry he => kind_of_mem_recordedBlocks he) hstart
  rw [← hentries] at hdraft
  generalize hv : addRecordedBlocks (recordedBlocks w.records).length
    (new uidStem w.root.name registry (some w.root.uid)) (recordedBlocks w.records) = v
    at hdraft hgrown
  have hhosts : ∀ b ∈ w.blocks, ∃ c ∈ v.blocks, c.uid = b.uid ∧
      HostsFresh registry uidStem v.root.id c b := by
    intro b hb
    obtain ⟨c, hc, hcb, hfresh, hborder⟩ := hdraft.exists_block hw.wellFormed h.uids hb
    exact ⟨c, hc, Block.uid_eq_of_label hcb, ⟨hfresh, Block.kind_eq_of_label hcb,
      hw.wellFormed.blocks.slotNames b hb, hborder⟩, fun slot hs =>
      ⟨_, hgrown.slotUids slot (mem_slots.mpr ⟨c, hc, hs⟩)⟩⟩
  obtain ⟨f, hrefilled, -, hfilled, -⟩ := exists_refilled_each
    (fun _ b slots => b.Recalled registry uidStem b.slots slots)
    (fun hv huids hc huid hhosts => hhosts.exists_refilled hv huids hc huid) w.blocks
    hdraft.unlinked (hdraft.uids h.uids) h.uids hhosts
  rw [← recordedSlots_records] at hrefilled
  have hsettling := Settling.addRecordedSlots (recordedSlots w.records)
    (hgrown.settling (uids_recordedSlots_records w ▸ hw.uids) fun uid hm => by
      rw [uids_recordedSlots_records] at hm
      obtain ⟨slot, hs, rfl⟩ := List.mem_map.mp hm
      exact hw.fresh slot hs)
  have huids := hsettling.slotUids
  rw [List.append_nil] at huids
  refine ⟨v.addEntries (recordedSlots w.records), ?_, hrefilled.unlinked.wellFormed, huids, ?_, ?_, ?_⟩
  · rw [ofRecords, recordedRoot?_records hw.root, ← recordedLinks_records, ← hv]
    rfl
  · intro slot hslot
    rw [mem_slots, hrefilled.blocks] at hslot
    obtain ⟨block, hblock, hs⟩ := hslot
    obtain ⟨c, hc, rfl⟩ := List.mem_map.mp hblock
    have hlabel : c.label ∈ w.blocks.map Block.label := hdraft.labels ▸ List.mem_map_of_mem hc
    obtain ⟨b, hb, hbc⟩ := List.mem_map.mp hlabel
    rcases (hfilled b hb c hc (Block.uid_eq_of_label hbc.symm)).origin slot hs with
      hmade | ⟨saved, hsaved, hrecalls⟩
    · exact .inl hmade.uid
    · exact .inr ⟨b, hb, saved, hsaved, hw.wellFormed.returned_of_recalls hb hsaved hrecalls⟩
  · intro saved hsaved
    obtain ⟨b, hb, hs⟩ := mem_slots.mp hsaved
    obtain ⟨c, hc, huid, -⟩ := hhosts b hb
    obtain ⟨slot, hslot, hrecalls⟩ := (hfilled b hb c hc huid).back saved hs
    have hblock : f c ∈ (v.addEntries (recordedSlots w.records)).blocks := by
      rw [hrefilled.blocks]
      exact List.mem_map_of_mem hc
    exact ⟨slot, mem_slots.mpr ⟨f c, hblock, hslot⟩, hrecalls.uid⟩
  · intro made hmade
    rw [hrefilled.unlinked.links] at hmade
    cases hmade

-- ---------------------------------------------------------------------------
-- Saving and loading
-- ---------------------------------------------------------------------------

variable {events : List (Event μ)}

/-- **A slot comes back with its type, unless it had none.** Take any workflow that has been built without
a change of kinds, whose blocks can all be made again, and whose slots are told apart by uids that the
loader does not make up. Each of its slots is there in what is built from its records. A slot inside has
the type it had; if it had none, it has that of the slot of its name that its block is made with. The type
of a slot is another one exactly if it had none and gets one: from the slot that its block is made with or,
if it stands on the border, from a slot that had one or has got one when the link of the two is made
again. -/
theorem Built.slotTypes_of_save (h : Built events w)
    (hkinds : ∀ event ∈ events, ∀ id kind, event.edit ≠ .setBlockKind id kind)
    (hstorable : w.Storable registry) (huids : (w.slots.map Slot.uid).Nodup) (uidStem : String)
    (hfresh : ∀ slot ∈ w.slots, ∀ number, slot.uid ≠ freshUid uidStem number) :
    ∃ w', ofRecords uidStem w.records registry = .ok w' ∧
      (∀ slot ∈ w.slots, ∃ slot' ∈ w'.slots, slot'.uid = slot.uid) ∧
      ∀ block ∈ w.blocks, ∀ slot ∈ block.slots, ∀ slot' ∈ w'.slots, slot'.uid = slot.uid →
        (slot.external = false → slot'.type = slot.reloadedType registry block) ∧
        (slot'.type ≠ slot.type ↔ slot.type = .unknown ∧ Retyped registry w w.links slot) := by
  have hchronicle := h.chronicle hkinds
  obtain ⟨-, hnested, -⟩ := hchronicle.nested
  have htold : w.ToldApart uidStem := ⟨h.reachable.wellFormed, hchronicle.root, huids, hfresh⟩
  obtain ⟨u, hload, hrecovered⟩ := hstorable.exists_recovered htold hnested
  have hloaded := Recovered.addRecordedLinks htold w.links (List.nil_append _).symm hrecovered
  refine ⟨_, hload, hloaded.back, fun block hb slot hs slot' hs' huid => ?_⟩
  have hreturned := hloaded.returned htold hb hs hs' huid
  refine ⟨hreturned.inside, hreturned.retyped.trans ⟨fun hretyped => ?_, And.right⟩⟩
  exact ⟨hretyped.untyped, hretyped⟩

/-- A slot on the border that has taken on the type of a slot inside, and another one that has taken it on
from the first. -/
theorem slotTypes_of_save_of_chain :
    ∃ (events : List (Event Unit)) (w w' : Workflow Unit), Built events w ∧
      w.slots.map Slot.name = ["clock", "now", "start_time", "target_time", "max_dt"] ∧
      w.slots.map Slot.type = List.replicate 5 .physicalQuantity ∧ w.links.length = 2 ∧
      ofRecords "again-" w.records ⟨[]⟩ = .ok w' ∧
      ∀ slot ∈ w.slots, ∃ slot' ∈ w'.slots, slot'.uid = slot.uid ∧ slot'.type = slot.type := by
  have hloop := @Built.edited Unit _ _ _ (.addBlock rootId .timeLoop none) _
    (.new "new-" "Plan" ⟨[]⟩) rfl
  have hclock := @Built.edited Unit _ _ _
    (.addSlot rootId ⟨"clock", .unknown, ⟨.output, true⟩, false, none, .default, none⟩) _ hloop rfl
  have hnow := @Built.edited Unit _ _ _
    (.addSlot rootId ⟨"now", .unknown, ⟨.input, true⟩, false, none, .default, none⟩) _ hclock rfl
  have hinside := @Built.edited Unit _ _ _ (.connect ⟨5⟩ ⟨2⟩ none) _ hnow rfl
  have hborder := @Built.edited Unit _ _ _ (.connect ⟨5⟩ ⟨6⟩ none) _ hinside rfl
  obtain ⟨w', hload, hback, htypes⟩ := @Built.slotTypes_of_save Unit ⟨[]⟩ _ _ hborder (by simp)
    (.of_no_models (by decide) fun block hb => by
      rw [List.mem_singleton.mp hb]
      exact ⟨nofun, rfl⟩) (by decide +kernel) "again-"
    (fun slot hs => ne_freshUid (by
      revert slot
      decide +kernel))
  refine ⟨_, _, w', hborder, by decide +kernel, by decide +kernel, rfl, hload, fun slot hs => ?_⟩
  have htyped : slot.type ≠ .unknown := by
    revert slot
    decide +kernel
  obtain ⟨slot', hs', huid⟩ := hback slot hs
  obtain ⟨block, hb, hin⟩ := mem_slots.mp hs
  refine ⟨slot', hs', huid, ?_⟩
  by_contra hne
  exact htyped ((htypes block hb slot hin slot' hs' huid).2.mp hne).1

/-- A slot that is removed from a time loop and added without a type comes back with the type it had at
first, and a slot on the border comes back with the type that its partner took on after they were linked. -/
theorem not_slotTypes_kept_of_late_type :
    ∃ (events : List (Event Unit)) (w w' : Workflow Unit), Built events w ∧
      (∀ event ∈ events, ∀ id kind, event.edit ≠ .setBlockKind id kind) ∧ w.Storable ⟨[]⟩ ∧
      (w.slots.map Slot.uid).Nodup ∧
      (∀ slot ∈ w.slots, ∀ number, slot.uid ≠ freshUid "again-" number) ∧
      ofRecords "again-" w.records ⟨[]⟩ = .ok w' ∧
      w'.slots.map Slot.uid = w.slots.map Slot.uid ∧
      w.slots.map (fun slot => (slot.name, slot.type)) =
        [("clock", .physicalQuantity), ("now", .unknown), ("start_time", .physicalQuantity),
          ("target_time", .physicalQuantity), ("max_dt", .unknown)] ∧
      w'.slots.map (fun slot => (slot.name, slot.type)) =
        [("clock", .physicalQuantity), ("now", .physicalQuantity), ("start_time", .physicalQuantity),
          ("target_time", .physicalQuantity), ("max_dt", .physicalQuantity)] := by
  have hloop := @Built.edited Unit _ _ _ (.addBlock rootId .timeLoop none) _
    (.new "new-" "Plan" ⟨[]⟩) rfl
  have hremoved := @Built.edited Unit _ _ _ (.removeSlot ⟨4⟩) _ hloop rfl
  have hagain := @Built.edited Unit _ _ _
    (.addSlot ⟨1⟩ ⟨"max_dt", .unknown, ⟨.input, false⟩, true, none, .default, none⟩) _ hremoved rfl
  have hclock := @Built.edited Unit _ _ _
    (.addSlot rootId ⟨"clock", .unknown, ⟨.output, true⟩, false, none, .default, none⟩) _ hagain rfl
  have hnow := @Built.edited Unit _ _ _
    (.addSlot rootId ⟨"now", .unknown, ⟨.input, true⟩, false, none, .default, none⟩) _ hclock rfl
  have hborder := @Built.edited Unit _ _ _ (.connect ⟨6⟩ ⟨7⟩ none) _ hnow rfl
  have hinside := @Built.edited Unit _ _ _ (.connect ⟨6⟩ ⟨2⟩ none) _ hborder rfl
  refine ⟨_, _, _, hinside, by simp, .of_no_models (by decide) fun block hb => ?_,
    by decide +kernel, fun slot hs => ne_freshUid ?_, rfl, by decide +kernel, by decide +kernel,
    by decide +kernel⟩
  · rw [List.mem_singleton.mp hb]
    exact ⟨nofun, rfl⟩
  · revert slot
    decide +kernel

end Workflow

end SlotFlow
