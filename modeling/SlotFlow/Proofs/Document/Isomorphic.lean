import Mathlib.Data.List.Zip
import SlotFlow.Document.Assembly
import SlotFlow.Proofs.Graph.WellFormed
/-!
# Isomorphic workflows

Two workflows are isomorphic if one becomes the other when its elements are numbered anew. Nothing
else may differ but the identifiers that blocks and slots have in generated programs. In documents
elements go by uids and not by numbers, so what comes back from a document is at best isomorphic to
what went in.

* `Renumbering` — new numbers for the elements of a workflow;
* `Workflow.Isomorphic` — equality up to numbers and identifiers.

## Results

* `Workflow.Alike.isomorphic` — where uids are distinct, it is enough that the trees agree apart from
  numbers and that the links have the same records.
-/

namespace SlotFlow

-- ---------------------------------------------------------------------------
-- New numbers
-- ---------------------------------------------------------------------------

/-- New numbers for the elements of a workflow. -/
structure Renumbering where
  block : BlockId → BlockId
  slot : SlotId → SlotId
  link : LinkId → LinkId

variable (ρ : Renumbering)

/-- A slot under its new number, without an identifier. -/
def Slot.renumber (slot : Slot) : Slot :=
  { slot with id := ρ.slot slot.id, codeName := none }

/-- A block under its new number, without an identifier. -/
def Block.renumber (block : Block) : Block :=
  { block with
    id := ρ.block block.id
    slots := block.slots.map (Slot.renumber ρ)
    codeName := none }

/-- A link under its new number and between its renumbered ends. -/
def Link.renumber (link : Link) : Link :=
  { link with
    id := ρ.link link.id
    source := ρ.slot link.source
    target := ρ.slot link.target }

/-- The numbers that elements have already. -/
def Renumbering.same : Renumbering :=
  ⟨id, id, id⟩

/-- One number for all. -/
def Renumbering.blank : Renumbering :=
  ⟨fun _ => ⟨0⟩, fun _ => ⟨0⟩, fun _ => ⟨0⟩⟩

/-- What is left of a slot without number and identifier. -/
def Slot.outline (slot : Slot) : Slot :=
  slot.renumber .blank

/-- What is left of a block without numbers and identifiers. -/
def Block.outline (block : Block) : Block :=
  block.renumber .blank

variable {ρ}

/-- What does not depend on numbers and identifiers is the same where the rest is. -/
theorem Slot.eq_of_outline {α : Type} {s t : Slot} (h : t.outline = s.outline) (f : Slot → α)
    (hf : ∀ slot, f slot.outline = f slot) : f t = f s :=
  (hf t).symm.trans ((congrArg f h).trans (hf s))

theorem Slot.uid_eq_of_outline {s t : Slot} (h : t.outline = s.outline) : t.uid = s.uid :=
  eq_of_outline h Slot.uid fun _ => rfl

theorem Block.uid_eq_of_outline {b c : Block} (h : c.outline = b.outline) : c.uid = b.uid := by
  show c.outline.uid = b.outline.uid
  rw [h]

namespace Workflow

variable {μ : Type}

/-- A renumbering turns one workflow into another: the blocks stand in the same tree, slots in the
same order in their blocks, and links in the same order, overall and at each slot. -/
structure Renumbers (ρ : Renumbering) (w w' : Workflow μ) : Prop where
  blocks : ∀ b ∈ w.blocks, ∀ c ∈ w.blocks, ρ.block b.id = ρ.block c.id → b = c
  slots : ∀ s ∈ w.slots, ∀ t ∈ w.slots, ρ.slot s.id = ρ.slot t.id → s = t
  linkIds : ∀ l ∈ w.links, ∀ m ∈ w.links, ρ.link l.id = ρ.link m.id → l = m
  name : w'.name = w.name
  tree : w'.tree.map (Block.renumber .same) = w.tree.map (Block.renumber ρ)
  links : w'.links = w.links.map (Link.renumber ρ)
  linksAt : ∀ slot ∈ w.slots,
    w'.linksAt (ρ.slot slot.id) = (w.linksAt slot.id).map (Link.renumber ρ)

/-- Equality up to numbers and identifiers. -/
def Isomorphic (w w' : Workflow μ) : Prop :=
  ∃ ρ, Renumbers ρ w w'

end Workflow

-- ---------------------------------------------------------------------------
-- Lists and forests
-- ---------------------------------------------------------------------------

/-- A list that corresponds to another element by element is its image. -/
theorem eq_map_of_mem_zip {α β : Type} {xs : List α} {ys : List β} {f : α → β}
    (hlen : xs.length = ys.length) (h : ∀ p ∈ xs.zip ys, p.2 = f p.1) : ys = xs.map f := by
  have hsnd : (xs.zip ys).map Prod.snd = ys := List.map_snd_zip (Nat.le_of_eq hlen.symm)
  have hfst : (xs.zip ys).map Prod.fst = xs := List.map_fst_zip (Nat.le_of_eq hlen)
  calc ys = (xs.zip ys).map Prod.snd := hsnd.symm
    _ = (xs.zip ys).map (f ∘ Prod.fst) := List.map_congr_left h
    _ = xs.map f := by rw [← List.map_map, hfst]

/-- Elements at the same place of lists that agree in one respect agree in it. -/
theorem eq_of_mem_zip {α β γ : Type} {xs : List α} {ys : List β} {f : α → γ} {g : β → γ}
    (h : ys.map g = xs.map f) {p : α × β} (hp : p ∈ xs.zip ys) : g p.2 = f p.1 := by
  induction xs generalizing ys with
  | nil => simp at hp
  | cons x xs ih =>
    obtain ⟨y, ys, rfl, hhead, htail⟩ := List.map_eq_cons_iff.mp h
    rw [List.zip_cons_cons, List.mem_cons] at hp
    rcases hp with rfl | hp
    · exact hhead
    · exact ih htail hp

/-- Lists that agree in one respect agree in every other that it decides. -/
theorem map_eq_of_map_eq {α β γ δ : Type} {xs : List α} {ys : List β} {f : α → γ} {g : β → γ}
    {f' : α → δ} {g' : β → δ} (h : ys.map g = xs.map f)
    (hdecides : ∀ x ∈ xs, ∀ y ∈ ys, g y = f x → g' y = f' x) : ys.map g' = xs.map f' := by
  induction xs generalizing ys with
  | nil => rw [List.map_eq_nil_iff.mp h, List.map_nil, List.map_nil]
  | cons x xs ih =>
    obtain ⟨y, ys, rfl, hhead, htail⟩ := List.map_eq_cons_iff.mp h
    have hrest : ys.map g' = xs.map f' := ih htail fun a ha b hb =>
      hdecides a (List.mem_cons_of_mem _ ha) b (List.mem_cons_of_mem _ hb)
    rw [List.map_cons, List.map_cons, hrest,
      hdecides x List.mem_cons_self y List.mem_cons_self hhead]

/-- Forests that agree in one respect agree in every other that it decides. -/
theorem Forest.map_eq_of_map_eq {α β γ δ : Type} {xs : Forest α} {ys : Forest β} {f : α → γ}
    {g : β → γ} {f' : α → δ} {g' : β → δ} (h : ys.map g = xs.map f)
    (hdecides : ∀ x ∈ xs.toList, ∀ y ∈ ys.toList, g y = f x → g' y = f' x) :
    ys.map g' = xs.map f' := by
  induction xs generalizing ys with
  | nil =>
    cases ys with
    | nil => rfl
    | node y below after => cases h
  | node x below after ihBelow ihAfter =>
    cases ys with
    | nil => cases h
    | node y under rest =>
      injection h with hlabel hbelow hafter
      have hunder : under.map g' = below.map f' := ihBelow hbelow fun a ha b hb =>
        hdecides a (List.mem_cons_of_mem _ (List.mem_append_left _ ha)) b
          (List.mem_cons_of_mem _ (List.mem_append_left _ hb))
      have hrest : rest.map g' = after.map f' := ihAfter hafter fun a ha b hb =>
        hdecides a (List.mem_cons_of_mem _ (List.mem_append_right _ ha)) b
          (List.mem_cons_of_mem _ (List.mem_append_right _ hb))
      rw [map, map, hunder, hrest, hdecides x List.mem_cons_self y List.mem_cons_self hlabel]

-- ---------------------------------------------------------------------------
-- Numbers from uids
-- ---------------------------------------------------------------------------

namespace Workflow

variable {μ : Type} {w w' : Workflow μ}

/-- Each block and each slot takes the number that another workflow gives to its uid, and each link
the number of the link that stands at its place there. -/
def renumbering (w w' : Workflow μ) : Renumbering where
  block id := (((w.block? id).bind fun block => w'.blockWithUid? block.uid).map Block.id).getD id
  slot id := (((w.slot? id).bind fun slot => w'.slotWithUid? slot.uid).map Slot.id).getD id
  link id := (((w.links.zip w'.links).find? (·.1.id = id)).map fun pair => pair.2.id).getD id

/-- What is recorded of a link. -/
def linkData (w : Workflow μ) (link : Link) : LinkData where
  uid := link.uid
  source := ((w.slot? link.source).map Slot.uid).getD ""
  target := ((w.slot? link.target).map Slot.uid).getD ""

theorem blockWithUid?_eq_some (huids : (w.blocks.map Block.uid).Nodup) {uid : String}
    {block : Block} : w.blockWithUid? uid = some block ↔ block ∈ w.blocks ∧ block.uid = uid :=
  find?_key_eq_some huids

theorem slotWithUid?_eq_some (huids : (w.slots.map Slot.uid).Nodup) {uid : String} {slot : Slot} :
    w.slotWithUid? uid = some slot ↔ slot ∈ w.slots ∧ slot.uid = uid :=
  find?_key_eq_some huids

namespace WellFormed

theorem slot?_eq_some (h : w.WellFormed) {id : SlotId} {slot : Slot} :
    w.slot? id = some slot ↔ slot ∈ w.slots ∧ slot.id = id := by
  constructor
  · intro hs
    obtain ⟨owned, ho, rfl⟩ := Option.map_eq_some_iff.mp hs
    obtain ⟨howner, hslot, hid⟩ := mem_of_ownedSlot? ho
    exact ⟨mem_slots.mpr ⟨_, howner, hslot⟩, hid⟩
  · rintro ⟨hs, rfl⟩
    obtain ⟨block, hb, hslot⟩ := mem_slots.mp hs
    have ho : w.ownedSlot? slot.id = some ⟨block, slot⟩ :=
      h.ownedSlot?_eq_some.mpr ⟨hb, hslot, rfl⟩
    exact congrArg (Option.map OwnedSlot.slot) ho

/-- The record of a link names the uids of its ends. -/
theorem linkData_eq (h : w.WellFormed) {link : Link} {source target : Slot}
    (hs : source ∈ w.slots) (ht : target ∈ w.slots) (hsource : source.id = link.source)
    (htarget : target.id = link.target) :
    w.linkData link = ⟨link.uid, source.uid, target.uid⟩ := by
  have hfindSource : w.slot? link.source = some source := h.slot?_eq_some.mpr ⟨hs, hsource⟩
  have hfindTarget : w.slot? link.target = some target := h.slot?_eq_some.mpr ⟨ht, htarget⟩
  simp only [linkData, hfindSource, hfindTarget, Option.map_some, Option.getD_some]

end WellFormed

/-- What the trees of two workflows agree on apart from numbers, their blocks agree on. -/
theorem outline_blocks (htree : w'.tree.map Block.outline = w.tree.map Block.outline) :
    w'.blocks.map Block.outline = w.blocks.map Block.outline := by
  have hlist := congrArg Forest.toList htree
  rwa [Forest.toList_map, Forest.toList_map] at hlist

/-- And so do their slots. -/
theorem outline_slots (htree : w'.tree.map Block.outline = w.tree.map Block.outline) :
    w'.slots.map Slot.outline = w.slots.map Slot.outline := by
  have hflat := congrArg (List.flatMap Block.slots) (outline_blocks htree)
  rw [List.flatMap_map, List.flatMap_map] at hflat
  rw [slots_eq, slots_eq, List.map_flatMap, List.map_flatMap]
  exact hflat

/-- Two workflows whose trees agree apart from numbers and whose links have the same records. -/
structure Alike (w w' : Workflow μ) : Prop where
  left : w.WellFormed
  right : w'.WellFormed
  uids : (w.blocks.map Block.uid).Nodup
  slotUids : (w.slots.map Slot.uid).Nodup
  name : w'.name = w.name
  tree : w'.tree.map Block.outline = w.tree.map Block.outline
  links : w'.links.map w'.linkData = w.links.map w.linkData

namespace Alike

theorem uids_right (h : Alike w w') : (w'.blocks.map Block.uid).Nodup := by
  rw [map_eq_of_map_eq (outline_blocks h.tree) fun b _ c _ => Block.uid_eq_of_outline]
  exact h.uids

theorem slotUids_right (h : Alike w w') : (w'.slots.map Slot.uid).Nodup := by
  rw [map_eq_of_map_eq (outline_slots h.tree) fun s _ t _ => Slot.uid_eq_of_outline]
  exact h.slotUids

theorem renumbering_block (h : Alike w w') {b c : Block} (hb : b ∈ w.blocks) (hc : c ∈ w'.blocks)
    (huid : c.uid = b.uid) : (w.renumbering w').block b.id = c.id := by
  have hfind : w.block? b.id = some b := h.left.block?_eq_some.mpr ⟨hb, rfl⟩
  have huidFind : w'.blockWithUid? b.uid = some c :=
    (blockWithUid?_eq_some h.uids_right).mpr ⟨hc, huid⟩
  simp only [renumbering, hfind, Option.bind_some, huidFind, Option.map_some, Option.getD_some]

theorem renumbering_slot (h : Alike w w') {s t : Slot} (hs : s ∈ w.slots) (ht : t ∈ w'.slots)
    (huid : t.uid = s.uid) : (w.renumbering w').slot s.id = t.id := by
  have hfind : w.slot? s.id = some s := h.left.slot?_eq_some.mpr ⟨hs, rfl⟩
  have huidFind : w'.slotWithUid? s.uid = some t :=
    (slotWithUid?_eq_some h.slotUids_right).mpr ⟨ht, huid⟩
  simp only [renumbering, hfind, Option.bind_some, huidFind, Option.map_some, Option.getD_some]

theorem length_links (h : Alike w w') : w.links.length = w'.links.length := by
  simpa only [List.length_map] using (congrArg List.length h.links).symm

theorem renumbering_link (h : Alike w w') {p : Link × Link} (hp : p ∈ w.links.zip w'.links) :
    (w.renumbering w').link p.1.id = p.2.id := by
  have hkeys : ((w.links.zip w'.links).map fun q => q.1.id).Nodup := by
    have hfst : (w.links.zip w'.links).map (Link.id ∘ Prod.fst) = w.links.map Link.id := by
      rw [← List.map_map, List.map_fst_zip (Nat.le_of_eq h.length_links)]
    rw [show (fun q : Link × Link => q.1.id) = Link.id ∘ Prod.fst from rfl, hfst]
    exact h.left.linkIds
  simp only [renumbering, find?_key_of_mem hkeys hp, Option.map_some, Option.getD_some]

-- ---------------------------------------------------------------------------
-- Elements that agree apart from numbers agree under the new numbers
-- ---------------------------------------------------------------------------

theorem renumber_slot (h : Alike w w') {s t : Slot} (hs : s ∈ w.slots) (ht : t ∈ w'.slots)
    (hst : t.outline = s.outline) : t.renumber .same = s.renumber (w.renumbering w') := by
  have hid := h.renumbering_slot hs ht (Slot.uid_eq_of_outline hst)
  calc t.renumber .same = { t.outline with id := t.id } := rfl
    _ = { s.outline with id := (w.renumbering w').slot s.id } := by rw [hst, hid]
    _ = s.renumber (w.renumbering w') := rfl

theorem renumber_block (h : Alike w w') {b c : Block} (hb : b ∈ w.blocks) (hc : c ∈ w'.blocks)
    (hbc : c.outline = b.outline) : c.renumber .same = b.renumber (w.renumbering w') := by
  let ρ := w.renumbering w'
  have hid : ρ.block b.id = c.id := h.renumbering_block hb hc (Block.uid_eq_of_outline hbc)
  have hinside : c.slots.map (Slot.renumber .same) = b.slots.map (Slot.renumber ρ) :=
    map_eq_of_map_eq (congrArg Block.slots hbc) fun s hs t ht =>
      h.renumber_slot (mem_slots.mpr ⟨b, hb, hs⟩) (mem_slots.mpr ⟨c, hc, ht⟩)
  calc c.renumber .same
    _ = { c.outline with id := c.id, slots := c.slots.map (Slot.renumber .same) } := rfl
    _ = { b.outline with id := ρ.block b.id, slots := b.slots.map (Slot.renumber ρ) } := by
      rw [hbc, hid, hinside]
    _ = b.renumber ρ := rfl

theorem blockIds (h : Alike w w') :
    w'.blocks.map Block.id = w.blocks.map fun block => (w.renumbering w').block block.id :=
  map_eq_of_map_eq (outline_blocks h.tree) fun _ hb _ hc hbc =>
    congrArg Block.id (h.renumber_block hb hc hbc)

theorem slotIds (h : Alike w w') :
    w'.slots.map Slot.id = w.slots.map fun slot => (w.renumbering w').slot slot.id :=
  map_eq_of_map_eq (outline_slots h.tree) fun _ hs _ ht hst =>
    congrArg Slot.id (h.renumber_slot hs ht hst)

theorem slot_inj (h : Alike w w') : ∀ s ∈ w.slots, ∀ t ∈ w.slots,
    (w.renumbering w').slot s.id = (w.renumbering w').slot t.id → s = t := by
  have hids := h.right.slotIds
  rw [h.slotIds] at hids
  intro s hs t ht
  exact List.inj_on_of_nodup_map hids hs ht

/-- Links correspond by their places. -/
theorem renumber_links (h : Alike w w') :
    w'.links = w.links.map (Link.renumber (w.renumbering w')) := by
  refine eq_map_of_mem_zip h.length_links fun p hp => ?_
  obtain ⟨hl, hm⟩ := List.of_mem_zip hp
  obtain ⟨source, hs, hsid, -⟩ := h.left.links.source _ hl
  obtain ⟨target, ht, htid, -⟩ := h.left.links.target _ hl
  obtain ⟨source', hs', hsid', -⟩ := h.right.links.source _ hm
  obtain ⟨target', ht', htid', -⟩ := h.right.links.target _ hm
  have hrecord := eq_of_mem_zip h.links hp
  rw [h.left.linkData_eq hs ht hsid htid, h.right.linkData_eq hs' ht' hsid' htid'] at hrecord
  injection hrecord with huid hsource htarget
  have hsourceId : (w.renumbering w').slot p.1.source = p.2.source := by
    rw [← hsid, ← hsid']
    exact h.renumbering_slot hs hs' hsource
  have htargetId : (w.renumbering w').slot p.1.target = p.2.target := by
    rw [← htid, ← htid']
    exact h.renumbering_slot ht ht' htarget
  rw [Link.renumber, h.renumbering_link hp, hsourceId, htargetId, ← huid]

/-- A slot has the links it had, in the order in which it had them. -/
theorem renumber_linksAt (h : Alike w w') {slot : Slot} (hslot : slot ∈ w.slots) :
    w'.linksAt ((w.renumbering w').slot slot.id) =
      (w.linksAt slot.id).map (Link.renumber (w.renumbering w')) := by
  have hiff : ∀ id, (∃ other ∈ w.slots, other.id = id) →
      ((w.renumbering w').slot id = (w.renumbering w').slot slot.id ↔ id = slot.id) := by
    rintro id ⟨other, ho, rfl⟩
    constructor
    · intro heq
      rw [h.slot_inj other ho slot hslot heq]
    · intro heq
      rw [heq]
  rw [linksAt, linksAt, h.renumber_links, List.filter_map]
  refine congrArg (List.map _) (List.filter_congr fun link hl => ?_)
  obtain ⟨source, hs, hsid, -⟩ := h.left.links.source link hl
  obtain ⟨target, ht, htid, -⟩ := h.left.links.target link hl
  simp only [Function.comp_apply, Link.touches, Link.renumber, hiff _ ⟨source, hs, hsid⟩,
    hiff _ ⟨target, ht, htid⟩]

/-- Where uids are distinct, two workflows are isomorphic if their trees agree apart from numbers and
if their links have the same records. -/
theorem isomorphic (h : Alike w w') : w.Isomorphic w' := by
  refine ⟨w.renumbering w', ?_, h.slot_inj, ?_, h.name, ?_, h.renumber_links,
    fun slot hslot => h.renumber_linksAt hslot⟩
  · have hids := h.right.blocks.ids
    rw [h.blockIds] at hids
    intro b hb c hc
    exact List.inj_on_of_nodup_map hids hb hc
  · have hids := h.right.linkIds
    rw [h.renumber_links, List.map_map] at hids
    intro l hl m hm
    exact List.inj_on_of_nodup_map hids hl hm
  · exact Forest.map_eq_of_map_eq h.tree fun b hb c hc hbc => h.renumber_block hb hc hbc

end Alike

end Workflow

end SlotFlow
