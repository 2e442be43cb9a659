import SlotFlow.Proofs.Arena.Lockstep
import SlotFlow.Proofs.Graph.History
import SlotFlow.Proofs.Naming.Unnamed
/-!
# Numbers are handed out once

Blocks, slots and links are numbered together, in the order in which they are made. A number that no
longer leads to a row of the tables has been given up for good: it leads to none later on, and no row
mentions it.

* `Handle` — a number together with what it is the number of;
* `Arena.Resolves`, `Arena.Mentions` — the numbers that lead to a row, and those that stand in one;
* `Workflow.handedOut`, `Workflow.handedOutAlong` — the numbers of what events make, in order;
* `Workflow.Numbers`, `Workflow.Adds` — what is there before and after events;
* `Workflow.NumbersOnce` — numbers over all histories.

## Results

* `Arena.Sound.resolves_of_mentions`, `Arena.Sound.number_lt` — a number that stands in a row leads to one
  and has been handed out;
* `Workflow.WellFormed.adds_perform` — what an edit adds takes the next numbers;
* `Workflow.Reachable.numbers_after` — what a history adds takes the next numbers;
* `Workflow.Reachable.numbersOnce` — numbers are handed out once.
-/

namespace SlotFlow

variable {μ : Type}

-- ---------------------------------------------------------------------------
-- Numbers in tables
-- ---------------------------------------------------------------------------

/-- The number of a block, of a slot or of a link. -/
inductive Handle where
  | block (id : BlockId)
  | slot (id : SlotId)
  | link (id : LinkId)
  deriving DecidableEq, Repr

/-- A number without what it is the number of. -/
def Handle.number : Handle → Nat
  | block id => id.val
  | slot id => id.val
  | link id => id.val

namespace Arena

variable {a : Arena μ} {handle : Handle}

/-- A number leads to a row. -/
def Resolves (a : Arena μ) : Handle → Prop
  | .block id => (a.blocks id).isSome = true
  | .slot id => (a.slots id).isSome = true
  | .link id => (a.links id).isSome = true

/-- The numbers that stand in the tables. -/
inductive Mentions (a : Arena μ) : Handle → Prop where
  | root : Mentions a (.block a.root)
  | parent {id above : BlockId} {row : BlockRow} (hrow : a.blocks id = some row)
      (h : row.parent = some above) : Mentions a (.block above)
  | child {id below : BlockId} {row : BlockRow} (hrow : a.blocks id = some row)
      (h : below ∈ row.children) : Mentions a (.block below)
  | listedSlot {id : BlockId} {slot : SlotId} {row : BlockRow} (hrow : a.blocks id = some row)
      (h : slot ∈ row.slots) : Mentions a (.slot slot)
  | owner {id : SlotId} {row : SlotRow} (hrow : a.slots id = some row) :
      Mentions a (.block row.owner)
  | listedLink {id : SlotId} {link : LinkId} {row : SlotRow} (hrow : a.slots id = some row)
      (h : link ∈ row.links) : Mentions a (.link link)
  | source {id : LinkId} {link : Link} (hrow : a.links id = some link) :
      Mentions a (.slot link.source)
  | target {id : LinkId} {link : Link} (hrow : a.links id = some link) :
      Mentions a (.slot link.target)

theorem resolves_block {id : BlockId} {row : BlockRow} (h : a.blocks id = some row) :
    a.Resolves (.block id) :=
  Option.isSome_iff_exists.mpr ⟨row, h⟩

theorem resolves_slot {id : SlotId} {row : SlotRow} (h : a.slots id = some row) :
    a.Resolves (.slot id) :=
  Option.isSome_iff_exists.mpr ⟨row, h⟩

theorem resolves_link {id : LinkId} {link : Link} (h : a.links id = some link) :
    a.Resolves (.link id) :=
  Option.isSome_iff_exists.mpr ⟨link, h⟩

/-- Where rows fit together, a number that stands in one of them leads to a row. -/
theorem Sound.resolves_of_mentions (h : a.Sound) (hm : a.Mentions handle) : a.Resolves handle := by
  cases hm with
  | root =>
    obtain ⟨row, hrow, -⟩ := (h.root a.root).mpr rfl
    exact resolves_block hrow
  | parent hrow hparent =>
    obtain ⟨above, habove, -⟩ := h.parent _ _ _ hrow hparent
    exact resolves_block habove
  | child hrow hchild =>
    obtain ⟨below, hbelow, -⟩ := h.child _ _ _ hrow hchild
    exact resolves_block hbelow
  | listedSlot hrow hslot =>
    obtain ⟨slot, hs, -⟩ := h.owned _ _ _ hrow hslot
    exact resolves_slot hs
  | owner hrow =>
    obtain ⟨owner, howner, -⟩ := h.owner _ _ hrow
    exact resolves_block howner
  | listedLink hrow hlink =>
    obtain ⟨link, hl, -⟩ := h.listed _ _ _ hrow hlink
    exact resolves_link hl
  | source hrow =>
    obtain ⟨source, target, hsource, -⟩ := h.ends _ _ hrow
    exact resolves_slot hsource
  | target hrow =>
    obtain ⟨source, target, -, htarget, -⟩ := h.ends _ _ hrow
    exact resolves_slot htarget

/-- A number that leads to a row has been handed out. -/
theorem Sound.number_lt (h : a.Sound) (hr : a.Resolves handle) : handle.number < a.nextId := by
  by_contra hle
  obtain ⟨hblock, hslot, hlink⟩ := h.bound handle.number (Nat.le_of_not_lt hle)
  cases handle with
  | block id => exact Option.isSome_iff_ne_none.mp hr hblock
  | slot id => exact Option.isSome_iff_ne_none.mp hr hslot
  | link id => exact Option.isSome_iff_ne_none.mp hr hlink

/-- The numbers of what a granted request has made, in the order in which it was made: a new block comes
before its slots. -/
def added (a : Arena μ) : Answer → List Handle
  | .block id => .block id :: (a.slotsOf id).map .slot
  | .slot id => [.slot id]
  | .link id => [.link id]
  | .done | .found _ => []

end Arena

namespace Workflow

variable {w w' w'' : Workflow μ} {handle : Handle}

/-- The numbers that an event hands out, read off the answer of its program and the tables it leaves. -/
def handedOut (w : Workflow μ) : Happening μ → List Handle
  | .edit edit =>
    match (Arena.perform edit).run w.arena with
    | some (.ok answer, a) => a.added answer
    | _ => []
  | .pass | .generation .. => []

/-- The numbers that events hand out, one event after the other. -/
def handedOutAlong (w : Workflow μ) : List (Happening μ) → List Handle
  | [] => []
  | event :: events => w.handedOut event ++ (w.happen event).handedOutAlong events

-- ---------------------------------------------------------------------------
-- What there is
-- ---------------------------------------------------------------------------

/-- A workflow has an element of a number. -/
def Contains (w : Workflow μ) : Handle → Prop
  | .block id => ∃ block ∈ w.blocks, block.id = id
  | .slot id => ∃ slot ∈ w.slots, slot.id = id
  | .link id => ∃ link ∈ w.links, link.id = id

theorem WellFormed.resolves_arena (h : w.WellFormed) :
    w.arena.Resolves handle ↔ w.Contains handle := by
  cases handle with
  | block id =>
    rw [Arena.Resolves, arena, Option.isSome_map, Option.isSome_iff_exists]
    simp only [h.block?_eq_some]
    rfl
  | slot id =>
    rw [Arena.Resolves, arena, Option.isSome_map, Option.isSome_iff_exists]
    simp only [h.ownedSlot?_eq_some]
    constructor
    · rintro ⟨owned, howner, hslot, hid⟩
      exact ⟨owned.slot, mem_slots.mpr ⟨owned.owner, howner, hslot⟩, hid⟩
    · rintro ⟨slot, hs, hid⟩
      obtain ⟨owner, howner, hslot⟩ := mem_slots.mp hs
      exact ⟨⟨owner, slot⟩, howner, hslot, hid⟩
  | link id =>
    rw [Arena.Resolves, Option.isSome_iff_exists]
    simp only [h.links_arena_eq_some]
    rfl

/-- Workflows that differ in identifiers only have the same elements. -/
theorem contains_of_unnamed (h : w'.unnamed = w.unnamed) (hc : w'.Contains handle) :
    w.Contains handle := by
  cases handle with
  | block id =>
    obtain ⟨block, hb, rfl⟩ := hc
    obtain ⟨other, ho, hsame⟩ := exists_block_of_unnamed h hb
    exact ⟨other, ho, Block.id_of_unnamed hsame⟩
  | slot id =>
    obtain ⟨slot, hs, rfl⟩ := hc
    obtain ⟨other, ho, hsame⟩ := exists_slot_of_unnamed h hs
    exact ⟨other, ho, Slot.id_of_unnamed hsame⟩
  | link id =>
    obtain ⟨link, hl, rfl⟩ := hc
    exact ⟨link, links_of_unnamed h ▸ hl, rfl⟩

-- ---------------------------------------------------------------------------
-- What is added
-- ---------------------------------------------------------------------------

/-- The numbers from the counter on have been handed out between two moments, and what is there at the
second one was there at the first, or has one of these numbers. -/
structure Numbers (w w' : Workflow μ) (handles : List Handle) : Prop where
  nextId : w'.nextId = w.nextId + handles.length
  numbers : handles.map Handle.number = List.range' w.nextId handles.length
  old : ∀ handle, w'.Contains handle → w.Contains handle ∨ handle ∈ handles

/-- The same for one event, after which all that it adds is there. -/
structure Adds (w w' : Workflow μ) (handles : List Handle) : Prop extends w.Numbers w' handles where
  new : ∀ handle ∈ handles, w'.Contains handle

theorem Numbers.trans {xs ys : List Handle} (h : w.Numbers w' xs) (h' : w'.Numbers w'' ys) :
    w.Numbers w'' (xs ++ ys) where
  nextId := by rw [h'.nextId, h.nextId, List.length_append, Nat.add_assoc]
  numbers := by
    rw [List.map_append, h.numbers, h'.numbers, h.nextId, List.length_append,
      ← List.range'_append, Nat.one_mul]
  old handle hc := by
    rw [List.mem_append, ← or_assoc]
    exact (h'.old handle hc).imp_left (h.old handle)

/-- Nothing is handed out where nothing new is there. -/
theorem Adds.of_contains (hnext : w'.nextId = w.nextId)
    (h : ∀ handle, w'.Contains handle → w.Contains handle) : w.Adds w' [] where
  nextId := hnext
  numbers := rfl
  old handle hc := .inl (h handle hc)
  new _ hm := nomatch hm

theorem Adds.refl (w : Workflow μ) : w.Adds w [] := .of_contains rfl fun _ hc => hc

namespace WellFormed

/-- An edit that hands out no number adds nothing. -/
theorem adds_of_alters (h' : w'.WellFormed) {edit : Edit μ} (h : w.Alters edit w')
    (hnext : w'.nextId = w.nextId) (hlinks : w'.links ⊆ w.links) : w.Adds w' [] := by
  refine .of_contains hnext fun handle hc => ?_
  cases handle with
  | block id =>
    obtain ⟨later, hl, rfl⟩ := hc
    rcases h.blocks later hl with ⟨block, hb, halters⟩ | hnew
    · exact ⟨block, hb, halters.id.symm⟩
    · have hlt := h'.blocks.idBound later hl
      have hle := hnew.id
      omega
  | slot id =>
    obtain ⟨later, hl, rfl⟩ := hc
    rcases h.slot hl with ⟨slot, hs, halters⟩ | hnew
    · exact ⟨slot, hs, halters.id.symm⟩
    · have hlt := h'.slot_lt hl
      have hle := hnew.id
      omega
  | link id =>
    obtain ⟨link, hl, rfl⟩ := hc
    exact ⟨link, hlinks hl, rfl⟩

theorem adds_attachBlock (h : w.WellFormed) {parent : BlockId} {container : Block}
    (hget : w.getContainer parent = .ok container) (kind : BlockKind) (name : String)
    (requests : List SlotRequest) (uid : Option String)
    (h' : (w.attachBlock parent kind name requests uid).2.WellFormed) :
    w.Adds (w.attachBlock parent kind name requests uid).2
      ((w.attachBlock parent kind name requests uid).2.arena.added (.block ⟨w.nextId⟩)) := by
  have hperm := perm_blocks_attachBlock h.blocks.ids (h.mem_ids_of_getContainer hget) kind name
    requests uid
  generalize hgrown : (w.attachBlock parent kind name requests uid).2 = grown at *
  have hnew : w.newBlock kind name requests uid ∈ grown.blocks :=
    hperm.mem_iff.mpr (List.mem_append_right _ (List.mem_singleton.mpr rfl))
  have hslots : (w.newBlock kind name requests uid).slots.map Slot.id =
      (List.range' (w.nextId + 1) requests.length).map SlotId.mk := map_id_makeSlots ..
  have hadded : grown.arena.added (.block ⟨w.nextId⟩) =
      .block ⟨w.nextId⟩ :: ((w.newBlock kind name requests uid).slots.map Slot.id).map .slot := by
    rw [Arena.added, ← h'.slotsOf_arena hnew]
    rfl
  rw [hadded]
  constructor
  · constructor
    · rw [← hgrown, hslots]
      simp only [Workflow.attachBlock, List.length_cons, List.length_map, List.length_range']
      omega
    · rw [hslots]
      simp only [List.map_cons, List.length_cons, List.length_map, List.length_range',
        List.map_map, List.range'_succ]
      exact congrArg _ (List.map_id _)
    · intro handle hc
      cases handle with
      | block id =>
        obtain ⟨block, hb, rfl⟩ := hc
        rcases List.mem_append.mp (hperm.mem_iff.mp hb) with hb | hb
        · exact .inl ⟨block, hb, rfl⟩
        · rw [List.mem_singleton.mp hb]
          exact .inr List.mem_cons_self
      | slot id =>
        obtain ⟨slot, hs, rfl⟩ := hc
        obtain ⟨block, hb, hin⟩ := mem_slots.mp hs
        rcases List.mem_append.mp (hperm.mem_iff.mp hb) with hb | hb
        · exact .inl ⟨slot, mem_slots.mpr ⟨block, hb, hin⟩, rfl⟩
        · rw [List.mem_singleton.mp hb] at hin
          exact .inr (List.mem_cons_of_mem _ (List.mem_map_of_mem (List.mem_map_of_mem hin)))
      | link id =>
        obtain ⟨link, hl, rfl⟩ := hc
        rw [← hgrown, Workflow.attachBlock, links_modifyBelow] at hl
        exact .inl ⟨link, hl, rfl⟩
  · intro handle hm
    rcases List.mem_cons.mp hm with rfl | hm
    · exact ⟨_, hnew, rfl⟩
    · obtain ⟨id, hid, rfl⟩ := List.mem_map.mp hm
      obtain ⟨slot, hs, rfl⟩ := List.mem_map.mp hid
      exact ⟨slot, mem_slots.mpr ⟨_, hnew, hs⟩, rfl⟩

theorem adds_appendSlot (h : w.WellFormed) {owner : BlockId} {block : Block}
    (hget : w.getBlock owner = .ok block) (request : SlotRequest)
    (h' : (w.appendSlot owner request).WellFormed) :
    w.Adds (w.appendSlot owner request) [.slot ⟨w.nextId⟩] where
  nextId := rfl
  numbers := rfl
  old handle hc := by
    cases handle with
    | block id =>
      obtain ⟨later, hl, rfl⟩ := hc
      rw [blocks_appendSlot, List.mem_map] at hl
      obtain ⟨old, hold, rfl⟩ := hl
      refine .inl ⟨old, hold, ?_⟩
      split <;> rfl
    | slot id =>
      obtain ⟨later, hl, rfl⟩ := hc
      have hgrown : w.Alters (.addSlot owner request) (w.appendSlot owner request) :=
        alters_appendSlot ..
      rcases hgrown.slot hl with ⟨slot, hs, halters⟩ | hnew
      · exact .inl ⟨slot, hs, halters.id.symm⟩
      · -- there is one number only that has been handed out since
        have hlt : later.id.val < w.nextId + 1 := h'.slot_lt hl
        have hid : later.id = ⟨w.nextId⟩ :=
          congrArg SlotId.mk (Nat.le_antisymm (Nat.lt_succ_iff.mp hlt) hnew.id)
        rw [hid]
        exact .inr (List.mem_singleton.mpr rfl)
    | link id => exact .inl hc
  new handle hm := by
    obtain rfl := List.mem_singleton.mp hm
    obtain ⟨hb, rfl⟩ := h.block?_eq_some.mp (getBlock_eq_ok.mp hget)
    refine ⟨Slot.ofRequest ⟨w.nextId⟩ (freshUid w.uidStem w.nextId) request, ?_, rfl⟩
    refine mem_slots.mpr ⟨_, blocks_appendSlot _ _ ▸ List.mem_map_of_mem hb, ?_⟩
    rw [if_pos rfl]
    exact List.mem_append_right _ (List.mem_singleton.mpr rfl)

theorem adds_addLink (w : Workflow μ) (plan : Connection) (uid : Option String) :
    w.Adds (w.addLink plan uid) [.link ⟨w.nextId⟩] := by
  have hblocks : (w.addLink plan uid).blocks = (w.mapSlots (Slot.takeOn plan.adopts)).blocks := by
    rw [← adopt_eq_mapSlots]
    rfl
  constructor
  · refine ⟨rfl, rfl, fun handle hc => ?_⟩
    cases handle with
    | block id =>
      obtain ⟨later, hl, rfl⟩ := hc
      rw [hblocks, Workflow.mapSlots, blocks_mapBlocks, List.mem_map] at hl
      obtain ⟨old, hold, rfl⟩ := hl
      exact .inl ⟨old, hold, rfl⟩
    | slot id =>
      obtain ⟨later, hl, rfl⟩ := hc
      rw [slots_eq, hblocks, ← slots_eq, slots_mapSlots, List.mem_map] at hl
      obtain ⟨old, hold, rfl⟩ := hl
      exact .inl ⟨old, hold, (Slot.id_takeOn ..).symm⟩
    | link id =>
      obtain ⟨link, hl, rfl⟩ := hc
      rcases List.mem_append.mp hl with hl | hl
      · exact .inl ⟨link, hl, rfl⟩
      · rw [List.mem_singleton.mp hl]
        exact .inr (List.mem_singleton.mpr rfl)
  · intro handle hm
    obtain rfl := List.mem_singleton.mp hm
    exact ⟨_, List.mem_append_right _ (List.mem_singleton.mpr rfl), rfl⟩

theorem links_disconnect_subset (w : Workflow μ) (id : LinkId) :
    (w.disconnect id).2.links ⊆ w.links := by
  unfold Workflow.disconnect
  split
  · exact List.filter_sublist.subset
  · exact List.Subset.refl _

theorem nextId_disconnect (w : Workflow μ) (id : LinkId) : (w.disconnect id).2.nextId = w.nextId := by
  unfold Workflow.disconnect
  split <;> rfl

/-- What an edit adds takes the next numbers. -/
theorem adds_perform (h : w.WellFormed) {edit : Edit μ} {answer : Answer}
    (he : w.perform edit = .ok (answer, w')) : w.Adds w' (w'.arena.added answer) := by
  have h' := h.perform he
  have halters := h.alters_perform he
  cases edit <;> simp only [Workflow.perform, map_eq_ok, Except.ok.injEq, Prod.mk.injEq] at he
  case addBlock =>
    obtain ⟨_, ha, rfl, rfl⟩ := he
    obtain ⟨⟨container, hget⟩, rfl⟩ := addBlock_eq_ok.mp ha
    exact h.adds_attachBlock hget _ _ _ _ h'
  case addModel =>
    obtain ⟨_, ha, rfl, rfl⟩ := he
    obtain ⟨modelClass, -, -, ⟨container, hget⟩, rfl⟩ := addModelSetup_eq_ok.mp ha
    exact h.adds_attachBlock hget _ _ _ _ h'
  case addSlot =>
    obtain ⟨_, ha, rfl, rfl⟩ := he
    obtain ⟨block, hget, -, -, rfl⟩ := addSlot_eq_ok.mp ha
    exact h.adds_appendSlot hget _ h'
  case renameSlot =>
    obtain ⟨_, hr, rfl, rfl⟩ := he
    obtain ⟨owned, -, -, rfl⟩ := renameSlot_eq_ok.mp hr
    exact h'.adds_of_alters halters rfl (List.Subset.refl _)
  case removeSlot =>
    obtain ⟨_, hr, rfl, rfl⟩ := he
    obtain ⟨-, rfl⟩ := removeSlot_eq_ok.mp hr
    exact h'.adds_of_alters halters rfl (List.filter_sublist.subset)
  case removeBlock =>
    obtain ⟨_, hr, rfl, rfl⟩ := he
    obtain ⟨-, block, below, -, rfl⟩ := removeBlock_eq_ok.mp hr
    exact h'.adds_of_alters halters rfl (List.filter_sublist.subset)
  case moveBlock =>
    obtain ⟨_, hm, rfl, rfl⟩ := he
    obtain ⟨-, block, below, -, -, -, rfl⟩ := moveBlock_eq_ok.mp hm
    refine h'.adds_of_alters halters (nextId_modifyBelow ..) ?_
    rw [links_modifyBelow]
    exact List.Subset.refl _
  case connect =>
    obtain ⟨_, hconnect, rfl, rfl⟩ := he
    obtain ⟨first, second, plan, -, -, -, rfl⟩ := connect_eq_ok.mp hconnect
    exact adds_addLink ..
  case disconnect id =>
    obtain ⟨rfl, rfl⟩ := he
    exact h'.adds_of_alters halters (nextId_disconnect ..) (links_disconnect_subset ..)
  case disconnectSlots a b =>
    obtain ⟨rfl, rfl⟩ := he
    refine h'.adds_of_alters halters ?_ ?_
    · unfold Workflow.disconnectSlots
      split
      · exact nextId_disconnect ..
      · rfl
    · unfold Workflow.disconnectSlots
      split
      · exact links_disconnect_subset ..
      · exact List.Subset.refl _
  case setName | setBlockName | setBlockKind | register =>
    obtain ⟨rfl, rfl⟩ := he
    exact h'.adds_of_alters halters rfl (List.Subset.refl _)

end WellFormed

-- ---------------------------------------------------------------------------
-- Events
-- ---------------------------------------------------------------------------

namespace Reachable

/-- The program of an edit ends, and leaves the tables of the workflow after it. -/
theorem run_happen (h : w.Reachable) (edit : Edit μ) :
    ∃ result, (Arena.perform edit).run w.arena = some (result, (w.happen (.edit edit)).arena) := by
  rw [h.wellFormed.run_perform, Workflow.happen]
  cases w.perform edit <;> exact ⟨_, rfl⟩

/-- What an event adds takes the next numbers. -/
theorem adds_happen (h : w.Reachable) (event : Happening μ) :
    w.Adds (w.happen event) (w.handedOut event) := by
  cases event with
  | edit edit =>
    rw [handedOut, h.wellFormed.run_perform, Workflow.happen]
    cases he : w.perform edit with
    | ok done => exact h.wellFormed.adds_perform he
    | error error => exact .refl w
  | pass => exact .of_contains rfl fun _ => contains_of_unnamed w.unnamed_assignNames
  | generation options form =>
    rcases w.happen_cases (.generation options form) with ⟨edit, _, heq, -⟩ | ⟨-, heq⟩ | heq
    · cases heq
    · rw [heq]
      exact .of_contains rfl fun _ => contains_of_unnamed w.unnamed_assignNames
    · rw [heq]
      exact .refl w

/-- What a history adds takes the next numbers. -/
theorem numbers_after (h : w.Reachable) (events : List (Happening μ)) :
    w.Numbers (w.after events) (w.handedOutAlong events) := by
  induction events generalizing w with
  | nil => exact (Adds.refl w).toNumbers
  | cons event events ih => exact (h.adds_happen event).toNumbers.trans (ih (h.happen event))

/-- A number that leads to a row after a history did so before it, or it has been handed out since. -/
theorem resolves_after (h : w.Reachable) {events : List (Happening μ)}
    (hr : (w.after events).arena.Resolves handle) :
    w.arena.Resolves handle ∨ handle ∈ w.handedOutAlong events := by
  rw [(h.after events).wellFormed.resolves_arena] at hr
  rw [h.wellFormed.resolves_arena]
  exact (h.numbers_after events).old handle hr

/-- What a history hands out has not been handed out before. -/
theorem le_of_mem_handedOutAlong (h : w.Reachable) {events : List (Happening μ)}
    (hm : handle ∈ w.handedOutAlong events) : w.nextId ≤ handle.number := by
  have hnumber := List.mem_map_of_mem (f := Handle.number) hm
  rw [(h.numbers_after events).numbers, List.mem_range'_1] at hnumber
  exact hnumber.1

/-- A number that has been handed out and leads to no row leads to none later on. -/
theorem not_resolves_after (h : w.Reachable) (hlt : handle.number < w.nextId)
    (hgone : ¬w.arena.Resolves handle) (events : List (Happening μ)) :
    ¬(w.after events).arena.Resolves handle := by
  intro hr
  rcases h.resolves_after hr with hthere | hnew
  · exact hgone hthere
  · have hle := h.le_of_mem_handedOutAlong hnew
    omega

end Reachable

-- ---------------------------------------------------------------------------
-- Main result
-- ---------------------------------------------------------------------------

/-- The numbers of a workflow over all histories. -/
structure NumbersOnce (w : Workflow μ) : Prop where
  /-- The program of each edit ends, and leaves the tables that the history goes on with. -/
  runs : ∀ prior edit, ∃ result, (Arena.perform edit).run (w.after prior).arena =
    some (result, (w.after (prior ++ [.edit edit])).arena)
  /-- The numbers that are handed out for blocks, slots and links are those from the counter on, one after
  the other, and the counter stands behind the last one of them. -/
  consecutive : ∀ events, (w.handedOutAlong events).map Handle.number =
    List.range' w.nextId ((w.after events).nextId - w.nextId)
  /-- What an event hands out leads to a row after it. -/
  made : ∀ prior event, ∀ handle ∈ (w.after prior).handedOut event,
    (w.after (prior ++ [event])).arena.Resolves handle
  /-- What leads to a row did so at the beginning, or has been handed out since. -/
  known : ∀ events handle, (w.after events).arena.Resolves handle →
    w.arena.Resolves handle ∨ handle ∈ w.handedOutAlong events
  /-- All numbers in the tables are below the counter. -/
  below : ∀ events handle,
    (w.after events).arena.Resolves handle ∨ (w.after events).arena.Mentions handle →
      handle.number < (w.after events).arena.nextId
  /-- A number that no longer leads to a row leads to none later on, and stands in none. -/
  gone : ∀ prior middle rest handle, (w.after prior).arena.Resolves handle →
    ¬(w.after (prior ++ middle)).arena.Resolves handle →
      ¬(w.after (prior ++ middle ++ rest)).arena.Resolves handle ∧
        ¬(w.after (prior ++ middle ++ rest)).arena.Mentions handle

/-- **Numbers are handed out once.** Over all histories, blocks, slots and links take the numbers from
one counter in turn, the tables hold no other numbers, and the number of what has been removed leads to
no row again and stands in none. -/
theorem Reachable.numbersOnce (h : w.Reachable) : w.NumbersOnce where
  runs prior edit := by
    rw [after_concat]
    exact (h.after prior).run_happen edit
  consecutive events := by
    have hnumbers := h.numbers_after events
    rw [hnumbers.numbers, hnumbers.nextId, Nat.add_sub_cancel_left]
  made prior event handle hm := by
    rw [after_concat, ((h.after prior).happen event).wellFormed.resolves_arena]
    exact ((h.after prior).adds_happen event).new handle hm
  known events handle := h.resolves_after
  below events handle hr := by
    have hsound := (h.after events).wellFormed.sound_arena
    exact hsound.number_lt (hr.elim id hsound.resolves_of_mentions)
  gone prior middle rest handle hthere hgone := by
    have hlater := h.after (prior ++ middle)
    have hlt : handle.number < (w.after (prior ++ middle)).nextId := by
      rw [after_append]
      have hlt := (h.after prior).wellFormed.sound_arena.number_lt hthere
      exact Nat.lt_of_lt_of_le hlt ((h.after prior).nextId_after middle)
    have hnever := hlater.not_resolves_after hlt hgone rest
    rw [← after_append] at hnever
    refine ⟨hnever, fun hm => hnever ?_⟩
    exact (h.after (prior ++ middle ++ rest)).wellFormed.sound_arena.resolves_of_mentions hm

/-- A loop takes a number and its three slots the ones after it. When it has gone, the next block does not
take them again. -/
theorem numbersOnce_of_timeLoop :
    ∃ w : Workflow Unit, new "uid-" "Plan" .empty = w ∧ w.NumbersOnce ∧
      w.handedOutAlong [.edit (.addBlock rootId .timeLoop none), .pass,
        .edit (.removeBlock ⟨1⟩), .edit (.addBlock rootId (.code []) none)] =
          [.block ⟨1⟩, .slot ⟨2⟩, .slot ⟨3⟩, .slot ⟨4⟩, .block ⟨5⟩] :=
  ⟨_, rfl, Reachable.numbersOnce (.new ..), by decide +kernel⟩

end Workflow

end SlotFlow
