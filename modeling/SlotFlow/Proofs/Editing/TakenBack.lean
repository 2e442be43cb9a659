import SlotFlow.Proofs.Editing.Linked
/-!
# What is added can be taken back

A slot, a block or a link that has just been added is removed without a trace: all lists are as they were,
in their order, and so are the tables. Only the numbers that have been handed out stay so. A link may leave
the type that a slot has taken on.

* `Workflow.skipTo` — a workflow with a higher next number;
* `Edit.TakenBack` — requests to add something and those to take it back.

## Results

* `Workflow.WellFormed.removeSlot_of_addSlot`, `Workflow.WellFormed.removeBlock_of_attachBlock`,
  `Workflow.WellFormed.disconnect_of_connect` — one sort of element after the other;
* `Workflow.disconnect_again`, `Workflow.disconnect_comm` — links that go;
* `Workflow.Reachable.takesBack` — all of this for reachable workflows.
-/

namespace SlotFlow

namespace Workflow

variable {μ : Type} {w w' : Workflow μ}

/-- A workflow with nothing changed but the next number. -/
def skipTo (w : Workflow μ) (number : Nat) : Workflow μ :=
  { w with nextId := number }

-- ---------------------------------------------------------------------------
-- Slots
-- ---------------------------------------------------------------------------

namespace WellFormed

/-- Nothing is linked to a number that has not been handed out. -/
theorem links_filter_fresh (h : w.WellFormed) (gone : SlotId → Bool)
    (hgone : ∀ id, gone id = true → w.nextId ≤ id.val) :
    w.links.filter (fun link => !gone link.source && !gone link.target) = w.links := by
  rw [List.filter_eq_self]
  intro link hl
  obtain ⟨source, hsource, hsid, -⟩ := h.links.source link hl
  obtain ⟨target, htarget, htid, -⟩ := h.links.target link hl
  have hstays : ∀ slot ∈ w.slots, gone slot.id = false := by
    intro slot hs
    rw [Bool.eq_false_iff]
    exact fun hm => absurd (h.slot_lt hs) (Nat.not_lt.mpr (hgone _ hm))
  rw [← hsid, ← htid, hstays source hsource, hstays target htarget]
  rfl

/-- A slot that has just been added is removed without a trace. -/
theorem dropSlots_appendSlot (h : w.WellFormed) (owner : BlockId) (request : SlotRequest) :
    (w.appendSlot owner request).dropSlots [⟨w.nextId⟩] = w.skipTo (w.nextId + 1) := by
  let slot := Slot.ofRequest ⟨w.nextId⟩ (freshUid w.uidStem w.nextId) request
  have hblocks : (w.modifyBlock owner fun block => { block with slots := block.slots ++ [slot] }).mapBlocks
      (fun block => { block with slots := block.slots.filter (·.id ∉ [slot.id]) }) = w := by
    rw [Workflow.modifyBlock, mapBlocks_mapBlocks]
    refine mapBlocks_eq_self fun block hb => ?_
    -- the other slots have other numbers
    have hold : block.slots.filter (·.id ∉ [slot.id]) = block.slots := by
      rw [List.filter_eq_self]
      intro s hs
      have hlt := h.blocks.slotBound block hb s hs
      have hne : s.id ≠ slot.id := fun heq => Nat.lt_irrefl _ (heq ▸ hlt)
      simpa using hne
    have hnew : (block.slots ++ [slot]).filter (·.id ∉ [slot.id]) = block.slots := by
      rw [List.filter_append, hold]
      simp
    dsimp only [Function.comp_apply]
    split
    · dsimp only
      rw [hnew]
    · rw [hold]
  have hlinks := h.links_filter_fresh ([slot.id].contains ·) fun id hid => by
    rw [List.contains_iff_mem, List.mem_singleton] at hid
    rw [hid]
    exact Nat.le_refl _
  show { (w.modifyBlock owner fun block => { block with slots := block.slots ++ [slot] }).mapBlocks
      (fun block => { block with slots := block.slots.filter (·.id ∉ [slot.id]) }) with
    links := w.links.filter fun link =>
      !([slot.id].contains link.source) && !([slot.id].contains link.target)
    nextId := w.nextId + 1 } = _
  rw [hblocks, hlinks]
  rfl

theorem removeSlot_of_addSlot (h : w.WellFormed) {owner : BlockId} {request : SlotRequest}
    {added : SlotId × Workflow μ} (hw : w.addSlot owner request = .ok added) :
    added.2.removeSlot added.1 = .ok (w.skipTo added.2.nextId) := by
  have h' := h.addSlot hw
  obtain ⟨block, hget, -, -, rfl⟩ := addSlot_eq_ok.mp hw
  obtain ⟨hb, rfl⟩ := h.block?_eq_some.mp (getBlock_eq_ok.mp hget)
  let slot := Slot.ofRequest ⟨w.nextId⟩ (freshUid w.uidStem w.nextId) request
  have hin : slot ∈ (w.appendSlot block.id request).slots := by
    refine mem_slots.mpr ⟨{ block with slots := block.slots ++ [slot] }, ?_, by simp⟩
    rw [blocks_appendSlot]
    exact List.mem_map.mpr ⟨block, hb, if_pos rfl⟩
  obtain ⟨_, howned⟩ := h'.getOwnedSlot_of_mem hin
  exact removeSlot_eq_ok.mpr ⟨⟨_, howned⟩, (h.dropSlots_appendSlot block.id request).symm⟩

-- ---------------------------------------------------------------------------
-- Blocks
-- ---------------------------------------------------------------------------

/-- A block that has just been attached is cut off again without a trace. -/
theorem prune_body_attachBlock (h : w.WellFormed) (parent : BlockId) (kind : BlockKind)
    (name : String) (requests : List SlotRequest) (uid : Option String) :
    (w.attachBlock parent kind name requests uid).2.body.prune (·.id = ⟨w.nextId⟩) = w.body := by
  have hold : ∀ block ∈ w.body.toList, decide (block.id = ⟨w.nextId⟩) = false := by
    intro block hb
    rw [decide_eq_false_iff_not]
    intro hid
    exact h.fresh_not_mem_ids (hid ▸ List.mem_map_of_mem (mem_blocks_of_mem_body hb))
  have happend : ∀ below : Forest Block,
      (below.append (.tree (w.newBlock kind name requests uid) .nil)).prune (·.id = ⟨w.nextId⟩) =
        below.prune (·.id = ⟨w.nextId⟩) := by
    intro below
    rw [Forest.prune_append]
    have htree : (Forest.tree (w.newBlock kind name requests uid) .nil).prune (·.id = ⟨w.nextId⟩) =
        .nil := by
      simp [Forest.tree, Forest.prune, newBlock]
    rw [htree, Forest.append_nil]
  show (w.modifyBelow parent fun children =>
    children.append (.tree (w.newBlock kind name requests uid) .nil)).body.prune _ = _
  unfold modifyBelow
  split
  · exact (happend w.body).trans (Forest.prune_eq_self hold)
  · exact Forest.prune_mapBelow hold happend

theorem fresh_ne_root (h : w.WellFormed) : (⟨w.nextId⟩ : BlockId) ≠ w.root.id :=
  fun hid => h.fresh_not_mem_ids (hid ▸ List.mem_map_of_mem w.root_mem_blocks)

/-- Nothing stands below a block that has just been attached. -/
theorem subtree?_attachBlock (h : w.WellFormed) {parent : BlockId}
    (hparent : parent ∈ w.blocks.map Block.id) (kind : BlockKind) (name : String)
    {requests : List SlotRequest} (hr : Separate requests) (uid : Option String) :
    ∃ below, (w.attachBlock parent kind name requests uid).2.subtree? ⟨w.nextId⟩ =
      some (w.newBlock kind name requests uid, below) ∧ below.toList = [] := by
  have h' := h.attachBlock hparent kind name hr uid
  have hperm := perm_blocks_attachBlock h.blocks.ids hparent kind name requests uid
  have hroot : (w.attachBlock parent kind name requests uid).2.root = w.root := root_modifyBelow ..
  have hbody := h.prune_body_attachBlock parent kind name requests uid
  have hfound : (w.attachBlock parent kind name requests uid).2.block? ⟨w.nextId⟩ =
      some (w.newBlock kind name requests uid) :=
    h'.block?_eq_some.mpr
      ⟨hperm.mem_iff.mpr (List.mem_append_right _ List.mem_cons_self), rfl⟩
  obtain ⟨⟨block, below⟩, hfind, rfl⟩ := Option.map_eq_some_iff.mp hfound
  refine ⟨below, hfind, ?_⟩
  -- the blocks that go when it is cut off are those that have come
  have hcut := perm_blocks_prune h'.blocks.ids (hroot ▸ h.fresh_ne_root) hfind
  simp only [blocks_eq, hroot, hbody, Forest.toList_tree, List.cons_append] at hcut
  have hcome := perm_body_attachBlock h.blocks.ids hparent kind name requests uid
  have hgone := (List.perm_append_left_iff _).mp (hcome.symm.trans hcut.cons_inv)
  exact List.nil_perm.mp hgone.cons_inv

/-- A block that has just been attached is removed without a trace. -/
theorem removeBlock_attachBlock (h : w.WellFormed) {parent : BlockId}
    (hparent : parent ∈ w.blocks.map Block.id) (kind : BlockKind) (name : String)
    {requests : List SlotRequest} (hr : Separate requests) (uid : Option String) :
    (w.attachBlock parent kind name requests uid).2.removeBlock ⟨w.nextId⟩ =
      .ok (w.skipTo (w.attachBlock parent kind name requests uid).2.nextId) := by
  obtain ⟨below, hfind, hnil⟩ := h.subtree?_attachBlock hparent kind name hr uid
  have hroot : (w.attachBlock parent kind name requests uid).2.root = w.root := root_modifyBelow ..
  have hlinks : (w.attachBlock parent kind name requests uid).2.links = w.links :=
    links_modifyBelow ..
  refine removeBlock_eq_ok.mpr ⟨hroot ▸ h.fresh_ne_root, _, below, hfind, ?_⟩
  have hwithin : slotsWithin (w.newBlock kind name requests uid) below =
      (w.newBlock kind name requests uid).slots.map Slot.id := by
    simp [slotsWithin, Forest.toList_tree, hnil]
  have hstay := h.links_filter_fresh
    ((slotsWithin (w.newBlock kind name requests uid) below).contains ·) fun id hid => by
    rw [List.contains_iff_mem, hwithin, List.mem_map] at hid
    obtain ⟨slot, hs, rfl⟩ := hid
    exact (w.isNewBlock_newBlock kind name requests uid).slots slot hs |>.id
  rw [Workflow.dropLinksOf, h.prune_body_attachBlock, hlinks, hstay, hroot]
  simp [Workflow.attachBlock, skipTo]

theorem removeBlock_of_attachBlock (h : w.WellFormed) {parent : BlockId} {container : Block}
    (hget : w.getContainer parent = .ok container) (kind : BlockKind) (name : String)
    {requests : List SlotRequest} (hr : Separate requests) (uid : Option String)
    {added : BlockId × Workflow μ} (hadded : added = w.attachBlock parent kind name requests uid) :
    w.nextId < added.2.nextId ∧ added.2.removeBlock added.1 = .ok (w.skipTo added.2.nextId) := by
  subst hadded
  refine ⟨?_, h.removeBlock_attachBlock (h.mem_ids_of_getContainer hget) kind name hr uid⟩
  show w.nextId < w.nextId + 1 + requests.length
  omega

end WellFormed

end Workflow

-- ---------------------------------------------------------------------------
-- Links
-- ---------------------------------------------------------------------------

theorem Slot.takeOn_eq_self {adopts : Option (SlotId × SlotType)} {slot : Slot}
    (h : (slot.takeOn adopts).type = slot.type) : slot.takeOn adopts = slot := by
  cases adopts with
  | none => rfl
  | some adopted =>
    obtain ⟨id, type⟩ := adopted
    by_cases hid : slot.id = id
    · subst hid
      have htype : type = slot.type := by simpa [takeOn] using h
      simp [takeOn, htype]
    · simp [takeOn, hid]

namespace Workflow

variable {μ : Type} {w w' : Workflow μ}

/-- A link after which all types are what they were has come to the others, and that is all. -/
theorem addLink_of_types_eq {plan : Connection} {uid : Option String}
    (h : (w.addLink plan uid).slots.map Slot.type = w.slots.map Slot.type) :
    w.addLink plan uid = { w with
      links := w.links ++
        [⟨⟨w.nextId⟩, uid.getD (freshUid w.uidStem w.nextId), plan.source, plan.target⟩]
      nextId := w.nextId + 1 } := by
  have hslots : (w.addLink plan uid).slots = w.slots.map (Slot.takeOn plan.adopts) := by
    rw [← slots_mapSlots, ← adopt_eq_mapSlots]
    rfl
  rw [hslots, List.map_map, List.map_inj_left] at h
  have hsame : w.adopt plan.adopts = w := by
    rw [adopt_eq_mapSlots]
    exact mapSlots_eq_self fun slot hs => Slot.takeOn_eq_self (h slot hs)
  rw [addLink, hsame]

/-- The link with the highest number goes without a trace. -/
theorem WellFormed.disconnect_last (h : w.WellFormed) {link : Link} (hid : link.id = ⟨w.nextId⟩)
    (number : Nat) :
    { w with links := w.links ++ [link], nextId := number }.disconnect link.id =
      (true, w.skipTo number) := by
  have hold : w.links.filter (·.id ≠ link.id) = w.links := by
    rw [List.filter_eq_self]
    intro other hl
    have hlt := h.links.idBound other hl
    have hne : other.id ≠ link.id := fun heq => by
      rw [heq, hid] at hlt
      exact Nat.lt_irrefl _ hlt
    simpa using hne
  have hany : (w.links ++ [link]).any (·.id = link.id) = true := by simp
  have hkept : (w.links ++ [link]).filter (·.id ≠ link.id) = w.links := by
    rw [List.filter_append, hold]
    simp
  rw [Workflow.disconnect, if_pos hany]
  dsimp only
  rw [hkept]
  rfl

theorem disconnectSlots_comm (w : Workflow μ) (x y : SlotId) :
    w.disconnectSlots x y = w.disconnectSlots y x := by
  simp only [disconnectSlots, Link.joins_comm _ x y]

/-- A link that has just been made is removed without a trace, by its number or by its ends. -/
theorem WellFormed.disconnect_of_connect (h : w.WellFormed) {x y : SlotId} {uid : Option String}
    {added : LinkId × Workflow μ} (hw : w.connect x y uid = .ok added)
    (htypes : added.2.slots.map Slot.type = w.slots.map Slot.type) :
    w.nextId < added.2.nextId ∧ added.2.disconnect added.1 = (true, w.skipTo added.2.nextId) ∧
      added.2.disconnectSlots x y = (true, w.skipTo added.2.nextId) := by
  obtain ⟨first, second, plan, hfirst, hsecond, hplan, rfl⟩ := connect_eq_ok.mp hw
  obtain ⟨-, -, rfl⟩ := mem_of_ownedSlot? (getOwnedSlot_eq_ok.mp hfirst)
  obtain ⟨-, -, rfl⟩ := mem_of_ownedSlot? (getOwnedSlot_eq_ok.mp hsecond)
  let link : Link :=
    ⟨⟨w.nextId⟩, uid.getD (freshUid w.uidStem w.nextId), plan.source, plan.target⟩
  have hdisconnect : (w.addLink plan uid).disconnect link.id = (true, w.skipTo (w.nextId + 1)) := by
    rw [addLink_of_types_eq htypes]
    exact h.disconnect_last rfl _
  -- no earlier link joins the two slots
  have hnone : w.links.find? (·.joins first.slot.id second.slot.id) = none := by
    obtain ⟨-, -, -, hany, -⟩ := connection_eq_ok.mp hplan
    rwa [List.find?_eq_none, ← List.any_eq_false]
  have hjoins : link.joins first.slot.id second.slot.id = true := by
    obtain ⟨source, target, hends, -, -, -, rfl⟩ := ends_of_connection hplan
    rcases hends with ⟨rfl, rfl⟩ | ⟨rfl, rfl⟩ <;> simp [link, Link.joins]
  have hfind : (w.addLink plan uid).links.find? (·.joins first.slot.id second.slot.id) =
      some link := by
    show (w.links ++ [link]).find? _ = _
    rw [List.find?_append, hnone, Option.none_or, List.find?_singleton, if_pos hjoins]
  refine ⟨Nat.lt_succ_self _, hdisconnect, ?_⟩
  rw [Workflow.disconnectSlots, hfind]
  exact hdisconnect

/-- A link is removed once. -/
theorem disconnect_again (w : Workflow μ) (id : LinkId) :
    (w.disconnect id).2.disconnect id = (false, (w.disconnect id).2) := by
  rw [disconnect_snd, disconnect, if_neg (by simp)]

/-- No other link joins the slots that a link joins. -/
theorem WellFormed.disconnectSlots_again (h : w.WellFormed) (x y : SlotId) :
    (w.disconnectSlots x y).2.disconnectSlots x y = (false, (w.disconnectSlots x y).2) := by
  cases hfind : w.links.find? (·.joins x y) with
  | none => simp only [Workflow.disconnectSlots, hfind]
  | some link =>
    have hlink := List.mem_of_find?_eq_some hfind
    have hjoins : link.joins x y = true := by simpa using List.find?_some hfind
    have hnone : (w.links.filter (·.id ≠ link.id)).find? (·.joins x y) = none := by
      rw [List.find?_eq_none]
      intro other hother hj
      obtain ⟨hmem, hne⟩ := List.mem_filter.mp hother
      refine of_decide_eq_true hne (congrArg Link.id (h.pair_links hmem hlink ?_))
      simp only [Link.joins, Bool.or_eq_true, Bool.and_eq_true, decide_eq_true_eq] at hj hjoins ⊢
      rcases hj with ⟨rfl, rfl⟩ | ⟨rfl, rfl⟩ <;> tauto
    have hgone : (w.disconnectSlots x y).2 = { w with links := w.links.filter (·.id ≠ link.id) } := by
      rw [Workflow.disconnectSlots, hfind]
      exact disconnect_snd ..
    rw [hgone, Workflow.disconnectSlots, hnone]

/-- Two links may be removed in either order. -/
theorem disconnect_comm (w : Workflow μ) (id other : LinkId) :
    ((w.disconnect id).2.disconnect other).2 = ((w.disconnect other).2.disconnect id).2 := by
  simp only [disconnect_snd, List.filter_filter, Bool.and_comm]

/-- Whether there was a link does not depend on whether another one has been removed. -/
theorem fst_disconnect_disconnect (w : Workflow μ) {id other : LinkId} (hne : id ≠ other) :
    ((w.disconnect other).2.disconnect id).1 = (w.disconnect id).1 := by
  have hfst : ∀ w : Workflow μ, (w.disconnect id).1 = w.links.any (·.id = id) := by
    intro w
    rw [disconnect]
    split
    · rename_i hany
      exact hany.symm
    · rename_i hany
      exact (Bool.eq_false_iff.mpr hany).symm
  rw [hfst, hfst, disconnect_snd]
  dsimp only
  rw [Bool.eq_iff_iff]
  simp only [List.any_filter, List.any_eq_true, Bool.and_eq_true, decide_eq_true_eq]
  refine exists_congr fun link => and_congr_right fun _ => and_iff_right_of_imp ?_
  rintro rfl
  exact hne

end Workflow

-- ---------------------------------------------------------------------------
-- Main result
-- ---------------------------------------------------------------------------

/-- A request to add something with its answer, and a request to take that back with its answer. -/
inductive Edit.TakenBack {μ : Type} : Edit μ → Answer → Edit μ → Answer → Prop where
  | slot {owner : BlockId} {request : SlotRequest} {id : SlotId} :
    TakenBack (.addSlot owner request) (.slot id) (.removeSlot id) .done
  | block {parent : BlockId} {kind : BlockKind} {uid : Option String} {id : BlockId} :
    TakenBack (.addBlock parent kind uid) (.block id) (.removeBlock id) .done
  | model {parent : BlockId} {setup : ModelSetup} {uid : Option String} {id : BlockId} :
    TakenBack (.addModel parent setup uid) (.block id) (.removeBlock id) .done
  | link {a b : SlotId} {uid : Option String} {id : LinkId} :
    TakenBack (.connect a b uid) (.link id) (.disconnect id) (.found true)
  | ends {a b : SlotId} {uid : Option String} {id : LinkId} :
    TakenBack (.connect a b uid) (.link id) (.disconnectSlots a b) (.found true)
  | endsExchanged {a b : SlotId} {uid : Option String} {id : LinkId} :
    TakenBack (.connect a b uid) (.link id) (.disconnectSlots b a) (.found true)

namespace Workflow

variable {μ : Type} {w w' : Workflow μ}

/-- Which changes of a workflow can be taken back, and which do not depend on each other. -/
structure TakesBack (w : Workflow μ) : Prop where
  /-- What has been added is taken back, unless it is a link after which a slot has another type. A higher
  next number is all that is left of it. -/
  added : ∀ edit answer back last w', w.perform edit = .ok (answer, w') →
    edit.TakenBack answer back last →
    (∀ a b uid, edit = .connect a b uid → w'.slots.map Slot.type = w.slots.map Slot.type) →
    w.nextId < w'.nextId ∧ w'.perform back = .ok (last, w.skipTo w'.nextId) ∧
      (Arena.perform edit >>= fun _ => Arena.perform back).run w.arena =
        some (.ok last, { w.arena with nextId := w'.nextId })
  /-- A link is removed once, whether it is named by its number … -/
  again : ∀ id, (w.disconnect id).2.disconnect id = (false, (w.disconnect id).2)
  /-- … or by its ends. -/
  againSlots : ∀ a b, (w.disconnectSlots a b).2.disconnectSlots a b =
    (false, (w.disconnectSlots a b).2)
  /-- Two links may be removed in either order. -/
  either : ∀ id other,
    ((w.disconnect id).2.disconnect other).2 = ((w.disconnect other).2.disconnect id).2
  /-- The answers do not depend on the order. -/
  eitherAnswer : ∀ id other, id ≠ other →
    ((w.disconnect other).2.disconnect id).1 = (w.disconnect id).1

theorem WellFormed.takeBack (h : w.WellFormed) {edit back : Edit μ} {answer last : Answer}
    (hedit : w.perform edit = .ok (answer, w')) (hback : edit.TakenBack answer back last)
    (htypes : ∀ a b uid, edit = .connect a b uid →
      w'.slots.map Slot.type = w.slots.map Slot.type) :
    w.nextId < w'.nextId ∧ w'.perform back = .ok (last, w.skipTo w'.nextId) := by
  cases hback <;> simp only [Workflow.perform, map_eq_ok, Prod.mk.injEq] at hedit <;>
    obtain ⟨added, hadded, hanswer, rfl⟩ := hedit <;> cases hanswer
  case slot =>
    refine ⟨?_, map_eq_ok.mpr ⟨_, h.removeSlot_of_addSlot hadded, rfl⟩⟩
    obtain ⟨-, -, -, -, rfl⟩ := addSlot_eq_ok.mp hadded
    exact Nat.lt_succ_self _
  case block kind _ =>
    obtain ⟨⟨container, hget⟩, hattached⟩ := addBlock_eq_ok.mp hadded
    have hremove := h.removeBlock_of_attachBlock hget _ _ (separate_defaultSlots kind) _ hattached
    exact ⟨hremove.1, map_eq_ok.mpr ⟨_, hremove.2, rfl⟩⟩
  case model =>
    obtain ⟨modelClass, -, hrepeated, ⟨container, hget⟩, hattached⟩ := addModelSetup_eq_ok.mp hadded
    have hremove :=
      h.removeBlock_of_attachBlock hget _ _ (separate_slotRequests hrepeated) _ hattached
    exact ⟨hremove.1, map_eq_ok.mpr ⟨_, hremove.2, rfl⟩⟩
  all_goals
    obtain ⟨hlt, hlink, hends⟩ := h.disconnect_of_connect hadded (htypes _ _ _ rfl)
    refine ⟨hlt, ?_⟩
  case link => rw [Workflow.perform, hlink]
  case ends => rw [Workflow.perform, hends]
  case endsExchanged => rw [Workflow.perform, disconnectSlots_comm, hends]

/-- **Undo.** A slot, a block or a link that has just been added to a reachable workflow is removed without a
trace: everything is what and where it was, and only the next number is higher. -/
theorem Reachable.takesBack (h : w.Reachable) : w.TakesBack where
  added edit answer back last w' hedit hback htypes := by
    obtain ⟨hlt, hundone⟩ := h.wellFormed.takeBack hedit hback htypes
    refine ⟨hlt, hundone, ?_⟩
    have hfirst := h.wellFormed.run_perform edit
    have hsecond := (h.wellFormed.perform hedit).run_perform back
    rw [hedit] at hfirst
    rw [hundone] at hsecond
    exact (Arena.Program.run_bind_ok hfirst).trans hsecond
  again := w.disconnect_again
  againSlots := h.wellFormed.disconnectSlots_again
  either := w.disconnect_comm
  eitherAnswer _ _ hne := w.fst_disconnect_disconnect hne

/-- The target time of a loop is a constant, and then it is not. The number of the link is used
up. -/
theorem takesBack_of_constant :
    ∃ w w' : Workflow Unit,
      (new "uid-" "Plan" .empty).after
        [.edit (.addSlot rootId { name := "load", type := .unknown, kind := ⟨.output, true⟩ }),
          .edit (.addBlock rootId .timeLoop none),
          .edit (.addBlock rootId (.constant (.quantity 1 "s")) none)] = w ∧
      w.TakesBack ∧ w.perform (.connect ⟨4⟩ ⟨7⟩ none) = .ok (.link ⟨8⟩, w') ∧
      w'.slots.map Slot.type = w.slots.map Slot.type ∧
      w'.perform (.disconnectSlots ⟨7⟩ ⟨4⟩) = .ok (.found true, w.skipTo 9) :=
  ⟨_, _, rfl, Reachable.takesBack (Reachable.after (.new ..) _), rfl, rfl, rfl⟩

end Workflow

end SlotFlow
